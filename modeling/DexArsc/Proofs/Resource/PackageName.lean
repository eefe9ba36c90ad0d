/-
Names of packages that are written and read again. A zero character ends a name in a header, so that the name is
read up to its first one. Exactly the names without a zero character come back as they are.
-/

import DexArsc.Proofs.Resource.Pushed
import DexArsc.Proofs.Resource.Reread

namespace DexArsc.Resource.Package

variable {tree final : BlockTree} {package : Package} {types keys : PoolSlot}

/-- A refresh of a package writes no leaf of a chunk. -/
theorem Formed.not_writes (formed : package.Formed types keys tree) (linked : tree.Linked)
    {chunk : ChunkType × NodeId} (listed : chunk ∈ package.chunks) {id : NodeId}
    (below : id ∈ tree.children chunk.2) : ¬package.Writes id := fun writes => by
  have forest := linked.toForest
  have above := (forest.mem_children_iff chunk.2 id).1 below
  have same : chunk.2 = package.node := Option.some.inj (above.symm.trans (formed.above_of_writes forest writes))
  exact absurd (linked.up _ _ (formed.above_of_chunk forest listed)) (by rw [same]; exact Nat.lt_irrefl _)

/-- A refresh of a package that is built fills its leaves, and the package stays built and of the same size. -/
theorem Formed.filled (formed : package.Formed types keys tree) (linked : tree.Linked) : ∃ final,
    package.refresh tree = .ok () final ∧ final.Linked ∧ package.Formed types keys final ∧ package.Filled final ∧
      package.writtenSize final = package.writtenSize tree := by
  obtain ⟨final, run, rewritten, filled⟩ := formed.refresh_ok linked.toForest
  have restamped := (formed.refresh_restamps linked.toForest).ends (Step.ends_ok run)
  have linked' := rewritten.linked linked
  refine ⟨final, run, linked', formed.frame fun id _ => restamped.alike id, filled, ?_⟩
  rw [writtenSize, writtenSize, formed.contents_eq linked.toForest linked'.toForest restamped
    fun chunk listed id below => rewritten.leaf_eq (formed.not_writes linked listed below)]

/-- A package that is built is written, unless it is too large for a word, and what is written tells the package,
its name up to the first zero character. The package stays built and of the same size. -/
theorem Formed.written (formed : package.Formed types keys tree) (linked : tree.Linked)
    (small : package.writtenSize tree < UInt32.size) : ∃ final,
      package.toBytes tree = .ok (final.toBytes package.node) final ∧ final.Linked ∧
      package.Formed types keys final ∧ package.writtenSize final = package.writtenSize tree ∧
      IsPackage {} (final.toBytes package.node) ∧ BytesTell (final.toBytes package.node)
        { package.reread types keys final with name := shownName package.name } := by
  obtain ⟨between, run, linked', built, filled, same⟩ := formed.filled linked
  have forest := linked'.toForest
  rw [← same] at small ⊢
  rw [← filled.length_toBytes built forest] at small ⊢
  have fillable := built.fillable forest small
  obtain ⟨final, refreshed, filling⟩ := forest.refresh_of_fillable fillable.toFillable
  obtain ⟨node, live, _⟩ := BlockTree.node_of_form? built.node
  have restamped := (forest.refresh_restamps live built.low).ends (Step.ends_ok refreshed)
  have built' := built.frame fun id _ => restamped.alike id
  have filled' := filled.filling built forest filling fillable.toFillable .top
  have size := filling.lengths package.node .top
  obtain ⟨isPackage, _, tell⟩ := filled'.bytesTell built' (filling.forest forest) (filling.current fillable .top) .top
    (size.symm ▸ small)
  refine ⟨final, ?_, linked'.congr restamped.shapes, built', ?_, isPackage, tell⟩
  · unfold Package.toBytes
    rw [Step.bind_ok run, Step.bind_ok refreshed, Step.bind_ok (Step.get_apply final)]
    rfl
  · rw [← filled'.length_toBytes built' (filling.forest forest), size]

/-- A package that was just made is small. -/
theorem writtenSize_made (id : UInt32) (name : String) :
    (Package.made tree id name).writtenSize final < UInt32.size := by
  have size : (Package.made tree id name).writtenSize final =
      headerSize + ((StringPool.empty .utf8).toChunk.length + ((StringPool.empty .utf8).toChunk.length + 0)) := rfl
  rw [size]
  decide +kernel

/-- A package that was read is refreshed and stands for other bytes with another name. -/
theorem StandsFor.rename {first name : String} {bytes : List UInt8}
    (stands : StandsFor { package with name := first } tree bytes) (linked : tree.Linked)
    (full : (encodeName name).length = 2 * nameUnits) : ∃ final image,
      Package.refresh { package with name } tree = .ok () final ∧ final.Linked ∧
        StandsFor { package with name := shownName name } final image := by
  obtain ⟨front, rows, ids, rfl, framed, readable, stored⟩ := stands
  obtain ⟨final, _, run, _, altered, stored⟩ := stored.rename linked framed.long full
  exact ⟨final, _, run, altered.linked, _, rows, ids, rfl, framed.rename full, readable.rename full, stored⟩

/-- Without options to the contrary, what was readable is readable. -/
theorem Readable.any {options : ReadOptions} {front : List UInt8} {rows : List (List UInt8)}
    (readable : Readable options front rows) : Readable {} front rows := fun piece inside refused => by
  cases piece with
  | gap _ => exact refused
  | chunk chunk =>
      have reads := readable _ inside
      unfold Refused at reads refused
      dsimp only at reads refused
      split at refused
      · rename_i found
        rw [found] at reads
        exact reads refused
      · exact refused (ChunkHeader.accept_default _)

/-- A package is built and small enough for a word, or it stands for bytes that tell any other name. -/
inductive Writable (tree : BlockTree) (package : Package) : Prop
  | built {types keys : PoolSlot} (formed : package.Formed types keys tree)
    (small : package.writtenSize tree < UInt32.size)
  | read {first : String} {bytes : List UInt8} (stands : StandsFor { package with name := first } tree bytes)
    (full : (encodeName package.name).length = 2 * nameUnits)

namespace Writable

/-- A refresh succeeds and leaves a package that can be written. -/
theorem refresh (writable : Writable tree package) (linked : tree.Linked) :
    ∃ final, package.refresh tree = .ok () final ∧ final.Linked ∧ Writable final package := by
  cases writable with
  | built formed small =>
      obtain ⟨final, run, linked', built, _, same⟩ := formed.filled linked
      exact ⟨final, run, linked', .built built (same ▸ small)⟩
  | read stands full =>
      obtain ⟨final, _, run, linked', stands'⟩ := stands.rename linked full
      exact ⟨final, run, linked', .read stands' full⟩

/-- What can be written is written and tells its name up to the first zero character, and can be written again. -/
theorem toBytes (writable : Writable tree package) (linked : tree.Linked) : ∃ bytes final content,
    package.toBytes tree = .ok bytes final ∧ final.Linked ∧ Writable final package ∧ IsPackage {} bytes ∧
      BytesTell bytes content ∧ content.name = shownName package.name := by
  cases writable with
  | built formed small =>
      obtain ⟨final, run, linked', built, same, isPackage, tell⟩ := formed.written linked small
      exact ⟨_, final, _, run, linked', .built built (same ▸ small), isPackage, tell, rfl⟩
  | read stands full =>
      obtain ⟨between, bytes, run, linked', stands'⟩ := stands.rename linked full
      have forest := linked'.toForest
      have spells := stands'.spells forest
      obtain ⟨final, refreshed, moved, same⟩ := forest.refresh_of_current spells.current
      have stands'' := stands'.frame forest (forest.congr moved.shapes) fun id _ => moved.core?_eq id
      refine ⟨bytes, final, _, ?_, linked'.congr moved.shapes, .read stands'' full, stands''.isPackage,
        stands''.bytesTell, rfl⟩
      unfold Package.toBytes
      rw [Step.bind_ok run, Step.bind_ok refreshed, Step.bind_ok (Step.get_apply final), same, spells.toBytes]
      rfl

end Writable

/-- Packages that are given names, with their trees: made alone or in a table, edited in a table that is built, read
as a whole chunk or with a table. Then they are renamed, refreshed and written. -/
inductive Named : BlockTree → Package → Prop
  | made {tree final : BlockTree} {package : Package} {id : UInt32} {name : String} (linked : tree.Linked)
    (run : make id name tree = .ok package final) : Named final package
  | interned {table final : Table} {package : Package} {id : UInt32} {name : String}
    (reached : Table.Reached Table.Loaded table) (absent : table.package? id = none)
    (run : Table.internPackage id name table = .ok package final) : Named final.tree package
  | built {table : Table} {package : Package} (reached : Table.Reached (fun table => Table.empty = .ok table) table)
    (small : table.writtenSize < UInt32.size) (listed : package ∈ table.packages) : Named table.tree package
  | read {tree final : BlockTree} {package : Package} {data : Bytes} {options : ReadOptions} (linked : tree.Linked)
    (isChunk : IsChunk data.toList) (run : Package.read data options tree = .ok package final) : Named final package
  | inTable {table : Table} {package : Package} {data : Bytes} (run : Table.read data {} = .ok table)
    (listed : package ∈ table.packages) : Named table.tree package
  | renamed {tree : BlockTree} {package other : Package} {name : String} (named : Named tree package)
    (run : package.rename name = .ok other) : Named tree other
  | refreshed {tree final : BlockTree} {package : Package} (named : Named tree package)
    (run : package.refresh tree = .ok () final) : Named final package
  | written {tree final : BlockTree} {package : Package} {bytes : List UInt8} (named : Named tree package)
    (run : package.toBytes tree = .ok bytes final) : Named final package

/-- A package that is listed in a table is at most as large as the table. -/
theorem writtenSize_le {table : Table} (listed : package ∈ table.packages) :
    package.writtenSize table.tree ≤ table.writtenSize := by
  obtain ⟨before, behind, whole⟩ := List.append_of_mem listed
  rw [Table.writtenSize, whole, List.map_append, List.sum_append, List.map_cons, List.sum_cons]
  omega

/-- Every package that is given a name can be written. -/
theorem Named.writable (named : Named tree package) : tree.Linked ∧ Writable tree package := by
  induction named with
  | @made tree final package id name linked run =>
      cases fits : checkName name with
      | error fault =>
          rw [Table.make_error fits] at run
          cases run
      | ok =>
          obtain ⟨_, run', made⟩ := make_ok linked id fits
          cases run.symm.trans run'
          exact ⟨made.grows.linked, .built (made.formed fits) (writtenSize_made id name)⟩
  | @interned table final package id name reached absent run =>
      have sound := reached.sound fun _ loaded => loaded.sound
      cases (Table.internPackage_ensures sound id name).ok run with
      | found here => cases absent.symm.trans here
      | made _ _ fits made above live attached =>
          refine ⟨attached.linked, .built ((made.formed fits).frame fun other owned => .of_core? ?_)
            (writtenSize_made id name)⟩
          have order := owned.index_le made.grows.linked
          obtain ⟨_, found, _⟩ := sound.owner
          have low := BlockTree.index_lt found
          refine attached.core?_eq live ?_
          rintro rfl
          exact absurd low (Nat.not_lt.2 order)
  | built reached small listed =>
      have formed := reached.formed
      obtain ⟨_, _, built⟩ := formed.packages _ listed
      exact ⟨formed.linked, .built built (Nat.lt_of_le_of_lt (writtenSize_le listed) small)⟩
  | @read tree final package data options linked isChunk run =>
      obtain ⟨source, rfl⟩ : ∃ source : List UInt8, data = source.toArray := ⟨data.toList, Array.toArray_toList.symm⟩
      obtain ⟨front, rows, rfl, framed⟩ := framed_of_read isChunk run
      obtain ⟨readable, fresh, ids, stored⟩ := (read_ensures linked framed).ok run
      have stands : StandsFor { package with name := package.name } final (front ++ rows.flatten) :=
        ⟨front, rows, ids, rfl, framed, readable.any, stored⟩
      refine ⟨fresh.grows.linked, .read stands ?_⟩
      rw [stored.name_eq]
      exact full_decodeName framed.long
  | @inTable table package data run listed =>
      obtain ⟨source, rfl⟩ : ∃ source : List UInt8, data = source.toArray := ⟨data.toList, Array.toArray_toList.symm⟩
      obtain ⟨_, _, _, _, stored⟩ := Table.stored_of_read run
      obtain ⟨_, _, _, parts⟩ := stored.nodes.parts
      obtain ⟨bytes, _, stands⟩ := forall₂_mem parts.middle.flip listed
      have stands : StandsFor { package with name := package.name } table.tree bytes := stands
      obtain ⟨front, rows, ids, _, framed, _, stored'⟩ := stands
      refine ⟨stored.nodes.houses.linked, .read stands ?_⟩
      rw [stored'.name_eq]
      exact full_decodeName framed.long
  | @renamed tree package other name _ run ih =>
      obtain ⟨_, fits, same⟩ := Except.bind_eq_ok.1 run
      cases same
      obtain ⟨linked, writable⟩ := ih
      refine ⟨linked, ?_⟩
      cases writable with
      | built formed small => exact .built (formed.rename fits) small
      | read stands full => exact .read stands (length_encodeName_of_check fits)
  | refreshed _ run ih =>
      obtain ⟨_, run', linked, writable⟩ := ih.2.refresh ih.1
      cases run.symm.trans run'
      exact ⟨linked, writable⟩
  | written _ run ih =>
      obtain ⟨_, _, _, run', linked, writable, _⟩ := ih.2.toBytes ih.1
      cases run.symm.trans run'
      exact ⟨linked, writable⟩

/-- A package that is given a name is refreshed and written, and what is written is read again with the name up to
its first zero character, whatever the header told before. Exactly the names without a zero character come back. -/
theorem name_of_reread (named : Named tree package) : ∃ bytes final again last,
    package.toBytes tree = .ok bytes final ∧ Package.read bytes.toArray {} {} = .ok again last ∧
      again.name = shownName package.name ∧ (again.name = package.name ↔ '\u0000' ∉ package.name.toList) := by
  obtain ⟨linked, writable⟩ := named.writable
  obtain ⟨bytes, final, content, run, _, _, ⟨front, rows, same, framed, readable⟩, tell, name⟩ :=
    writable.toBytes linked
  obtain ⟨again, last, ids, reads, stored⟩ := readable.read BlockTree.linked_empty framed
  rw [← same] at reads
  have shown : again.name = shownName package.name := by
    have told := tell.unique ⟨front, rows, same, framed, rfl⟩
    rw [stored.name_eq, ← (Content.ofBytes_head front rows).2, ← told, name]
  refine ⟨bytes, final, again, last, run, reads, shown, ?_⟩
  rw [shown]
  exact shownName_eq_iff

/-- A package that is made is renamed with a zero character in the middle, and only what stands in front of it is
read again. -/
theorem name_of_reread_twoNames : ∃ tree package bytes final again last, Named tree package ∧
    package.name = "b\u0000c" ∧ package.toBytes tree = .ok bytes final ∧
      Package.read bytes.toArray {} {} = .ok again last ∧ again.name = "b" ∧ again.name ≠ package.name := by
  have fits : checkName "app" = .ok () ∧ checkName "b\u0000c" = .ok () := by
    -- The number of code units is counted by a fold that does not reduce.
    simp only [checkName, Text.unitCount_eq]
    decide +kernel
  obtain ⟨tree, run, _⟩ := make_ok BlockTree.linked_empty 127 fits.1
  have named : Named tree { Package.made {} 127 "app" with name := "b\u0000c" } :=
    .renamed (.made BlockTree.linked_empty run) (Except.bind_eq_ok.2 ⟨(), fits.2, rfl⟩)
  obtain ⟨bytes, final, again, last, writes, reads, shown, same⟩ := name_of_reread named
  refine ⟨tree, _, bytes, final, again, last, named, rfl, writes, reads, shown.trans ?_, fun equal => ?_⟩
  · decide +kernel
  · exact absurd (same.1 equal) (by decide +kernel)

end DexArsc.Resource.Package
