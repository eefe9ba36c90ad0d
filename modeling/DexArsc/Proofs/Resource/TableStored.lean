/-
Tables that stand in a block tree as they stand in bytes: a header, nodes that spell the pieces, and the
packages together in a container at the place of the first one.
-/

import DexArsc.Proofs.Resource.TableRows

namespace DexArsc.Resource

variable {tree final : BlockTree} {head : List UInt8} {fronts packs rests : List (List UInt8)}
  {before behind : List NodeId} {packages : List Package}

namespace Package

variable {package : Package} {bytes : List UInt8}

/-- A package stands in a tree as its bytes say. -/
def StandsFor (package : Package) (tree : BlockTree) (bytes : List UInt8) : Prop :=
  ∃ front rows ids, bytes = front ++ rows.flatten ∧ Framed front rows ∧ Readable {} front rows ∧
    package.Stored front rows ids tree

namespace StandsFor

theorem isPackage (stands : package.StandsFor tree bytes) : IsPackage {} bytes := by
  obtain ⟨front, rows, _, same, framed, readable, _⟩ := stands
  exact ⟨front, rows, same, framed, readable⟩

theorem spells (stands : package.StandsFor tree bytes) (forest : tree.Forest) :
    tree.Spells package.node bytes := by
  obtain ⟨front, rows, _, rfl, framed, _, stored⟩ := stands
  exact stored.spells forest framed

theorem bytesTell (stands : package.StandsFor tree bytes) : BytesTell bytes (package.content tree) := by
  obtain ⟨front, rows, _, same, framed, _, stored⟩ := stands
  exact ⟨front, rows, same, framed, stored.tells.content_eq⟩

theorem frame (stands : package.StandsFor tree bytes) (forest : tree.Forest) (forest' : final.Forest)
    (same : ∀ id, tree.Owns package.node id → final.core? id = tree.core? id) :
    package.StandsFor final bytes := by
  obtain ⟨front, rows, ids, whole, framed, readable, stored⟩ := stands
  exact ⟨front, rows, ids, whole, framed, readable, stored.frame forest forest' same⟩

/-- A package stands in a tree as long as the nodes behind it are the same. -/
theorem frame_behind (stands : package.StandsFor tree bytes) (linked : tree.Linked) (linked' : final.Linked)
    (same : ∀ id, package.node.index ≤ id.index → id.index < tree.nodes.size →
      final.core? id = tree.core? id) : package.StandsFor final bytes :=
  stands.frame linked.toForest linked'.toForest fun id owned => by
    obtain ⟨node, live, _⟩ := (stands.spells linked.toForest).current id owned
    exact same id (owned.index_le linked) (BlockTree.index_lt live)

end StandsFor

/-- Bytes that are a package are read as one that stands in fresh nodes. Other bytes are refused. -/
theorem read_chunk_ensures (linked : tree.Linked) (isChunk : IsChunk bytes) :
    (read bytes.toArray {}).Ensures tree
      (fun package final => package.Fresh tree final ∧ package.StandsFor final bytes)
      (fun _ => ¬IsPackage {} bytes) := by
  cases run : read bytes.toArray {} tree with
  | ok package final =>
      obtain ⟨front, rows, rfl, framed⟩ := framed_of_read isChunk run
      obtain ⟨readable, fresh, ids, stored⟩ := (read_ensures linked framed).ok run
      exact .of_ok run ⟨fresh, front, rows, ids, rfl, framed, readable, stored⟩
  | error fault final =>
      refine .of_error run ?_
      rintro ⟨front, rows, rfl, framed, readable⟩
      exact (read_ensures linked framed).error run readable

end Package

namespace Table

/-- The nodes behind the header of a table: those in front of the packages, the packages and those behind
them. -/
structure Parts (fronts packs rests : List (List UInt8)) (before behind : List NodeId)
    (packages : List Package) (tree : BlockTree) : Prop where
  first : List.Forall₂ tree.Spells before fronts
  middle : List.Forall₂ (fun package => package.StandsFor tree) packages packs
  last : List.Forall₂ tree.Spells behind rests
  low : ∀ id ∈ before ++ behind, 2 < id.index
  lowPackages : ∀ package ∈ packages, 2 < package.node.index

namespace Parts

/-- The parts of a table stay as long as the nodes behind the container for the packages are the same. -/
theorem frame (parts : Parts fronts packs rests before behind packages tree) (linked : tree.Linked)
    (linked' : final.Linked) (same : ∀ id, 2 < id.index → id.index < tree.nodes.size →
      final.core? id = tree.core? id) : Parts fronts packs rests before behind packages final where
  first := BlockTree.frame_row parts.first linked linked'
    (fun id inside => parts.low id (List.mem_append_left _ inside)) same
  middle := forall₂_imp_mem parts.middle fun package inside _ _ here =>
    here.frame_behind linked linked' fun id behind =>
      same id (Nat.lt_of_lt_of_le (parts.lowPackages package inside) behind)
  last := BlockTree.frame_row parts.last linked linked'
    (fun id inside => parts.low id (List.mem_append_right _ inside)) same
  low := parts.low
  lowPackages := parts.lowPackages

theorem packages_eq_nil (parts : Parts fronts packs rests before behind packages tree) :
    packages = [] ↔ packs = [] := by
  have length := parts.middle.length_eq
  rw [← List.length_eq_zero_iff, ← List.length_eq_zero_iff, length]

end Parts

/-- The patches of a table's root. -/
def rootPatches : List Patch :=
  [.size (.word ⟨1⟩ 4), .childCount ⟨2⟩ (.word ⟨1⟩ countPosition)]

/-- The nodes of a table that has been read. -/
structure Nodes (head : List UInt8) (fronts packs rests : List (List UInt8)) (packages : List Package)
    (tree : BlockTree) : Prop where
  houses : Houses tree ⟨2⟩ packages
  parts : ∃ before behind, tree.Headed ⟨0⟩ ⟨1⟩ head (before ++ ⟨2⟩ :: behind) rootPatches ∧
    Parts fronts packs rests before behind packages tree
  container : ∃ node, tree.node? ⟨2⟩ = some node ∧ node.patches = []

/-- A table stands in its tree as a header and a row of pieces. -/
structure Stored (table : Table) (head : List UInt8) (rows : List (List UInt8)) : Prop where
  root : table.root = ⟨0⟩
  packagesNode : table.packagesNode = ⟨2⟩
  nodes : Nodes head (leading (isOf .package) rows) (rows.filter (isOf .package))
    (trailing (isOf .package) rows) table.packages table.tree
  strings : ∃ bytes, rows.find? (isOf .stringPool) = some bytes ∧
    StringPool.read bytes.toArray = .ok table.strings

namespace Draft

/-- The container for the packages is a child of the root as soon as there is a package. -/
def placeOf (packages : List Package) : List NodeId :=
  if packages.isEmpty then [] else [⟨2⟩]

/-- The nodes that have been read of a table. -/
structure Nodes (head : List UInt8) (rows : List (List UInt8)) (packages : List Package) (tree : BlockTree) :
    Prop where
  parts : ∃ before behind, tree.Headed ⟨0⟩ ⟨1⟩ head (before ++ placeOf packages ++ behind) rootPatches ∧
    Parts (leading (isOf .package) rows) (rows.filter (isOf .package)) (trailing (isOf .package) rows) before behind
      packages tree
  container : ∃ node, tree.node? ⟨2⟩ = some node ∧ node.patches = [] ∧ (packages = [] → node.parent = none)

/-- The strings that have been read of a table. -/
def HasStrings (rows : List (List UInt8)) : Option (StringPool × NodeId) → Prop
  | none => rows.find? (isOf .stringPool) = none
  | some (pool, _) => ∃ bytes, rows.find? (isOf .stringPool) = some bytes ∧
      StringPool.read bytes.toArray = .ok pool

/-- A table has been read up to a piece. -/
structure Stored (head : List UInt8) (rows : List (List UInt8)) (draft : Draft) : Prop where
  housed : Housed ⟨0⟩ ⟨2⟩ draft
  nodes : Nodes head rows draft.packages draft.tree
  strings : HasStrings rows draft.strings

/-- A piece that is refused: bytes that are no package, or a first string pool that cannot be read. -/
def Refused (done : List (List UInt8)) (bytes : List UInt8) : Prop :=
  isOf .package bytes = true ∧ ¬Package.IsPackage {} bytes ∨
    isOf .stringPool bytes = true ∧ done.find? (isOf .stringPool) = none ∧
      ∀ pool, StringPool.read bytes.toArray ≠ .ok pool

variable {rows : List (List UInt8)} {bytes : List UInt8}

theorem Nodes.root (nodes : Nodes head rows packages tree) : ∃ owner, tree.node? ⟨0⟩ = some owner ∧
    owner.kind = .container := by
  obtain ⟨_, _, headed, _⟩ := nodes.parts
  obtain ⟨owner, found, container, _⟩ := headed.node
  exact ⟨owner, found, container⟩

theorem Nodes.index_lt (nodes : Nodes head rows packages tree) : 2 < tree.nodes.size := by
  obtain ⟨node, live, _⟩ := nodes.container
  exact BlockTree.index_lt live

/-- The root's header and children, where the root has received children. -/
theorem headed_of_above {ids more : List NodeId} {owner : Node}
    (headed : tree.Headed ⟨0⟩ ⟨1⟩ head ids rootPatches) (found : tree.node? ⟨0⟩ = some owner)
    (above : final.node? ⟨0⟩ = some { owner with children := owner.children ++ more })
    (same : final.core? ⟨1⟩ = tree.core? ⟨1⟩) : final.Headed ⟨0⟩ ⟨1⟩ head (ids ++ more) rootPatches where
  node := by
    obtain ⟨_, here, container, children, patches⟩ := headed.node
    cases here.symm.trans found
    exact ⟨_, above, container, by rw [children]; rfl, patches⟩
  header := by
    obtain ⟨leaf, live, kind, none⟩ := headed.header
    obtain ⟨leaf', live', kind', _, none'⟩ := BlockTree.node_of_core? same live
    exact ⟨leaf', live', kind'.trans kind, none'.trans none⟩

/-- A piece that is no package becomes a child of the root. -/
theorem Nodes.addPiece (nodes : Nodes head rows packages tree) (linked : tree.Linked) {owner : Node}
    (found : tree.node? ⟨0⟩ = some owner) (other : isOf .package bytes = false)
    (added : PieceAdded ⟨0⟩ owner bytes [] tree final) (kept : final.parent? ⟨2⟩ = tree.parent? ⟨2⟩) :
    Nodes head (rows ++ [bytes]) packages final where
  parts := by
    obtain ⟨before, behind, headed, parts⟩ := nodes.parts
    have size := nodes.index_lt
    have parts := parts.frame linked added.linked fun id low old => added.others id old (by
      rintro rfl
      exact absurd low (by decide))
    have above := added.above
    rw [List.append_nil] at above
    have headed := headed_of_above headed found above (added.others ⟨1⟩ (by
      change 1 < _
      omega) (by decide))
    have fresh : 2 < tree.fresh.index := size
    have filtered : (rows ++ [bytes]).filter (isOf .package) = rows.filter (isOf .package) := by
      rw [List.filter_append, List.filter_singleton, other]
      simp
    rw [filtered]
    rcases none_or_mem (isOf .package) rows with none | first
    · have none' : ∀ value ∈ rows ++ [bytes], isOf .package value = false := fun value inside =>
        (List.mem_append.1 inside).elim (none value) fun inside => List.mem_singleton.1 inside ▸ other
      obtain ⟨front, back⟩ := leading_of_none none
      obtain ⟨front', back'⟩ := leading_of_none none'
      have empty : packages = [] := parts.packages_eq_nil.2 (filter_eq_nil_of_none none)
      subst empty
      rw [front, back] at parts
      cases parts.last
      rw [front', back']
      refine ⟨before ++ [tree.fresh], [], by simpa [placeOf] using headed,
        forall₂_append_singleton parts.first added.spells, parts.middle, .nil, fun id inside => ?_,
        parts.lowPackages⟩
      rw [List.append_nil, List.mem_append] at inside
      rcases inside with inside | inside
      · exact parts.low id (by simpa using inside)
      · exact List.mem_singleton.1 inside ▸ fresh
    · have other' : ∀ value ∈ [bytes], isOf .package value = false := by simpa using other
      obtain ⟨front, back⟩ := leading_append_of_mem first other'
      rw [front, back]
      refine ⟨before, behind ++ [tree.fresh], by simpa [List.append_assoc] using headed, parts.first,
        parts.middle, forall₂_append_singleton parts.last added.spells, fun id inside => ?_, parts.lowPackages⟩
      rw [← List.append_assoc, List.mem_append] at inside
      rcases inside with inside | inside
      · exact parts.low id inside
      · exact List.mem_singleton.1 inside ▸ fresh
  container := by
    obtain ⟨node, live, patches, orphan⟩ := nodes.container
    obtain ⟨node', live', _, _, patches'⟩ := BlockTree.node_of_core?
      (added.others ⟨2⟩ nodes.index_lt (by decide)) live
    refine ⟨node', live', patches'.trans patches, fun none => ?_⟩
    rw [BlockTree.parent?, BlockTree.parent?, live, live'] at kept
    exact kept.trans (orphan none)

/-- A package becomes a child of the container, which becomes a child of the root with the first one. -/
theorem Nodes.addPackage (nodes : Nodes head rows packages tree) (linked : tree.Linked)
    (pass : isOf .package bytes = true) {package : Package} {between third : BlockTree} {owner below : Node}
    (fresh : package.Fresh tree between) (stands : package.StandsFor between bytes)
    (found : between.node? ⟨2⟩ = some owner) (live : between.node? package.node = some below)
    (attached : between.Attached ⟨2⟩ package.node owner below third) : ∃ final,
      (if packages.isEmpty then BlockTree.addChild ⟨0⟩ ⟨2⟩ third = .ok () final else final = third) ∧
        Nodes head (rows ++ [bytes]) (packages ++ [package]) final := by
  obtain ⟨before, behind, headed, parts⟩ := nodes.parts
  obtain ⟨node, here, patches, orphan⟩ := nodes.container
  have size := nodes.index_lt
  have low : 2 < package.node.index := Nat.lt_of_lt_of_le size fresh.low
  cases ((fresh.grows.kept ⟨2⟩ size).trans here).symm.trans found
  have core (id : NodeId) (apart : id ≠ ⟨2⟩) (old : id.index < tree.nodes.size) :
      third.core? id = tree.core? id :=
    (attached.core?_eq live apart).trans (by rw [BlockTree.core?, BlockTree.core?, fresh.grows.kept id old])
  have headed := headed.frame (core ⟨0⟩ (by decide) (Nat.lt_trans (by decide) size))
    (core ⟨1⟩ (by decide) (Nat.lt_trans (by decide) size))
  have stands := stands.frame_behind fresh.grows.linked attached.linked fun id behind _ =>
    attached.core?_eq live (BlockTree.ne_of_index_lt (Nat.lt_of_lt_of_le low behind)).symm
  have parts := parts.frame linked attached.linked fun id low old =>
    core id (BlockTree.ne_of_index_lt low).symm old
  obtain ⟨front, back⟩ := leading_append_of_pass rows pass
  have filtered : (rows ++ [bytes]).filter (isOf .package) = rows.filter (isOf .package) ++ [bytes] := by
    rw [List.filter_append, List.filter_singleton, pass]
    rfl
  have whole : Parts (leading (isOf .package) (rows ++ [bytes])) ((rows ++ [bytes]).filter (isOf .package))
      (trailing (isOf .package) (rows ++ [bytes])) before behind (packages ++ [package]) third := {
    first := front ▸ parts.first
    middle := filtered ▸ forall₂_append_singleton parts.middle stands
    last := back ▸ parts.last
    low := parts.low
    lowPackages := fun other inside => (List.mem_append.1 inside).elim (parts.lowPackages other) fun inside =>
      List.mem_singleton.1 inside ▸ low }
  have some : placeOf (packages ++ [package]) = [⟨2⟩] := by simp [placeOf]
  by_cases empty : packages = []
  · subst empty
    have none : ∀ value ∈ rows, isOf .package value = false := fun value inside => by
      have gone := parts.packages_eq_nil.1 rfl
      simpa using List.filter_eq_nil_iff.1 gone value inside
    have last := parts.last
    rw [(leading_of_none none).2] at last
    cases last
    obtain ⟨owner, above, container, _⟩ := headed.node
    obtain ⟨final, run, attached'⟩ := attached.linked.addChild above container attached.above (orphan rfl)
      (by decide : (⟨0⟩ : NodeId).index < (⟨2⟩ : NodeId).index)
    have core' (id : NodeId) (apart : id ≠ ⟨0⟩) : final.core? id = third.core? id :=
      attached'.core?_eq attached.above apart
    refine ⟨final, run, ⟨before, [], ?_, whole.frame attached.linked attached'.linked fun id low _ =>
      core' id (by
        rintro rfl
        exact absurd low (by decide))⟩, _, attached'.below, patches, by simp⟩
    have headed := headed_of_above headed above attached'.above (core' ⟨1⟩ (by decide))
    rw [some]
    simpa [placeOf] using headed
  · have nonempty : packages.isEmpty = false := by simpa using empty
    rw [nonempty]
    refine ⟨third, rfl, ⟨before, behind, ?_, whole⟩, _, attached.above, patches, by simp⟩
    rw [some]
    simpa [placeOf, nonempty] using headed

end Draft

end Table
end DexArsc.Resource
