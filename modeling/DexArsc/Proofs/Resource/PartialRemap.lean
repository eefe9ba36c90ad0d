/-
Remaps of packages that fail. The type chunks in front of the one at which a remap fails are remapped,
and all other chunks are as they were.
-/

import DexArsc.Proofs.Resource.Merge

namespace DexArsc.Resource.Package

variable {tree final : BlockTree} {package other : Package}

/-- A tree changes outside of what a package owns: the package's node keeps its children, and the nodes
below it keep their shapes. -/
structure ChangedAround (package : Package) (tree final : BlockTree) : Prop where
  linked : final.Linked
  node : ∃ shape, final.shape? package.node = some shape ∧ shape.content = .container ∧
    ∀ id ∈ tree.children package.node, id ∈ shape.children
  below : ∀ id, tree.Owns package.node id → id ≠ package.node → final.shape? id = tree.shape? id

/-- The packages in use with their trees: made, read or found in a table, then edited while the tree
changes around them. Refreshes and remaps, also those that fail, are such changes of the tree. -/
inductive Reached : BlockTree → Package → Prop
  | made {tree final : BlockTree} {package : Package} {id : UInt32} {name : String} (linked : tree.Linked)
    (run : make id name tree = .ok package final) : Reached final package
  | read {tree final : BlockTree} {package : Package} {data : Bytes} {options : ReadOptions} (linked : tree.Linked)
    (run : Package.read data options tree = .ok package final) : Reached final package
  | inTable {table : Table} {package : Package} (reached : Table.Reached Table.Loaded table)
    (listed : package ∈ table.packages) : Reached table.tree package
  | renamed {tree : BlockTree} {package other : Package} {name : String} (reached : Reached tree package)
    (run : package.rename name = .ok other) : Reached tree other
  | poolEdited {tree : BlockTree} {package other : Package} {α : Type} {which : PackagePool}
    {step : Step StringPool α} (reached : Reached tree package) (ends : (editPool which step).Ends package other) :
    Reached tree other
  | chunkPushed {tree final : BlockTree} {package other : Package} {bytes : Bytes} {node : NodeId}
    (reached : Reached tree package) (run : package.pushChunk bytes tree = .ok (node, other) final) :
    Reached final other
  | changedAround {tree final : BlockTree} {package : Package} (reached : Reached tree package)
    (changed : package.ChangedAround tree final) : Reached final package

theorem ChangedAround.of_shapes (linked : tree.Linked) (held : package.Held tree)
    (same : final.shape? = tree.shape?) : package.ChangedAround tree final where
  linked := linked.congr same
  node := by
    obtain ⟨shape, found, container⟩ := held.node
    exact ⟨shape, same ▸ found, container, fun id inside => BlockTree.children_of_shape? found ▸ inside⟩
  below _ _ _ := by rw [same]

/-- The chunks of a package in use stand below its node. -/
theorem Reached.held (reached : Reached tree package) : tree.Linked ∧ package.Held tree := by
  induction reached with
  | @made tree final package id name linked run =>
      cases fits : checkName name with
      | error fault =>
          rw [Table.make_error fits] at run
          cases run
      | ok =>
          obtain ⟨final', run', made⟩ := make_ok linked id fits
          cases run.symm.trans run'
          exact ⟨made.grows.linked, made.held⟩
  | read linked run =>
      have fresh := read_fresh linked run
      exact ⟨fresh.grows.linked, fresh.held⟩
  | inTable reached listed =>
      have sound := reached.sound fun _ loaded => loaded.sound
      exact ⟨sound.linked, Houses.held sound _ listed⟩
  | renamed _ run ih =>
      obtain ⟨_, _, same⟩ := Except.bind_eq_ok.1 run
      cases same
      exact ⟨ih.1, ih.2.of_same rfl rfl⟩
  | @poolEdited tree package other α which step _ ends ih =>
      rcases Step.onPart?_ends ends with ⟨_, same⟩ | ⟨pool, changed, slotted, _, written⟩
      · rw [same]
        exact ih
      · obtain ⟨slot, here, rfl⟩ := Option.map_eq_some_iff.1 slotted
        rw [written]
        simp only [here]
        exact ⟨ih.1, ih.2.of_same (by cases which <;> rfl) (by cases which <;> rfl)⟩
  | chunkPushed _ run ih =>
      obtain ⟨linked, held⟩ := ih
      obtain ⟨owner, found, container⟩ := held.owner
      obtain ⟨chunk, _, same, between, added⟩ := (pushChunk_ensures linked found container _).ok run
      cases same
      exact ⟨added.attached.linked, held.withChunk linked found container added _⟩
  | changedAround _ changed ih =>
      exact ⟨changed.linked, ih.2.frame ih.1 changed.node changed.below⟩

variable {state : Type} {map : StringMap state} {inner next : state} {fault : Fault}

/-- The package with some of its chunks. -/
def withChunks (package : Package) (chunks : List (ChunkType × NodeId)) : Package :=
  { package with chunks }

/-- The type chunks of a package, in their order. -/
def typeChunks (package : Package) : List (ChunkType × NodeId) :=
  package.chunks.filter fun chunk => chunk.1 == .typeEntries

/-- The bytes of the type chunks of a package. -/
def typeBytes (package : Package) (tree : BlockTree) : List (List UInt8) :=
  package.typeChunks.map fun chunk => tree.toBytes chunk.2

theorem remapStrings_eq (package : Package) (map : StringMap state) :
    package.remapStrings map = package.typeChunks.foldlM
      (fun count chunk => do return count + (← remapChunk map chunk.2)) 0 := rfl

theorem typeChunks_withChunks {done rest : List (ChunkType × NodeId)} (split : package.typeChunks = done ++ rest) :
    (package.withChunks done).typeChunks = done := by
  refine List.filter_eq_self.2 fun chunk inside => ?_
  have listed : chunk ∈ package.typeChunks := split ▸ List.mem_append_left rest inside
  exact (List.mem_filter.1 listed).2

/-- A chunk outside of those whose leaves are rewritten keeps its bytes. -/
theorem Held.toBytes_of_rewritten (held : package.Held tree) (linked : tree.Linked) {row : List (ChunkType × NodeId)}
    (rewritten : BlockTree.Rewritten (OfChunks tree (row.map Prod.snd)) tree final)
    (part : ∀ chunk ∈ row, chunk ∈ package.chunks) {chunk : ChunkType × NodeId} (listed : chunk ∈ package.chunks)
    (outside : chunk ∉ row) : final.toBytes chunk.2 = tree.toBytes chunk.2 := by
  obtain ⟨head, body, holds⟩ := held.holds chunk listed
  obtain ⟨front, rest, headLeaf, bodyLeaf, whole⟩ := holds.leaves
  have apart {id : NodeId} (inside : id ∈ tree.children chunk.2) : ¬OfChunks tree (row.map Prod.snd) id := by
    rintro ⟨node, member, owned⟩
    obtain ⟨other, within, rfl⟩ := List.mem_map.1 member
    have different : other.2 ≠ chunk.2 := fun same =>
      outside (List.inj_on_of_nodup_map held.nodup (part other within) listed same ▸ within)
    have absent := holds.not_mem_children linked.toForest different
    rw [holds.children] at inside
    rcases List.mem_pair.1 inside with rfl | rfl
    · exact absent.1 owned
    · exact absent.2 owned
  have children := holds.children
  rw [whole, (holds.congr rewritten.shapes).toBytes_eq
    ((rewritten.leaf_eq (apart (by rw [children]; simp))).trans headLeaf)
    ((rewritten.leaf_eq (apart (by rw [children]; simp))).trans bodyLeaf)]

/-- A remap that fails at a type chunk has remapped the type chunks in front of it, and no byte of any other
chunk has changed. The package stays in use, and a retry meets the images that were already put in place. -/
theorem remappedInFront_of_reached (reached : Reached tree package)
    (run : package.remapStrings map (tree, inner) = .error fault (final, next)) :
    Reached final package ∧ ∃ done failing rest count between, package.typeChunks = done ++ failing :: rest ∧
      (package.withChunks done).remapStrings map (tree, inner) = .ok count (final, between) ∧
      remapChunk map failing.2 (final, between) = .error fault (final, next) ∧
      ∀ chunk ∈ package.chunks, chunk ∉ done → final.toBytes chunk.2 = tree.toBytes chunk.2 := by
  obtain ⟨linked, held⟩ := reached.held
  rw [remapStrings_eq] at run
  obtain ⟨done, failing, rest, count, ⟨between, passed⟩, split, before, failed⟩ := Step.foldlM_eq_error run
  have listed : ∀ chunk ∈ done ++ failing :: rest, chunk ∈ package.chunks := fun chunk inside =>
    (List.mem_filter.1 (split ▸ inside : chunk ∈ package.typeChunks)).1
  have front : ∀ chunk ∈ done, chunk ∈ package.chunks := fun chunk inside =>
    listed chunk (List.mem_append_left _ inside)
  have typed := typeChunks_withChunks split
  have remapped : (package.withChunks done).remapStrings map (tree, inner) = .ok count (between, passed) := by
    rw [remapStrings_eq, typed]
    exact before
  have part : done.Sublist package.chunks :=
    (List.sublist_append_left done (failing :: rest)).trans (split ▸ List.filter_sublist)
  have rewritten : BlockTree.Rewritten (OfChunks tree (done.map Prod.snd)) tree between := by
    have ensures := (@remapStrings_ensures tree (package.withChunks done) _ _ _ map.along_true
      ((part.map Prod.snd).nodup held.nodup) linked (fun chunk inside => held.holds chunk (front chunk inside))
        inner).ok remapped
    have whole := ensures.1
    rwa [show (package.withChunks done).chunks.filter (·.1 == .typeEntries) = done from typed] at whole
  -- The chunk at which the remap fails is changed on a copy only.
  have here : remapChunk map failing.2 (between, passed) = .error fault (final, next) := by
    rcases Step.bind_eq_error.1 failed with here | ⟨_, _, _, done⟩
    · exact here
    · cases done
  obtain ⟨head, body, holds⟩ := held.holds failing (listed failing (by simp))
  obtain rfl : final = between := ((remapChunk_ensures map.along_true (rewritten.linked linked)
    (holds.congr rewritten.shapes) passed).error here).1
  exact ⟨.changedAround reached (.of_shapes linked held rewritten.shapes), done, failing, rest, count, passed,
    split, remapped, here, fun chunk inside outside =>
      held.toBytes_of_rewritten linked rewritten front inside outside⟩

/-- A package with two type chunks. The one value of the first chunk is the string 0, and that of the second
one is the string 1. -/
def twoTypeChunks : List UInt8 :=
  [0, 2, 28, 1, 108, 1, 0, 0, 127, 0, 0, 0] ++ List.replicate 272 0 ++
  [1, 2, 20, 0, 40, 0, 0, 0, 1, 0, 0, 0, 1, 0, 0, 0, 24, 0, 0, 0, 0, 0, 0, 0,
    8, 0, 0, 0, 0, 0, 0, 0, 8, 0, 0, 3, 0, 0, 0, 0] ++
  [1, 2, 20, 0, 40, 0, 0, 0, 2, 0, 0, 0, 1, 0, 0, 0, 24, 0, 0, 0, 0, 0, 0, 0,
    8, 0, 0, 0, 0, 0, 0, 0, 8, 0, 0, 3, 1, 0, 0, 0]

/-- The map that adds 5 to every string index but 1, which it rejects. -/
def fiveMore : StringMap Unit := fun index =>
  if index = 1 then fail (.resource (.unmappedString index)) else return index + 5

theorem remapStrings_twoTypeChunks : ∃ package tree fault once twice,
    Package.read twoTypeChunks.toArray {} {} = .ok package tree ∧
      package.remapStrings fiveMore (tree, ()) = .error fault (once, ()) ∧
      package.remapStrings fiveMore (once, ()) = .error fault (twice, ()) ∧
      package.typeBytes once ≠ package.typeBytes tree ∧ package.typeBytes twice ≠ package.typeBytes once := by
  have runs : (match Package.read twoTypeChunks.toArray {} {} with
      | .error _ _ => false
      | .ok package tree => match package.remapStrings fiveMore (tree, ()) with
        | .ok _ _ => false
        | .error fault (once, _) => match package.remapStrings fiveMore (once, ()) with
          | .ok _ _ => false
          | .error again (twice, _) => decide (again = fault ∧ package.typeBytes once ≠ package.typeBytes tree ∧
              package.typeBytes twice ≠ package.typeBytes once)) = true := by
    decide +kernel
  cases reads : Package.read twoTypeChunks.toArray {} {} with
  | error fault tree =>
      rw [reads] at runs
      cases runs
  | ok package tree =>
      rw [reads] at runs
      cases first : package.remapStrings fiveMore (tree, ()) with
      | ok count final =>
          simp only [first] at runs
          cases runs
      | error fault final =>
          obtain ⟨once, _⟩ := final
          simp only [first] at runs
          cases second : package.remapStrings fiveMore (once, ()) with
          | ok count final =>
              simp only [second] at runs
              cases runs
          | error again final =>
              obtain ⟨twice, _⟩ := final
              simp only [second] at runs
              obtain ⟨rfl, changed, more⟩ := of_decide_eq_true runs
              exact ⟨package, tree, again, once, twice, rfl, first, second, changed, more⟩

theorem remappedInFront_of_reached_twoTypeChunks : ∃ package tree fault final done failing rest count,
    Reached tree package ∧ package.remapStrings fiveMore (tree, ()) = .error fault (final, ()) ∧
      package.typeChunks = done ++ failing :: rest ∧
      (package.withChunks done).remapStrings fiveMore (tree, ()) = .ok count (final, ()) ∧
      ∀ chunk ∈ package.chunks, chunk ∉ done → final.toBytes chunk.2 = tree.toBytes chunk.2 := by
  obtain ⟨package, tree, fault, once, _, reads, run, _⟩ := remapStrings_twoTypeChunks
  have reached : Reached tree package := .read BlockTree.linked_empty reads
  obtain ⟨_, done, failing, rest, count, _, split, remapped, _, kept⟩ := remappedInFront_of_reached reached run
  exact ⟨package, tree, fault, once, done, failing, rest, count, reached, run, split, remapped, kept⟩

/-- A remap that fails may have changed type chunks, and a retry changes them a second time. -/
theorem changed_of_failed_remap : ∃ package tree fault once twice, Reached tree package ∧
    package.remapStrings fiveMore (tree, ()) = .error fault (once, ()) ∧
    package.typeBytes once ≠ package.typeBytes tree ∧
    package.remapStrings fiveMore (once, ()) = .error fault (twice, ()) ∧
    package.typeBytes twice ≠ package.typeBytes once := by
  obtain ⟨package, tree, fault, once, twice, reads, first, second, changed, more⟩ := remapStrings_twoTypeChunks
  exact ⟨package, tree, fault, once, twice, .read BlockTree.linked_empty reads, first, changed, second, more⟩

end DexArsc.Resource.Package
