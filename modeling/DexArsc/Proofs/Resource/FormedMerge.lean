/-
Merges of tables that are built. A copy has the form of the package that it was made from, and the remap of its string
values leaves the headers of its chunks, so that every table that is reached from the empty one is built.
-/

import DexArsc.Proofs.Resource.Formed
import DexArsc.Proofs.Resource.Merge

namespace DexArsc

namespace BlockTree

variable {other tree final : BlockTree} {top : NodeId} {pairs : NodeMap} {old copy : NodeId}

/-- The copy of a node has the copies of its children and its patches with the copies of the nodes that they name. -/
theorem Imported.form? (imported : Imported other top tree final pairs) (listed : (old, copy) ∈ pairs) {form : Form}
    (found : other.form? old = some form) : ∃ children patches,
      final.form? copy = some { content := form.content, children, patches } ∧
        List.Forall₂ (fun child image => (child, image) ∈ pairs) form.children children ∧
          form.patches.mapM (Patch.rename pairs) = some patches := by
  obtain ⟨node, fresh, here, live, copied, patches⟩ := imported.each _ listed
  obtain ⟨node', here', content, children, patched⟩ := node_of_form? found
  cases here.symm.trans here'
  refine ⟨fresh.children, fresh.patches, ?_, children ▸ copied.children, patched ▸ patches⟩
  rw [form?_of_shape? (shape?_of_some live), Node.shape, copied.kind, content]

theorem Imported.formLeaf (imported : Imported other top tree final pairs) (listed : (old, copy) ∈ pairs)
    (found : other.form? old = some .leaf) : final.form? copy = some .leaf := by
  obtain ⟨children, patches, here, row, patched⟩ := imported.form? listed found
  cases List.forall₂_nil_left_iff.1 row
  cases patched
  exact here

theorem Imported.stamp? (imported : Imported other top tree final pairs) (listed : (old, copy) ∈ pairs)
    (found : other.form? old = some .leaf) : final.stamp? copy = other.stamp? old := by
  obtain ⟨_, bytes, _, _, leaf, _⟩ := leaf_of_form? found
  rw [stamp?_of_leaf leaf, stamp?_of_leaf (imported.leaf listed leaf)]

/-- The copy of a chunk that is kept is kept. -/
theorem Imported.keepsChunk (imported : Imported other top tree final pairs) {type : Resource.ChunkType}
    {head body : NodeId} (listed : (old, copy) ∈ pairs) (keeps : other.KeepsChunk type old head body) :
    ∃ head' body', final.KeepsChunk type copy head' body' := by
  obtain ⟨children, patches, here, row, patched⟩ := imported.form? listed keeps.container
  obtain ⟨head', _, first, row, same⟩ := List.forall₂_cons_left_iff.1 row
  obtain ⟨body', _, second, row, same'⟩ := List.forall₂_cons_left_iff.1 row
  cases List.forall₂_nil_left_iff.1 row
  subst same' same
  have renamed : Patch.rename pairs (.size (.word head 4)) = some (.size (.word head' 4)) := by
    simp [Patch.rename, Field.rename, Field.word, NodeMap.find_of_mem imported.keys first]
  rw [List.mapM_cons, List.mapM_nil, renamed] at patched
  cases patched
  exact ⟨head', body', here, imported.formLeaf first keeps.front, imported.formLeaf second keeps.rest,
    imported.stamp? first keeps.front ▸ keeps.stamp⟩

/-- A chunk that is kept is held. -/
theorem KeepsChunk.holds {type : Resource.ChunkType} {node head body : NodeId}
    (keeps : tree.KeepsChunk type node head body) : tree.HoldsChunk node head body := by
  have shape {id : NodeId} {form : Form} (found : tree.form? id = some form) : ∃ shape, tree.shape? id = some shape ∧
      shape.content = form.content ∧ shape.children = form.children := by
    obtain ⟨shape, live, rfl⟩ := Option.map_eq_some_iff.1 found
    exact ⟨shape, live, rfl, rfl⟩
  obtain ⟨head, live, content, _⟩ := shape keeps.front
  obtain ⟨body, live', content', _⟩ := shape keeps.rest
  exact ⟨shape keeps.container, ⟨head, live, content⟩, body, live', content'⟩

end BlockTree

namespace Resource

namespace Package

variable {other tree final : BlockTree} {package copy : Package} {types keys : PoolSlot} {pairs : NodeMap}
  {old new : List NodeId}

/-- The partners of a whole row are the other row. -/
theorem eq_of_partners {images : List NodeId} (nodup : old.Nodup) (length : new.length = old.length)
    (row : List.Forall₂ (Partners old new) old images) : images = new := by
  have same := row.length_eq
  refine List.ext_getElem? fun place => ?_
  by_cases inside : place < old.length
  · obtain ⟨image, found, place', here, there⟩ := forall₂_getElem? row (List.getElem?_eq_getElem inside)
    obtain ⟨inside', equal⟩ := List.getElem?_eq_some_iff.1 here
    cases (List.Nodup.getElem_inj_iff nodup).1 equal
    rw [found, there]
  · rw [List.getElem?_eq_none (by omega), List.getElem?_eq_none (by omega)]

/-- The copy of a package that is built is built. -/
theorem Formed.copied (formed : package.Formed types keys other) (also : other.Linked)
    (imported : other.Imported package.node tree final pairs) (node : copy.node = tree.fresh)
    (rebound : Rebound (other.children package.node) (final.children tree.fresh) package copy) :
    ∃ types keys, copy.Formed types keys final := by
  have row := imported.children imported.root
  have names := formed.children
  obtain ⟨types', typeStrings, typesCopied⟩ : ∃ slot, copy.typeStrings = some slot ∧ SlotCopied _ _ types slot := by
    have types := rebound.types
    rw [formed.typeStrings] at types
    cases found : copy.typeStrings with
    | none =>
        rw [found] at types
        cases types
    | some slot =>
        rw [found] at types
        cases types with
        | some copied => exact ⟨slot, rfl, copied⟩
  obtain ⟨keys', keyStrings, keysCopied⟩ : ∃ slot, copy.keyStrings = some slot ∧ SlotCopied _ _ keys slot := by
    have keys := rebound.keys
    rw [formed.keyStrings] at keys
    cases found : copy.keyStrings with
    | none =>
        rw [found] at keys
        cases keys
    | some slot =>
        rw [found] at keys
        cases keys with
        | some copied => exact ⟨slot, rfl, copied⟩
  have listed {id image : NodeId} (partners : Partners _ _ id image) : (id, image) ∈ pairs := partners.listed row
  have header := listed rebound.header
  have first := listed typesCopied.node
  have second := listed keysCopied.node
  obtain ⟨children, patches, form, _, patched⟩ := imported.form? imported.root formed.node
  have rows : copy.header :: types'.node :: keys'.node :: copy.chunks.map Prod.snd = children := by
    rw [← (show final.children tree.fresh = children from BlockTree.children_of_form? form)]
    refine eq_of_partners (also.toForest.nodup_children package.node) row.length_eq.symm ?_
    have chunks : List.Forall₂ (Partners (other.children package.node) (final.children tree.fresh))
        (package.chunks.map Prod.snd) (copy.chunks.map Prod.snd) :=
      List.forall₂_map_left_iff.2 (List.forall₂_map_right_iff.2 (rebound.chunks.imp fun _ _ => And.right))
    have whole := List.Forall₂.cons rebound.header (.cons typesCopied.node (.cons keysCopied.node chunks))
    rwa [← names] at whole
  have find {id image : NodeId} (inside : (id, image) ∈ pairs) := NodeMap.find_of_mem imported.keys inside
  have renamed : (package.nodeForm types.node keys.node).patches.mapM (Patch.rename pairs) =
      some (copy.nodeForm types'.node keys'.node).patches := by
    simp [nodeForm, Patch.rename, Field.rename, Field.word, find header, find first, find second]
  refine ⟨types', keys', {
    typeStrings
    keyStrings
    plain := ⟨typesCopied.pool ▸ formed.plain.1, keysCopied.pool ▸ formed.plain.2⟩
    name := rebound.name ▸ formed.name
    node := ?_
    header := imported.formLeaf header formed.header
    stamp := (imported.stamp? header formed.header).trans formed.stamp
    pools := ⟨imported.formLeaf first formed.pools.1, imported.formLeaf second formed.pools.2⟩
    chunks := fun chunk inside => ?_ }⟩
  · rw [node, form, ← rows, Option.some.inj (patched.symm.trans renamed)]
    rfl
  · obtain ⟨place, here⟩ := List.mem_iff_getElem?.1 inside
    obtain ⟨source, there, type, partners⟩ := forall₂_getElem? rebound.chunks.flip here
    obtain ⟨apart, head, body, keeps⟩ := formed.chunks source (List.mem_of_getElem? there)
    exact ⟨type ▸ apart, type ▸ imported.keepsChunk (listed partners) keeps⟩

/-- The remap of a chunk keeps the stamp of its header. -/
theorem Remapped.stamp? {state : Type} {map : StringMap state} {related : state → state → Prop} {head body : NodeId}
    {inner next : state} (remapped : Remapped map related head body (tree, inner) (final, next)) :
    final.stamp? head = tree.stamp? head := by
  obtain ⟨front, rest, bytes, positions, before, behind, done⟩ := remapped
  have size := done.rewrites.size
  simp only [Array.size_append] at size
  rw [BlockTree.stamp?_of_leaf done.newHead, BlockTree.stamp?_of_leaf done.oldHead]
  refine congrArg some (Prod.ext ?_ (List.ext_getElem? fun place => ?_))
  · change (bytes.extract 0 front.size).size = front.size
    rw [Array.size_extract]
    omega
  · change ((bytes.extract 0 front.size).toList.take 4)[place]? = (front.toList.take 4)[place]?
    rw [List.getElem?_take, List.getElem?_take]
    split
    · rename_i low
      have byte := done.rewrites.getElem? fun position inside =>
        .inl (Nat.lt_of_lt_of_le low (done.low position inside))
      dsimp only at byte
      rw [Array.getElem?_toList, Array.getElem?_toList, Array.getElem?_extract]
      by_cases inside : place < front.size
      · rw [if_pos (by omega), Nat.zero_add, byte, Array.getElem?_append_left inside]
      · rw [if_neg (by omega), Array.getElem?_eq_none (by omega)]
    · rfl

end Package

namespace Table

variable {table other final : Table} {package copy : Package} {pairs : NodeMap} {first second tree : BlockTree}
  {pool : StringPool} {owner below : Node}

/-- The remap of a copy's string values keeps the headers of its chunks. -/
theorem CopyAdded.restamped
    (added : CopyAdded table other package copy pairs first second tree pool owner below final)
    {types keys : PoolSlot} (formed : copy.Formed types keys first) : BlockTree.Restamped first second := by
  have forest := added.imported.enlarged.forest
  refine .of_rewritten added.rewritten ?_
  rintro id ⟨node, listed, child⟩ heads
  obtain ⟨chunk, typed, rfl⟩ := List.mem_map.1 listed
  obtain ⟨inside, type⟩ := List.mem_filter.1 typed
  obtain ⟨_, head, body, keeps⟩ := formed.chunks chunk inside
  have children := BlockTree.children_of_form? keeps.container
  rw [children] at child
  simp only [List.mem_cons, List.not_mem_nil, or_false] at child
  rcases child with rfl | rfl
  · exact (added.remapped chunk inside (by simpa using type) _ body keeps.holds).stamp?
  · exact absurd heads (forest.not_heads children List.mem_cons_self)

/-- A table to which a copy of a package is added stays built. -/
theorem CopyAdded.formed
    (added : CopyAdded table other package copy pairs first second tree pool owner below final)
    (formed : table.Formed) (also : other.Formed) (inside : package ∈ other.packages) : final.Formed := by
  have sound := added.sound formed.sound
  obtain ⟨node, live, patches⟩ := formed.container
  have size := BlockTree.index_lt live
  have core {id : NodeId} (apart : id ≠ ⟨2⟩) : tree.core? id = second.core? id :=
    added.attached.core?_eq added.live (by rwa [formed.packagesNode])
  have above := added.above
  have attached := added.attached.above
  rw [formed.packagesNode] at above attached
  cases ((added.grows.kept ⟨2⟩ size).trans live).symm.trans above
  obtain ⟨_, _, source⟩ := also.packages package inside
  obtain ⟨types, keys, built⟩ := source.copied also.linked added.imported added.node added.rebound
  have restamped := added.restamped built
  rw [added.final] at sound ⊢
  refine formed.grown sound rfl rfl rfl (fun id old apart => (core apart).trans ?_) ⟨_, attached, patches⟩
    (formed.plain.extends added.strings) fun other listed => (List.mem_append.1 listed).imp_right fun here => ?_
  · rw [BlockTree.core?, BlockTree.core?, added.grows.kept id old]
  · cases List.mem_singleton.1 here
    refine ⟨types, keys, (built.frame fun id _ => restamped.alike id).frame fun id owned => .of_core? (core ?_)⟩
    rintro rfl
    have order := owned.index_le added.grows.linked
    rw [added.node] at order
    exact absurd size (Nat.not_lt.2 order)

/-- A table that has grown by nodes and strings only stays built. -/
theorem Extended.formed (extended : Extended table final) (formed : table.Formed) : final.Formed := by
  have sound := extended.sound formed.sound
  obtain ⟨node, live, patches⟩ := formed.container
  have grows := extended.grows
  rw [extended.rest] at sound ⊢
  exact formed.grown sound rfl rfl rfl (fun id old _ => by rw [BlockTree.core?, BlockTree.core?, grows.kept id old])
    ⟨node, (grows.kept _ (BlockTree.index_lt live)).trans live, patches⟩ (formed.plain.extends extended.strings)
    fun _ => .inl

/-- A merge keeps a table built, whether it succeeds or fails. -/
theorem merge_formed (formed : table.Formed) (also : other.Formed) :
    (merge other).Leads (fun _ => Formed) table := by
  have row : (other.packages.forM (mergePackage other)).Ensures table (fun _ => Formed) Formed :=
    .forM (fun package inside current here => (mergePackage_ensures here.sound also.sound inside).imp
      (fun _ _ ⟨_, _, _, _, _, _, _, _, added⟩ => added.formed here also inside)
      fun _ extended => extended.formed here) formed
  unfold merge
  exact ⟨row.bind fun _ _ formed => .of_ok rfl formed⟩

/-- Every table that is reached from the empty one is built. -/
theorem Reached.formed (reached : Reached (fun table => empty = .ok table) table) : table.Formed := by
  induction reached with
  | start here => exact formed_empty here
  | edit edit _ ends ih => exact edit.formed ih ends
  | merge _ _ ends ih also => exact (merge_formed ih also).ends ends

end Table
end Resource
end DexArsc
