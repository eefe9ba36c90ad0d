/-
The headers of chunks in a block tree. A header is the first child of its node and begins with four bytes that no
patch covers. They stay through every refresh, as the number of its bytes does.
-/

import DexArsc.Proofs.BlockTree.Current
import DexArsc.Proofs.Bytes.Word

namespace DexArsc

namespace Bytes

/-- The number of bytes, and the first four of them. -/
def stamp (bytes : Bytes) : Nat × List UInt8 :=
  (bytes.size, bytes.toList.take 4)

/-- Bytes that are overwritten behind the first four keep their stamp. -/
theorem stamp_overwrite (bytes : Bytes) {position : Nat} (low : 4 ≤ position) (more : List UInt8) :
    (bytes.overwrite position more).stamp = bytes.stamp :=
  Prod.ext (size_overwrite ..) (@drop_take_overwrite bytes.toList position 0 4 more (.inl low))

theorem stamp_putWord32 (bytes : Bytes) {position : Nat} (low : 4 ≤ position) (word : UInt32) :
    (bytes.putWord32 position word).stamp = bytes.stamp :=
  stamp_overwrite bytes low _

end Bytes

namespace BlockTree

variable {tree between final : BlockTree}

/-- What a node holds, lists and patches, without its parent, its place and its bytes. -/
structure Form where
  content : Content
  children : List NodeId := []
  patches : List Patch := []

/-- The form of a live node. -/
def form? (tree : BlockTree) (id : NodeId) : Option Form :=
  (tree.shape? id).map fun { content, children, patches, .. } => { content, children, patches }

/-- A leaf without patches. -/
def Form.leaf : Form where
  content := .leaf

theorem form?_of_shape? {id : NodeId} {shape : Shape} (found : tree.shape? id = some shape) :
    tree.form? id = some ⟨shape.content, shape.children, shape.patches⟩ := by
  rw [form?, found]
  rfl

theorem form?_congr {id : NodeId} (same : final.shape? id = tree.shape? id) : final.form? id = tree.form? id := by
  rw [form?, form?, same]

theorem form?_of_core? {id : NodeId} (same : final.core? id = tree.core? id) : final.form? id = tree.form? id := by
  have view (tree : BlockTree) : tree.form? id =
      (tree.core? id).map fun core => ⟨core.kind.content, core.children, core.patches⟩ := by
    unfold form? shape? core?
    cases tree.node? id <;> rfl
  rw [view, view, same]

/-- A live node with a form. -/
theorem node_of_form? {id : NodeId} {form : Form} (found : tree.form? id = some form) :
    ∃ node, tree.node? id = some node ∧ node.kind.content = form.content ∧ node.children = form.children ∧
      node.patches = form.patches := by
  obtain ⟨shape, there, rfl⟩ := Option.map_eq_some_iff.1 found
  obtain ⟨node, live, rfl⟩ := Option.map_eq_some_iff.1 there
  exact ⟨node, live, rfl, rfl, rfl⟩

theorem children_of_form? {id : NodeId} {form : Form} (found : tree.form? id = some form) :
    tree.children id = form.children := by
  obtain ⟨node, live, _, children, _⟩ := node_of_form? found
  rw [children_of_node? live, children]

theorem leaf_of_form? {id : NodeId} (found : tree.form? id = some .leaf) : ∃ node bytes,
    tree.node? id = some node ∧ node.kind = .leaf bytes ∧ tree.leaf id = .ok bytes ∧ node.patches = [] := by
  obtain ⟨node, live, content, _, patches⟩ := node_of_form? found
  obtain ⟨bytes, kind⟩ := Node.content_eq_leaf.1 content
  exact ⟨node, bytes, live, kind, leaf_eq_ok.2 ⟨node, live, kind⟩, patches⟩

theorem Forest.toBytes_of_form? (forest : tree.Forest) {id : NodeId} {form : Form} (found : tree.form? id = some form)
    (container : form.content = .container) : tree.toBytes id = form.children.flatMap tree.toBytes := by
  obtain ⟨node, live, content, children, _⟩ := node_of_form? found
  rw [forest.toBytes_container live (Node.content_eq_container.1 (content.trans container)), children]

/-- A node is the first child of another one. -/
def Heads (tree : BlockTree) (id : NodeId) : Prop :=
  ∃ parent rest, tree.children parent = id :: rest

/-- Only the first child of a node is a header. -/
theorem Forest.not_heads (forest : tree.Forest) {parent first id : NodeId} {rest : List NodeId}
    (children : tree.children parent = first :: rest) (inside : id ∈ rest) : ¬tree.Heads id := by
  rintro ⟨other, behind, listed⟩
  have above := (forest.mem_children_iff parent id).1 (children ▸ List.mem_cons_of_mem _ inside)
  have above' := (forest.mem_children_iff other id).1 (listed ▸ List.mem_cons_self)
  cases Option.some.inj (above.symm.trans above')
  have nodup := forest.nodup_children parent
  rw [children] at listed nodup
  cases listed
  exact (List.nodup_cons.1 nodup).1 inside

/-- The stamp of a leaf. -/
def stamp? (tree : BlockTree) (id : NodeId) : Option (Nat × List UInt8) :=
  match tree.leaf id with
  | .ok bytes => some bytes.stamp
  | .error _ => none

theorem stamp?_of_leaf {id : NodeId} {bytes : Bytes} (found : tree.leaf id = .ok bytes) :
    tree.stamp? id = some bytes.stamp := by
  rw [stamp?, found]

/-- A leaf with a stamp. -/
theorem leaf_of_stamp? {id : NodeId} {stamp : Nat × List UInt8} (found : tree.stamp? id = some stamp) :
    ∃ bytes, tree.leaf id = .ok bytes ∧ bytes.stamp = stamp := by
  unfold stamp? at found
  split at found
  · rename_i bytes leaf
    exact ⟨bytes, leaf, Option.some.inj found⟩
  · cases found

theorem stamp?_congr {id : NodeId} (same : final.leaf id = tree.leaf id) : final.stamp? id = tree.stamp? id := by
  rw [stamp?, stamp?, same]

theorem stamp?_of_core? {id : NodeId} (same : final.core? id = tree.core? id) :
    final.stamp? id = tree.stamp? id := by
  cases live : tree.node? id with
  | none =>
      have gone : final.node? id = none := by
        rw [core?, core?, live] at same
        exact Option.map_eq_none_iff.1 same
      rw [stamp?, stamp?, leaf, leaf, node_of_none live, node_of_none gone]
  | some node =>
      obtain ⟨other, here, kind, _⟩ := node_of_core? same live
      have leaves : final.leaf id = tree.leaf id := by
        rw [leaf, leaf, node_of_some live, node_of_some here]
        dsimp only [bind, Except.bind]
        rw [kind]
      exact stamp?_congr leaves

/-- A node has the same form in another tree, and as a header the same stamp. -/
def Alike (tree final : BlockTree) (id : NodeId) : Prop :=
  final.form? id = tree.form? id ∧ (tree.Heads id → final.stamp? id = tree.stamp? id)

theorem Alike.of_core? {id : NodeId} (same : final.core? id = tree.core? id) : tree.Alike final id :=
  ⟨form?_of_core? same, fun _ => stamp?_of_core? same⟩

theorem Alike.of_node? {id : NodeId} (same : final.node? id = tree.node? id) : tree.Alike final id :=
  .of_core? (by rw [core?, core?, same])

/-- The places of nodes and the bytes of leaves are others, but headers keep their stamps. -/
structure Restamped (tree final : BlockTree) : Prop where
  size : final.nodes.size = tree.nodes.size
  shapes : final.shape? = tree.shape?
  stamps : ∀ id, tree.Heads id → final.stamp? id = tree.stamp? id

namespace Restamped

theorem refl (tree : BlockTree) : Restamped tree tree :=
  ⟨rfl, rfl, fun _ _ => rfl⟩

theorem heads_iff (restamped : Restamped tree final) {id : NodeId} : final.Heads id ↔ tree.Heads id := by
  unfold Heads
  simp only [children_eq, restamped.shapes]

theorem trans (before : Restamped tree between) (behind : Restamped between final) : Restamped tree final where
  size := behind.size.trans before.size
  shapes := behind.shapes.trans before.shapes
  stamps id heads := (behind.stamps id (before.heads_iff.2 heads)).trans (before.stamps id heads)

theorem alike (restamped : Restamped tree final) (id : NodeId) : tree.Alike final id :=
  ⟨form?_congr (by rw [restamped.shapes]), restamped.stamps id⟩

theorem of_moved {inside : NodeId → Prop} (moved : Moved inside tree final) : Restamped tree final :=
  ⟨moved.size, moved.shapes, fun id _ => stamp?_congr (moved.leaf_eq id)⟩

/-- Some nodes are rewritten, and the headers among them keep their stamps. -/
theorem of_rewritten {inside : NodeId → Prop} (rewritten : Rewritten inside tree final)
    (stamps : ∀ id, inside id → tree.Heads id → final.stamp? id = tree.stamp? id) : Restamped tree final where
  size := rewritten.size
  shapes := rewritten.shapes
  stamps id heads := by
    by_cases here : inside id
    · exact stamps id here heads
    · exact stamp?_congr (rewritten.leaf_eq here)

/-- A change of a leaf keeps the headers when it keeps the stamp. -/
theorem modifyLeaf {id : NodeId} {change : Bytes → Bytes} (same : ∀ bytes, (change bytes).stamp = bytes.stamp)
    (tree : BlockTree) : (modifyLeaf id change).Leads Restamped tree := by
  refine .of_ends fun final ends => ?_
  cases found : tree.leaf id with
  | error fault =>
      have stops : BlockTree.modifyLeaf id change tree = .error fault tree := by
        unfold BlockTree.modifyLeaf
        rw [Step.bind_ok (Step.get_apply _), Step.bind_apply, found]
        rfl
      rcases ends with ⟨_, run⟩ | ⟨_, run⟩
      · cases stops.symm.trans run
      · cases stops.symm.trans run
        exact .refl tree
  | ok bytes =>
      obtain ⟨between, run', rewritten, written⟩ := @modifyLeaf_rewrites tree (· = id) id bytes found rfl change
      rcases ends with ⟨_, run⟩ | ⟨_, run⟩
      · cases run'.symm.trans run
        refine .of_rewritten rewritten ?_
        rintro _ rfl _
        rw [stamp?_of_leaf written, stamp?_of_leaf found, same]
      · cases run'.symm.trans run

/-- A leaf that is no header may receive any bytes. -/
theorem setLeaf {id : NodeId} (other : ¬tree.Heads id) (bytes : Bytes) :
    (setLeaf id bytes).Leads Restamped tree :=
  (Rewritten.setLeaf rfl bytes tree).imp fun _ rewritten =>
    .of_rewritten rewritten fun _ here heads => absurd (here ▸ heads) other

/-- A field behind the first four bytes is written. -/
theorem writeField {field : Field} (low : 4 ≤ field.position) (value : Nat) (tree : BlockTree) :
    (writeField field value).Leads Restamped tree := by
  unfold BlockTree.writeField
  refine .get (.check (.refl tree) fun bytes _ => ?_)
  split
  · exact .bind .trans (.fail (.refl tree) _) fun _ between _ => .check (.refl between) fun value _ =>
      modifyLeaf (fun bytes => bytes.stamp_overwrite low _) between
  · exact .check (.refl tree) fun value _ => modifyLeaf (fun bytes => bytes.stamp_overwrite low _) tree

theorem applyPatch {pair : NodeId × Patch} (low : 4 ≤ pair.2.field.position) (tree : BlockTree) :
    (applyPatch pair).Leads Restamped tree := by
  unfold BlockTree.applyPatch
  refine .get (.check (.refl tree) fun entry run => ?_)
  have field := field_of_entry run
  exact writeField (field ▸ low) _ tree

end Restamped

/-- A refresh keeps the headers when no patch writes into their first four bytes. -/
theorem Forest.refresh_restamps (forest : tree.Forest) {top : NodeId} {node : Node} (live : tree.node? top = some node)
    (low : ∀ pair ∈ tree.patchesBelow top, 4 ≤ pair.2.field.position) : (refresh top).Leads Restamped tree := by
  refine .of_ends fun final ends => ?_
  obtain ⟨stop, between, laidOut, written⟩ := forest.refresh_ends live ends
  have moved := laidOut.moved
  have leads : ((between.patchesBelow top).forM BlockTree.applyPatch).Leads Restamped between := by
    refine .forM .refl .trans (fun pair inside tree => Restamped.applyPatch (low pair ?_) tree) between
    rwa [patchesBelow_congr moved.size moved.shapes] at inside
  exact (Restamped.of_moved moved).trans (leads.ends written)

end BlockTree
end DexArsc
