/-
Runs of edits on block trees. The links of every tree on the way of a run agree, also behind edits that
fail, so that every walk through the tree ends.
-/

import DexArsc.BlockTree.Import
import DexArsc.Proofs.BlockTree.Layout

namespace DexArsc.BlockTree

open Relation (ReflTransGen TransGen)

variable {tree final : BlockTree}

/-- What can be done with a block tree. -/
inductive Edit : Type 1
  | newContainer (tag : UInt32)
  | newLeaf (tag : UInt32) (bytes : Bytes)
  | newPad (padding : Padding)
  | addChild (parent child : NodeId)
  | insertChild (parent : NodeId) (position : Nat) (child : NodeId)
  | detach (id : NodeId)
  | remove (id : NodeId)
  | sortChildren {κ : Type} (parent : NodeId) (le : κ → κ → Bool) (key : BlockTree → NodeId → κ)
  | setLeaf (id : NodeId) (bytes : Bytes)
  | modifyLeaf (id : NodeId) (change : Bytes → Bytes)
  | addPatch (id : NodeId) (patch : Patch)
  | writeField (field : Field) (value : Nat)
  | refresh (root : NodeId)

/-- The step of an edit, without its result. -/
def Edit.step : Edit → Step BlockTree Unit
  | newContainer tag => discard (BlockTree.newContainer tag)
  | newLeaf tag bytes => discard (BlockTree.newLeaf tag bytes)
  | newPad padding => discard (BlockTree.newPad padding)
  | addChild parent child => BlockTree.addChild parent child
  | insertChild parent position child => BlockTree.insertChild parent position child
  | detach id => BlockTree.detach id
  | remove id => BlockTree.remove id
  | sortChildren parent le key => BlockTree.sortChildren parent le key
  | setLeaf id bytes => BlockTree.setLeaf id bytes
  | modifyLeaf id change => BlockTree.modifyLeaf id change
  | addPatch id patch => BlockTree.addPatch id patch
  | writeField field value => BlockTree.writeField field value
  | refresh root => discard (BlockTree.refresh root)

/-- The trees that edits and imports reach from the empty tree, whether they succeed or fail. -/
inductive Reached : BlockTree → Prop
  | empty : Reached {}
  | edit {tree final : BlockTree} (edit : Edit) (reached : Reached tree) (ends : edit.step.Ends tree final) :
      Reached final
  | imported {tree other final : BlockTree} (id : NodeId) (reached : Reached tree) (also : Reached other)
      (ends : (importNode other id).Ends tree final) : Reached final

/-- Where the links of one tree agree, so do those of the other. -/
def Keeps (tree final : BlockTree) : Prop :=
  tree.Forest → final.Forest

theorem Keeps.refl (tree : BlockTree) : tree.Keeps tree :=
  id

theorem Keeps.trans {between : BlockTree} (before : tree.Keeps between) (behind : between.Keeps final) :
    tree.Keeps final :=
  behind ∘ before

theorem Rewritten.keeps {inside : NodeId → Prop} (rewritten : Rewritten inside tree final) :
    tree.Keeps final := fun forest =>
  forest.congr rewritten.shapes

theorem allocate_leads (kind : NodeKind) (tag : UInt32) (tree : BlockTree) :
    (allocate kind tag).Leads Keeps tree := by
  obtain ⟨length, run⟩ := allocate_apply kind tag tree
  exact ⟨.of_ok run fun forest => forest.push rfl rfl⟩

theorem insertChild_leads (parent : NodeId) (position : Nat) (child : NodeId) (tree : BlockTree) :
    (insertChild parent position child).Leads Keeps tree := by
  refine ⟨(insertChild_ensures parent position child tree).imp
    (fun _ final ⟨same, attaches, within⟩ forest => ?_) fun final ⟨same, _⟩ => same ▸ .refl tree⟩
  rw [same]
  exact forest.adopt attaches _ (List.perm_insertIdx child _ within)

theorem addChild_leads (parent child : NodeId) (tree : BlockTree) :
    (addChild parent child).Leads Keeps tree := by
  refine ⟨(addChild_ensures parent child tree).imp (fun _ final ⟨same, attaches⟩ forest => ?_)
    fun final ⟨same, _⟩ => same ▸ .refl tree⟩
  rw [same]
  exact forest.attach attaches

theorem detach_leads (id : NodeId) (tree : BlockTree) : (detach id).Leads Keeps tree := by
  refine .of_ends fun final ends forest => ?_
  suffices leads : (detach id).Leads (fun _ final => final.Forest) tree from leads.ends ends
  cases live : tree.node? id with
  | none => exact ⟨.of_error (detach_of_not_live live) forest⟩
  | some node =>
      cases owned : node.parent with
      | none => exact ⟨.of_ok (detach_orphan live owned) forest⟩
      | some parent =>
          have above : tree.Above parent id := by rw [Above, parent?, live, Option.bind_some, owned]
          exact ⟨.of_ok (forest.detach_eq above) (forest.detached above)⟩

theorem remove_leads (id : NodeId) (tree : BlockTree) : (remove id).Leads Keeps tree := by
  refine .of_ends fun final ends forest => ?_
  suffices leads : (remove id).Leads (fun _ final => final.Forest) tree from leads.ends ends
  cases live : tree.node? id with
  | none => exact ⟨.of_error (remove_of_not_live live) forest⟩
  | some node =>
      cases owned : node.parent with
      | none =>
          obtain ⟨final, run, after, _⟩ := forest.remove_orphan live owned
          exact ⟨.of_ok run after⟩
      | some parent =>
          have above : tree.Above parent id := by rw [Above, parent?, live, Option.bind_some, owned]
          obtain ⟨final, run, removes⟩ := forest.remove_child above
          exact ⟨.of_ok run removes.forest⟩

theorem sortChildren_leads {κ : Type} (parent : NodeId) (le : κ → κ → Bool) (key : BlockTree → NodeId → κ)
    (tree : BlockTree) : (sortChildren parent le key).Leads Keeps tree := by
  cases live : tree.node? parent with
  | none =>
      unfold sortChildren
      refine .get (.check (.refl tree) fun node found => ?_)
      rw [node_eq_ok.1 found] at live
      cases live
  | some node =>
      exact ⟨.of_ok (sortChildren_ok le key live) fun forest => forest.reorder fun _ => perm_sortBy _ _ _⟩

theorem addPatch_leads (id : NodeId) (patch : Patch) (tree : BlockTree) :
    (addPatch id patch).Leads Keeps tree := by
  refine ⟨(addPatch_ensures id patch tree).imp (fun _ final same forest => ?_) fun final same => same ▸ .refl tree⟩
  rw [same]
  exact forest.of_links (links_modifyNode fun _ _ => rfl)

theorem copyNodes_leads (other : BlockTree) (fuel : Nat) (id : NodeId) (nodes : NodeMap) (tree : BlockTree) :
    (copyNodes other fuel id nodes).Leads Keeps tree := by
  induction fuel generalizing id nodes tree with
  | zero => exact .fail (.refl tree) _
  | succ fuel ih =>
      unfold copyNodes
      refine .check (.refl tree) fun node _ => .bind .trans (allocate_leads _ _ tree) fun copy between _ => ?_
      refine .bind .trans (.modify fun forest => forest.of_links (links_modifyNode fun _ _ => rfl))
        fun _ between _ => .bind .trans (.foldlM .refl .trans (fun nodes child _ tree => ?_) _ between)
          fun _ final _ => .pure (.refl final) _
      exact .bind .trans (ih child nodes tree) fun _ between _ =>
        .bind .trans (addChild_leads _ _ between) fun _ final _ => .pure (.refl final) _

theorem importNode_leads (other : BlockTree) (id : NodeId) (tree : BlockTree) :
    (importNode other id).Leads Keeps tree := by
  unfold importNode
  refine .bind .trans (copyNodes_leads other _ id [] tree) fun ⟨copy, nodes⟩ between _ =>
    .bind .trans (.forM .refl .trans (fun pair _ tree => ?_) between) fun _ final _ => .pure (.refl final) _
  refine .check (.refl tree) fun node _ => ?_
  split
  · exact .modify fun forest => forest.of_links (links_modifyNode fun _ _ => rfl)
  · exact .fail (.refl tree) _

/-- An edit keeps the links, whether it succeeds or fails. -/
theorem Edit.keeps (edit : Edit) (ends : edit.step.Ends tree final) : tree.Keeps final := by
  suffices leads : edit.step.Leads Keeps tree from leads.ends ends
  cases edit with
  | newContainer tag => exact (allocate_leads _ _ tree).discard
  | newLeaf tag bytes => exact (allocate_leads _ _ tree).discard
  | newPad padding => exact (allocate_leads _ _ tree).discard
  | addChild parent child => exact addChild_leads parent child tree
  | insertChild parent position child => exact insertChild_leads parent position child tree
  | detach id => exact detach_leads id tree
  | remove id => exact remove_leads id tree
  | sortChildren parent le key => exact sortChildren_leads parent le key tree
  | setLeaf id bytes =>
      have reshaped : (BlockTree.setLeaf id bytes).Leads Reshaped tree :=
        Rewritten.setLeaf trivial bytes tree
      exact reshaped.imp fun _ => Rewritten.keeps
  | modifyLeaf id change =>
      have reshaped : (BlockTree.modifyLeaf id change).Leads Reshaped tree :=
        Rewritten.modifyLeaf trivial change tree
      exact reshaped.imp fun _ => Rewritten.keeps
  | addPatch id patch => exact addPatch_leads id patch tree
  | writeField field value => exact (writeField_leads field value tree).imp fun _ => Rewritten.keeps
  | refresh root => exact ((refresh_leads root tree).imp fun _ => Rewritten.keeps).discard

/-- The links of every tree on the way of a run agree. -/
theorem Reached.forest (reached : Reached tree) : tree.Forest := by
  induction reached with
  | empty => exact forest_empty
  | edit edit _ ends ih => exact edit.keeps ends ih
  | imported id _ _ ends ih => exact (importNode_leads _ id _).ends ends ih

/-- Children and parents agree, and nodes stand below containers only. -/
structure WellFormed (tree : BlockTree) : Prop where
  count : ∀ parent child,
    (tree.children parent).count child = if tree.parent? child = some parent then 1 else 0
  live : ∀ parent child, tree.parent? child = some parent → tree.isLive parent = true ∧ tree.isLive child = true
  container : ∀ parent, tree.children parent ≠ [] →
    ∃ node, tree.node? parent = some node ∧ node.kind = .container
  acyclic : ∀ id, ¬TransGen tree.Above id id

/-- Walks towards a root and towards the leaves end, so that the fuel of a walk does not matter. -/
structure Walkable (tree : BlockTree) : Prop where
  up : WellFounded tree.Above
  down : WellFounded fun below above => tree.Above above below
  isAncestor : ∀ candidate id, tree.isAncestor candidate id = true ↔ ReflTransGen tree.Above candidate id
  layOut : ∀ fuel id offset, tree.nodes.size < fuel →
    layOut fuel id offset tree = layOut (tree.nodes.size + 1) id offset tree
  layOut_ok : ∀ id offset, tree.isLive id = true →
    ∃ stop final, BlockTree.layOut (tree.nodes.size + 1) id offset tree = .ok stop final
  serialize : ∀ fuel id, tree.nodes.size < fuel → tree.serialize fuel id = tree.toBytes id
  free : ∀ fuel id, tree.nodes.size < fuel → tree.free fuel id = tree.free (tree.nodes.size + 1) id

/-- A removal frees a live node with all that stands below it, and takes the node from the children of its
parent. Everything else is as it was. -/
def RemovesSubtrees (tree : BlockTree) : Prop :=
  ∀ id, tree.isLive id = true → ∃ final, remove id tree = .ok () final ∧
    (∀ other, ReflTransGen tree.Above id other → final.node? other = none) ∧
    ∀ other, ¬ReflTransGen tree.Above id other → final.node? other =
      (tree.node? other).map fun node => { node with children := node.children.filter (· ≠ id) }

/-- A node that is refused as a child leaves the tree as it was. -/
def RefusesUnchanged (tree : BlockTree) : Prop :=
  (∀ parent position child fault final, insertChild parent position child tree = .error fault final →
    final = tree) ∧
  ∀ parent child fault final, addChild parent child tree = .error fault final → final = tree

theorem isLive_iff {id : NodeId} : tree.isLive id = true ↔ ∃ node, tree.node? id = some node :=
  Option.isSome_iff_exists

theorem Forest.wellFormed (forest : tree.Forest) : tree.WellFormed where
  count parent child := by
    split
    · rename_i above
      exact List.count_eq_one_of_mem (forest.nodup_children parent) ((forest.mem_children_iff parent child).2 above)
    · rename_i apart
      exact List.count_eq_zero.2 fun inside => apart ((forest.mem_children_iff parent child).1 inside)
  live parent child above := by
    obtain ⟨shape, found, _⟩ := forest.parent above
    obtain ⟨node, live, _⟩ := Option.map_eq_some_iff.1 found
    obtain ⟨below, here, _⟩ := Option.bind_eq_some_iff.1 above
    exact ⟨isLive_iff.2 ⟨node, live⟩, isLive_iff.2 ⟨below, here⟩⟩
  container parent some := by
    obtain ⟨child, inside⟩ := List.exists_mem_of_ne_nil _ some
    obtain ⟨shape, found, content⟩ := forest.container parent child inside
    obtain ⟨node, live, rfl⟩ := Option.map_eq_some_iff.1 found
    exact ⟨node, live, Node.content_eq_container.1 content⟩
  acyclic := forest.acyclic

/-- Nothing else is needed of the links. -/
theorem WellFormed.forest (formed : tree.WellFormed) : tree.Forest where
  mem_children_iff parent child := by
    rw [← List.count_pos_iff, formed.count, Above]
    split <;> simp [*]
  nodup_children parent := List.nodup_iff_count_le_one.2 fun child => by
    rw [formed.count]
    split <;> omega
  container parent child inside := by
    obtain ⟨node, live, kind⟩ := formed.container parent (List.ne_nil_of_mem inside)
    exact ⟨node.shape, shape?_of_some live, Node.content_eq_container.2 kind⟩
  acyclic := formed.acyclic

theorem Forest.walkable (forest : tree.Forest) : tree.Walkable where
  up := forest.wellFounded
  down := forest.wellFounded_flip
  isAncestor := forest.isAncestor_iff
  layOut fuel id offset enough := forest.layOut_fuel (by omega) (by omega) offset
  layOut_ok id offset live := by
    obtain ⟨node, found⟩ := isLive_iff.1 live
    have enough : tree.nodes.size < tree.nodes.size + 1 + tree.depth id := by omega
    obtain ⟨stop, final, run, _⟩ := forest.layOut_ok enough found offset
    exact ⟨stop, final, run⟩
  serialize fuel id enough := forest.serialize_fuel (by omega) (by omega)
  free fuel id enough := (forest.free enough id).unique (forest.free (Nat.lt_succ_self _) id)

theorem Forest.removesSubtrees (forest : tree.Forest) : tree.RemovesSubtrees := by
  intro id live
  obtain ⟨node, found⟩ := isLive_iff.1 live
  have unlisted (other : NodeId) (apart : ¬tree.Above other id) : (tree.node? other).map (fun node =>
      { node with children := node.children.filter (· ≠ id) }) = tree.node? other := by
    cases here : tree.node? other with
    | none => rfl
    | some owner =>
        have absent : id ∉ owner.children := fun inside =>
          apart (forest.down other owner.shape id (shape?_of_some here) inside)
        have same : owner.children.filter (· ≠ id) = owner.children :=
          List.filter_eq_self.2 fun child inside => decide_eq_true fun equal => absent (equal ▸ inside)
        rw [Option.map_some, same]
  cases owned : node.parent with
  | none =>
      obtain ⟨final, run, _, freed⟩ := forest.remove_orphan found owned
      refine ⟨final, run, fun other way => freed.gone other ((forest.owns_iff id other).2 way), fun other left => ?_⟩
      rw [freed.kept other fun owns => left ((forest.owns_iff id other).1 owns), unlisted]
      rw [Above, parent?, found, Option.bind_some, owned]
      exact Option.some_ne_none _ ∘ Eq.symm
  | some parent =>
      have above : tree.Above parent id := by rw [Above, parent?, found, Option.bind_some, owned]
      obtain ⟨final, run, removes⟩ := forest.remove_child above
      refine ⟨final, run, fun other way => removes.gone other ((forest.owns_iff id other).2 way), fun other left => ?_⟩
      by_cases isParent : other = parent
      · rw [isParent, removes.owner]
      · rw [removes.kept other isParent fun owns => left ((forest.owns_iff id other).1 owns), unlisted]
        exact fun above' => isParent (Option.some.inj (above'.symm.trans above))

theorem refusesUnchanged (tree : BlockTree) : tree.RefusesUnchanged :=
  ⟨fun parent position child _ _ run => ((insertChild_ensures parent position child tree).error run).1,
    fun parent child _ _ run => ((addChild_ensures parent child tree).error run).1⟩

/-- In every tree on the way of a run parents and children agree, walks end, removals free exactly the
subtree that they name, and nodes are refused as children without a trace. -/
theorem wellFormed_of_reached (reached : Reached tree) :
    tree.WellFormed ∧ tree.Walkable ∧ tree.RemovesSubtrees ∧ tree.RefusesUnchanged :=
  ⟨reached.forest.wellFormed, reached.forest.walkable, reached.forest.removesSubtrees, refusesUnchanged tree⟩

/-- A leaf below a container. -/
theorem wellFormed_pair : ∃ tree : BlockTree, Reached tree ∧ tree.children ⟨0⟩ = [⟨1⟩] ∧
    tree.WellFormed ∧ tree.Walkable ∧ tree.RemovesSubtrees ∧ tree.RefusesUnchanged := by
  have first : Reached _ := .edit (.newContainer 1) .empty (Step.ends_ok rfl)
  have second : Reached _ := .edit (.newLeaf 2 #[7]) first (Step.ends_ok rfl)
  have third : Reached _ := .edit (.addChild ⟨0⟩ ⟨1⟩) second (Step.ends_ok rfl)
  exact ⟨_, third, rfl, wellFormed_of_reached third⟩

end DexArsc.BlockTree
