/-
The refresh of a block tree: it gives nodes their places and writes header fields, and wherever it ends it has left
the shapes of all nodes. Every node has the length of its content then, and the children of a container tile it.
-/

import DexArsc.BlockTree.Refresh
import DexArsc.Proofs.BlockTree.Basic
import DexArsc.Proofs.BlockTree.Removal
import Mathlib.Data.UInt

namespace DexArsc.BlockTree

/-- The places and the bytes of some nodes are others, and nothing else is. -/
abbrev Reshaped (tree final : BlockTree) : Prop :=
  Rewritten (fun _ => True) tree final

theorem writeField_leads (field : Field) (value : Nat) (tree : BlockTree) :
    (writeField field value).Leads Reshaped tree := by
  unfold writeField
  refine .get (.check (.refl _ tree) fun bytes _ => ?_)
  split
  · exact .bind .trans (.fail (.refl _ tree) _) fun _ between _ => .check (.refl _ between) fun value _ =>
      Rewritten.modifyLeaf trivial _ between
  · exact .check (.refl _ tree) fun value _ => Rewritten.modifyLeaf trivial _ tree

theorem layOut_leads (fuel : Nat) (id : NodeId) (offset : UInt64) (tree : BlockTree) :
    (layOut fuel id offset).Leads Reshaped tree := by
  induction fuel generalizing id offset tree with
  | zero => exact .fail (.refl _ tree) _
  | succ fuel ih =>
      unfold layOut
      have last (stop : UInt64) (tree : BlockTree) : (do
          let _ ← (← get).node id
          modify fun tree => tree.modifyNode id fun node => { node with offset, length := stop - offset }
          return stop : Step BlockTree UInt64).Leads Reshaped tree :=
        .get (.check (.refl _ tree) fun _ _ => .bind .trans
          (.modify (.modifyNode trivial fun _ _ => rfl)) fun _ between _ => .pure (.refl _ between) _)
      refine .get (.check (.refl _ tree) fun node _ => ?_)
      cases node.kind with
      | leaf bytes => exact .bind .trans (.pure (.refl _ tree) _) fun _ between _ => last _ between
      | pad padding => exact .bind .trans (.pure (.refl _ tree) _) fun _ between _ => last _ between
      | container =>
          exact .bind .trans (.foldlM (.refl _) .trans (fun offset child _ tree => ih child offset tree) _ tree)
            fun _ between _ => last _ between

theorem applyPatches_leads (fuel : Nat) (id : NodeId) (tree : BlockTree) :
    (applyPatches fuel id).Leads Reshaped tree := by
  induction fuel generalizing id tree with
  | zero => exact .fail (.refl _ tree) _
  | succ fuel ih =>
      unfold applyPatches
      refine .get (.check (.refl _ tree) fun node _ => .bind .trans
        (.forM (.refl _) .trans (fun child _ tree => ih child tree) tree) fun _ between _ => ?_)
      refine .get (.check (.refl _ between) fun node _ => .forM (.refl _) .trans (fun patch _ tree => ?_) between)
      exact .get (.check (.refl _ tree) fun target _ => writeField_leads _ _ tree)

theorem refresh_leads (root : NodeId) (tree : BlockTree) : (refresh root).Leads Reshaped tree := by
  unfold refresh
  refine .get (.bind .trans (layOut_leads _ _ _ tree) fun stop between _ => ?_)
  exact .get (.bind .trans (applyPatches_leads _ _ between) fun _ final _ => .pure (.refl _ final) _)

end DexArsc.BlockTree

namespace DexArsc

/-- A node without its place. -/
def Node.unplaced (node : Node) : Node :=
  { node with offset := 0, length := 0 }

theorem Node.unplaced_eq {node other : Node} (same : other.unplaced = node.unplaced) :
    other = { node with offset := other.offset, length := other.length } := by
  cases node
  cases other
  simp only [unplaced, Node.mk.injEq] at same ⊢
  simp [same]

namespace BlockTree

variable {tree between final : BlockTree}

/-- The tree in which a node has received a place. -/
def placed (tree : BlockTree) (id : NodeId) (offset length : UInt64) : BlockTree :=
  tree.modifyNode id fun node => { node with offset, length }

theorem node?_placed {id : NodeId} {node : Node} (live : tree.node? id = some node) (offset length : UInt64) :
    (tree.placed id offset length).node? id = some { node with offset, length } := by
  rw [placed, node?_modifyNode, if_pos rfl, live, Option.map_some]

theorem node?_placed_of_ne {id other : NodeId} (apart : other ≠ id) (offset length : UInt64) :
    (tree.placed id offset length).node? other = tree.node? other := by
  rw [placed, node?_modifyNode, if_neg apart]

/-- The places of some nodes are others, and nothing else is. -/
structure Moved (inside : NodeId → Prop) (tree final : BlockTree) : Prop where
  size : final.nodes.size = tree.nodes.size
  others : ∀ id, ¬inside id → final.node? id = tree.node? id
  nodes : ∀ id, (final.node? id).map Node.unplaced = (tree.node? id).map Node.unplaced

namespace Moved

variable {inside more : NodeId → Prop}

theorem refl (inside : NodeId → Prop) (tree : BlockTree) : Moved inside tree tree :=
  ⟨rfl, fun _ _ => rfl, fun _ => rfl⟩

theorem trans (before : Moved inside tree between) (behind : Moved inside between final) :
    Moved inside tree final where
  size := behind.size.trans before.size
  others id outside := (behind.others id outside).trans (before.others id outside)
  nodes id := (behind.nodes id).trans (before.nodes id)

theorem mono (moved : Moved inside tree final) (implies : ∀ id, inside id → more id) : Moved more tree final :=
  ⟨moved.size, fun id outside => moved.others id fun here => outside (implies id here), moved.nodes⟩

/-- A live node stays live, perhaps at another place. -/
theorem node (moved : Moved inside tree final) {id : NodeId} {node : Node} (live : tree.node? id = some node) :
    ∃ offset length, final.node? id = some { node with offset, length } := by
  have same := moved.nodes id
  rw [live] at same
  obtain ⟨other, here, equal⟩ := Option.map_eq_some_iff.1 same
  exact ⟨other.offset, other.length, here.trans (congrArg some (Node.unplaced_eq equal))⟩

theorem shapes (moved : Moved inside tree final) : final.shape? = tree.shape? := by
  funext id
  have shape (node? : Option Node) : node?.map Node.shape = (node?.map Node.unplaced).map Node.shape := by
    rw [Option.map_map]
    rfl
  rw [shape?, shape, moved.nodes id, ← shape, ← shape?]

theorem children_eq (moved : Moved inside tree final) (id : NodeId) : final.children id = tree.children id := by
  rw [BlockTree.children_eq, moved.shapes, ← BlockTree.children_eq]

theorem placed {id : NodeId} (here : inside id) (offset length : UInt64) :
    Moved inside tree (tree.placed id offset length) where
  size := size_modifyNode ..
  others other outside := node?_placed_of_ne (by rintro rfl; exact outside here) offset length
  nodes other := by
    rw [BlockTree.placed, node?_modifyNode]
    split
    · rw [Option.map_map]
      rfl
    · rfl

end Moved

theorem Owns.congr {top id : NodeId} (same : ∀ id, final.children id = tree.children id)
    (owns : tree.Owns top id) : final.Owns top id := by
  induction owns with
  | top => exact .top
  | @child parent id node _ found inside ih =>
      refine ih.of_mem_children ?_
      rwa [same, children_of_node? found]

theorem Moved.owns_iff {inside : NodeId → Prop} (moved : Moved inside tree final) (top id : NodeId) :
    final.Owns top id ↔ tree.Owns top id :=
  ⟨.congr fun id => (moved.children_eq id).symm, .congr moved.children_eq⟩

/-- Nodes lie one behind the other from a start to a stop. -/
def Tiles (tree : BlockTree) : (start : UInt64) → List NodeId → (stop : UInt64) → Prop
  | start, [], stop => stop = start
  | start, id :: rest, stop =>
    ∃ node, tree.node? id = some node ∧ node.offset = start ∧ Tiles tree (start + node.length) rest stop

/-- The length of a node is that of its content, and the children of a container tile it. -/
def Fits (tree : BlockTree) (node : Node) : Prop :=
  match node.kind with
  | .leaf bytes => node.length = UInt64.ofNat bytes.size
  | .pad padding => node.length = padding.sizeAt node.offset
  | .container => tree.Tiles node.offset node.children (node.offset + node.length)

theorem Tiles.congr {start stop : UInt64} {row : List NodeId} (tiles : tree.Tiles start row stop)
    (same : ∀ id ∈ row, final.node? id = tree.node? id) : final.Tiles start row stop := by
  induction row generalizing start with
  | nil => exact tiles
  | cons id rest ih =>
      obtain ⟨node, live, offset, behind⟩ := tiles
      exact ⟨node, (same id List.mem_cons_self).trans live, offset,
        ih behind fun other inside => same other (List.mem_cons_of_mem _ inside)⟩

theorem Fits.congr {node : Node} (fits : tree.Fits node)
    (same : ∀ id ∈ node.children, final.node? id = tree.node? id) : final.Fits node := by
  unfold Fits at fits ⊢
  split
  · rename_i kind
    simpa only [kind] using fits
  · rename_i kind
    simpa only [kind] using fits
  · rename_i kind
    simp only [kind] at fits
    exact fits.congr same

/-- Everything that a node owns fits its place. -/
def Settled (tree : BlockTree) (top : NodeId) : Prop :=
  ∀ id, tree.Owns top id → ∃ node, tree.node? id = some node ∧ tree.Fits node

/-- A node is laid out at an offset, with all that it owns. -/
structure LaidOut (tree : BlockTree) (id : NodeId) (offset stop : UInt64) (final : BlockTree) : Prop where
  moved : Moved (tree.Owns id) tree final
  here : ∃ node, final.node? id = some node ∧ node.offset = offset ∧ offset + node.length = stop
  settled : final.Settled id

/-- Nodes are laid out one behind the other, each with all that it owns. -/
structure RowLaidOut (tree : BlockTree) (row : List NodeId) (offset stop : UInt64) (final : BlockTree) : Prop where
  moved : Moved (fun id => ∃ child ∈ row, tree.Owns child id) tree final
  tiles : final.Tiles offset row stop
  settled : ∀ child ∈ row, final.Settled child

/-- What fits stays so when nothing of it changes. -/
theorem Settled.congr {top : NodeId} (settled : tree.Settled top)
    (owns : ∀ id, final.Owns top id → tree.Owns top id)
    (same : ∀ id, tree.Owns top id → final.node? id = tree.node? id) : final.Settled top := by
  intro id owned
  obtain ⟨node, live, fits⟩ := settled id (owns id owned)
  refine ⟨node, (same id (owns id owned)).trans live, fits.congr fun child inside => ?_⟩
  exact same child ((owns id owned).of_mem_children (children_of_node? live ▸ inside))

/-- The place of a node is recorded behind the layout of what it owns. -/
theorem layOut_of_stop {fuel : Nat} {id : NodeId} {node after : Node} {offset stop : UInt64}
    (live : tree.node? id = some node)
    (run : (match node.kind with
      | .leaf bytes => pure (offset + UInt64.ofNat bytes.size)
      | .pad padding => pure (offset + padding.sizeAt offset)
      | .container => node.children.foldlM (fun offset child => layOut fuel child offset) offset :
        Step BlockTree UInt64) tree = .ok stop between) (behind : between.node? id = some after) :
    layOut (fuel + 1) id offset tree = .ok stop (between.placed id offset (stop - offset)) := by
  unfold layOut
  rw [Step.bind_ok (Step.get_apply _), node_of_some live]
  refine (Step.bind_ok (Step.monadLift_ok node tree)).trans ?_
  have last : (do
      let _ ← (← get).node id
      modify fun tree => tree.modifyNode id fun node => { node with offset, length := stop - offset }
      return stop : Step BlockTree UInt64) between = .ok stop (between.placed id offset (stop - offset)) := by
    rw [Step.bind_ok (Step.get_apply _), node_of_some behind]
    rfl
  cases kind : node.kind <;> rw [kind] at run <;> exact (Step.bind_ok run).trans last

theorem layOut_of_not_live {id : NodeId} (gone : tree.node? id = none) (fuel : Nat) (offset : UInt64) :
    layOut fuel id offset tree = .error { cause := .tree (.notLive id.index) } tree := by
  cases fuel with
  | zero => rfl
  | succ fuel =>
      unfold layOut
      rw [Step.bind_ok (Step.get_apply _), node_of_none gone]
      rfl

namespace Forest

/-- A row of children is laid out when each of them is. -/
theorem layRowOut (forest : tree.Forest) {fuel : Nat} {parent : NodeId}
    (each : ∀ {tree : BlockTree} {id : NodeId} {node : Node}, tree.Forest →
      tree.nodes.size < fuel + tree.depth id → tree.node? id = some node → ∀ offset, ∃ stop final,
        layOut fuel id offset tree = .ok stop final ∧ LaidOut tree id offset stop final)
    {row : List NodeId} (nodup : row.Nodup) (below : ∀ child ∈ row, tree.Above parent child)
    (enough : tree.nodes.size < fuel + 1 + tree.depth parent) (offset : UInt64) : ∃ stop final,
      row.foldlM (fun offset child => layOut fuel child offset) offset tree = .ok stop final ∧
        RowLaidOut tree row offset stop final := by
  induction row generalizing tree offset with
  | nil => exact ⟨offset, tree, rfl, .refl _ tree, rfl, by simp⟩
  | cons child rest ih =>
      obtain ⟨absent, nodup⟩ := List.nodup_cons.1 nodup
      have here := below child List.mem_cons_self
      have deeper := forest.depth_lt here
      obtain ⟨node, live, _⟩ := Option.bind_eq_some_iff.1 here
      obtain ⟨middle, between, run, first⟩ := each forest (by omega) live offset
      have parents (id : NodeId) : between.Above parent id ↔ tree.Above parent id := by
        rw [Above, Above, parent?_eq, first.moved.shapes, ← parent?_eq]
      have later := first.moved.owns_iff
      obtain ⟨stop, final, run', behind⟩ := ih (forest.congr first.moved.shapes) nodup
        (fun next inside => (parents next).2 (below next (List.mem_cons_of_mem _ inside)))
        (by rw [first.moved.size, depth_congr first.moved.size first.moved.shapes]; exact enough) middle
      have kept (id : NodeId) (owned : tree.Owns child id) : final.node? id = between.node? id := by
        apply behind.moved.others id
        rintro ⟨next, inside, owned'⟩
        have apart : child ≠ next := fun same => absent (same ▸ inside)
        exact owned.apart forest here (below next (List.mem_cons_of_mem _ inside)) apart ((later next id).1 owned')
      have owns (id : NodeId) : final.Owns child id ↔ tree.Owns child id :=
        (behind.moved.owns_iff child id).trans (later child id)
      refine ⟨stop, final, by rw [List.foldlM_cons, Step.bind_ok run, run'], ?_, ?_, fun next inside => ?_⟩
      · apply (first.moved.mono fun id owned => ⟨child, List.mem_cons_self, owned⟩).trans
        apply behind.moved.mono
        rintro id ⟨next, inside, owned⟩
        exact ⟨next, List.mem_cons_of_mem _ inside, (later next id).1 owned⟩
      · obtain ⟨after, placed, start, length⟩ := first.here
        exact ⟨after, (kept child .top).trans placed, start, length ▸ behind.tiles⟩
      · rcases List.mem_cons.1 inside with rfl | inside
        · exact first.settled.congr (fun id owned => (later next id).2 ((owns id).1 owned))
            fun id owned => kept id ((later next id).1 owned)
        · exact behind.settled next inside

/-- Only a container has children. -/
theorem childless (forest : tree.Forest) {id : NodeId} {node : Node} (live : tree.node? id = some node)
    (content : node.kind ≠ .container) : node.children = [] := by
  refine List.eq_nil_iff_forall_not_mem.2 fun child inside => content ?_
  exact Node.content_eq_container.1 (forest.owner id node.shape child (shape?_of_some live) inside)

/-- A node without children is laid out when it has received a place that it fits. -/
theorem laidOut_childless (forest : tree.Forest) {id : NodeId} {node : Node} {offset stop : UInt64}
    (live : tree.node? id = some node) (content : node.kind ≠ .container)
    (fits : tree.Fits { node with offset, length := stop - offset }) :
    LaidOut tree id offset stop (tree.placed id offset (stop - offset)) := by
  have placed := node?_placed live offset (stop - offset)
  have none (child : NodeId) : child ∉ node.children := by
    rw [forest.childless live content]
    exact List.not_mem_nil
  refine ⟨.placed .top _ _, ⟨_, placed, rfl, add_sub_cancel offset stop⟩, fun other owned => ?_⟩
  have only : other = id := by
    induction owned with
    | top => rfl
    | @child parent child node' _ found inside same =>
        rw [same, placed] at found
        cases found
        exact absurd inside (none child)
  exact ⟨_, only ▸ placed, fits.congr fun child inside => absurd inside (none child)⟩

/-- A container is laid out when its children are and it has received the place that they tile. -/
theorem laidOut_container (forest : tree.Forest) {id : NodeId} {node : Node} {offset stop : UInt64}
    (live : tree.node? id = some node) (kind : node.kind = .container)
    (row : RowLaidOut tree node.children offset stop between) :
    between.node? id = some node ∧ LaidOut tree id offset stop (between.placed id offset (stop - offset)) := by
  have below (child : NodeId) (inside : child ∈ node.children) : tree.Above id child :=
    forest.down id node.shape child (shape?_of_some live) inside
  have unowned : ¬∃ child ∈ node.children, tree.Owns child id := fun ⟨child, inside, owned⟩ =>
    owned.not_parent forest (below child inside)
  have behind := (row.moved.others id unowned).trans live
  have placed := node?_placed behind offset (stop - offset)
  have moved : Moved (tree.Owns id) between (between.placed id offset (stop - offset)) := .placed .top _ _
  have owns (top other : NodeId) := (moved.owns_iff top other).trans (row.moved.owns_iff top other)
  have whole : Moved (tree.Owns id) tree between := row.moved.mono fun other ⟨child, inside, owned⟩ =>
    Owns.trans (.child .top live inside) owned
  refine ⟨behind, whole.trans moved, ⟨_, placed, rfl, add_sub_cancel offset stop⟩, fun other owned => ?_⟩
  rcases ((forest.owns_iff id other).1 ((owns id other).1 owned)).cases_head with rfl | ⟨child, here, way⟩
  · refine ⟨_, placed, ?_⟩
    simp only [Fits, kind, add_sub_cancel offset stop]
    refine row.tiles.congr fun child inside => node?_placed_of_ne ?_ _ _
    rintro rfl
    exact forest.not_above_self _ (below _ inside)
  · have inside : child ∈ node.children := by
      rw [← children_of_node? live]
      exact (forest.mem_children_iff id child).2 here
    have notTop (other : NodeId) (owned : between.Owns child other) : other ≠ id := fun same =>
      ((row.moved.owns_iff child id).1 (same ▸ owned)).not_parent forest here
    have settled := (row.settled child inside).congr (fun other => (moved.owns_iff child other).1)
      fun other owned => node?_placed_of_ne (notTop other owned) _ _
    exact settled other ((owns child other).2 ((forest.owns_iff child other).2 way))

/-- A live node of a forest is laid out with all that it owns. -/
theorem layOut_ok (forest : tree.Forest) {fuel : Nat} {id : NodeId} {node : Node}
    (enough : tree.nodes.size < fuel + tree.depth id) (live : tree.node? id = some node) (offset : UInt64) :
    ∃ stop final, layOut fuel id offset tree = .ok stop final ∧ LaidOut tree id offset stop final := by
  induction fuel generalizing tree id node offset with
  | zero =>
      have bound := tree.depth_le id
      omega
  | succ fuel ih =>
      cases kind : node.kind with
      | leaf bytes =>
          exact ⟨_, _, layOut_of_stop live (by rw [kind]; rfl) live,
            forest.laidOut_childless live (by simp [kind]) (by simp [Fits, kind])⟩
      | pad padding =>
          exact ⟨_, _, layOut_of_stop live (by rw [kind]; rfl) live,
            forest.laidOut_childless live (by simp [kind]) (by simp [Fits, kind])⟩
      | container =>
          have found := shape?_of_some live
          obtain ⟨stop, between, run, row⟩ := forest.layRowOut (fun forest enough live => ih forest enough live)
            (forest.nodup id node.shape found) (fun child => forest.down id node.shape child found) enough offset
          obtain ⟨behind, laidOut⟩ := forest.laidOut_container live kind row
          exact ⟨stop, _, layOut_of_stop live (by rw [kind]; exact run) behind, laidOut⟩

/-- A node that stands at an offset and fits its place, with all that it owns, is laid out there as it is. -/
theorem layOut_of_settled (forest : tree.Forest) {fuel : Nat} {id : NodeId} {node : Node}
    (enough : tree.nodes.size < fuel + tree.depth id) (live : tree.node? id = some node)
    (settled : tree.Settled id) : layOut fuel id node.offset tree = .ok (node.offset + node.length) tree := by
  induction fuel generalizing id node with
  | zero =>
      have bound := tree.depth_le id
      omega
  | succ fuel ih =>
      have same : tree.placed id node.offset (node.offset + node.length - node.offset) = tree := by
        refine ext_node? (size_modifyNode ..) fun other => ?_
        by_cases here : other = id
        · rw [here, node?_placed live, add_sub_cancel_left, live]
        · exact node?_placed_of_ne here _ _
      obtain ⟨node', live', fits⟩ := settled id .top
      cases live'.symm.trans live
      refine (layOut_of_stop live ?_ live).trans (congrArg _ same)
      cases kind : node.kind with
      | leaf bytes =>
          simp only [Fits, kind] at fits
          rw [fits]
          rfl
      | pad padding =>
          simp only [Fits, kind] at fits
          rw [fits]
          rfl
      | container =>
          have found := shape?_of_some live
          simp only [Fits, kind] at fits
          have row {children : List NodeId} {start : UInt64} (inside : ∀ child ∈ children, child ∈ node.children)
              (tiles : tree.Tiles start children (node.offset + node.length)) :
              children.foldlM (fun offset child => layOut fuel child offset) start tree =
                .ok (node.offset + node.length) tree := by
            induction children generalizing start with
            | nil =>
                rw [show node.offset + node.length = start from tiles]
                rfl
            | cons child rest inner =>
                obtain ⟨below, here, rfl, behind⟩ := tiles
                have listed := inside child List.mem_cons_self
                have deeper := forest.depth_lt (forest.down id node.shape child found listed)
                have first := ih (by omega) here fun other owned =>
                  settled other (Owns.trans (.child .top live listed) owned)
                rw [List.foldlM_cons, Step.bind_ok first]
                exact inner (fun next later => inside next (List.mem_cons_of_mem _ later)) behind
          exact row (fun _ inside => inside) fits

/-- The layout does not depend on the fuel. -/
theorem layOut_fuel (forest : tree.Forest) {first second : Nat} {id : NodeId}
    (enough : tree.nodes.size < first + tree.depth id) (enough' : tree.nodes.size < second + tree.depth id)
    (offset : UInt64) : layOut first id offset tree = layOut second id offset tree := by
  have bound := tree.depth_le id
  induction first generalizing tree second id offset with
  | zero => omega
  | succ first ih =>
      obtain _ | second := second
      · omega
      cases live : tree.node? id with
      | none => rw [layOut_of_not_live live, layOut_of_not_live live]
      | some node =>
          have found := shape?_of_some live
          cases kind : node.kind with
          | leaf bytes =>
              rw [layOut_of_stop live (by rw [kind]; rfl) live, layOut_of_stop live (by rw [kind]; rfl) live]
          | pad padding =>
              rw [layOut_of_stop live (by rw [kind]; rfl) live, layOut_of_stop live (by rw [kind]; rfl) live]
          | container =>
              obtain ⟨stop, between, run, row⟩ := forest.layRowOut
                (fun forest enough live => forest.layOut_ok enough live) (forest.nodup id node.shape found)
                (fun child => forest.down id node.shape child found) enough offset
              have behind := (forest.laidOut_container live kind row).1
              have rows : node.children.foldlM (fun offset child => layOut first child offset) offset tree =
                  node.children.foldlM (fun offset child => layOut second child offset) offset tree := by
                refine Step.Leads.foldlM_congr (fun offset child _ => layOut_leads first child offset) .trans
                  (fun offset child inside current reshaped => ?_) offset (Rewritten.refl _ tree)
                have deeper := forest.depth_lt (forest.down id node.shape child found inside)
                have depth := depth_congr reshaped.size reshaped.shapes child
                have size := reshaped.size
                exact ih (forest.congr reshaped.shapes) (by omega) (by omega) offset (current.depth_le child)
              rw [layOut_of_stop live (by rw [kind]; exact run) behind,
                layOut_of_stop live (by rw [kind]; exact rows.symm.trans run) behind]

end Forest

end BlockTree
end DexArsc

namespace DexArsc.BlockTree

variable {tree final : BlockTree}

/-- The serialized form does not depend on the fuel. -/
theorem Forest.serialize_fuel (forest : tree.Forest) {first second : Nat} {id : NodeId}
    (enough : tree.nodes.size < first + tree.depth id) (enough' : tree.nodes.size < second + tree.depth id) :
    tree.serialize first id = tree.serialize second id := by
  have bound := tree.depth_le id
  induction first generalizing second id with
  | zero => omega
  | succ first ih =>
      obtain _ | second := second
      · omega
      unfold serialize
      cases live : tree.node? id with
      | none => rfl
      | some node =>
          cases kind : node.kind with
          | leaf bytes => simp only [kind]
          | pad padding => simp only [kind]
          | container =>
              simp only [kind]
              refine List.flatMap_congr fun child inside => ?_
              have deeper := forest.depth_lt
                (forest.down id node.shape child (shape?_of_some live) inside)
              exact ih (by omega) (by omega) (tree.depth_le child)

theorem toBytes_leaf {id : NodeId} {node : Node} {bytes : Bytes} (live : tree.node? id = some node)
    (kind : node.kind = .leaf bytes) : tree.toBytes id = bytes.toList := by
  rw [toBytes, serialize, live]
  simp only [kind]

theorem toBytes_of_leaf {id : NodeId} {bytes : Bytes} (found : tree.leaf id = .ok bytes) :
    tree.toBytes id = bytes.toList := by
  obtain ⟨node, live, kind⟩ := leaf_eq_ok.1 found
  exact toBytes_leaf live kind

theorem toBytes_pad {id : NodeId} {node : Node} {padding : Padding} (live : tree.node? id = some node)
    (kind : node.kind = .pad padding) : tree.toBytes id = List.replicate node.length.toNat padding.fill := by
  rw [toBytes, serialize, live]
  simp only [kind]

theorem Forest.toBytes_container (forest : tree.Forest) {id : NodeId} {node : Node}
    (live : tree.node? id = some node) (kind : node.kind = .container) :
    tree.toBytes id = node.children.flatMap tree.toBytes := by
  rw [toBytes, serialize, live]
  simp only [kind]
  refine List.flatMap_congr fun child inside => forest.serialize_fuel ?_ (by omega)
  have deeper := forest.depth_lt (forest.down id node.shape child (shape?_of_some live) inside)
  omega

/-- A node below another one writes no more bytes than that one. -/
theorem Forest.length_toBytes_le (forest : tree.Forest) {top id : NodeId} (owned : tree.Owns top id) :
    (tree.toBytes id).length ≤ (tree.toBytes top).length := by
  induction owned with
  | top => exact Nat.le_refl _
  | @child parent id node _ found inside ih =>
      have container := Node.content_eq_container.1 (forest.owner parent node.shape id (shape?_of_some found) inside)
      rw [forest.toBytes_container found container, List.flatMap_def] at ih
      exact Nat.le_trans (List.sublist_flatten_of_mem (List.mem_map_of_mem inside)).length_le ih

/-- What tiles a row writes as many bytes as the row is long, each child at its place, where both are counted modulo
2^64. -/
theorem Tiles.toBytes {start stop : UInt64} {row : List NodeId} (tiles : tree.Tiles start row stop)
    (lengths : ∀ id ∈ row, ∀ node, tree.node? id = some node →
      UInt64.ofNat (tree.toBytes id).length = node.length) :
    start + UInt64.ofNat (row.flatMap tree.toBytes).length = stop ∧
      ∀ id ∈ row, ∀ node, tree.node? id = some node → ∃ before behind,
        row.flatMap tree.toBytes = before ++ tree.toBytes id ++ behind ∧
          start + UInt64.ofNat before.length = node.offset := by
  induction row generalizing start with
  | nil => exact ⟨(UInt64.add_zero start).trans (Eq.symm tiles), by simp⟩
  | cons id rest ih =>
      obtain ⟨node, live, rfl, behind⟩ := tiles
      have length := lengths id List.mem_cons_self node live
      obtain ⟨whole, each⟩ := ih behind fun next inside => lengths next (List.mem_cons_of_mem _ inside)
      rw [List.flatMap_cons]
      refine ⟨by rw [List.length_append, UInt64.ofNat_add, length, ← UInt64.add_assoc, whole],
        fun next inside other here => ?_⟩
      by_cases same : next = id
      · subst same
        cases here.symm.trans live
        exact ⟨[], rest.flatMap tree.toBytes, rfl, UInt64.add_zero _⟩
      · obtain ⟨before, after, split, offset⟩ :=
          each next ((List.mem_cons.1 inside).resolve_left same) other here
        refine ⟨tree.toBytes id ++ before, after, by rw [split]; simp only [List.append_assoc], ?_⟩
        rw [List.length_append, UInt64.ofNat_add, length, ← UInt64.add_assoc, offset]

/-- A node in a row stands behind the bytes of the nodes before it, counted modulo 2^64. -/
theorem Tiles.offset {start stop : UInt64} {before behind : List NodeId} {id : NodeId}
    (tiles : tree.Tiles start (before ++ id :: behind) stop)
    (lengths : ∀ id ∈ before, ∀ node, tree.node? id = some node →
      UInt64.ofNat (tree.toBytes id).length = node.length) :
    ∃ node, tree.node? id = some node ∧
      node.offset = start + UInt64.ofNat (before.flatMap tree.toBytes).length := by
  induction before generalizing start with
  | nil =>
      obtain ⟨node, live, offset, _⟩ := tiles
      exact ⟨node, live, offset.trans (UInt64.add_zero start).symm⟩
  | cons first before ih =>
      obtain ⟨node, live, _, rest⟩ := tiles
      obtain ⟨other, here, offset⟩ := ih rest fun next inside => lengths next (List.mem_cons_of_mem _ inside)
      have length := lengths first List.mem_cons_self node live
      refine ⟨other, here, ?_⟩
      rw [List.flatMap_cons, List.length_append, UInt64.ofNat_add, length, offset, UInt64.add_assoc]

theorem Settled.below {top id : NodeId} (settled : tree.Settled top) (owned : tree.Owns top id) :
    tree.Settled id := fun other below => settled other (owned.trans below)

/-- A node that fits its place writes as many bytes as it is long, counted modulo 2^64. -/
theorem Settled.length_toBytes {id : NodeId} {node : Node} (settled : tree.Settled id) (forest : tree.Forest)
    (live : tree.node? id = some node) : UInt64.ofNat (tree.toBytes id).length = node.length := by
  induction id using forest.wellFounded_flip.induction generalizing node with
  | _ id ih =>
      obtain ⟨_, found, fits⟩ := settled id .top
      cases found.symm.trans live
      cases kind : node.kind with
      | leaf bytes =>
          simp only [Fits, kind] at fits
          rw [toBytes_leaf live kind, fits, Array.length_toList]
      | pad padding => rw [toBytes_pad live kind, List.length_replicate, UInt64.ofNat_toNat]
      | container =>
          simp only [Fits, kind] at fits
          rw [forest.toBytes_container live kind]
          have whole := (fits.toBytes fun child inside below here =>
            ih child (forest.down id node.shape child (shape?_of_some live) inside)
              (settled.below (.child .top live inside)) here).1
          exact add_left_cancel whole

/-- In a tree that fits its places, everything below a node writes its bytes at its place, counted modulo 2^64. -/
theorem Settled.toBytes {top id : NodeId} {above node : Node} (settled : tree.Settled top)
    (forest : tree.Forest) (root : tree.node? top = some above) (owned : tree.Owns top id)
    (live : tree.node? id = some node) : ∃ before behind,
      tree.toBytes top = before ++ tree.toBytes id ++ behind ∧
        above.offset + UInt64.ofNat before.length = node.offset := by
  induction owned generalizing node with
  | top =>
      cases root.symm.trans live
      exact ⟨[], [], by simp, UInt64.add_zero _⟩
  | @child parent id between owned found inside ih =>
      obtain ⟨before, behind, split, offset⟩ := ih found
      have container := Node.content_eq_container.1
        (forest.owner parent between.shape id (shape?_of_some found) inside)
      obtain ⟨_, here, fits⟩ := settled parent owned
      cases here.symm.trans found
      simp only [Fits, container] at fits
      obtain ⟨before', behind', split', offset'⟩ := (fits.toBytes fun child inside below here =>
        (settled.below (.child owned found inside)).length_toBytes forest here).2 id inside node live
      refine ⟨before ++ before', behind' ++ behind, ?_, ?_⟩
      · rw [split, forest.toBytes_container found container, split']
        simp only [List.append_assoc]
      · rw [List.length_append, UInt64.ofNat_add, ← UInt64.add_assoc, offset, offset']

end DexArsc.BlockTree
