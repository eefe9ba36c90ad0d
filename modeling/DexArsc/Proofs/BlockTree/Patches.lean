/-
The patches of a subtree in the order in which a refresh writes them. Their fields and values are fixed
before the first one is written, so that a refresh of a laid out tree is a row of writes.
-/

import DexArsc.Proofs.BlockTree.Field
import DexArsc.Proofs.BlockTree.Removal
import DexArsc.Proofs.Paired

namespace DexArsc

/-- The field of a patch. -/
def Patch.field : Patch → Field
  | .size field | .childCount _ field | .relativeOffset _ field | .length _ field => field

namespace BlockTree

open Relation (ReflTransGen)

variable {tree between final : BlockTree}

/-- The patches of a subtree of at most `fuel` levels with their owners: those of the children of a node
before its own. -/
def patchesTo (tree : BlockTree) : (fuel : Nat) → NodeId → List (NodeId × Patch)
  | 0, _ => []
  | fuel + 1, id =>
    match tree.shape? id with
    | none => []
    | some shape =>
      (shape.children.flatMap fun child => patchesTo tree fuel child) ++ shape.patches.map fun patch => (id, patch)

/-- The patches of a subtree with their owners, in the order in which they are written. -/
def patchesBelow (tree : BlockTree) (id : NodeId) : List (NodeId × Patch) :=
  tree.patchesTo (tree.nodes.size + 1) id

/-- The field and the value of a patch, as its owner and its target stand. -/
def entry (tree : BlockTree) (pair : NodeId × Patch) : Except Fault (Field × Nat) := do
  let node ← tree.node pair.1
  tree.patchValue node.offset node.length pair.2

/-- A patch is written. -/
def applyPatch (pair : NodeId × Patch) : Step BlockTree Unit := do
  let (field, value) ← (← get).entry pair
  writeField field value

theorem patchesTo_congr (same : final.shape? = tree.shape?) (fuel : Nat) (id : NodeId) :
    final.patchesTo fuel id = tree.patchesTo fuel id := by
  induction fuel generalizing id with
  | zero => rfl
  | succ fuel ih => simp only [patchesTo, same, ih]

theorem patchesBelow_congr (size : final.nodes.size = tree.nodes.size) (same : final.shape? = tree.shape?)
    (id : NodeId) : final.patchesBelow id = tree.patchesBelow id := by
  rw [patchesBelow, patchesBelow, size, patchesTo_congr same]

theorem patchValue_size (offset length : UInt64) (field : Field) :
    tree.patchValue offset length (.size field) = .ok (field, length.toNat) :=
  rfl

theorem patchValue_childCount {id : NodeId} {node : Node} (live : tree.node? id = some node) (offset length : UInt64)
    (field : Field) : tree.patchValue offset length (.childCount id field) = .ok (field, node.children.length) := by
  rw [patchValue, node_of_some live]
  rfl

theorem patchValue_length {id : NodeId} {node : Node} (live : tree.node? id = some node) (offset length : UInt64)
    (field : Field) : tree.patchValue offset length (.length id field) = .ok (field, node.length.toNat) := by
  rw [patchValue, node_of_some live]
  rfl

theorem patchValue_relativeOffset {id parent : NodeId} {node : Node} (live : tree.node? id = some node)
    (above : node.parent = some parent) (offset length : UInt64) (field : Field) :
    tree.patchValue offset length (.relativeOffset id field) =
      .ok (field, (node.offset - offset).toNat) := by
  obtain ⟨_, _, _, _, _, _, _⟩ := node
  cases above
  simp only [patchValue, live]
  rfl

theorem patchValue_relativeOffset_of_orphan {id : NodeId} (orphan : tree.parent? id = none) (offset length : UInt64)
    (field : Field) : tree.patchValue offset length (.relativeOffset id field) = .ok (field, 0) := by
  cases live : tree.node? id with
  | none =>
      simp only [patchValue, live]
      rfl
  | some node =>
      rw [parent?, live] at orphan
      obtain ⟨_, _, _, _, _, _, _⟩ := node
      cases orphan
      simp only [patchValue, live]
      rfl

/-- The value of a patch does not depend on bytes. -/
theorem Refilled.patchValue (refilled : Refilled tree final) (offset length : UInt64) (patch : Patch) :
    final.patchValue offset length patch = tree.patchValue offset length patch := by
  have target (id : NodeId) := refilled.node_cases id
  cases patch with
  | size field => rfl
  | childCount id field =>
      rcases target id with ⟨gone, gone'⟩ | ⟨node, other, live, here, same⟩
      · simp only [BlockTree.patchValue, node_of_none gone, node_of_none gone']
      · have children := congrArg Node.children same
        rw [Node.children_blank, Node.children_blank] at children
        rw [patchValue_childCount live, patchValue_childCount here, children]
  | length id field =>
      rcases target id with ⟨gone, gone'⟩ | ⟨node, other, live, here, same⟩
      · simp only [BlockTree.patchValue, node_of_none gone, node_of_none gone']
      · have length := congrArg Node.length same
        rw [Node.length_blank, Node.length_blank] at length
        rw [patchValue_length live, patchValue_length here, length]
  | relativeOffset id field =>
      have parents : final.parent? id = tree.parent? id := by
        rw [parent?_eq, refilled.shapes, ← parent?_eq]
      cases above : tree.parent? id with
      | none =>
          rw [patchValue_relativeOffset_of_orphan above, patchValue_relativeOffset_of_orphan (parents.trans above)]
      | some parent =>
          obtain ⟨node, live, up⟩ := Option.bind_eq_some_iff.1 above
          obtain ⟨other, here, up'⟩ := Option.bind_eq_some_iff.1 (parents.trans above)
          obtain ⟨other', here', same⟩ := refilled.node live
          cases here.symm.trans here'
          have offset := congrArg Node.offset same
          rw [Node.offset_blank, Node.offset_blank] at offset
          rw [patchValue_relativeOffset live up, patchValue_relativeOffset here up', offset]

theorem entry_of_some {pair : NodeId × Patch} {node : Node} (live : tree.node? pair.1 = some node) :
    tree.entry pair = tree.patchValue node.offset node.length pair.2 := by
  rw [entry, node_of_some live]
  rfl

theorem Refilled.entry (refilled : Refilled tree final) (pair : NodeId × Patch) :
    final.entry pair = tree.entry pair := by
  rcases refilled.node_cases pair.1 with ⟨gone, gone'⟩ | ⟨node, other, live, here, same⟩
  · rw [BlockTree.entry, BlockTree.entry, node_of_none gone, node_of_none gone']
    rfl
  · have length := congrArg Node.length same
    have offset := congrArg Node.offset same
    rw [Node.length_blank, Node.length_blank] at length
    rw [Node.offset_blank, Node.offset_blank] at offset
    rw [entry_of_some live, entry_of_some here, length, offset, refilled.patchValue]

/-- A patch fills its field. -/
theorem field_of_patchValue {offset length : UInt64} {patch : Patch} {entry : Field × Nat}
    (run : tree.patchValue offset length patch = .ok entry) : entry.1 = patch.field := by
  cases patch with
  | size field =>
      cases run
      rfl
  | childCount id field =>
      obtain ⟨node, _, run⟩ := Except.bind_eq_ok.1 run
      cases run
      rfl
  | length id field =>
      obtain ⟨node, _, run⟩ := Except.bind_eq_ok.1 run
      cases run
      rfl
  | relativeOffset id field =>
      cases above : tree.parent? id with
      | none =>
          rw [patchValue_relativeOffset_of_orphan above] at run
          cases run
          rfl
      | some parent =>
          obtain ⟨node, live, up⟩ := Option.bind_eq_some_iff.1 above
          rw [patchValue_relativeOffset live up] at run
          cases run
          rfl

theorem field_of_entry {pair : NodeId × Patch} {entry : Field × Nat} (run : tree.entry pair = .ok entry) :
    entry.1 = pair.2.field := by
  obtain ⟨node, _, run⟩ := Except.bind_eq_ok.1 run
  exact field_of_patchValue run

theorem writeField_refills (field : Field) (value : Nat) (tree : BlockTree) :
    (writeField field value).Leads Refilled tree :=
  ⟨(writeField_ensures field value tree).imp (fun _ _ written => written.2.refilled)
    fun _ same => same.1 ▸ .refl tree⟩

theorem applyPatch_refills (pair : NodeId × Patch) (tree : BlockTree) : (applyPatch pair).Leads Refilled tree := by
  unfold applyPatch
  exact .get (.check (.refl tree) fun entry _ => writeField_refills _ _ tree)

/-- The own patches of a node are written one after another. -/
theorem forM_own {id : NodeId} {node : Node} (live : tree.node? id = some node) :
    (node.patches.forM fun patch => do
      let (field, value) ← (← get).patchValue node.offset node.length patch
      writeField field value : Step BlockTree Unit) tree =
        (node.patches.map fun patch => (id, patch)).forM applyPatch tree := by
  rw [show (node.patches.map fun patch => (id, patch)).forM applyPatch =
    node.patches.forM fun patch => applyPatch (id, patch) from List.forM_map]
  refine (Step.Leads.forM_congr (fun patch _ => applyPatch_refills (id, patch)) .trans
    (fun patch _ current refilled => ?_) (Refilled.refl tree)).symm
  obtain ⟨other, here, same⟩ := refilled.node live
  have offset := congrArg Node.offset same
  have length := congrArg Node.length same
  rw [Node.offset_blank, Node.offset_blank] at offset
  rw [Node.length_blank, Node.length_blank] at length
  unfold applyPatch
  rw [Step.bind_ok (Step.get_apply _), Step.bind_ok (Step.get_apply _), entry_of_some here, offset, length]

/-- The patches of a subtree are written one after another. -/
theorem Forest.applyPatches_eq (forest : tree.Forest) {fuel : Nat} {id : NodeId} {node : Node}
    (enough : tree.nodes.size < fuel + tree.depth id) (live : tree.node? id = some node) :
    applyPatches fuel id tree = (tree.patchesTo fuel id).forM applyPatch tree := by
  have bound := tree.depth_le id
  induction fuel generalizing tree id node with
  | zero => omega
  | succ fuel ih =>
      have found := shape?_of_some live
      have below (child : NodeId) (inside : child ∈ node.children) : tree.Above id child :=
        forest.down id node.shape child found inside
      have rows : node.children.forM (fun child => applyPatches fuel child) tree =
          (node.children.flatMap fun child => tree.patchesTo fuel child).forM applyPatch tree := by
        rw [Step.forM_flatMap]
        refine (Step.Leads.forM_congr (fun child _ current => ?_) .trans
          (fun child inside current refilled => ?_) (Refilled.refl tree)).symm
        · exact .forM .refl .trans (fun pair _ => applyPatch_refills pair) current
        · have deeper := forest.depth_lt (below child inside)
          have depth := depth_congr refilled.size refilled.shapes child
          have size := refilled.size
          obtain ⟨other, here, _⟩ := Option.bind_eq_some_iff.1 (below child inside)
          obtain ⟨other', here', _⟩ := refilled.node here
          rw [ih (forest.congr refilled.shapes) (by omega) here' (current.depth_le child),
            patchesTo_congr refilled.shapes]
      have row : tree.patchesTo (fuel + 1) id = (node.children.flatMap fun child => tree.patchesTo fuel child) ++
          node.patches.map fun patch => (id, patch) := by
        rw [patchesTo, found]
        rfl
      unfold applyPatches
      rw [row, Step.bind_ok (Step.get_apply _), node_of_some live]
      refine (Step.bind_ok (Step.monadLift_ok node tree)).trans ?_
      rw [Step.forM_append, Step.bind_apply, Step.bind_apply, rows]
      cases run : (node.children.flatMap fun child => tree.patchesTo fuel child).forM applyPatch tree with
      | error fault between => rfl
      | ok value between =>
          have leads : ((node.children.flatMap fun child => tree.patchesTo fuel child).forM applyPatch).Leads
              Refilled tree := .forM .refl .trans (fun pair _ => applyPatch_refills pair) tree
          obtain ⟨other, here, same⟩ := (leads.ensures.ok run).node live
          have patches := congrArg Node.patches same
          rw [Node.patches_blank, Node.patches_blank] at patches
          simp only
          rw [Step.bind_ok (Step.get_apply _), node_of_some here, ← patches]
          exact (Step.bind_ok (Step.monadLift_ok other between)).trans (forM_own here)

/-- Only patches of a subtree are written. -/
theorem mem_of_mem_patchesTo {fuel : Nat} {id : NodeId} {pair : NodeId × Patch}
    (inside : pair ∈ tree.patchesTo fuel id) : tree.Owns id pair.1 ∧
      ∃ node, tree.node? pair.1 = some node ∧ pair.2 ∈ node.patches := by
  induction fuel generalizing id with
  | zero => cases inside
  | succ fuel ih =>
      unfold patchesTo at inside
      split at inside
      · cases inside
      · rename_i shape found
        rcases List.mem_append.1 inside with below | own
        · obtain ⟨child, listed, below⟩ := List.mem_flatMap.1 below
          rw [← children_of_shape? found] at listed
          obtain ⟨owned, source⟩ := ih below
          exact ⟨(Owns.top.of_mem_children listed).trans owned, source⟩
        · obtain ⟨patch, listed, rfl⟩ := List.mem_map.1 own
          obtain ⟨node, live, rfl⟩ := Option.map_eq_some_iff.1 found
          exact ⟨.top, node, live, listed⟩

/-- All patches of a subtree are written. -/
theorem Forest.mem_patchesTo (forest : tree.Forest) {fuel : Nat} {id owner : NodeId} {node : Node} {patch : Patch}
    (enough : tree.nodes.size < fuel + tree.depth id) (way : ReflTransGen tree.Above id owner)
    (live : tree.node? owner = some node) (inside : patch ∈ node.patches) :
    (owner, patch) ∈ tree.patchesTo fuel id := by
  induction fuel generalizing id with
  | zero =>
      have bound := tree.depth_le id
      omega
  | succ fuel ih =>
      unfold patchesTo
      rcases way.cases_head with rfl | ⟨child, here, further⟩
      · rw [shape?_of_some live]
        exact List.mem_append_right _ (List.mem_map_of_mem inside)
      · obtain ⟨shape, found, _, listed⟩ := forest.parent here
        have deeper := forest.depth_lt here
        rw [found]
        exact List.mem_append_left _ (List.mem_flatMap.2 ⟨child, listed, ih (by omega) further⟩)

/-- A row of patches has these fields and values, and the fields take them. -/
structure Planned (tree : BlockTree) (pairs : List (NodeId × Patch)) (entries : List (Field × Nat)) : Prop where
  each : List.Forall₂ (fun pair entry => tree.entry pair = .ok entry) pairs entries
  takes : ∀ entry ∈ entries, tree.Takes entry

theorem Refilled.planned (refilled : Refilled tree final) {pairs : List (NodeId × Patch)}
    {entries : List (Field × Nat)} (planned : tree.Planned pairs entries) : final.Planned pairs entries where
  each := planned.each.imp fun pair _ run => (refilled.entry pair).trans run
  takes entry inside := refilled.takes (planned.takes entry inside)

/-- A row of patches that is written. -/
theorem planned_of_ok {tree final : BlockTree} {pairs : List (NodeId × Patch)}
    (run : pairs.forM applyPatch tree = .ok () final) :
    ∃ entries, tree.Planned pairs entries ∧ Overwritten entries tree final := by
  induction pairs generalizing tree with
  | nil =>
      cases run
      exact ⟨[], ⟨.nil, by simp⟩, .refl _⟩
  | cons pair rest ih =>
      rw [Step.forM_cons] at run
      obtain ⟨_, between, first, run⟩ := Step.bind_eq_ok.1 run
      rw [applyPatch, Step.bind_ok (Step.get_apply _)] at first
      obtain ⟨⟨field, value⟩, here, written⟩ := Step.check_eq_ok.1 first
      obtain ⟨takes, once⟩ := (writeField_ensures field value tree).ok written
      obtain ⟨entries, planned, behind⟩ := ih run
      have planned := once.refilled.symm.planned planned
      refine ⟨(field, value) :: entries, ⟨.cons here planned.each, fun entry inside => ?_⟩, once.trans behind⟩
      rcases List.mem_cons.1 inside with rfl | inside
      · exact takes
      · exact planned.takes entry inside

/-- The entry of a patch stands between those of the patches before and behind it. -/
theorem Planned.split {before behind : List (NodeId × Patch)} {pair : NodeId × Patch} {entries : List (Field × Nat)}
    (planned : tree.Planned (before ++ pair :: behind) entries) : ∃ first entry second,
      entries = first ++ entry :: second ∧ tree.entry pair = .ok entry ∧
        ∀ later ∈ second, ∃ patch ∈ behind, later.1 = patch.2.field := by
  have each := planned.each
  clear planned
  induction before generalizing entries with
  | nil =>
      cases each with
      | @cons _ entry _ second here rest =>
          refine ⟨[], entry, second, rfl, here, fun later inside => ?_⟩
          obtain ⟨patch, there, run⟩ := forall₂_mem rest inside
          exact ⟨patch, there, field_of_entry run⟩
  | cons other before ih =>
      cases each with
      | @cons _ first _ entries _ rest =>
          obtain ⟨front, entry, second, rfl, found⟩ := ih rest
          exact ⟨first :: front, entry, second, rfl, found⟩

/-- A row of patches whose fields take their values is written. -/
theorem Planned.ok {tree : BlockTree} {pairs : List (NodeId × Patch)} {entries : List (Field × Nat)}
    (planned : tree.Planned pairs entries) :
    ∃ final, pairs.forM applyPatch tree = .ok () final ∧ Overwritten entries tree final := by
  induction pairs generalizing tree entries with
  | nil =>
      cases planned.each
      exact ⟨tree, rfl, .refl tree⟩
  | cons pair rest ih =>
      obtain ⟨_ | ⟨here, each⟩, takes⟩ := planned
      rename_i entry entries
      have ensures := writeField_ensures entry.1 entry.2 tree
      cases run : writeField entry.1 entry.2 tree with
      | error fault between => exact absurd (takes entry List.mem_cons_self) (ensures.error run).2
      | ok value between =>
          have once := (ensures.ok run).2
          have later : tree.Planned rest entries := ⟨each, fun entry inside => takes entry (List.mem_cons_of_mem _ inside)⟩
          obtain ⟨final, behind, overwritten⟩ := ih (once.refilled.planned later)
          have first : applyPatch pair tree = .ok () between := by
            unfold applyPatch
            rw [Step.bind_ok (Step.get_apply _), here]
            exact run
          exact ⟨final, by rw [Step.forM_cons, Step.bind_ok first, behind], once.trans overwritten⟩

end BlockTree
end DexArsc
