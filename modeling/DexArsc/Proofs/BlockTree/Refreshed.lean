/-
A tree behind a refresh. Every node below the root fits its place, the serialized form shows it there,
every field reads back what its patch says, and a second refresh changes nothing. The offset of a node that the
root does not reach is zero without a parent, and otherwise tells the place that an earlier refresh gave it.
-/

import DexArsc.Proofs.BlockTree.Patches
import DexArsc.Proofs.BlockTree.Run
import Mathlib.Algebra.Ring.Nat

namespace DexArsc.BlockTree

open Relation (ReflTransGen TransGen)

variable {tree between final : BlockTree}

theorem Moved.leaf_eq {inside : NodeId → Prop} (moved : Moved inside tree final) (id : NodeId) :
    final.leaf id = tree.leaf id := by
  cases live : tree.node? id with
  | none =>
      have gone := moved.nodes id
      rw [live] at gone
      exact leaf_congr ((Option.map_eq_none_iff.1 gone).trans live.symm)
  | some node =>
      obtain ⟨offset, length, here⟩ := moved.node live
      rw [leaf, leaf, node_of_some live, node_of_some here]
      rfl

theorem Refilled.owns_iff (refilled : Refilled tree final) (top id : NodeId) :
    final.Owns top id ↔ tree.Owns top id := by
  have children (id : NodeId) : final.children id = tree.children id := by
    rw [children_eq, refilled.shapes, ← children_eq]
  exact ⟨.congr fun id => (children id).symm, .congr children⟩

theorem Refilled.tiles (refilled : Refilled tree final) {start stop : UInt64} {row : List NodeId}
    (tiles : tree.Tiles start row stop) : final.Tiles start row stop := by
  induction row generalizing start with
  | nil => exact tiles
  | cons id rest ih =>
      obtain ⟨node, live, offset, behind⟩ := tiles
      obtain ⟨other, here, same⟩ := refilled.node live
      have offset' := congrArg Node.offset same
      have length := congrArg Node.length same
      rw [Node.offset_blank, Node.offset_blank] at offset'
      rw [Node.length_blank, Node.length_blank] at length
      exact ⟨other, here, offset'.trans offset, length ▸ ih behind⟩

/-- A node fits its place with other bytes as well. -/
theorem Refilled.fits (refilled : Refilled tree final) {node other : Node} (same : other.blank = node.blank)
    (fits : tree.Fits node) : final.Fits other := by
  by_cases isLeaf : ∃ bytes, node.kind = .leaf bytes
  · obtain ⟨bytes, kind⟩ := isLeaf
    obtain ⟨bytes', size, rfl⟩ := Node.leaf_of_blank same kind
    simp only [Fits, kind] at fits ⊢
    rw [fits, size]
  · have no (bytes : Bytes) : node.kind ≠ .leaf bytes := fun kind => isLeaf ⟨bytes, kind⟩
    cases Node.eq_of_blank same no
    unfold Fits at fits ⊢
    split
    · rename_i bytes kind
      exact absurd kind (no bytes)
    · rename_i kind
      simpa only [kind] using fits
    · rename_i kind
      simp only [kind] at fits
      exact refilled.tiles fits

theorem Refilled.settled (refilled : Refilled tree final) {top : NodeId} (settled : tree.Settled top) :
    final.Settled top := by
  intro id owned
  obtain ⟨node, live, fits⟩ := settled id ((refilled.owns_iff top id).1 owned)
  obtain ⟨other, here, same⟩ := refilled.node live
  exact ⟨other, here, refilled.fits same fits⟩

/-- A refresh lays a subtree out and writes its patches. -/
structure RefreshRun (tree : BlockTree) (root : NodeId) (size : UInt64) (between : BlockTree)
    (entries : List (Field × Nat)) (final : BlockTree) : Prop where
  laidOut : LaidOut tree root 0 size between
  planned : between.Planned (between.patchesBelow root) entries
  overwritten : Overwritten entries between final

theorem Forest.refresh_run (forest : tree.Forest) {root : NodeId} {size : UInt64}
    (run : refresh root tree = .ok size final) :
    ∃ between entries, RefreshRun tree root size between entries final := by
  unfold refresh at run
  rw [Step.bind_ok (Step.get_apply _)] at run
  obtain ⟨stop, between, first, run⟩ := Step.bind_eq_ok.1 run
  rw [Step.bind_ok (Step.get_apply _)] at run
  obtain ⟨_, last, second, run⟩ := Step.bind_eq_ok.1 run
  cases run
  cases live : tree.node? root with
  | none =>
      rw [layOut_of_not_live live] at first
      cases first
  | some node =>
      have enough : tree.nodes.size < tree.nodes.size + 1 + tree.depth root := by omega
      obtain ⟨_, _, same, laidOut⟩ := forest.layOut_ok enough live 0
      cases same.symm.trans first
      obtain ⟨after, here, _⟩ := laidOut.here
      have enough' : between.nodes.size < between.nodes.size + 1 + between.depth root := by omega
      rw [(forest.congr laidOut.moved.shapes).applyPatches_eq enough' here] at second
      obtain ⟨entries, planned, overwritten⟩ := planned_of_ok second
      exact ⟨between, entries, laidOut, planned, overwritten⟩

/-- Wherever a refresh ends, the node is laid out, and the writing of its patches ends there. -/
theorem Forest.refresh_ends (forest : tree.Forest) {root : NodeId} {node : Node} (live : tree.node? root = some node)
    (ends : (refresh root).Ends tree final) : ∃ stop between, LaidOut tree root 0 stop between ∧
      ((between.patchesBelow root).forM applyPatch).Ends between final := by
  obtain ⟨stop, between, first, laidOut⟩ := forest.layOut_ok
    (show tree.nodes.size < tree.nodes.size + 1 + _ by omega) live 0
  obtain ⟨_, live', _⟩ := laidOut.here
  have patches := (forest.congr laidOut.moved.shapes).applyPatches_eq
    (show between.nodes.size < between.nodes.size + 1 + _ by omega) live'
  refine ⟨stop, between, laidOut, ?_⟩
  unfold refresh at ends
  rcases ends with ⟨_, run⟩ | ⟨_, run⟩
  · rw [Step.bind_ok (Step.get_apply _), Step.bind_ok first, Step.bind_ok (Step.get_apply _)] at run
    obtain ⟨_, _, second, rest⟩ := Step.bind_eq_ok.1 run
    cases rest
    exact Step.ends_ok (patches.symm.trans second)
  · rw [Step.bind_ok (Step.get_apply _), Step.bind_ok first, Step.bind_ok (Step.get_apply _)] at run
    rcases Step.bind_eq_error.1 run with second | ⟨_, _, _, rest⟩
    · exact Step.ends_error (patches.symm.trans second)
    · cases rest

namespace RefreshRun

variable {root : NodeId} {size : UInt64} {entries : List (Field × Nat)}

theorem shapes (run : RefreshRun tree root size between entries final) : final.shape? = tree.shape? :=
  run.overwritten.refilled.shapes.trans run.laidOut.moved.shapes

theorem size_eq (run : RefreshRun tree root size between entries final) :
    final.nodes.size = tree.nodes.size :=
  run.overwritten.refilled.size.trans run.laidOut.moved.size

theorem patchesBelow_eq (run : RefreshRun tree root size between entries final) :
    final.patchesBelow root = between.patchesBelow root :=
  patchesBelow_congr run.overwritten.refilled.size run.overwritten.refilled.shapes root

theorem settled (run : RefreshRun tree root size between entries final) : final.Settled root :=
  run.overwritten.refilled.settled run.laidOut.settled

theorem here (run : RefreshRun tree root size between entries final) :
    ∃ node, final.node? root = some node ∧ node.offset = 0 ∧ node.length = size := by
  obtain ⟨node, live, start, length⟩ := run.laidOut.here
  obtain ⟨other, here, same⟩ := run.overwritten.refilled.node live
  have offset := congrArg Node.offset same
  have length' := congrArg Node.length same
  rw [Node.offset_blank, Node.offset_blank] at offset
  rw [Node.length_blank, Node.length_blank] at length'
  exact ⟨other, here, offset.trans start, length'.trans (by rw [← length, UInt64.zero_add])⟩

theorem planned_final (run : RefreshRun tree root size between entries final) :
    final.Planned (final.patchesBelow root) entries :=
  run.patchesBelow_eq ▸ run.overwritten.refilled.planned run.planned

/-- A second refresh changes nothing. -/
theorem again (run : RefreshRun tree root size between entries final) (forest : tree.Forest) :
    refresh root final = .ok size final := by
  have forest' := forest.congr run.shapes
  obtain ⟨node, live, offset, length⟩ := run.here
  have enough : final.nodes.size < final.nodes.size + 1 + final.depth root := by omega
  have first := forest'.layOut_of_settled enough live run.settled
  rw [offset, length, UInt64.zero_add] at first
  obtain ⟨third, second, overwritten⟩ := run.planned_final.ok
  cases run.overwritten.again overwritten
  have second' : applyPatches (final.nodes.size + 1) root final = .ok () final :=
    (forest'.applyPatches_eq enough live).trans second
  unfold refresh
  rw [Step.bind_ok (Step.get_apply _), Step.bind_ok first, Step.bind_ok (Step.get_apply _), Step.bind_ok second']
  rfl

end RefreshRun

/-- The number that a patch of a node stands for. -/
def States (tree : BlockTree) (root : NodeId) (owner : Node) : Patch → Nat → Prop
  | .size _, value => value = owner.length.toNat
  | .childCount target _, value => tree.isLive target = true ∧ value = (tree.children target).length
  | .length target _, value => ∃ node, tree.node? target = some node ∧ value = node.length.toNat
  | .relativeOffset target _, value =>
    (tree.parent? target = none → value = 0) ∧
    (TransGen tree.Above root target → ∃ node, tree.node? target = some node ∧
      value = (node.offset - owner.offset).toNat)

/-- What every refresh at a root leaves, also one whose offsets pass 2^64 and begin again at zero. -/
structure FieldsWritten (tree : BlockTree) (root : NodeId) (size : UInt64) (final : BlockTree) : Prop where
  /-- Only places and bytes change. -/
  shapes : final.shape? = tree.shape?
  top : ∃ node, final.node? root = some node ∧ node.offset = 0 ∧ node.length = size
  /-- Leaves and padding nodes have the length of their content, and children tile their container, modulo 2^64. -/
  fits : ∀ id, ReflTransGen final.Above root id → ∃ node, final.node? id = some node ∧ final.Fits node
  listed : ∀ owner node patch, ReflTransGen final.Above root owner → final.node? owner = some node →
    patch ∈ node.patches → (owner, patch) ∈ final.patchesBelow root
  /-- A field reads back what its patch says, unless a later patch writes into it. -/
  patches : ∀ before owner patch behind node, final.patchesBelow root = before ++ (owner, patch) :: behind →
    final.node? owner = some node → (∀ later ∈ behind, ¬patch.field.Overlaps later.2.field) →
      ∃ value, final.readField patch.field = .ok value ∧ value < UInt32.size ∧ final.States root node patch value
  /-- A byte that no patch writes stays. -/
  leaves : ∀ id bytes, tree.leaf id = .ok bytes → ∃ bytes', final.leaf id = .ok bytes' ∧
    bytes'.size = bytes.size ∧ ∀ place, (∀ pair ∈ final.patchesBelow root, ¬pair.2.field.Covers id place) →
      bytes'[place]? = bytes[place]?
  again : refresh root final = .ok size final

/-- A tree that was refreshed at a root, with every node at its exact place. -/
structure Refreshed (tree : BlockTree) (root : NodeId) (size : UInt64) (final : BlockTree) : Prop extends
    FieldsWritten tree root size final where
  leaf : ∀ id node bytes, ReflTransGen final.Above root id → final.node? id = some node →
    node.kind = .leaf bytes → node.length.toNat = bytes.size
  padding : ∀ id node padding, ReflTransGen final.Above root id → final.node? id = some node →
    node.kind = .pad padding → node.length = padding.sizeAt node.offset
  /-- A child stands behind the children before it, the first one at the place of the container. -/
  tiles : ∀ owner node before child behind, ReflTransGen final.Above root owner → final.node? owner = some node →
    node.children = before ++ child :: behind → ∃ below, final.node? child = some below ∧
      below.offset.toNat = node.offset.toNat + (before.map fun id => (final.byteCount id).toNat).sum
  sum : ∀ id node, ReflTransGen final.Above root id → final.node? id = some node → node.kind = .container →
    node.length.toNat = (node.children.map fun id => (final.byteCount id).toNat).sum
  length_toBytes : (final.toBytes root).length = size.toNat
  /-- The bytes at a node's place are what the node writes. -/
  toBytes : ∀ id node, ReflTransGen final.Above root id → final.node? id = some node →
    ((final.toBytes root).drop node.offset.toNat).take node.length.toNat = final.toBytes id
  /-- A relative offset leads from its owner to its target. -/
  distance : ∀ owner target node below, ReflTransGen final.Above root owner → final.node? owner = some node →
    TransGen final.Above root target → final.node? target = some below → size.toNat + UInt32.size ≤ UInt64.size →
      (below.offset - node.offset).toNat < UInt32.size →
        node.offset.toNat + (below.offset - node.offset).toNat = below.offset.toNat

/-- A settled node below a top at zero stands at the number of bytes before it, as long as the top writes fewer
than 2^64 bytes. -/
theorem Settled.exact {top id : NodeId} {above node : Node} (settled : tree.Settled top) (forest : tree.Forest)
    (root : tree.node? top = some above) (start : above.offset = 0)
    (small : (tree.toBytes top).length < UInt64.size) (owned : tree.Owns top id)
    (live : tree.node? id = some node) : ∃ before behind,
      tree.toBytes top = before ++ tree.toBytes id ++ behind ∧ before.length = node.offset.toNat ∧
        (tree.toBytes id).length = node.length.toNat := by
  obtain ⟨before, behind, split, place⟩ := settled.toBytes forest root owned live
  have length := (settled.below owned).length_toBytes forest live
  have whole := congrArg List.length split
  rw [List.length_append, List.length_append] at whole
  rw [start, UInt64.zero_add] at place
  refine ⟨before, behind, split, ?_, ?_⟩
  · rw [← place, UInt64.toNat_ofNat_of_lt' (by omega)]
  · rw [← length, UInt64.toNat_ofNat_of_lt' (by omega)]

namespace RefreshRun

variable {root : NodeId} {size : UInt64} {entries : List (Field × Nat)}

/-- The value of a patch below the root is what it stands for. -/
theorem states {owner : NodeId} {patch : Patch} {node : Node} {value : Nat}
    (live : final.node? owner = some node) (entry : final.entry (owner, patch) = .ok (patch.field, value)) :
    final.States root node patch value := by
  rw [entry_of_some live] at entry
  cases patch with
  | size field =>
      cases entry
      rfl
  | childCount target field =>
      obtain ⟨other, here, same⟩ := Except.bind_eq_ok.1 entry
      cases same
      have here := node_eq_ok.1 here
      exact ⟨isLive_iff.2 ⟨other, here⟩, by rw [children_of_node? here]⟩
  | length target field =>
      obtain ⟨other, here, same⟩ := Except.bind_eq_ok.1 entry
      cases same
      exact ⟨other, node_eq_ok.1 here, rfl⟩
  | relativeOffset target field =>
      refine ⟨fun orphan => ?_, fun way => ?_⟩
      · rw [patchValue_relativeOffset_of_orphan orphan] at entry
        cases entry
        rfl
      · obtain ⟨parent, _, above⟩ := TransGen.tail'_iff.1 way
        obtain ⟨other, here, up⟩ := Option.bind_eq_some_iff.1 above
        rw [patchValue_relativeOffset here up] at entry
        cases entry
        exact ⟨other, here, rfl⟩

theorem fieldsWritten (run : RefreshRun tree root size between entries final) (forest : tree.Forest) :
    FieldsWritten tree root size final := by
  have forest' := forest.congr run.shapes
  exact {
    shapes := run.shapes
    top := run.here
    fits := fun id way => run.settled id ((forest'.owns_iff root id).2 way)
    listed := fun owner node patch way live inside => forest'.mem_patchesTo (by omega) way live inside
    patches := fun before owner patch behind node row live apart => by
      obtain ⟨first, ⟨field, value⟩, second, rfl, entry, later⟩ := (row ▸ run.planned_final).split
      cases field_of_entry entry
      have takes := run.planned.takes (patch.field, value) (List.mem_append_right _ List.mem_cons_self)
      refine ⟨value, run.overwritten.readField takes fun other inside => ?_,
        takes.2.trans_le (Field.capacity_le patch.field), states live entry⟩
      obtain ⟨next, listed, same⟩ := later other inside
      exact same ▸ apart next listed
    leaves := fun id bytes found => by
      obtain ⟨bytes', found', size⟩ := run.overwritten.refilled.leaf ((run.laidOut.moved.leaf_eq id).trans found)
      refine ⟨bytes', found', size, fun place uncovered => ?_⟩
      have byte := run.overwritten.bytes id place
      rw [byte?_of_leaf found', byte?_of_leaf ((run.laidOut.moved.leaf_eq id).trans found)] at byte
      refine byte.trans (overlay_of_uncovered (fun entry inside => ?_) _)
      obtain ⟨pair, listed, here⟩ := forall₂_mem run.planned_final.each inside
      rw [field_of_entry here]
      exact uncovered pair listed
    again := run.again forest }

end RefreshRun

theorem Forest.fieldsWritten (forest : tree.Forest) {root : NodeId} {size : UInt64}
    (run : refresh root tree = .ok size final) : FieldsWritten tree root size final := by
  obtain ⟨between, entries, run⟩ := forest.refresh_run run
  exact run.fieldsWritten forest

/-- A refresh leaves exact places when the root writes fewer than 2^64 bytes. -/
theorem FieldsWritten.refreshed {root : NodeId} {size : UInt64} (written : FieldsWritten tree root size final)
    (forest : tree.Forest) (small : (final.toBytes root).length < UInt64.size) :
    Refreshed tree root size final := by
  have forest' := forest.congr written.shapes
  have owns {id : NodeId} (way : ReflTransGen final.Above root id) := (forest'.owns_iff root id).2 way
  have settled : final.Settled root := fun id owned => written.fits id ((forest'.owns_iff root id).1 owned)
  obtain ⟨above, top, start, length⟩ := written.top
  have exact {id : NodeId} {node : Node} (owned : final.Owns root id) (live : final.node? id = some node) :=
    settled.exact forest' top start small owned live
  have count {id : NodeId} (owned : final.Owns root id) :
      (final.toBytes id).length = (final.byteCount id).toNat := by
    obtain ⟨node, live, _⟩ := settled id owned
    obtain ⟨_, _, _, _, own⟩ := exact owned live
    rw [own, byteCount, live]
  have row {ids : List NodeId} (owned : ∀ id ∈ ids, final.Owns root id) :
      (ids.flatMap final.toBytes).length = (ids.map fun id => (final.byteCount id).toNat).sum := by
    rw [List.length_flatMap]
    exact congrArg List.sum (List.map_congr_left fun id inside => count (owned id inside))
  have within {id : NodeId} {node : Node} (owned : final.Owns root id) (live : final.node? id = some node) :
      node.offset.toNat + node.length.toNat ≤ size.toNat := by
    obtain ⟨before, behind, split, place, own⟩ := exact owned live
    obtain ⟨_, _, _, _, whole⟩ := exact .top top
    have sizes := congrArg List.length split
    rw [List.length_append, List.length_append] at sizes
    rw [← length]
    omega
  exact { written with
    leaf := fun id node bytes way live kind => by
      obtain ⟨_, _, _, _, own⟩ := exact (owns way) live
      rw [← own, toBytes_leaf live kind, Array.length_toList]
    padding := fun id node padding way live kind => by
      obtain ⟨_, here, fits⟩ := written.fits id way
      cases here.symm.trans live
      simpa only [Fits, kind] using fits
    tiles := fun owner node before child behind way live children => by
      have container := Node.content_eq_container.1 (forest'.owner owner node.shape child (shape?_of_some live)
        (by rw [Node.shape, children]; simp))
      obtain ⟨_, here, fits⟩ := written.fits owner way
      cases here.symm.trans live
      simp only [Fits, container, children] at fits
      have inside (id : NodeId) (listed : id ∈ node.children) : final.Owns root id :=
        .child (owns way) live listed
      have first (id : NodeId) (listed : id ∈ before) : final.Owns root id :=
        inside id (children ▸ List.mem_append_left _ listed)
      obtain ⟨below, there, offset⟩ := fits.offset fun id listed other here =>
        (settled.below (first id listed)).length_toBytes forest' here
      have bound := within (owns way) live
      have bound' := size.toNat_lt
      obtain ⟨_, _, _, _, own⟩ := exact (owns way) live
      rw [forest'.toBytes_container live container, children, List.flatMap_append, List.length_append,
        row first] at own
      refine ⟨below, there, ?_⟩
      rw [offset, row first, UInt64.toNat_add, UInt64.toNat_ofNat_of_lt' (by simp only [UInt64.size]; omega)]
      exact Nat.mod_eq_of_lt (by omega)
    sum := fun id node way live kind => by
      obtain ⟨_, _, _, _, own⟩ := exact (owns way) live
      rw [← own, forest'.toBytes_container live kind, row fun child listed => .child (owns way) live listed]
    length_toBytes := by
      obtain ⟨_, _, _, _, own⟩ := exact .top top
      rw [own, length]
    toBytes := fun id node way live => by
      obtain ⟨before, behind, split, place, own⟩ := exact (owns way) live
      rw [split, ← place, List.append_assoc, List.drop_left, ← own, List.take_left]
    distance := fun owner target node below way live way' live' room fits => by
      have low := within (owns way) live
      have high := within (owns way'.to_reflTransGen) live'
      rw [UInt64.toNat_sub] at fits ⊢
      simp only [UInt64.size, UInt32.size] at room fits ⊢
      omega }

/-- A refresh of a tree on the way of a run writes what its patches say, and the places that it gives are exact unless
the root writes 2^64 bytes or more. -/
theorem refreshed_of_reached (reached : Reached tree) {root : NodeId} {size : UInt64}
    (run : refresh root tree = .ok size final) : FieldsWritten tree root size final ∧
      ((final.toBytes root).length < UInt64.size → Refreshed tree root size final) :=
  ⟨reached.forest.fieldsWritten run, (reached.forest.fieldsWritten run).refreshed reached.forest⟩

/-- A header with a size, a byte and padding up to the next word. -/
theorem refreshed_chunk : ∃ tree final : BlockTree, Reached tree ∧ refresh ⟨0⟩ tree = .ok 8 final ∧
    final.toBytes ⟨0⟩ = [8, 0, 0, 0, 7, 0, 0, 0] ∧ Refreshed tree ⟨0⟩ 8 final := by
  have root : Reached _ := .edit (.newContainer 0) .empty (Step.ends_ok rfl)
  have header : Reached _ := .edit (.newLeaf 0 #[0, 0, 0, 0]) root (Step.ends_ok rfl)
  have byte : Reached _ := .edit (.newLeaf 0 #[7]) header (Step.ends_ok rfl)
  have padding : Reached _ := .edit (.newPad {}) byte (Step.ends_ok rfl)
  have first : Reached _ := .edit (.addChild ⟨0⟩ ⟨1⟩) padding (Step.ends_ok rfl)
  have second : Reached _ := .edit (.addChild ⟨0⟩ ⟨2⟩) first (Step.ends_ok rfl)
  have third : Reached _ := .edit (.addChild ⟨0⟩ ⟨3⟩) second (Step.ends_ok rfl)
  have patched : Reached _ := .edit (.addPatch ⟨0⟩ (.size (.word ⟨1⟩ 0))) third (Step.ends_ok rfl)
  exact ⟨_, _, patched, rfl, rfl, (refreshed_of_reached patched rfl).2 (by decide)⟩

/-- Two bytes, each with padding up to a multiple of 2^63 behind it. -/
def twoPaddings : BlockTree where
  nodes := #[
    some {
      kind := .container
      tag := 0
      children := [⟨1⟩, ⟨2⟩, ⟨3⟩, ⟨4⟩] },
    some {
      kind := .leaf #[1]
      tag := 0
      parent := some ⟨0⟩
      length := 1 },
    some {
      kind := .pad { alignment := 0x8000000000000000 }
      tag := 0
      parent := some ⟨0⟩ },
    some {
      kind := .leaf #[1]
      tag := 0
      parent := some ⟨0⟩
      length := 1 },
    some {
      kind := .pad { alignment := 0x8000000000000000 }
      tag := 0
      parent := some ⟨0⟩ }]

/-- The places of the two bytes with their padding end at 2^64, so that their container has the length zero while
its children are 2^64 bytes long together. -/
theorem not_refreshed_twoPaddings : ∃ final, twoPaddings.Reached ∧ refresh ⟨0⟩ twoPaddings = .ok 0 final ∧
    ((final.children ⟨0⟩).map fun id => (final.byteCount id).toNat).sum = UInt64.size ∧
    ¬Refreshed twoPaddings ⟨0⟩ 0 final := by
  have root : Reached _ := .edit (.newContainer 0) .empty (Step.ends_ok rfl)
  have byte : Reached _ := .edit (.newLeaf 0 #[1]) root (Step.ends_ok rfl)
  have padding : Reached _ := .edit (.newPad { alignment := 0x8000000000000000 }) byte (Step.ends_ok rfl)
  have byte' : Reached _ := .edit (.newLeaf 0 #[1]) padding (Step.ends_ok rfl)
  have padding' : Reached _ := .edit (.newPad { alignment := 0x8000000000000000 }) byte' (Step.ends_ok rfl)
  have first : Reached _ := .edit (.addChild ⟨0⟩ ⟨1⟩) padding' (Step.ends_ok rfl)
  have second : Reached _ := .edit (.addChild ⟨0⟩ ⟨2⟩) first (Step.ends_ok rfl)
  have third : Reached _ := .edit (.addChild ⟨0⟩ ⟨3⟩) second (Step.ends_ok rfl)
  have reached : twoPaddings.Reached := .edit (.addChild ⟨0⟩ ⟨4⟩) third (Step.ends_ok rfl)
  exact ⟨_, reached, rfl, by decide, fun refreshed => absurd (refreshed.sum ⟨0⟩ _ .refl rfl rfl) (by decide)⟩

variable {root : NodeId} {size : UInt64}

/-- What a refresh leaves as the offset of a target that it does not reach, from an owner at a place. -/
structure Unreached (tree : BlockTree) (target : NodeId) (place : UInt64) (value : Nat) : Prop where
  orphan : tree.parent? target = none → value = 0
  /-- With a parent the target keeps the place that an earlier refresh gave it. -/
  stale : ∀ node, tree.node? target = some node → node.parent ≠ none → value = (node.offset - place).toNat

/-- Only targets without a parent and targets that once stood at the place of the owner leave zero. -/
theorem Unreached.eq_zero_iff {target : NodeId} {place : UInt64} {value : Nat}
    (unreached : tree.Unreached target place value) : value = 0 ↔ tree.parent? target = none ∨
      ∃ node, tree.node? target = some node ∧ node.offset = place := by
  constructor
  · rintro rfl
    cases up : tree.parent? target with
    | none => exact .inl rfl
    | some parent =>
        obtain ⟨node, found, above⟩ := Option.bind_eq_some_iff.1 up
        have distance := unreached.stale node found (by rw [above]; exact Option.some_ne_none _)
        exact .inr ⟨node, found, sub_eq_zero.1 (UInt64.toNat_inj.1 distance.symm)⟩
  · rintro (orphan | ⟨node, found, same⟩)
    · exact unreached.orphan orphan
    · by_cases alone : node.parent = none
      · exact unreached.orphan (by rw [parent?, found, Option.bind_some, alone])
      · rw [unreached.stale node found alone, same, UInt64.sub_self]
        rfl

/-- The field of an offset to a node that the root does not reach. -/
theorem Forest.unreached (forest : tree.Forest) (run : refresh root tree = .ok size final)
    {before behind : List (NodeId × Patch)} {owner target : NodeId} {field : Field} {node : Node}
    (row : final.patchesBelow root = before ++ (owner, .relativeOffset target field) :: behind)
    (live : final.node? owner = some node) (last : ∀ later ∈ behind, ¬field.Overlaps later.2.field)
    (absent : ¬ReflTransGen tree.Above root target) : ∃ value, final.readField field = .ok value ∧
      tree.Unreached target node.offset value := by
  obtain ⟨between, entries, run⟩ := forest.refresh_run run
  have owned : final.Owns root owner := (mem_of_mem_patchesTo
    (show (owner, _) ∈ final.patchesBelow root from row ▸ List.mem_append_right _ List.mem_cons_self)).1
  have shapes := run.shapes
  obtain ⟨first, ⟨field', value⟩, second, rfl, entry, later⟩ := (row ▸ run.planned_final).split
  cases field_of_entry entry
  have takes := run.planned.takes (field, value) (List.mem_append_right _ List.mem_cons_self)
  have parent : final.parent? target = tree.parent? target := by
    rw [parent?_eq, parent?_eq, shapes]
  refine ⟨value, run.overwritten.readField takes fun other inside => ?_, ?_⟩
  · obtain ⟨next, listed, same⟩ := later other inside
    exact same ▸ last next listed
  rw [entry_of_some live] at entry
  exact {
    orphan := fun orphan => by
      rw [patchValue_relativeOffset_of_orphan (parent.trans orphan)] at entry
      cases entry
      rfl
    stale := fun away found above => by
      obtain ⟨up, above⟩ := Option.ne_none_iff_exists'.1 above
      have still := run.laidOut.moved.others target fun owned => absent ((forest.owns_iff root target).1 owned)
      obtain ⟨other, here, same⟩ := run.overwritten.refilled.node (still.trans found)
      have offset := congrArg Node.offset same
      have parent := congrArg Node.parent same
      rw [Node.offset_blank, Node.offset_blank] at offset
      rw [Node.parent_blank, Node.parent_blank] at parent
      rw [patchValue_relativeOffset here (parent.trans above), offset] at entry
      cases entry
      rfl }

/-- A refresh leaves zero as the offset of a target that was detached itself or removed. For any other target that
the root does not reach it leaves the distance to a place of an earlier refresh, which is zero only by chance. -/
theorem unreached_of_reached (reached : Reached tree) (run : refresh root tree = .ok size final)
    {before behind : List (NodeId × Patch)} {owner target : NodeId} {field : Field} {node : Node}
    (row : final.patchesBelow root = before ++ (owner, .relativeOffset target field) :: behind)
    (live : final.node? owner = some node) (last : ∀ later ∈ behind, ¬field.Overlaps later.2.field)
    (absent : ¬ReflTransGen tree.Above root target) : ∃ value, final.readField field = .ok value ∧
      tree.Unreached target node.offset value ∧ (value = 0 ↔ tree.parent? target = none ∨
        ∃ away, tree.node? target = some away ∧ away.offset = node.offset) := by
  obtain ⟨value, reads, unreached⟩ := reached.forest.unreached run row live last absent
  exact ⟨value, reads, unreached, unreached.eq_zero_iff⟩

/-- A header with the offset of a byte, behind a refresh: the container of the byte is detached, and the byte keeps its
container and its place. -/
def detachedByte : BlockTree where
  nodes := #[
    some {
      kind := .container
      tag := 0
      children := [⟨1⟩]
      length := 5
      patches := [.relativeOffset ⟨3⟩ (.word ⟨1⟩ 0)] },
    some {
      kind := .leaf #[4, 0, 0, 0]
      tag := 0
      parent := some ⟨0⟩
      length := 4 },
    some {
      kind := .container
      tag := 0
      children := [⟨3⟩]
      offset := 4
      length := 1 },
    some {
      kind := .leaf #[7]
      tag := 0
      parent := some ⟨2⟩
      offset := 4
      length := 1 }]

/-- The header still tells the old place of the byte when it is refreshed without it. -/
theorem unreached_of_reached_detachedByte : ∃ final value, detachedByte.Reached ∧
    refresh ⟨0⟩ detachedByte = .ok 4 final ∧ ¬ReflTransGen detachedByte.Above ⟨0⟩ ⟨3⟩ ∧
    final.readField (.word ⟨1⟩ 0) = .ok value ∧ value = 4 ∧ detachedByte.Unreached ⟨3⟩ 0 value := by
  have root : Reached _ := .edit (.newContainer 0) .empty (Step.ends_ok rfl)
  have header : Reached _ := .edit (.newLeaf 0 #[0, 0, 0, 0]) root (Step.ends_ok rfl)
  have middle : Reached _ := .edit (.newContainer 0) header (Step.ends_ok rfl)
  have byte : Reached _ := .edit (.newLeaf 0 #[7]) middle (Step.ends_ok rfl)
  have first : Reached _ := .edit (.addChild ⟨0⟩ ⟨1⟩) byte (Step.ends_ok rfl)
  have second : Reached _ := .edit (.addChild ⟨0⟩ ⟨2⟩) first (Step.ends_ok rfl)
  have third : Reached _ := .edit (.addChild ⟨2⟩ ⟨3⟩) second (Step.ends_ok rfl)
  have patched : Reached _ := .edit (.addPatch ⟨0⟩ (.relativeOffset ⟨3⟩ (.word ⟨1⟩ 0))) third (Step.ends_ok rfl)
  have refreshed : Reached _ := .edit (.refresh ⟨0⟩) patched (Step.ends_ok rfl)
  have detached : detachedByte.Reached := .edit (.detach ⟨2⟩) refreshed (Step.ends_ok rfl)
  have absent : ¬ReflTransGen detachedByte.Above ⟨0⟩ ⟨3⟩ := fun way => by
    rcases way.cases_tail with same | ⟨parent, way, above⟩
    · cases same
    · cases above
      rcases way.cases_tail with same | ⟨parent, _, above⟩
      · cases same
      · cases above
  obtain ⟨value, reads, unreached, _⟩ := @unreached_of_reached _ _ _ _ detached rfl [] [] _ _ _ _ rfl rfl
    (by simp) absent
  exact ⟨_, value, detached, rfl, absent, reads, Except.ok.inj (reads.symm.trans rfl), unreached⟩

end DexArsc.BlockTree
