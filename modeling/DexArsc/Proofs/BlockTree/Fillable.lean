/-
Subtrees whose fields can be filled: every patch writes into the first child of its node, the fields of a node
stand apart, and each of them takes what its patch counts. A refresh of such a subtree succeeds and makes it
current.
-/

import DexArsc.Proofs.BlockTree.Current
import DexArsc.Proofs.BlockTree.Stamp
import Mathlib.Data.List.Pairwise

namespace DexArsc.BlockTree

variable {tree between final : BlockTree} {top : NodeId}

/-- A patch of a node writes into the first child of the node, concerns nodes below a top, and its field takes what
it counts. -/
structure FillablePatch (tree : BlockTree) (top owner : NodeId) (patch : Patch) : Prop where
  first : ∃ rest, tree.children owner = patch.field.node :: rest
  target : ∀ target, patch.target? = some target → tree.Owns top target
  takes : ∃ value, tree.Takes (patch.field, value) ∧ tree.Counts owner patch value

/-- A field that holds what its patch counts takes it as well. -/
theorem CurrentPatch.fillable {owner : NodeId} {patch : Patch} (current : tree.CurrentPatch top owner patch) :
    tree.FillablePatch top owner patch where
  first := current.first
  target := current.target
  takes := by
    obtain ⟨value, holds, counts⟩ := current.holds
    exact ⟨value, holds.takes, counts⟩

/-- Every patch below a node can be written. -/
structure Fillable (tree : BlockTree) (top : NodeId) : Prop where
  solid : tree.Solid top
  patches : ∀ id node, tree.Owns top id → tree.node? id = some node →
    ∀ patch ∈ node.patches, tree.FillablePatch top id patch

/-- The field of a patch overlaps none of the other ones. -/
def Alone (patches : List Patch) (patch : Patch) : Prop :=
  ∀ other ∈ patches, patch.field.Overlaps other.field → other = patch

/-- Fields that stand apart pairwise. -/
theorem alone_of_pairwise {patches : List Patch}
    (apart : patches.Pairwise fun first second => ¬first.field.Overlaps second.field) {patch : Patch}
    (inside : patch ∈ patches) : Alone patches patch := fun other listed overlaps => by
  have : Std.Symm fun first second : Patch => ¬first.field.Overlaps second.field :=
    ⟨fun _ _ apart overlaps => apart (Field.overlaps_comm.1 overlaps)⟩
  by_contra different
  exact apart.forall inside listed (Ne.symm different) overlaps

/-- A container can be filled when its children and its own fields can. -/
theorem Fillable.container {form : Form} (found : tree.form? top = some form) (container : form.content = .container)
    (children : ∀ child ∈ form.children, tree.Fillable child)
    (patches : ∀ patch ∈ form.patches, tree.FillablePatch top top patch) : tree.Fillable top := by
  obtain ⟨node, live, content, listed, patched⟩ := node_of_form? found
  have kind := Node.content_eq_container.1 (content.trans container)
  refine ⟨fun id owned => ?_, fun id other owned here patch inside => ?_⟩
  · rcases owned.down with rfl | ⟨child, inside, owned⟩
    · exact ⟨node, live, by simp [kind]⟩
    · exact (children child (children_of_form? found ▸ inside)).solid id owned
  · rcases owned.down with rfl | ⟨child, below, owned⟩
    · cases live.symm.trans here
      exact patches patch (patched ▸ inside)
    · have fills := (children child (children_of_form? found ▸ below)).patches id other owned here patch inside
      exact ⟨fills.first, fun target same => (Owns.top.of_mem_children below).trans (fills.target target same),
        fills.takes⟩

/-- What is current can be filled. -/
theorem Current.fillable (current : tree.Current top) : tree.Fillable top where
  solid := current.solid
  patches id node owned live patch inside := by
    obtain ⟨_, here, _, patches⟩ := current id owned
    cases live.symm.trans here
    exact (patches patch inside).fillable

namespace Fillable

theorem field (fillable : tree.Fillable top) {owner : NodeId} {node : Node} {patch : Patch}
    (owned : tree.Owns top owner) (live : tree.node? owner = some node) (inside : patch ∈ node.patches) :
    tree.Owns top patch.field.node := by
  obtain ⟨rest, children⟩ := (fillable.patches owner node owned live patch inside).first
  exact owned.of_mem_children (children ▸ List.mem_cons_self)

/-- Fields stay fillable wherever the nodes are the same. -/
theorem frame (fillable : tree.Fillable top) (forest : tree.Forest) (forest' : final.Forest)
    (same : ∀ id, tree.Owns top id → final.core? id = tree.core? id) : final.Fillable top := by
  have owns (id : NodeId) := @Owns.of_same tree final top id same
  have back {id : NodeId} {node : Node} (owned : final.Owns top id) (live : final.node? id = some node) :
      tree.Owns top id ∧ ∃ old, tree.node? id = some old ∧ node.kind = old.kind ∧ node.patches = old.patches := by
    have owned := (owns id).1 owned
    obtain ⟨old, found, _⟩ := fillable.solid id owned
    obtain ⟨other, here, kind, _, patches⟩ := node_of_core? (same id owned) found
    cases here.symm.trans live
    exact ⟨owned, old, found, kind, patches⟩
  have alive (id : NodeId) (owned : tree.Owns top id) (live : tree.isLive id = true) : final.isLive id = true := by
    obtain ⟨node, live⟩ := isLive_iff.1 live
    obtain ⟨other, here, _⟩ := node_of_core? (same id owned) live
    exact isLive_iff.2 ⟨other, here⟩
  refine ⟨fun id owned => ?_, fun id node owned live patch inside => ?_⟩
  · obtain ⟨node, live, solid⟩ := fillable.solid id ((owns id).1 owned)
    obtain ⟨other, here, kind, _⟩ := node_of_core? (same id ((owns id).1 owned)) live
    exact ⟨other, here, fun padding => kind ▸ solid padding⟩
  · obtain ⟨owned, old, found, _, patches⟩ := back owned live
    rw [patches] at inside
    have fills := fillable.patches id old owned found patch inside
    obtain ⟨value, ⟨⟨bytes, leaf, within⟩, fits⟩, counts⟩ := fills.takes
    exact {
      first := (children_of_core? (same id owned)).symm ▸ fills.first
      target := fun target listed => (owns target).2 (fills.target target listed)
      takes := ⟨value, ⟨⟨bytes, leaf_of_core? (same _ (fillable.field owned found inside)) leaf, within⟩, fits⟩,
        counts.congr owned fills.target alive (fun _ below => children_of_core? (same _ below))
          fun _ below => congrArg List.length (fillable.solid.toBytes_eq forest forest' same below)⟩ }

/-- A patch that is alone among those of its node is alone below the top. -/
theorem eq_of_overlaps (fillable : tree.Fillable top) (forest : tree.Forest) {first second : NodeId × Patch}
    (inside : first ∈ tree.patchesBelow top) (inside' : second ∈ tree.patchesBelow top)
    (alone : ∀ node, tree.node? first.1 = some node → Alone node.patches first.2)
    (overlaps : first.2.field.Overlaps second.2.field) : second = first := by
  obtain ⟨owned, node, live, listed⟩ := mem_of_mem_patchesTo inside
  obtain ⟨owned', node', live', listed'⟩ := mem_of_mem_patchesTo inside'
  obtain ⟨rest, children⟩ := (fillable.patches _ _ owned live _ listed).first
  obtain ⟨rest', children'⟩ := (fillable.patches _ _ owned' live' _ listed').first
  have above : tree.Above first.1 first.2.field.node :=
    (forest.mem_children_iff _ _).1 (children ▸ List.mem_cons_self)
  have above' : tree.Above second.1 second.2.field.node :=
    (forest.mem_children_iff _ _).1 (children' ▸ List.mem_cons_self)
  rw [Field.node_eq_of_overlaps overlaps] at above
  have owner : second.1 = first.1 := Option.some.inj (above'.symm.trans above)
  rw [owner] at live'
  cases live.symm.trans live'
  exact Prod.ext owner (alone node live second.2 listed' overlaps)

end Fillable

/-- Every patch below a node can be written, and the fields of a node stand apart. -/
structure FillableApart (tree : BlockTree) (top : NodeId) : Prop extends Fillable tree top where
  apart : ∀ id node, tree.Owns top id → tree.node? id = some node → ∀ patch ∈ node.patches, Alone node.patches patch

namespace FillableApart

/-- A leaf without patches can be filled. -/
theorem leaf (found : tree.form? top = some .leaf) : tree.FillableApart top := by
  obtain ⟨node, bytes, live, kind, _, none⟩ := leaf_of_form? found
  have only {id : NodeId} (owned : tree.Owns top id) : id = top := by
    rcases owned.down with same | ⟨child, inside, _⟩
    · exact same
    · rw [children_of_form? found] at inside
      cases inside
  refine ⟨⟨fun id owned => ?_, fun id other owned here patch inside => ?_⟩, fun id other owned here => ?_⟩
  · exact only owned ▸ ⟨node, live, by simp [kind]⟩
  · cases only owned
    cases live.symm.trans here
    exact absurd inside (by simp [none])
  · cases only owned
    cases live.symm.trans here
    simp [none]

/-- A container can be filled when its children and its own fields can, which stand apart. -/
theorem container {form : Form} (found : tree.form? top = some form) (container : form.content = .container)
    (children : ∀ child ∈ form.children, tree.FillableApart child)
    (patches : ∀ patch ∈ form.patches, tree.FillablePatch top top patch)
    (apart : form.patches.Pairwise fun first second => ¬first.field.Overlaps second.field) :
    tree.FillableApart top where
  toFillable := .container found container (fun child inside => (children child inside).toFillable) patches
  apart id node owned here := by
    rcases owned.down with rfl | ⟨child, below, owned⟩
    · obtain ⟨_, live, _, _, patched⟩ := node_of_form? found
      cases live.symm.trans here
      rw [patched]
      exact fun patch inside => alone_of_pairwise apart inside
    · exact (children child (children_of_form? found ▸ below)).apart id node owned here

end FillableApart

/-- Other bytes in leaves are written in the same number. -/
theorem Refilled.length_toBytes (refilled : Refilled tree final) (forest : tree.Forest) (id : NodeId) :
    (final.toBytes id).length = (tree.toBytes id).length := by
  induction id using forest.wellFounded_flip.induction with
  | _ id ih =>
      rcases refilled.node_cases id with ⟨gone, gone'⟩ | ⟨node, other, live, here, same⟩
      · rw [toBytes, toBytes, serialize, serialize, gone, gone']
      · by_cases isLeaf : ∃ bytes, node.kind = .leaf bytes
        · obtain ⟨bytes, kind⟩ := isLeaf
          obtain ⟨bytes', size, rfl⟩ := Node.leaf_of_blank same kind
          rw [toBytes_leaf live kind, toBytes_leaf here rfl, Array.length_toList, Array.length_toList, size]
        · cases Node.eq_of_blank same fun bytes kind => isLeaf ⟨bytes, kind⟩
          cases kind : node.kind with
          | leaf bytes => exact absurd ⟨bytes, kind⟩ isLeaf
          | pad padding => rw [toBytes_pad live kind, toBytes_pad here kind]
          | container =>
              rw [forest.toBytes_container live kind, (forest.congr refilled.shapes).toBytes_container here kind,
                List.length_flatMap, List.length_flatMap]
              exact congrArg List.sum (List.map_congr_left fun child inside =>
                ih child (forest.down id node.shape child (shape?_of_some live) inside))

/-- A subtree whose fields a refresh has filled. -/
structure Filling (tree : BlockTree) (top : NodeId) (final : BlockTree) : Prop where
  shapes : final.shape? = tree.shape?
  size : final.nodes.size = tree.nodes.size
  lengths : ∀ id, tree.Owns top id → (final.toBytes id).length = (tree.toBytes id).length
  /-- A patch that is alone among those of its node is current. -/
  filled : ∀ owner node patch, tree.Owns top owner → tree.node? owner = some node → patch ∈ node.patches →
    Alone node.patches patch → final.CurrentPatch top owner patch
  /-- A byte stays when all fields that cover it were current. -/
  kept : ∀ id place, (∀ owner node patch, tree.Owns top owner → tree.node? owner = some node →
    patch ∈ node.patches → patch.field.Covers id place → tree.CurrentPatch top owner patch) →
      final.byte? id place = tree.byte? id place

section refresh

variable {stop : UInt64} {entries : List (Field × Nat)}

theorem Fillable.of_laidOut (fillable : tree.Fillable top) (forest : tree.Forest)
    (laidOut : LaidOut tree top 0 stop between) : between.Fillable top :=
  fillable.frame forest (forest.congr laidOut.moved.shapes) fun id _ => laidOut.moved.core?_eq id

/-- Each patch of a fillable subtree that is laid out has a value that its field takes. -/
theorem Fillable.entry (fillable : between.Fillable top) (forest : between.Forest)
    (laidOut : LaidOut tree top 0 stop between) {pair : NodeId × Patch} (inside : pair ∈ between.patchesBelow top) :
    ∃ value, between.entry pair = .ok (pair.2.field, value) ∧
      between.Takes (pair.2.field, value) ∧ between.Counts pair.1 pair.2 value := by
  obtain ⟨owned, node, live, listed⟩ := mem_of_mem_patchesTo inside
  have fills := fillable.patches _ _ owned live _ listed
  obtain ⟨value, takes, counts⟩ := fills.takes
  exact ⟨value, laidOut.settled.entry_of_counts forest owned fills.target takes.2 counts, takes, counts⟩

/-- A patch that is alone among those of its node is current behind the refresh. -/
theorem RefreshRun.filled (refreshed : RefreshRun tree top stop between entries final)
    (fillable : between.Fillable top) (forest : between.Forest) {owner : NodeId} {node : Node} {patch : Patch}
    (owned : between.Owns top owner) (live : between.node? owner = some node) (inside : patch ∈ node.patches)
    (alone : Alone node.patches patch) : final.CurrentPatch top owner patch := by
  have refilled := refreshed.overwritten.refilled
  have children (id : NodeId) : final.children id = between.children id := by
    rw [children_eq, refilled.shapes, ← children_eq]
  have listed : (owner, patch) ∈ between.patchesBelow top :=
    forest.mem_patchesTo (by omega) ((forest.owns_iff top owner).1 owned) live inside
  obtain ⟨value, entry, takes, counts⟩ := fillable.entry forest refreshed.laidOut listed
  have fills := fillable.patches _ _ owned live _ inside
  have written : (patch.field, value) ∈ entries := by
    obtain ⟨found, there, run⟩ := forall₂_mem refreshed.planned.each.flip listed
    cases entry.symm.trans run
    exact there
  have only : ∀ other ∈ entries, patch.field.Overlaps other.1 → other = (patch.field, value) := by
    intro other there overlaps
    obtain ⟨pair, row, run⟩ := forall₂_mem refreshed.planned.each there
    rw [field_of_entry run] at overlaps
    cases fillable.eq_of_overlaps forest listed row (fun other here => by
      cases live.symm.trans here
      exact alone) overlaps
    exact Except.ok.inj (run.symm.trans entry)
  have lives (target : NodeId) (alive : between.isLive target = true) : final.isLive target = true := by
    obtain ⟨node, found⟩ := isLive_iff.1 alive
    obtain ⟨other, here, _⟩ := refilled.node found
    exact isLive_iff.2 ⟨other, here⟩
  exact {
    first := (children owner).symm ▸ fills.first
    target := fun target same => (refilled.owns_iff top target).2 (fills.target target same)
    holds := ⟨value, refreshed.overwritten.holds_of_mem written takes only,
      counts.congr owned fills.target (fun target _ => lives target) (fun id _ => children id)
        fun id _ => refilled.length_toBytes forest id⟩ }

/-- A refresh of a subtree whose fields can be filled succeeds and fills them. -/
theorem Forest.refresh_of_fillable (forest : tree.Forest) (fillable : tree.Fillable top) :
    ∃ final, refresh top tree = .ok (UInt64.ofNat (tree.toBytes top).length) final ∧ Filling tree top final := by
  obtain ⟨node, live, _⟩ := fillable.solid top .top
  obtain ⟨stop, between, entries, final, run, refreshed⟩ := forest.refresh_ok live
    fun stop between laidOut pair inside => by
      obtain ⟨value, entry, takes, _⟩ :=
        (fillable.of_laidOut forest laidOut).entry (forest.congr laidOut.moved.shapes) laidOut inside
      exact ⟨_, entry, takes⟩
  have laidOut := refreshed.laidOut
  have moved := laidOut.moved
  have forest' := forest.congr moved.shapes
  have fillable' := fillable.of_laidOut forest laidOut
  have same (id : NodeId) : between.core? id = tree.core? id := moved.core?_eq id
  have whole {id : NodeId} (owned : tree.Owns top id) : between.toBytes id = tree.toBytes id :=
    fillable.solid.toBytes_eq forest forest' (fun id _ => same id) owned
  refine ⟨final, ?_, refreshed.shapes, refreshed.size_eq, fun id owned => ?_,
    fun owner node patch owned live inside alone => ?_, fun id place current => ?_⟩
  · obtain ⟨here, live', offset, length⟩ := laidOut.here
    have size : stop = UInt64.ofNat (tree.toBytes top).length := by
      rw [← whole .top, laidOut.settled.length_toBytes forest' live', ← length, UInt64.zero_add]
    exact size ▸ run
  · rw [← whole owned]
    exact refreshed.overwritten.refilled.length_toBytes forest' id
  · have owned : between.Owns top owner := (Owns.of_same fun id _ => same id).2 owned
    obtain ⟨node, live, _, _, patches⟩ := node_of_core? (same owner) live
    rw [← patches] at inside alone
    exact refreshed.filled fillable' forest' owned live inside alone
  · have kept : final.byte? id place = between.byte? id place := by
      rw [refreshed.overwritten.bytes, overlay_of_holds fun entry inside covers => ?_]
      obtain ⟨⟨owner, patch⟩, row, run⟩ := forall₂_mem refreshed.planned.each inside
      rw [field_of_entry run] at covers
      obtain ⟨owned, node, live, listed⟩ := mem_of_mem_patchesTo row
      have owned' : tree.Owns top owner := (Owns.of_same fun id _ => same id).1 owned
      obtain ⟨old, found, _, _, patches⟩ := node_of_core? (same owner).symm live
      have patched := (current owner old patch owned' found (patches ▸ listed) covers).frame fillable.solid forest
        forest' (fun id _ => same id) owned'
      obtain ⟨value, holds, counts⟩ := patched.holds
      cases run.symm.trans (laidOut.settled.entry_of_counts forest' owned patched.target holds.1 counts)
      exact holds
    rw [kept, byte?, byte?, moved.leaf_eq]

end refresh

namespace Filling

theorem forest (filling : Filling tree top final) (forest : tree.Forest) : final.Forest :=
  forest.congr filling.shapes

theorem children (filling : Filling tree top final) (id : NodeId) : final.children id = tree.children id := by
  rw [children_eq, filling.shapes, ← children_eq]

theorem owns_iff (filling : Filling tree top final) {above id : NodeId} : final.Owns above id ↔ tree.Owns above id :=
  ⟨.congr fun id => (filling.children id).symm, .congr filling.children⟩

/-- A live node stays of its kind. -/
theorem node (filling : Filling tree top final) {id : NodeId} {node : Node} (live : tree.node? id = some node) :
    ∃ other, final.node? id = some other ∧ other.kind.content = node.kind.content ∧
      other.children = node.children ∧ other.patches = node.patches := by
  have found := form?_of_shape? (shape?_of_some live)
  rw [← form?_congr (congrFun filling.shapes id)] at found
  exact node_of_form? found

/-- A leaf keeps its size. -/
theorem leaf (filling : Filling tree top final) {id : NodeId} {bytes : Bytes} (found : tree.leaf id = .ok bytes)
    (owned : tree.Owns top id) : ∃ bytes', final.leaf id = .ok bytes' ∧ bytes'.size = bytes.size := by
  obtain ⟨node, live, kind⟩ := leaf_eq_ok.1 found
  obtain ⟨other, here, content, _⟩ := filling.node live
  rw [kind] at content
  obtain ⟨bytes', kind'⟩ := Node.content_eq_leaf.1 content
  have length := filling.lengths id owned
  rw [toBytes_leaf live kind, toBytes_leaf here kind', Array.length_toList, Array.length_toList] at length
  exact ⟨bytes', leaf_eq_ok.2 ⟨other, here, kind'⟩, length⟩

/-- A leaf stays when all fields in it were current. -/
theorem leaf_eq (filling : Filling tree top final) {id : NodeId} {bytes : Bytes} (found : tree.leaf id = .ok bytes)
    (owned : tree.Owns top id) (current : ∀ owner node patch, tree.Owns top owner → tree.node? owner = some node →
      patch ∈ node.patches → patch.field.node = id → tree.CurrentPatch top owner patch) :
    final.leaf id = .ok bytes := by
  obtain ⟨bytes', found', _⟩ := filling.leaf found owned
  have equal : bytes' = bytes := Array.ext_getElem? fun place => by
    rw [← byte?_of_leaf found', ← byte?_of_leaf found]
    exact filling.kept id place fun owner node patch owned live inside covers =>
      current owner node patch owned live inside covers.1.symm
  exact equal ▸ found'

/-- What is current below a node that heads no other one stays the same. -/
theorem core?_eq (filling : Filling tree top final) (fillable : tree.Fillable top) (forest : tree.Forest)
    {id : NodeId} (current : tree.Current id) (owned : tree.Owns top id) (apart : ¬tree.Heads id) {below : NodeId}
    (inside : tree.Owns id below) : final.core? below = tree.core? below := by
  obtain ⟨node, live, solid, _⟩ := current below inside
  obtain ⟨other, here, content, children, patches⟩ := filling.node live
  have kind : other.kind = node.kind := by
    cases same : node.kind with
    | pad padding => exact absurd same (solid padding)
    | container =>
        rw [same] at content
        exact Node.content_eq_container.1 content
    | leaf bytes =>
        have leaf := filling.leaf_eq (leaf_eq_ok.2 ⟨node, live, same⟩) (owned.trans inside)
          fun owner source patch above there listed writes => by
            obtain ⟨rest, first⟩ := (fillable.patches owner source above there patch listed).first
            rw [writes] at first
            have up := (forest.mem_children_iff owner below).1 (first ▸ List.mem_cons_self)
            rcases inside.up forest with rfl | ⟨parent, up', inside'⟩
            · exact absurd ⟨owner, rest, first⟩ apart
            · cases up.symm.trans up'
              obtain ⟨_, there', _, patched⟩ := current owner inside'
              cases there.symm.trans there'
              exact (patched patch listed).mono owned
        obtain ⟨_, here', kind'⟩ := leaf_eq_ok.1 leaf
        cases here.symm.trans here'
        exact kind'
  rw [core?_of_some live, core?_of_some here, kind, children, patches]

/-- What a node spells stays, unless the node heads another one. -/
theorem spells (filling : Filling tree top final) (fillable : tree.Fillable top) (forest : tree.Forest) {id : NodeId}
    {bytes : List UInt8} (spells : tree.Spells id bytes) (owned : tree.Owns top id) (apart : ¬tree.Heads id) :
    final.Spells id bytes :=
  spells.frame forest (filling.forest forest) fun _ inside =>
    filling.core?_eq fillable forest spells.current owned apart inside

/-- A subtree whose fields stand apart is current. -/
theorem current (filling : Filling tree top final) {id : NodeId} (fillable : tree.FillableApart id)
    (owned : tree.Owns top id) : final.Current id := by
  intro below inside
  have inside := filling.owns_iff.1 inside
  obtain ⟨node, live, solid⟩ := fillable.solid below inside
  obtain ⟨other, here, content, _, patches⟩ := filling.node live
  refine ⟨other, here, fun padding kind => ?_, fun patch listed => ?_⟩
  · rw [kind] at content
    cases same : node.kind with
    | pad padding' => exact solid padding' same
    | leaf bytes => rw [same] at content; cases content
    | container => rw [same] at content; cases content
  · rw [patches] at listed
    have patched := filling.filled below node patch (owned.trans inside) live listed
      (fillable.apart below node inside live patch listed)
    exact ⟨patched.first, fun target same => filling.owns_iff.2
      ((fillable.patches below node inside live patch listed).target target same), patched.holds⟩

end Filling

/-- Words of a leaf stand apart. -/
theorem not_overlaps_word (header : NodeId) {first second : Nat} (apart : first + 4 ≤ second) :
    ¬(Field.word header first).Overlaps (Field.word header second) := by
  rintro ⟨_, place, ⟨_, _, high⟩, _, low, _⟩
  have stop : place < first + 4 := high
  have start : second ≤ place := low
  omega

/-- A patch that writes a word of the header can be written. -/
theorem FillablePatch.word {top owner header : NodeId} {patch : Patch} {rest : List NodeId} {bytes : Bytes}
    {position value : Nat} (children : tree.children owner = header :: rest) (leaf : tree.leaf header = .ok bytes)
    (field : patch.field = .word header position) (within : position + 4 ≤ bytes.size)
    (target : ∀ target, patch.target? = some target → tree.Owns top target) (small : value < UInt32.size)
    (counts : tree.Counts owner patch value) : tree.FillablePatch top owner patch where
  first := ⟨rest, by rw [field]; exact children⟩
  target := target
  takes := by
    rw [field]
    exact ⟨value, ⟨⟨bytes, leaf, within⟩, small⟩, counts⟩

namespace Fillable

variable {owner id : NodeId} {node : Node} {patch : Patch}

/-- Only headers are filled. -/
theorem heads (fillable : tree.Fillable top) (owned : tree.Owns top owner) (live : tree.node? owner = some node)
    (inside : patch ∈ node.patches) : tree.Heads patch.field.node := by
  obtain ⟨rest, children⟩ := (fillable.patches owner node owned live patch inside).first
  exact ⟨owner, rest, children⟩

/-- A header is filled by the patches of its node. -/
theorem mem_of_field (fillable : tree.Fillable top) (forest : tree.Forest) {above : NodeId} {form : Form}
    (found : tree.form? above = some form) (below : patch.field.node ∈ form.children) (owned : tree.Owns top owner)
    (live : tree.node? owner = some node) (inside : patch ∈ node.patches) : patch ∈ form.patches := by
  obtain ⟨rest, children⟩ := (fillable.patches owner node owned live patch inside).first
  have up := (forest.mem_children_iff owner patch.field.node).1 (by rw [children]; exact List.mem_cons_self)
  have up' := (forest.mem_children_iff above patch.field.node).1 (children_of_form? found ▸ below)
  obtain ⟨node', live', _, _, patches⟩ := node_of_form? found
  rw [Option.some.inj (up.symm.trans up')] at live
  cases live.symm.trans live'
  exact patches ▸ inside

end Fillable

/-- A leaf that is no header stays. -/
theorem Filling.leaf_of_not_heads (filling : Filling tree top final) (fillable : tree.Fillable top) {id : NodeId}
    {bytes : Bytes} (found : tree.leaf id = .ok bytes) (owned : tree.Owns top id) (other : ¬tree.Heads id) :
    final.leaf id = .ok bytes :=
  filling.leaf_eq found owned fun _ _ _ above live inside same => absurd (fillable.heads above live inside) (same ▸ other)

/-- The number that stands in a word of a leaf. -/
theorem Holds.word {header : NodeId} {position value : Nat} (holds : tree.Holds (.word header position) value)
    {bytes : Bytes} (leaf : tree.leaf header = .ok bytes) : (Bytes.word bytes.toList position).toNat = value := by
  obtain ⟨small, bytes', leaf', stands⟩ := holds
  cases leaf.symm.trans leaf'
  have encoded : (Field.word header position).encode value = Bytes.ofWord32 (UInt32.ofNat value) := rfl
  rw [Bytes.word_of_stands (encoded ▸ stands), UInt32.toNat_ofNat_of_lt' small]

/-- A word that a refresh has filled is what its patch counts. -/
theorem Current.word (current : tree.Current top) {owner header : NodeId} (owned : tree.Owns top owner) {form : Form}
    (found : tree.form? owner = some form) {patch : Patch} (inside : patch ∈ form.patches) {position : Nat}
    (field : patch.field = .word header position) {bytes : Bytes} (leaf : tree.leaf header = .ok bytes) :
    tree.Counts owner patch (Bytes.word bytes.toList position).toNat := by
  obtain ⟨node, live, _, patched⟩ := current owner owned
  obtain ⟨node', live', _, _, patches⟩ := node_of_form? found
  cases live.symm.trans live'
  obtain ⟨value, holds, counts⟩ := (patched patch (patches ▸ inside)).holds
  exact (field ▸ holds).word leaf ▸ counts

namespace Headed

variable {id header : NodeId} {front : List UInt8} {ids : List NodeId} {patches : List Patch}

theorem form? (headed : tree.Headed id header front ids patches) : tree.form? id = some {
    content := .container
    children := header :: ids
    patches } := by
  obtain ⟨node, live, kind, children, patched⟩ := headed.node
  rw [form?_of_shape? (shape?_of_some live)]
  unfold Node.shape
  rw [kind, children, patched]
  rfl

theorem form?_header (headed : tree.Headed id header front ids patches) (forest : tree.Forest) :
    tree.form? header = some .leaf := by
  obtain ⟨node, live, kind, none⟩ := headed.header
  rw [form?_of_shape? (shape?_of_some live)]
  unfold Node.shape
  dsimp only
  rw [kind, forest.childless live (by simp [kind]), none]
  rfl

/-- A container with a header can be filled when the other children and its own fields can. -/
theorem fillable (headed : tree.Headed id header front ids patches) (forest : tree.Forest)
    (children : ∀ child ∈ ids, tree.Fillable child) (patched : ∀ patch ∈ patches, tree.FillablePatch id id patch) :
    tree.Fillable id := by
  refine .container headed.form? rfl (fun child inside => ?_) patched
  rcases List.mem_cons.1 inside with rfl | inside
  · exact (FillableApart.leaf (headed.form?_header forest)).toFillable
  · exact children child inside

/-- What a refresh writes into a header: what the patches count, and nothing where they were current. -/
theorem filling (headed : tree.Headed id header front ids patches) (forest : tree.Forest)
    (filling : tree.Filling id final) (fillable : tree.Fillable id) : ∃ front',
      front'.length = front.length ∧ final.toBytes id = front' ++ ids.flatMap final.toBytes ∧
        (∀ patch ∈ patches, Alone patches patch → ∀ position, patch.field = .word header position →
          final.Counts id patch (Bytes.word front' position).toNat) ∧
        ∀ place, (∀ patch ∈ patches, patch.field.Covers header place → tree.CurrentPatch id id patch) →
          front'[place]? = front[place]? := by
  have forest' := filling.forest forest
  have children := headed.children
  have owned : tree.Owns id header := .of_mem_children .top (by rw [children]; exact List.mem_cons_self)
  obtain ⟨front', leaf, length⟩ := filling.leaf headed.leaf owned
  obtain ⟨node, live, kind, listed, patched⟩ := headed.node
  refine ⟨front'.toList, length, ?_, fun patch inside alone position field => ?_, fun place current => ?_⟩
  · have form := (form?_congr (congrFun filling.shapes id)).trans headed.form?
    rw [forest'.toBytes_of_form? form rfl, List.flatMap_cons, toBytes_of_leaf leaf]
  · obtain ⟨value, holds, counts⟩ :=
      (filling.filled id node patch .top live (patched ▸ inside) (patched ▸ alone)).holds
    exact (field ▸ holds).word leaf ▸ counts
  · rw [Array.getElem?_toList, ← byte?_of_leaf leaf]
    refine (filling.kept header place fun owner source patch above there inside covers => ?_).trans
      ((byte?_of_leaf headed.leaf place).trans (List.getElem?_toArray ..))
    have inside' := fillable.mem_of_field forest headed.form? (covers.1 ▸ List.mem_cons_self) above there inside
    obtain ⟨rest, first⟩ := (fillable.patches owner source above there patch inside).first
    have up := (forest.mem_children_iff owner header).1 (by rw [first, ← covers.1]; exact List.mem_cons_self)
    have up' := (forest.mem_children_iff id header).1 (by rw [children]; exact List.mem_cons_self)
    cases up.symm.trans up'
    exact current patch inside' covers

end Headed

end DexArsc.BlockTree
