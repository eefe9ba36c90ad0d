/-
Subtrees whose fields are current: every field holds the number that a refresh computes for it. A refresh
of such a subtree writes no other bytes.
-/

import DexArsc.Proofs.BlockTree.Linked
import DexArsc.Proofs.BlockTree.Refreshed
import DexArsc.Proofs.Bytes.Word

namespace DexArsc

/-- The node that a patch counts besides its owner. -/
def Patch.target? : Patch → Option NodeId
  | .size _ => none
  | .childCount target _ => some target
  | .length target _ => some target
  | .relativeOffset target _ => some target

namespace BlockTree

variable {tree final : BlockTree}

theorem Owns.down {top id : NodeId} (owned : tree.Owns top id) :
    id = top ∨ ∃ child ∈ tree.children top, tree.Owns child id := by
  induction owned with
  | top => exact .inl rfl
  | @child parent id node _ found inside ih =>
      right
      rcases ih with rfl | ⟨child, listed, owned⟩
      · exact ⟨id, children_of_node? found ▸ inside, .top⟩
      · exact ⟨child, listed, .child owned found inside⟩

/-- What a node writes: its content, its children and its patches. -/
structure Core where
  kind : NodeKind
  children : List NodeId
  patches : List Patch

/-- What a live node writes. -/
def core? (tree : BlockTree) (id : NodeId) : Option Core :=
  (tree.node? id).map fun { kind, children, patches, .. } => { kind, children, patches }

theorem core?_of_some {id : NodeId} {node : Node} (live : tree.node? id = some node) :
    tree.core? id = some ⟨node.kind, node.children, node.patches⟩ := by
  rw [core?, live]
  rfl

/-- A node that writes the same in another tree. -/
theorem node_of_core? {id : NodeId} {node : Node} (same : final.core? id = tree.core? id)
    (live : tree.node? id = some node) : ∃ other, final.node? id = some other ∧ other.kind = node.kind ∧
      other.children = node.children ∧ other.patches = node.patches := by
  rw [core?_of_some live] at same
  obtain ⟨other, here, equal⟩ := Option.map_eq_some_iff.1 same
  obtain ⟨kind, children, patches⟩ := Core.mk.inj equal
  exact ⟨other, here, kind, children, patches⟩

theorem children_of_core? {id : NodeId} (same : final.core? id = tree.core? id) :
    final.children id = tree.children id := by
  have view (tree : BlockTree) : tree.children id = ((tree.core? id).map Core.children).getD [] := by
    unfold BlockTree.children core?
    cases tree.node? id <;> rfl
  rw [view, view, same]

theorem leaf_of_core? {id : NodeId} (same : final.core? id = tree.core? id) {bytes : Bytes}
    (found : tree.leaf id = .ok bytes) : final.leaf id = .ok bytes := by
  obtain ⟨node, live, kind⟩ := leaf_eq_ok.1 found
  obtain ⟨other, here, kind', _⟩ := node_of_core? same live
  exact leaf_eq_ok.2 ⟨other, here, kind'.trans kind⟩

theorem Moved.core?_eq {inside : NodeId → Prop} (moved : Moved inside tree final) (id : NodeId) :
    final.core? id = tree.core? id := by
  cases live : tree.node? id with
  | none =>
      have gone := moved.nodes id
      rw [live] at gone
      rw [core?, core?, live, Option.map_eq_none_iff.1 gone]
  | some node =>
      obtain ⟨offset, length, here⟩ := moved.node live
      rw [core?_of_some live, core?_of_some here]

/-- A node owns the same nodes wherever these are the same. -/
theorem Owns.of_same {top id : NodeId} (same : ∀ id, tree.Owns top id → final.core? id = tree.core? id) :
    final.Owns top id ↔ tree.Owns top id := by
  constructor
  · intro owned
    induction owned with
    | top => exact .top
    | @child parent id node _ found inside ih =>
        have children := children_of_core? (same parent ih)
        exact ih.of_mem_children (children ▸ children_of_node? found ▸ inside)
  · intro owned
    induction owned with
    | top => exact .top
    | @child parent id node above found inside ih =>
        have children := children_of_core? (same parent above)
        exact ih.of_mem_children (children ▸ children_of_node? found ▸ inside)

/-- Everything below a node is live, and no padding stands there. -/
def Solid (tree : BlockTree) (top : NodeId) : Prop :=
  ∀ id, tree.Owns top id → ∃ node, tree.node? id = some node ∧ ∀ padding, node.kind ≠ .pad padding

/-- Without padding, nodes write the same bytes wherever they are the same. -/
theorem Solid.toBytes_eq {top : NodeId} (solid : tree.Solid top) (forest : tree.Forest) (forest' : final.Forest)
    (same : ∀ id, tree.Owns top id → final.core? id = tree.core? id) {id : NodeId} (owned : tree.Owns top id) :
    final.toBytes id = tree.toBytes id := by
  induction id using forest.wellFounded_flip.induction with
  | _ id ih =>
      obtain ⟨node, live, solid⟩ := solid id owned
      obtain ⟨other, here, kind', children, _⟩ := node_of_core? (same id owned) live
      cases kind : node.kind with
      | leaf bytes => rw [toBytes_leaf live kind, toBytes_leaf here (kind'.trans kind)]
      | pad padding => exact absurd kind (solid padding)
      | container =>
          rw [forest.toBytes_container live kind, forest'.toBytes_container here (kind'.trans kind), children]
          exact List.flatMap_congr fun child inside =>
            ih child (forest.down id node.shape child (shape?_of_some live) inside) (.child owned live inside)

/-- The number that a refresh writes for a patch of a node, counted in the bytes that the nodes write. -/
def Counts (tree : BlockTree) (owner : NodeId) : Patch → Nat → Prop
  | .size _, value => value = (tree.toBytes owner).length
  | .childCount target _, value => tree.isLive target = true ∧ value = (tree.children target).length
  | .length target _, value => tree.isLive target = true ∧ value = (tree.toBytes target).length
  | .relativeOffset target _, value => ∃ before behind,
      tree.children owner = before ++ target :: behind ∧ value = (before.flatMap tree.toBytes).length

/-- The offset of a child is the number of bytes before it. -/
theorem Counts.offset (forest : tree.Forest) {owner target : NodeId} {field : Field}
    {value : Nat} (counts : tree.Counts owner (.relativeOffset target field) value) {before behind : List NodeId}
    (children : tree.children owner = before ++ target :: behind) :
    value = (before.flatMap tree.toBytes).length := by
  obtain ⟨before', behind', children', count⟩ := counts
  have nodup := forest.nodup_children owner
  rw [children', List.nodup_middle, List.nodup_cons, List.mem_append, not_or] at nodup
  obtain ⟨rfl, _⟩ := (List.append_cons_inj_of_notMem nodup.1.1 nodup.1.2).1 (children'.symm.trans children)
  exact count

/-- A patch counts the same as long as the nodes below a top have the same children and write as many bytes. -/
theorem Counts.congr {top owner : NodeId} {patch : Patch} {value : Nat} (counts : tree.Counts owner patch value)
    (owned : tree.Owns top owner) (targets : ∀ target, patch.target? = some target → tree.Owns top target)
    (alive : ∀ id, tree.Owns top id → tree.isLive id = true → final.isLive id = true)
    (children : ∀ id, tree.Owns top id → final.children id = tree.children id)
    (lengths : ∀ id, tree.Owns top id → (final.toBytes id).length = (tree.toBytes id).length) :
    final.Counts owner patch value := by
  cases patch with
  | size _ => exact counts.trans (lengths owner owned).symm
  | childCount target _ =>
      have below := targets target rfl
      exact ⟨alive target below counts.1, by rw [children target below]; exact counts.2⟩
  | length target _ =>
      have below := targets target rfl
      exact ⟨alive target below counts.1, counts.2.trans (lengths target below).symm⟩
  | relativeOffset target _ =>
      obtain ⟨before, behind, row, sum⟩ := counts
      refine ⟨before, behind, (children owner owned).trans row, sum.trans ?_⟩
      rw [List.length_flatMap, List.length_flatMap]
      refine congrArg List.sum (List.map_congr_left fun child inside => ?_)
      exact (lengths child (owned.of_mem_children (row ▸ List.mem_append_left _ inside))).symm

/-- A patch of a node writes into the first child of the node and concerns nodes below a top, and its field holds
what it counts. -/
structure CurrentPatch (tree : BlockTree) (top owner : NodeId) (patch : Patch) : Prop where
  first : ∃ rest, tree.children owner = patch.field.node :: rest
  target : ∀ target, patch.target? = some target → tree.Owns top target
  holds : ∃ value, tree.Holds patch.field value ∧ tree.Counts owner patch value

/-- Every field below a node is current, and no padding stands there. -/
def Current (tree : BlockTree) (top : NodeId) : Prop :=
  ∀ id, tree.Owns top id → ∃ node, tree.node? id = some node ∧ (∀ padding, node.kind ≠ .pad padding) ∧
    ∀ patch ∈ node.patches, tree.CurrentPatch top id patch

theorem CurrentPatch.mono {first second owner : NodeId} {patch : Patch} (current : tree.CurrentPatch second owner patch)
    (owned : tree.Owns first second) : tree.CurrentPatch first owner patch :=
  ⟨current.first, fun target same => owned.trans (current.target target same), current.holds⟩

/-- A patch stays current wherever the nodes are the same. -/
theorem CurrentPatch.frame {top owner : NodeId} {patch : Patch} (current : tree.CurrentPatch top owner patch)
    (solid : tree.Solid top) (forest : tree.Forest) (forest' : final.Forest)
    (same : ∀ id, tree.Owns top id → final.core? id = tree.core? id) (owned : tree.Owns top owner) :
    final.CurrentPatch top owner patch := by
  have alive {id : NodeId} (owned : tree.Owns top id) (live : tree.isLive id = true) : final.isLive id = true := by
    obtain ⟨node, live⟩ := isLive_iff.1 live
    obtain ⟨other, here, _⟩ := node_of_core? (same id owned) live
    exact isLive_iff.2 ⟨other, here⟩
  obtain ⟨⟨rest, first⟩, target, value, ⟨fits, leaf, found, stands⟩, counts⟩ := current
  have field := owned.of_mem_children (first ▸ List.mem_cons_self)
  exact ⟨⟨rest, (children_of_core? (same owner owned)).trans first⟩,
    fun other listed => (Owns.of_same same).2 (target other listed), value,
    ⟨fits, leaf, leaf_of_core? (same _ field) found, stands⟩,
    counts.congr owned target (fun _ => alive) (fun other below => children_of_core? (same other below))
      fun _ below => congrArg List.length (solid.toBytes_eq forest forest' same below)⟩

namespace Current

variable {top : NodeId}

theorem isLive (current : tree.Current top) : tree.isLive top = true := by
  obtain ⟨node, live, _⟩ := current top .top
  exact isLive_iff.2 ⟨node, live⟩

/-- A leaf without patches is current. -/
theorem leaf (forest : tree.Forest) {node : Node} {bytes : Bytes} (live : tree.node? top = some node)
    (kind : node.kind = .leaf bytes) (patches : node.patches = []) : tree.Current top := by
  intro id owned
  obtain rfl : id = top := by
    rcases owned.down with same | ⟨child, inside, _⟩
    · exact same
    · rw [children_of_node? live, forest.childless live (by simp [kind])] at inside
      cases inside
  exact ⟨node, live, by simp [kind], by simp [patches]⟩

/-- A container is current when its children and its own fields are. -/
theorem container {node : Node} (live : tree.node? top = some node) (kind : node.kind = .container)
    (children : ∀ child ∈ node.children, tree.Current child)
    (patches : ∀ patch ∈ node.patches, tree.CurrentPatch top top patch) : tree.Current top := by
  intro id owned
  rcases owned.down with rfl | ⟨child, inside, owned⟩
  · exact ⟨node, live, by simp [kind], patches⟩
  · rw [children_of_node? live] at inside
    obtain ⟨other, here, solid, current⟩ := children child inside id owned
    exact ⟨other, here, solid, fun patch listed =>
      (current patch listed).mono (.child .top live inside)⟩

theorem solid (current : tree.Current top) : tree.Solid top := fun id owned => by
  obtain ⟨node, live, solid, _⟩ := current id owned
  exact ⟨node, live, solid⟩

/-- What is current writes the same bytes wherever the nodes are the same. -/
theorem toBytes_eq (current : tree.Current top) (forest : tree.Forest) (forest' : final.Forest)
    (same : ∀ id, tree.Owns top id → final.core? id = tree.core? id) {id : NodeId} (owned : tree.Owns top id) :
    final.toBytes id = tree.toBytes id :=
  current.solid.toBytes_eq forest forest' same owned

/-- What is current stays so wherever the nodes are the same. -/
theorem frame (current : tree.Current top) (forest : tree.Forest) (forest' : final.Forest)
    (same : ∀ id, tree.Owns top id → final.core? id = tree.core? id) : final.Current top := by
  intro id owned
  have owned := (Owns.of_same same).1 owned
  obtain ⟨node, live, solid, patches⟩ := current id owned
  obtain ⟨other, here, kind, _, patches'⟩ := node_of_core? (same id owned) live
  exact ⟨other, here, fun padding => kind ▸ solid padding, fun patch inside =>
    (patches patch (patches' ▸ inside)).frame current.solid forest forest' same owned⟩

end Current

/-- A byte stays where the numbers that cover it stand in their fields already. -/
theorem overlay_of_holds {entries : List (Field × Nat)} {id : NodeId} {place : Nat}
    (holds : ∀ entry ∈ entries, entry.1.Covers id place → tree.Holds entry.1 entry.2) :
    overlay entries id place (tree.byte? id place) = tree.byte? id place := by
  induction entries with
  | nil => rfl
  | cons entry rest ih =>
      have stays : (if entry.1.Covers id place then (entry.1.encode entry.2)[place - entry.1.position]?
          else tree.byte? id place) = tree.byte? id place := by
        split
        · rename_i covers
          have stands := holds entry List.mem_cons_self covers
          obtain ⟨rfl, low, high⟩ := covers
          exact (stands.byte? low high).symm
        · rfl
      rw [overlay_cons, stays]
      exact ih fun entry inside => holds entry (List.mem_cons_of_mem _ inside)

/-- Numbers that already stand in their fields are written without a change. -/
theorem Overwritten.eq_of_holds {entries : List (Field × Nat)} (overwritten : Overwritten entries tree final)
    (holds : ∀ entry ∈ entries, tree.Holds entry.1 entry.2) : final = tree :=
  overwritten.refilled.ext fun id place => (overwritten.bytes id place).trans
    (overlay_of_holds fun entry inside _ => holds entry inside)

/-- In a tree that fits its places, a refresh writes what a patch counts. -/
theorem Settled.entry_of_counts {top owner : NodeId} {patch : Patch} {value : Nat} (settled : tree.Settled top)
    (forest : tree.Forest) (owned : tree.Owns top owner)
    (targets : ∀ target, patch.target? = some target → tree.Owns top target)
    (fits : value < 256 ^ patch.field.width.size) (counts : tree.Counts owner patch value) :
    tree.entry (owner, patch) = .ok (patch.field, value) := by
  obtain ⟨node, live, tiles⟩ := settled owner owned
  have length {id : NodeId} {node : Node} (owned : tree.Owns top id) (live : tree.node? id = some node) :
      UInt64.ofNat (tree.toBytes id).length = node.length := (settled.below owned).length_toBytes forest live
  have small : (UInt64.ofNat value).toNat = value :=
    UInt64.toNat_ofNat_of_lt' ((fits.trans_le (Field.capacity_le patch.field)).trans (by decide))
  rw [entry_of_some live]
  cases patch with
  | size field =>
      rw [patchValue_size, ← length owned live, ← counts, small]
      rfl
  | childCount target field =>
      obtain ⟨alive, count⟩ := counts
      obtain ⟨other, here⟩ := isLive_iff.1 alive
      rw [patchValue_childCount here, count, children_of_node? here]
      rfl
  | length target field =>
      obtain ⟨alive, count⟩ := counts
      obtain ⟨other, here⟩ := isLive_iff.1 alive
      rw [patchValue_length here, ← length (targets target rfl) here, ← count, small]
      rfl
  | relativeOffset target field =>
      obtain ⟨before, behind, row, count⟩ := counts
      rw [children_of_node? live] at row
      have container := Node.content_eq_container.1 (forest.owner owner node.shape target
        (shape?_of_some live) (by rw [Node.shape, row]; simp))
      simp only [Fits, container] at tiles
      rw [row] at tiles
      obtain ⟨other, here, offset⟩ := tiles.offset fun id inside other here =>
        length (.child owned live (row ▸ List.mem_append_left _ inside)) here
      have up : other.parent = some owner := by
        have above := forest.down owner node.shape target (shape?_of_some live) (by rw [Node.shape, row]; simp)
        rw [parent?, here] at above
        exact above
      rw [patchValue_relativeOffset here up, offset, ← count, add_sub_cancel_left, small]
      rfl

/-- A refresh succeeds when every patch has an entry behind the layout, and its field takes the value. -/
theorem Forest.refresh_ok (forest : tree.Forest) {root : NodeId} {node : Node}
    (live : tree.node? root = some node)
    (each : ∀ stop between, LaidOut tree root 0 stop between → ∀ pair ∈ between.patchesBelow root,
      ∃ entry, between.entry pair = .ok entry ∧ between.Takes entry) :
    ∃ stop between entries final, refresh root tree = .ok stop final ∧
      RefreshRun tree root stop between entries final := by
  obtain ⟨stop, between, run, laidOut⟩ := forest.layOut_ok (show tree.nodes.size < tree.nodes.size + 1 + _ by omega)
    live 0
  have forest' := forest.congr laidOut.moved.shapes
  obtain ⟨entries, planned⟩ : ∃ entries, between.Planned (between.patchesBelow root) entries := by
    have each := each stop between laidOut
    generalize between.patchesBelow root = row at each
    induction row with
    | nil => exact ⟨[], .nil, by simp⟩
    | cons pair rest ih =>
        obtain ⟨entry, here, takes⟩ := each pair List.mem_cons_self
        obtain ⟨entries, behind⟩ := ih fun pair inside => each pair (List.mem_cons_of_mem _ inside)
        exact ⟨entry :: entries, .cons here behind.each, by simpa [takes] using behind.takes⟩
  obtain ⟨final, written, overwritten⟩ := planned.ok
  obtain ⟨here, live', _⟩ := laidOut.here
  have second : applyPatches (between.nodes.size + 1) root between = .ok () final :=
    (forest'.applyPatches_eq (by omega) live').trans written
  refine ⟨stop, between, entries, final, ?_, laidOut, planned, overwritten⟩
  unfold refresh
  rw [Step.bind_ok (Step.get_apply _), Step.bind_ok run, Step.bind_ok (Step.get_apply _), Step.bind_ok second]
  rfl

/-- A refresh of a current subtree succeeds, and changes nothing but places. -/
theorem Forest.refresh_of_current (forest : tree.Forest) {root : NodeId} (current : tree.Current root) :
    ∃ final, refresh root tree = .ok (UInt64.ofNat (tree.toBytes root).length) final ∧ Moved (tree.Owns root) tree final ∧
      final.toBytes root = tree.toBytes root := by
  have each {stop : UInt64} {between : BlockTree} (laidOut : LaidOut tree root 0 stop between) :
      ∀ pair ∈ between.patchesBelow root, ∃ entry : Field × Nat,
        between.entry pair = .ok entry ∧ between.Holds entry.1 entry.2 := by
    rintro ⟨owner, patch⟩ inside
    have forest' := forest.congr laidOut.moved.shapes
    have current' := current.frame forest forest' fun id _ => laidOut.moved.core?_eq id
    obtain ⟨owned, node, here, listed⟩ := mem_of_mem_patchesTo inside
    obtain ⟨_, here', _, patches⟩ := current' owner owned
    cases here.symm.trans here'
    have patched := patches patch listed
    obtain ⟨value, holds, counts⟩ := patched.holds
    exact ⟨_, laidOut.settled.entry_of_counts forest' owned patched.target holds.1 counts, holds⟩
  obtain ⟨node, live⟩ := isLive_iff.1 current.isLive
  obtain ⟨stop, between, entries, final, run, refreshed⟩ := forest.refresh_ok live fun stop between laidOut pair inside =>
    (each laidOut pair inside).imp fun _ => And.imp_right Holds.takes
  have laidOut := refreshed.laidOut
  have moved := laidOut.moved
  have forest' := forest.congr moved.shapes
  have bytes := current.toBytes_eq forest forest' (fun id _ => moved.core?_eq id) .top
  cases refreshed.overwritten.eq_of_holds fun entry inside => by
    obtain ⟨pair, listed, here⟩ := forall₂_mem refreshed.planned.each inside
    obtain ⟨_, there, holds⟩ := each laidOut pair listed
    cases here.symm.trans there
    exact holds
  obtain ⟨here, live', offset, length⟩ := laidOut.here
  have size : stop = UInt64.ofNat (tree.toBytes root).length := by
    rw [← bytes, laidOut.settled.length_toBytes forest' live', ← length, UInt64.zero_add]
  exact ⟨between, size ▸ run, moved, bytes⟩

end BlockTree
end DexArsc

namespace DexArsc

theorem forall₂_append_singleton {α β : Type} {related : α → β → Prop} {first : List α} {second : List β}
    {value : α} {partner : β} (pairwise : List.Forall₂ related first second) (here : related value partner) :
    List.Forall₂ related (first ++ [value]) (second ++ [partner]) :=
  List.rel_append pairwise (.cons here .nil)

namespace BlockTree

variable {tree final : BlockTree}

/-- A word of a leaf is the number that stands in its field. -/
theorem holds_word {id : NodeId} {front : List UInt8} (found : tree.leaf id = .ok front.toArray) {position : Nat}
    (within : position + 4 ≤ front.length) : tree.Holds (.word id position) (Bytes.word front position).toNat := by
  refine ⟨(Bytes.word front position).toNat_lt, _, found, ?_⟩
  have encoded : (Field.word id position).encode (Bytes.word front position).toNat =
      (front.drop position).take 4 := by
    rw [← Bytes.ofWord32_word within, Field.encode, UInt32.ofNat_toNat]
    rfl
  rw [encoded]
  exact List.take_prefix ..

/-- A node writes bytes, and the fields below it are current. -/
structure Spells (tree : BlockTree) (id : NodeId) (bytes : List UInt8) : Prop where
  current : tree.Current id
  toBytes : tree.toBytes id = bytes

namespace Spells

variable {id : NodeId} {bytes : List UInt8}

theorem frame (spells : tree.Spells id bytes) (forest : tree.Forest) (forest' : final.Forest)
    (same : ∀ other, tree.Owns id other → final.core? other = tree.core? other) : final.Spells id bytes :=
  ⟨spells.current.frame forest forest' same,
    (spells.current.toBytes_eq forest forest' same .top).trans spells.toBytes⟩

/-- A node spells the same as long as the nodes that were created behind it are the same. -/
theorem frame_behind (spells : tree.Spells id bytes) (linked : tree.Linked) (linked' : final.Linked)
    (same : ∀ other, id.index ≤ other.index → other.index < tree.nodes.size →
      final.core? other = tree.core? other) : final.Spells id bytes :=
  spells.frame linked.toForest linked'.toForest fun other owned => by
    obtain ⟨node, live, _⟩ := spells.current other owned
    exact same other (owned.index_le linked) (index_lt live)

/-- A leaf without patches spells its bytes. -/
theorem leaf (forest : tree.Forest) {node : Node} (live : tree.node? id = some node)
    (kind : node.kind = .leaf bytes.toArray) (patches : node.patches = []) : tree.Spells id bytes :=
  ⟨.leaf forest live kind patches, toBytes_leaf live kind⟩

end Spells

/-- A node that becomes a child writes the same as before, as all other nodes but the parent do. -/
theorem Adopted.core?_eq {parent child : NodeId} {owner node : Node}
    (adopted : tree.Adopted parent child owner node final) (live : tree.node? child = some node) {id : NodeId}
    (apart : id ≠ parent) : final.core? id = tree.core? id := by
  by_cases same : id = child
  · rw [same, core?_of_some adopted.below, core?_of_some live]
  · rw [core?, core?, adopted.others id apart same]

theorem map_toBytes {ids : List NodeId} {rows : List (List UInt8)}
    (spelled : List.Forall₂ tree.Spells ids rows) : ids.map tree.toBytes = rows := by
  induction spelled with
  | nil => rfl
  | cons here _ ih => rw [List.map_cons, here.toBytes, ih]

theorem flatMap_toBytes {ids : List NodeId} {rows : List (List UInt8)}
    (spelled : List.Forall₂ tree.Spells ids rows) : ids.flatMap tree.toBytes = rows.flatten := by
  rw [List.flatMap_def, map_toBytes spelled]

theorem frame_row {ids : List NodeId} {rows : List (List UInt8)} (spelled : List.Forall₂ tree.Spells ids rows)
    (linked : tree.Linked) (linked' : final.Linked) {start : Nat} (low : ∀ id ∈ ids, start ≤ id.index)
    (same : ∀ other, start ≤ other.index → other.index < tree.nodes.size →
      final.core? other = tree.core? other) : List.Forall₂ final.Spells ids rows :=
  forall₂_imp_mem spelled fun id inside _ _ here =>
    here.frame_behind linked linked' fun other behind => same other (Nat.le_trans (low id inside) behind)

/-- A container without a header and patches spells what its children spell. -/
theorem Spells.container (forest : tree.Forest) {id : NodeId} {node : Node} {rows : List (List UInt8)}
    (live : tree.node? id = some node) (kind : node.kind = .container) (patches : node.patches = [])
    (spelled : List.Forall₂ tree.Spells node.children rows) : tree.Spells id rows.flatten where
  current := .container live kind (fun child inside => by
    obtain ⟨_, _, here⟩ := forall₂_mem spelled.flip inside
    exact here.current) (by simp [patches])
  toBytes := by rw [forest.toBytes_container live kind, flatMap_toBytes spelled]

/-- A patch of a container whose field is a word of the header. The word is what the patch counts. -/
def WordPatch (tree : BlockTree) (id header : NodeId) (front : List UInt8) (patch : Patch) : Prop :=
  ∃ position, patch.field = .word header position ∧ position + 4 ≤ front.length ∧
    (∀ target, patch.target? = some target → tree.Owns id target) ∧
    tree.Counts id patch (Bytes.word front position).toNat

/-- A container begins with a header, a leaf, and has the given patches. -/
structure Headed (tree : BlockTree) (id header : NodeId) (front : List UInt8) (ids : List NodeId)
    (patches : List Patch) : Prop where
  node : ∃ node, tree.node? id = some node ∧ node.kind = .container ∧ node.children = header :: ids ∧
    node.patches = patches
  header : ∃ node, tree.node? header = some node ∧ node.kind = .leaf front.toArray ∧ node.patches = []

namespace Headed

variable {id header : NodeId} {front : List UInt8} {ids : List NodeId} {patches : List Patch}

theorem children (headed : tree.Headed id header front ids patches) : tree.children id = header :: ids := by
  obtain ⟨node, live, _, children, _⟩ := headed.node
  rw [children_of_node? live, children]

theorem leaf (headed : tree.Headed id header front ids patches) : tree.leaf header = .ok front.toArray := by
  obtain ⟨node, live, kind, _⟩ := headed.header
  exact leaf_eq_ok.2 ⟨node, live, kind⟩

theorem frame_node (headed : tree.Headed id header front ids patches) (same : final.core? id = tree.core? id) :
    ∃ node, final.node? id = some node ∧ node.kind = .container ∧ node.children = header :: ids ∧
      node.patches = patches := by
  obtain ⟨node, live, kind, children, patched⟩ := headed.node
  obtain ⟨other, here, kind', children', patched'⟩ := node_of_core? same live
  exact ⟨other, here, kind'.trans kind, children'.trans children, patched'.trans patched⟩

theorem frame (headed : tree.Headed id header front ids patches) (same : final.core? id = tree.core? id)
    (same' : final.core? header = tree.core? header) : final.Headed id header front ids patches where
  node := headed.frame_node same
  header := by
    obtain ⟨node, live, kind, patched⟩ := headed.header
    obtain ⟨other, here, kind', _, patched'⟩ := node_of_core? same' live
    exact ⟨other, here, kind'.trans kind, patched'.trans patched⟩

theorem toBytes (headed : tree.Headed id header front ids patches) (forest : tree.Forest)
    {rows : List (List UInt8)} (spelled : List.Forall₂ tree.Spells ids rows) :
    tree.toBytes id = front ++ rows.flatten := by
  obtain ⟨node, live, kind, children, _⟩ := headed.node
  obtain ⟨leaf, live', kind', _⟩ := headed.header
  rw [forest.toBytes_container live kind, children, List.flatMap_cons, toBytes_leaf live' kind',
    flatMap_toBytes spelled]

/-- A word of the header that its patch counts is current. -/
theorem currentPatch (headed : tree.Headed id header front ids patches) {patch : Patch}
    (patched : tree.WordPatch id header front patch) : tree.CurrentPatch id id patch := by
  obtain ⟨position, field, within, targets, counts⟩ := patched
  refine ⟨⟨ids, ?_⟩, targets, _, field ▸ holds_word headed.leaf within, counts⟩
  rw [field]
  exact headed.children

/-- A container whose patches are words of its header spells the header and what the other children spell. -/
theorem spells (headed : tree.Headed id header front ids patches) (forest : tree.Forest)
    {rows : List (List UInt8)} (spelled : List.Forall₂ tree.Spells ids rows)
    (patched : ∀ patch ∈ patches, tree.WordPatch id header front patch) :
    tree.Spells id (front ++ rows.flatten) where
  current := by
    obtain ⟨node, live, kind, children, same⟩ := headed.node
    obtain ⟨leaf, live', kind', none⟩ := headed.header
    refine .container live kind (fun child inside => ?_) fun patch inside =>
      headed.currentPatch (patched patch (same ▸ inside))
    rw [children] at inside
    rcases List.mem_cons.1 inside with rfl | inside
    · exact .leaf forest live' kind' none
    · obtain ⟨_, _, here⟩ := forall₂_mem spelled.flip inside
      exact here.current
  toBytes := headed.toBytes forest spelled

end Headed

/-- Every patch writes into a node that has been created. -/
def FieldsCreated (tree : BlockTree) : Prop :=
  ∀ id node patch, tree.node? id = some node → patch ∈ node.patches → patch.field.node.index < tree.nodes.size

/-- A patch of a current node writes the number that stands in its field already, wherever a layout places it. -/
theorem CurrentPatch.holds_of_entry {top owner : NodeId} {patch : Patch} {entry : Field × Nat}
    (current : tree.CurrentPatch top owner patch) (settled : tree.Settled top) (forest : tree.Forest)
    (owned : tree.Owns top owner) (run : tree.entry (owner, patch) = .ok entry) :
    tree.Holds entry.1 entry.2 := by
  obtain ⟨value, holds, counts⟩ := current.holds
  cases run.symm.trans (settled.entry_of_counts forest owned current.target holds.1 counts)
  exact holds

/-- The bytes of leaves are others, but those of the nodes of a set are the same. -/
structure Spares (inside : NodeId → Prop) (tree final : BlockTree) : Prop where
  refilled : Refilled tree final
  nodes : ∀ id, inside id → final.node? id = tree.node? id

/-- The nodes of a set stay when a patch writes into them only what stands there. -/
theorem applyPatch_spares {between : BlockTree} {inside : NodeId → Prop} {pair : NodeId × Patch}
    (holds : inside pair.2.field.node → ∀ entry, between.entry pair = .ok entry → between.Holds entry.1 entry.2)
    (tree : BlockTree) :
    (applyPatch pair).Leads (fun tree final => between.Spares inside tree → between.Spares inside final) tree := by
  unfold applyPatch
  refine .get (.check id fun entry run => ⟨(writeField_ensures entry.1 entry.2 tree).imp
    (fun _ final ⟨_, overwritten⟩ spares => ⟨spares.refilled.trans overwritten.refilled, fun id here => ?_⟩)
    fun final ⟨unchanged, _⟩ => unchanged ▸ fun spares => spares⟩)
  refine (overwritten.refilled.node?_eq fun place => ?_).trans (spares.nodes id here)
  rw [overwritten.bytes]
  refine overlay_of_holds fun other listed covers => ?_
  cases List.mem_singleton.1 listed
  obtain ⟨rfl, _⟩ := covers
  obtain ⟨fits, leaf, found, stands⟩ :=
    holds (field_of_entry run ▸ here) entry ((spares.refilled.entry pair).symm.trans run)
  exact ⟨fits, leaf, (leaf_congr (spares.nodes _ here)).trans found, stands⟩

/-- Wherever a refresh ends, a node spells what it did when only current nodes write into what it owns. -/
theorem Spells.of_refresh {top root : NodeId} {bytes : List UInt8} (spells : tree.Spells top bytes)
    (forest : tree.Forest) (writers : ∀ owner node patch, tree.node? owner = some node → patch ∈ node.patches →
      tree.Owns top patch.field.node → tree.Current owner)
    (ends : (refresh root).Ends tree final) : final.Spells top bytes := by
  cases live : tree.node? root with
  | none =>
      have run : refresh root tree = .error { cause := .tree (.notLive root.index) } tree := by
        unfold refresh
        rw [Step.bind_ok (Step.get_apply _), Step.bind_apply, layOut_of_not_live live]
      rcases ends with ⟨_, run'⟩ | ⟨_, run'⟩
      · cases run.symm.trans run'
      · cases run.symm.trans run'
        exact spells
  | some node =>
      obtain ⟨stop, between, laidOut, written⟩ := forest.refresh_ends live ends
      have moved := laidOut.moved
      have forest' := forest.congr moved.shapes
      have spells' : between.Spells top bytes := spells.frame forest forest' fun id _ => moved.core?_eq id
      have leads : ((between.patchesBelow root).forM applyPatch).Leads
          (fun tree final => between.Spares (between.Owns top) tree → between.Spares (between.Owns top) final)
          between := by
        refine .forM (fun _ spares => spares) (fun before behind spares => behind (before spares))
          (fun ⟨owner, patch⟩ inside tree => applyPatch_spares (fun below entry run => ?_) tree) between
        obtain ⟨owned, after, here, listed⟩ := mem_of_mem_patchesTo inside
        obtain ⟨before, there, _, _, patches⟩ := node_of_core? (moved.core?_eq owner).symm here
        have current := (writers owner before patch there (patches ▸ listed)
          ((moved.owns_iff top _).1 below)).frame forest forest' fun id _ => moved.core?_eq id
        obtain ⟨_, here', _, each⟩ := current owner .top
        cases here.symm.trans here'
        exact (each patch listed).holds_of_entry (laidOut.settled.below owned) forest' .top run
      have spares := leads.ends written ⟨.refl between, fun _ _ => rfl⟩
      exact spells'.frame forest' (forest'.congr spares.refilled.shapes) fun id owned => by
        rw [core?, core?, spares.nodes id owned]

end BlockTree
end DexArsc
