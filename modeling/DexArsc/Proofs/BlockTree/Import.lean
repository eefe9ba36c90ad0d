/-
Imports of subtrees. A copy stands for the subtree that it was made from, node for node. Subtrees that stand for each
other in this way write the same bytes and are refreshed alike, wherever their nodes are in the arenas.
-/

import DexArsc.Proofs.BlockTree.Copy
import DexArsc.Proofs.BlockTree.Current
import Mathlib.Tactic.IntervalCases

namespace DexArsc

section

variable (twin : NodeId → NodeId → Prop)

/-- Fields at the same place of leaves that stand for each other. -/
structure Field.Twin (field image : Field) : Prop where
  node : twin field.node image.node
  position : image.position = field.position
  width : image.width = field.width

/-- Patches of one kind with nodes that stand for each other. -/
inductive Patch.Twin : Patch → Patch → Prop
  | size {field image : Field} (fields : field.Twin twin image) : Patch.Twin (.size field) (.size image)
  | childCount {target copy : NodeId} {field image : Field} (targets : twin target copy)
      (fields : field.Twin twin image) : Patch.Twin (.childCount target field) (.childCount copy image)
  | relativeOffset {target copy : NodeId} {field image : Field} (targets : twin target copy)
      (fields : field.Twin twin image) : Patch.Twin (.relativeOffset target field) (.relativeOffset copy image)
  | length {target copy : NodeId} {field image : Field} (targets : twin target copy)
      (fields : field.Twin twin image) : Patch.Twin (.length target field) (.length copy image)

/-- Nodes with the same content, whose children and patches stand for each other in their order. -/
structure Node.Twin (node image : Node) : Prop where
  kind : image.kind = node.kind
  tag : image.tag = node.tag
  children : List.Forall₂ twin node.children image.children
  patches : List.Forall₂ (Patch.Twin twin) node.patches image.patches

end

variable {twin : NodeId → NodeId → Prop}

theorem Field.Twin.symm {field image : Field} (fields : field.Twin twin image) : image.Twin (flip twin) field :=
  ⟨fields.node, fields.position.symm, fields.width.symm⟩

theorem Field.Twin.encode_eq {field image : Field} (fields : field.Twin twin image) (value : Nat) :
    image.encode value = field.encode value := by
  rw [Field.encode, Field.encode, fields.width]

/-- A field covers a byte of a leaf exactly when its twin covers the byte of the leaf's twin. -/
theorem Field.Twin.covers_iff {field image : Field} (fields : field.Twin twin image)
    (unique : Relator.BiUnique twin) {id copy : NodeId} (pair : twin id copy) (place : Nat) :
    image.Covers copy place ↔ field.Covers id place := by
  have node : copy = image.node ↔ id = field.node :=
    ⟨fun same => unique.1 pair (same ▸ fields.node), fun same => unique.2 (same ▸ pair) fields.node⟩
  rw [Field.Covers, Field.Covers, node, fields.position, fields.width]

theorem Patch.Twin.symm {patch image : Patch} (patches : patch.Twin twin image) : image.Twin (flip twin) patch := by
  cases patches with
  | size fields => exact .size fields.symm
  | childCount targets fields => exact .childCount targets fields.symm
  | relativeOffset targets fields => exact .relativeOffset targets fields.symm
  | length targets fields => exact .length targets fields.symm

theorem Patch.Twin.field {patch image : Patch} (patches : patch.Twin twin image) :
    patch.field.Twin twin image.field := by
  cases patches <;> assumption

theorem Node.Twin.symm {node image : Node} (nodes : node.Twin twin image) : image.Twin (flip twin) node where
  kind := nodes.kind.symm
  tag := nodes.tag.symm
  children := nodes.children.flip
  patches := nodes.patches.flip.imp fun _ _ => Patch.Twin.symm

/-- The child that stands for a child. -/
theorem Node.Twin.child {node image : Node} (nodes : node.Twin twin image) {child : NodeId}
    (inside : child ∈ node.children) : ∃ copy ∈ image.children, twin child copy :=
  forall₂_mem nodes.children.flip inside

/-- The nodes that a patch names. -/
def Patch.Names (patch : Patch) (id : NodeId) : Prop :=
  id = patch.field.node ∨ patch.target? = some id

theorem NodeMap.mem_of_find {nodes : NodeMap} {id copy : NodeId} (found : nodes.find id = some copy) :
    (id, copy) ∈ nodes := by
  obtain ⟨before, behind, rfl, _⟩ := List.lookup_eq_some_iff.1 found
  exact List.mem_append_right _ List.mem_cons_self

theorem NodeMap.isSome_find {nodes : NodeMap} {id : NodeId} :
    (nodes.find id).isSome ↔ id ∈ nodes.map Prod.fst := by
  rw [NodeMap.find, List.lookup_isSome_iff, List.mem_map]
  exact exists_congr fun pair => and_congr_right fun _ => by rw [beq_iff_eq, eq_comm]

variable {nodes : NodeMap}

theorem Field.twin_of_rename {field image : Field} (renamed : field.rename nodes = some image) :
    field.Twin (fun id copy => (id, copy) ∈ nodes) image := by
  obtain ⟨copy, found, same⟩ := Option.bind_eq_some_iff.1 renamed
  cases same
  exact ⟨NodeMap.mem_of_find found, rfl, rfl⟩

/-- A renamed patch names the copies. -/
theorem Patch.twin_of_rename {patch image : Patch} (renamed : patch.rename nodes = some image) :
    patch.Twin (fun id copy => (id, copy) ∈ nodes) image := by
  cases patch with
  | size field =>
      obtain ⟨_, fields, same⟩ := Option.bind_eq_some_iff.1 renamed
      cases same
      exact .size (Field.twin_of_rename fields)
  | childCount target field =>
      obtain ⟨_, targets, renamed⟩ := Option.bind_eq_some_iff.1 renamed
      obtain ⟨_, fields, same⟩ := Option.bind_eq_some_iff.1 renamed
      cases same
      exact .childCount (NodeMap.mem_of_find targets) (Field.twin_of_rename fields)
  | relativeOffset target field =>
      obtain ⟨_, targets, renamed⟩ := Option.bind_eq_some_iff.1 renamed
      obtain ⟨_, fields, same⟩ := Option.bind_eq_some_iff.1 renamed
      cases same
      exact .relativeOffset (NodeMap.mem_of_find targets) (Field.twin_of_rename fields)
  | length target field =>
      obtain ⟨_, targets, renamed⟩ := Option.bind_eq_some_iff.1 renamed
      obtain ⟨_, fields, same⟩ := Option.bind_eq_some_iff.1 renamed
      cases same
      exact .length (NodeMap.mem_of_find targets) (Field.twin_of_rename fields)

/-- A patch is renamed when all nodes that it names have copies. -/
theorem Patch.isSome_rename {patch : Patch} :
    (patch.rename nodes).isSome ↔ ∀ id, patch.Names id → id ∈ nodes.map Prod.fst := by
  have fields (field : Field) : (field.rename nodes).isSome = (nodes.find field.node).isSome := by
    rw [Field.rename]
    cases nodes.find field.node <;> rfl
  have both {target : NodeId} {field : Field} {patch : NodeId → Field → Patch} :
      ((nodes.find target).bind fun copy => (field.rename nodes).bind fun image =>
        some (patch copy image)).isSome ↔ (nodes.find field.node).isSome ∧ (nodes.find target).isSome := by
    rw [← fields]
    cases nodes.find target <;> cases field.rename nodes <;> simp
  simp only [← NodeMap.isSome_find, Patch.Names, or_imp, forall_and, forall_eq]
  cases patch with
  | size field =>
      rw [Patch.field, ← fields, Patch.rename]
      cases field.rename nodes <;> simp [Patch.target?]
  | childCount target field => simpa [Patch.rename, Patch.field, Patch.target?] using both
  | relativeOffset target field => simpa [Patch.rename, Patch.field, Patch.target?] using both
  | length target field => simpa [Patch.rename, Patch.field, Patch.target?] using both

namespace BlockTree

variable {tree other between final : BlockTree} {top image : NodeId}

/-- The nodes below one node stand for those below another one: one for one, with the same content in the same
order. -/
structure Similar (twin : NodeId → NodeId → Prop) (tree : BlockTree) (top : NodeId) (other : BlockTree)
    (image : NodeId) : Prop where
  root : twin top image
  unique : Relator.BiUnique twin
  source : ∀ id, (∃ copy, twin id copy) ↔ tree.Owns top id
  target : ∀ copy, (∃ id, twin id copy) ↔ other.Owns image copy
  nodes : ∀ id copy, twin id copy → ∃ node fresh, tree.node? id = some node ∧ other.node? copy = some fresh ∧
    node.Twin twin fresh

/-- The nodes below one node stand for those below another one, with the places that they have. -/
structure Isomorphic (twin : NodeId → NodeId → Prop) (tree : BlockTree) (top : NodeId) (other : BlockTree)
    (image : NodeId) : Prop extends Similar twin tree top other image where
  places : ∀ id copy node fresh, twin id copy → tree.node? id = some node → other.node? copy = some fresh →
    fresh.offset = node.offset ∧ fresh.length = node.length

namespace Similar

theorem symm (similar : Similar twin tree top other image) : Similar (flip twin) other image tree top where
  root := similar.root
  unique := ⟨fun _ _ _ first second => similar.unique.2 first second,
    fun _ _ _ first second => similar.unique.1 first second⟩
  source := similar.target
  target := similar.source
  nodes id copy pair := by
    obtain ⟨node, fresh, live, here, nodes⟩ := similar.nodes copy id pair
    exact ⟨fresh, node, here, live, nodes.symm⟩

variable {id copy : NodeId} {node fresh : Node}

theorem twins (similar : Similar twin tree top other image) (pair : twin id copy) (live : tree.node? id = some node)
    (here : other.node? copy = some fresh) : node.Twin twin fresh := by
  obtain ⟨_, _, live', here', nodes⟩ := similar.nodes id copy pair
  cases live.symm.trans live'
  cases here.symm.trans here'
  exact nodes

theorem leaf (similar : Similar twin tree top other image) (pair : twin id copy) {bytes : Bytes}
    (found : tree.leaf id = .ok bytes) : other.leaf copy = .ok bytes := by
  obtain ⟨node, live, kind⟩ := leaf_eq_ok.1 found
  obtain ⟨_, fresh, live', here, nodes⟩ := similar.nodes id copy pair
  cases live.symm.trans live'
  exact leaf_eq_ok.2 ⟨fresh, here, nodes.kind.trans kind⟩

theorem takes (similar : Similar twin tree top other image) {field field' : Field} (fields : field.Twin twin field')
    {value : Nat} (takes : tree.Takes (field, value)) : other.Takes (field', value) := by
  obtain ⟨⟨bytes, found, within⟩, fits⟩ := takes
  refine ⟨⟨bytes, similar.leaf fields.node found, ?_⟩, ?_⟩
  · rw [fields.position, fields.width]
    exact within
  · rw [fields.width]
    exact fits

/-- Wherever nodes are placed, they stand for each other. -/
theorem moved (similar : Similar twin tree top other image) {inside inside' : NodeId → Prop}
    {final' : BlockTree} (moved : Moved inside tree final) (moved' : Moved inside' other final') :
    Similar twin final top final' image where
  root := similar.root
  unique := similar.unique
  source id := (similar.source id).trans (moved.owns_iff top id).symm
  target copy := (similar.target copy).trans (moved'.owns_iff image copy).symm
  nodes id copy pair := by
    obtain ⟨node, fresh, live, here, nodes⟩ := similar.nodes id copy pair
    obtain ⟨offset, length, live'⟩ := moved.node live
    obtain ⟨offset', length', here'⟩ := moved'.node here
    exact ⟨_, _, live', here', nodes.kind, nodes.tag, nodes.children, nodes.patches⟩

end Similar

/-- Rows that stand for each other and begin at one offset have the same places, when nodes at the same offset have
the same length. -/
theorem Tiles.alike (unique : Relator.BiUnique twin) {start stop stop' : UInt64} {row images : List NodeId}
    (pairs : List.Forall₂ twin row images) (tiles : tree.Tiles start row stop)
    (tiles' : other.Tiles start images stop')
    (lengths : ∀ id ∈ row, ∀ copy node fresh, twin id copy → tree.node? id = some node →
      other.node? copy = some fresh → fresh.offset = node.offset → fresh.length = node.length) :
    stop' = stop ∧ ∀ id ∈ row, ∀ copy node fresh, twin id copy → tree.node? id = some node →
      other.node? copy = some fresh → fresh.offset = node.offset := by
  induction pairs generalizing start with
  | nil => exact ⟨tiles'.trans tiles.symm, by simp⟩
  | @cons id copy row images pair _ ih =>
      obtain ⟨node, live, rfl, behind⟩ := tiles
      obtain ⟨fresh, here, offset, behind'⟩ := tiles'
      have length := lengths id List.mem_cons_self copy node fresh pair live here offset
      rw [length] at behind'
      obtain ⟨stops, offsets⟩ := ih behind behind' fun next inside => lengths next (List.mem_cons_of_mem _ inside)
      refine ⟨stops, fun next inside copy' node' fresh' pair' live' here' => ?_⟩
      rcases List.mem_cons.1 inside with rfl | inside
      · cases unique.2 pair pair'
        cases live.symm.trans live'
        cases here.symm.trans here'
        exact offset
      · exact offsets next inside copy' node' fresh' pair' live' here'

namespace Similar

variable {id copy : NodeId} {node fresh : Node}

/-- Nodes that stand for each other are as long as each other when they fit their places at one offset. -/
theorem length_eq (similar : Similar twin tree top other image) (forest : tree.Forest) (settled : tree.Settled top)
    (settled' : other.Settled image) (pair : twin id copy) (live : tree.node? id = some node)
    (here : other.node? copy = some fresh) (offset : fresh.offset = node.offset) : fresh.length = node.length := by
  induction id using forest.wellFounded_flip.induction generalizing copy node fresh with
  | _ id ih =>
      obtain ⟨_, found, fits⟩ := settled id ((similar.source id).1 ⟨copy, pair⟩)
      cases found.symm.trans live
      obtain ⟨_, found', fits'⟩ := settled' copy ((similar.target copy).1 ⟨id, pair⟩)
      cases found'.symm.trans here
      have nodes := similar.twins pair live here
      cases kind : node.kind with
      | leaf bytes =>
          simp only [Fits, nodes.kind, kind] at fits fits'
          rw [fits, fits']
      | pad padding =>
          simp only [Fits, nodes.kind, kind] at fits fits'
          rw [fits, fits', offset]
      | container =>
          simp only [Fits, nodes.kind, kind] at fits fits'
          rw [offset] at fits'
          have stops := (fits.alike similar.unique nodes.children fits' fun child inside _ _ _ pair live here =>
            ih child (forest.down id node.shape child (shape?_of_some found) inside) pair live here).1
          exact add_left_cancel stops

/-- Nodes that stand for each other have the same offset when they fit their places below nodes at one offset. -/
theorem offset_eq (similar : Similar twin tree top other image) (forest : tree.Forest) (settled : tree.Settled top)
    (settled' : other.Settled image)
    (roots : ∀ node fresh, tree.node? top = some node → other.node? image = some fresh →
      fresh.offset = node.offset) (pair : twin id copy) (live : tree.node? id = some node)
    (here : other.node? copy = some fresh) : fresh.offset = node.offset := by
  have owned := (similar.source id).1 ⟨copy, pair⟩
  induction owned generalizing copy node fresh with
  | top =>
      cases similar.unique.2 similar.root pair
      exact roots node fresh live here
  | @child parent id above owned found inside ih =>
      obtain ⟨parentCopy, parents⟩ := (similar.source parent).2 owned
      obtain ⟨_, aboveCopy, found', there, nodes⟩ := similar.nodes parent parentCopy parents
      cases found.symm.trans found'
      have offset := ih parents found there
      have container := Node.content_eq_container.1
        (forest.owner parent above.shape id (shape?_of_some found) inside)
      obtain ⟨_, same, fits⟩ := settled parent owned
      cases same.symm.trans found
      obtain ⟨_, same', fits'⟩ := settled' parentCopy ((similar.target parentCopy).1 ⟨parent, parents⟩)
      cases same'.symm.trans there
      simp only [Fits, nodes.kind, container] at fits fits'
      rw [offset] at fits'
      exact (fits.alike similar.unique nodes.children fits' fun child _ _ _ _ pair live here =>
        similar.length_eq forest settled settled' pair live here).2 id inside copy node fresh pair live here

/-- Nodes that stand for each other are laid out alike. -/
theorem laidOut (similar : Similar twin tree top other image) (forest : tree.Forest) {stop stop' : UInt64}
    {between between' : BlockTree} (first : LaidOut tree top 0 stop between)
    (second : LaidOut other image 0 stop' between') :
    stop' = stop ∧ Isomorphic twin between top between' image := by
  have forest' := forest.congr first.moved.shapes
  have behind := similar.moved first.moved second.moved
  obtain ⟨root, live, start, stops⟩ := first.here
  obtain ⟨root', here, start', stops'⟩ := second.here
  have roots (node fresh : Node) (found : between.node? top = some node)
      (found' : between'.node? image = some fresh) : fresh.offset = node.offset := by
    cases found.symm.trans live
    cases found'.symm.trans here
    rw [start, start']
  have places (id copy : NodeId) (node fresh : Node) (pair : twin id copy) (found : between.node? id = some node)
      (found' : between'.node? copy = some fresh) : fresh.offset = node.offset ∧ fresh.length = node.length := by
    have offset := behind.offset_eq forest' first.settled second.settled roots pair found found'
    exact ⟨offset, behind.length_eq forest' first.settled second.settled pair found found' offset⟩
  have length := (places top image root root' similar.root live here).2
  exact ⟨by rw [← stops, ← stops', length], behind, places⟩

end Similar

namespace Isomorphic

/-- Nodes that stand for each other write the same bytes. -/
theorem toBytes_eq (isomorphic : Isomorphic twin tree top other image) (forest : tree.Forest)
    (forest' : other.Forest) {id copy : NodeId} (pair : twin id copy) : other.toBytes copy = tree.toBytes id := by
  induction id using forest.wellFounded_flip.induction generalizing copy with
  | _ id ih =>
      obtain ⟨node, fresh, live, here, nodes⟩ := isomorphic.nodes id copy pair
      cases kind : node.kind with
      | leaf bytes => rw [toBytes_leaf live kind, toBytes_leaf here (nodes.kind.trans kind)]
      | pad padding =>
          rw [toBytes_pad live kind, toBytes_pad here (nodes.kind.trans kind),
            (isomorphic.places id copy node fresh pair live here).2]
      | container =>
          rw [forest.toBytes_container live kind, forest'.toBytes_container here (nodes.kind.trans kind),
            List.flatMap_def, List.flatMap_def]
          have rows : List.Forall₂ (fun child copy => other.toBytes copy = tree.toBytes child) node.children
              fresh.children := forall₂_imp_mem nodes.children fun child inside copy _ pair =>
            ih child (forest.down id node.shape child (shape?_of_some live) inside) pair
          rw [(List.forall₂_eq_eq_eq ▸ List.forall₂_map_left_iff.2 (List.forall₂_map_right_iff.2
            (rows.imp fun _ _ => Eq.symm)) : node.children.map tree.toBytes = fresh.children.map other.toBytes)]

end Isomorphic

/-- The patches below nodes that stand for each other stand for each other, in the order in which they are written. -/
theorem Similar.patchesTo (similar : Similar twin tree top other image) (forest : tree.Forest)
    (forest' : other.Forest) {first second : Nat} {id copy : NodeId} (pair : twin id copy)
    (enough : tree.nodes.size < first + tree.depth id) (enough' : other.nodes.size < second + other.depth copy) :
    List.Forall₂ (fun pair pair' => twin pair.1 pair'.1 ∧ pair.2.Twin twin pair'.2)
      (tree.patchesTo first id) (other.patchesTo second copy) := by
  have bound := tree.depth_le id
  have bound' := other.depth_le copy
  induction first generalizing second id copy with
  | zero => omega
  | succ first ih =>
      obtain _ | second := second
      · omega
      obtain ⟨node, fresh, live, here, nodes⟩ := similar.nodes id copy pair
      simp only [BlockTree.patchesTo, shape?_of_some live, shape?_of_some here]
      refine List.rel_append ?_ ?_
      · have rows : List.Forall₂ (fun child child' => twin child child' ∧ tree.Above id child ∧
            other.Above copy child') node.children fresh.children :=
          forall₂_imp_mem nodes.children fun child inside child' inside' pair =>
            ⟨pair, forest.down id node.shape child (shape?_of_some live) inside,
              forest'.down copy fresh.shape child' (shape?_of_some here) inside'⟩
        refine List.rel_flatMap rows fun child child' both => ?_
        obtain ⟨pair, above, above'⟩ := both
        have deeper := forest.depth_lt above
        have deeper' := forest'.depth_lt above'
        exact ih pair (by omega) (by omega) (tree.depth_le child) (other.depth_le child')
      · exact List.rel_map (fun _ _ patches => ⟨pair, patches⟩) nodes.patches

theorem Similar.patchesBelow (similar : Similar twin tree top other image) (forest : tree.Forest)
    (forest' : other.Forest) : List.Forall₂ (fun pair pair' => pair ∈ tree.patchesBelow top ∧
      twin pair.1 pair'.1 ∧ pair.2.Twin twin pair'.2) (tree.patchesBelow top) (other.patchesBelow image) :=
  forall₂_imp_mem (similar.patchesTo forest forest' similar.root
    (show tree.nodes.size < tree.nodes.size + 1 + tree.depth top by omega)
    (show other.nodes.size < other.nodes.size + 1 + other.depth image by omega))
    fun _ inside _ _ twins => ⟨inside, twins⟩

/-- No patch below a node counts the way to the node itself. -/
def Unmeasured (tree : BlockTree) (top : NodeId) : Prop :=
  ∀ id node, tree.Owns top id → tree.node? id = some node → ∀ field, .relativeOffset top field ∉ node.patches

theorem Similar.unmeasured (similar : Similar twin tree top other image) (unmeasured : tree.Unmeasured top) :
    other.Unmeasured image := by
  intro copy fresh owned here field inside
  obtain ⟨id, pair⟩ := (similar.target copy).2 owned
  obtain ⟨node, _, live, here', nodes⟩ := similar.nodes id copy pair
  cases here.symm.trans here'
  obtain ⟨patch, listed, patches⟩ := forall₂_mem nodes.patches inside
  cases patches with
  | relativeOffset targets fields =>
      cases similar.unique.1 similar.root targets
      exact unmeasured id node ((similar.source id).1 ⟨copy, pair⟩) live _ listed

/-- Patches that stand for each other have the same value. -/
theorem Isomorphic.entry (isomorphic : Isomorphic twin tree top other image) (forest : tree.Forest)
    (forest' : other.Forest) {owner copy : NodeId} {patch patch' : Patch} (pair : twin owner copy)
    (patches : patch.Twin twin patch') (apart : ∀ field, patch ≠ .relativeOffset top field) {entry : Field × Nat}
    (run : tree.entry (owner, patch) = .ok entry) : other.entry (copy, patch') = .ok (patch'.field, entry.2) := by
  obtain ⟨node, fresh, live, here, nodes⟩ := isomorphic.nodes owner copy pair
  obtain ⟨offset, length⟩ := isomorphic.places owner copy node fresh pair live here
  rw [entry_of_some live] at run
  rw [entry_of_some here, offset, length]
  cases patches with
  | size fields =>
      cases run
      rfl
  | @childCount target target' _ _ targets fields =>
      obtain ⟨node, fresh, live, here, nodes⟩ := isomorphic.nodes target target' targets
      rw [patchValue_childCount live] at run
      rw [patchValue_childCount here, ← nodes.children.length_eq]
      cases run
      rfl
  | @length target target' _ _ targets fields =>
      obtain ⟨node, fresh, live, here, nodes⟩ := isomorphic.nodes target target' targets
      rw [patchValue_length live] at run
      rw [patchValue_length here, (isomorphic.places target target' node fresh targets live here).2]
      cases run
      rfl
  | @relativeOffset target target' field _ targets fields =>
      obtain ⟨node, fresh, live, here, nodes⟩ := isomorphic.nodes target target' targets
      rcases ((isomorphic.source target).1 ⟨target', targets⟩).up forest with rfl | ⟨parent, above, _⟩
      · exact absurd rfl (apart field)
      rcases ((isomorphic.target target').1 ⟨target, targets⟩).up forest' with rfl | ⟨parent', above', _⟩
      · cases isomorphic.unique.1 isomorphic.root targets
        exact absurd rfl (apart field)
      rw [parent?, live] at above
      rw [parent?, here] at above'
      rw [patchValue_relativeOffset live above] at run
      rw [patchValue_relativeOffset here above', (isomorphic.places target target' node fresh targets live here).1]
      cases run
      rfl

/-- The same number for fields that stand for each other. -/
def EntryTwin (twin : NodeId → NodeId → Prop) (entry entry' : Field × Nat) : Prop :=
  entry.1.Twin twin entry'.1 ∧ entry'.2 = entry.2

theorem overlay_twin {entries entries' : List (Field × Nat)}
    (pairs : List.Forall₂ (EntryTwin twin) entries entries') (unique : Relator.BiUnique twin) {id copy : NodeId}
    (pair : twin id copy) (place : Nat) (byte : Option UInt8) :
    overlay entries' copy place byte = overlay entries id place byte := by
  induction pairs generalizing byte with
  | nil => rfl
  | @cons entry entry' _ _ here _ ih =>
      obtain ⟨fields, value⟩ := here
      rw [overlay_cons, overlay_cons, ih, value, fields.encode_eq, fields.position]
      simp only [fields.covers_iff unique pair]

/-- Trees that stand for each other do so with the same numbers in their fields. -/
theorem Isomorphic.overwritten (isomorphic : Isomorphic twin tree top other image) {final' : BlockTree}
    {entries entries' : List (Field × Nat)} (written : Overwritten entries tree final)
    (written' : Overwritten entries' other final') (pairs : List.Forall₂ (EntryTwin twin) entries entries') :
    Isomorphic twin final top final' image := by
  have each (id copy : NodeId) (pair : twin id copy) : ∃ node fresh, final.node? id = some node ∧
      final'.node? copy = some fresh ∧ node.Twin twin fresh ∧ fresh.offset = node.offset ∧
        fresh.length = node.length := by
    obtain ⟨node, fresh, live, here, nodes⟩ := isomorphic.nodes id copy pair
    obtain ⟨offset, length⟩ := isomorphic.places id copy node fresh pair live here
    obtain ⟨node', live', same⟩ := written.refilled.node live
    obtain ⟨fresh', here', same'⟩ := written'.refilled.node here
    by_cases isLeaf : ∃ bytes, node.kind = .leaf bytes
    · obtain ⟨bytes, kind⟩ := isLeaf
      have kind' := nodes.kind.trans kind
      obtain ⟨after, size, rfl⟩ := Node.leaf_of_blank same kind
      obtain ⟨after', size', rfl⟩ := Node.leaf_of_blank same' kind'
      have bytes_eq : after' = after := Array.ext_getElem? fun place => by
        have byte := written.bytes id place
        have byte' := written'.bytes copy place
        rw [byte?_of_leaf (leaf_eq_ok.2 ⟨_, live', rfl⟩), byte?_of_leaf (leaf_eq_ok.2 ⟨_, live, kind⟩)] at byte
        rw [byte?_of_leaf (leaf_eq_ok.2 ⟨_, here', rfl⟩), byte?_of_leaf (leaf_eq_ok.2 ⟨_, here, kind'⟩),
          overlay_twin pairs isomorphic.unique pair] at byte'
        exact byte'.trans byte.symm
      exact ⟨_, _, live', here', ⟨by rw [bytes_eq], nodes.tag, nodes.children, nodes.patches⟩, offset, length⟩
    · have no (bytes : Bytes) : node.kind ≠ .leaf bytes := fun kind => isLeaf ⟨bytes, kind⟩
      cases Node.eq_of_blank same no
      cases Node.eq_of_blank same' (nodes.kind ▸ no)
      exact ⟨_, _, live', here', nodes, offset, length⟩
  exact {
    root := isomorphic.root
    unique := isomorphic.unique
    source := fun id => (isomorphic.source id).trans (written.refilled.owns_iff top id).symm
    target := fun copy => (isomorphic.target copy).trans (written'.refilled.owns_iff image copy).symm
    nodes := fun id copy pair => by
      obtain ⟨node, fresh, live, here, nodes, _⟩ := each id copy pair
      exact ⟨node, fresh, live, here, nodes⟩
    places := fun id copy node fresh pair live here => by
      obtain ⟨_, _, live', here', _, places⟩ := each id copy pair
      cases live.symm.trans live'
      cases here.symm.trans here'
      exact places }

/-- Where nodes stand for each other and one of them is refreshed, so is the other one, with the same result. -/
theorem Similar.refresh_ok (similar : Similar twin tree top other image) (forest : tree.Forest)
    (forest' : other.Forest) (unmeasured : tree.Unmeasured top) {size : UInt64}
    (run : refresh top tree = .ok size final) :
    ∃ final', refresh image other = .ok size final' ∧ Isomorphic twin final top final' image := by
  obtain ⟨between, entries, refreshed⟩ := forest.refresh_run run
  obtain ⟨_, fresh, _, here, _⟩ := similar.nodes top image similar.root
  have laidOut := refreshed.laidOut
  have behind := forest.congr laidOut.moved.shapes
  have follows {stop' : UInt64} {between' : BlockTree} (laidOut' : LaidOut other image 0 stop' between') :
      List.Forall₂ (fun (entry : Field × Nat) pair' => entry.1.Twin twin pair'.2.field ∧
        between'.entry pair' = .ok (pair'.2.field, entry.2)) entries (between'.patchesBelow image) := by
    have isomorphic := (similar.laidOut forest laidOut laidOut').2
    have behind' := forest'.congr laidOut'.moved.shapes
    refine forall₂_comp refreshed.planned.each.flip (isomorphic.toSimilar.patchesBelow behind behind')
      fun entry pair pair' found ⟨inside, owners, patches⟩ => ?_
    refine ⟨field_of_entry found ▸ patches.field, isomorphic.entry behind behind' owners patches ?_ found⟩
    obtain ⟨owned, node, live, listed⟩ := mem_of_mem_patchesTo inside
    obtain ⟨before, old, _, _, patched⟩ := node_of_core? (laidOut.moved.core?_eq pair.1).symm live
    exact fun field same => unmeasured pair.1 before ((laidOut.moved.owns_iff top pair.1).1 owned) old field
      (patched ▸ same ▸ listed)
  obtain ⟨stop', between', entries', final', run', refreshed'⟩ := forest'.refresh_ok here
    fun stop' between' laidOut' pair' inside => by
      obtain ⟨entry, listed, fields, found⟩ := forall₂_mem (follows laidOut') inside
      exact ⟨_, found, (similar.laidOut forest laidOut laidOut').2.toSimilar.takes fields
        (refreshed.planned.takes entry listed)⟩
  obtain ⟨stops, isomorphic⟩ := similar.laidOut forest laidOut refreshed'.laidOut
  have pairs : List.Forall₂ (EntryTwin twin) entries entries' :=
    forall₂_comp (follows refreshed'.laidOut) refreshed'.planned.each
      fun entry pair' entry' ⟨fields, found⟩ found' => by
        cases found.symm.trans found'
        exact ⟨fields, rfl⟩
  exact ⟨final', stops ▸ run', isomorphic.overwritten refreshed.overwritten refreshed'.overwritten pairs⟩

/-- Two refreshes fail both, or both return the same length and leave the same bytes. -/
def RefreshedAlike (tree : BlockTree) (top : NodeId) (other : BlockTree) (image : NodeId) : Prop :=
  (∃ size final final', refresh top tree = .ok size final ∧ refresh image other = .ok size final' ∧
    final'.toBytes image = final.toBytes top) ∨
  ∃ fault fault' final final', refresh top tree = .error fault final ∧ refresh image other = .error fault' final'

theorem Similar.refreshedAlike (similar : Similar twin tree top other image) (forest : tree.Forest)
    (forest' : other.Forest) (unmeasured : tree.Unmeasured top) : RefreshedAlike tree top other image := by
  cases run : refresh top tree with
  | ok size final =>
      obtain ⟨final', run', isomorphic⟩ := similar.refresh_ok forest forest' unmeasured run
      have shapes := ((refresh_leads top tree).ensures.ok run).shapes
      have shapes' := ((refresh_leads image other).ensures.ok run').shapes
      exact .inl ⟨size, final, final', run, run',
        isomorphic.toBytes_eq (forest.congr shapes) (forest'.congr shapes') isomorphic.root⟩
  | error fault final =>
      cases run' : refresh image other with
      | ok size final' =>
          obtain ⟨_, other, _⟩ := similar.symm.refresh_ok forest' forest (similar.unmeasured unmeasured) run'
          rw [run] at other
          cases other
      | error fault' final' => exact .inr ⟨fault, fault', final, final', run, run'⟩

/-- The patches below a node name only nodes below it. -/
def Confined (tree : BlockTree) (top : NodeId) : Prop :=
  ∀ id node, tree.Owns top id → tree.node? id = some node → ∀ patch ∈ node.patches, ∀ target,
    patch.Names target → tree.Owns top target

variable {pairs : NodeMap} {id : NodeId}

/-- A copy stands for the node that it was made from. -/
theorem Imported.isomorphic (imported : Imported other id tree final pairs) :
    Isomorphic (fun old copy => (old, copy) ∈ pairs) other id final tree.fresh := by
  have unique : Relator.BiUnique fun old copy => (old, copy) ∈ pairs :=
    ⟨fun _ _ _ first second => congrArg Prod.fst (List.inj_on_of_nodup_map imported.values first second rfl),
      fun _ _ _ first second => congrArg Prod.snd (List.inj_on_of_nodup_map imported.keys first second rfl)⟩
  have source (old : NodeId) : (∃ copy, (old, copy) ∈ pairs) ↔ other.Owns id old := by
    rw [← imported.owned, List.mem_map]
    exact ⟨fun ⟨copy, listed⟩ => ⟨_, listed, rfl⟩, fun ⟨⟨_, copy⟩, listed, same⟩ => ⟨copy, same ▸ listed⟩⟩
  have nodes (old copy : NodeId) (listed : (old, copy) ∈ pairs) : ∃ node fresh, other.node? old = some node ∧
      final.node? copy = some fresh ∧ node.CopiedBy pairs fresh ∧
        node.Twin (fun old copy => (old, copy) ∈ pairs) fresh := by
    obtain ⟨node, fresh, live, here, copied, patches⟩ := imported.each _ listed
    exact ⟨node, fresh, live, here, copied, copied.kind, copied.tag, copied.children,
      (mapM_eq_some.1 patches).imp fun _ _ => Patch.twin_of_rename⟩
  refine ⟨⟨imported.root, unique, source, fun copy => ⟨?_, fun owned => ?_⟩, fun old copy listed => ?_⟩,
    fun old copy node fresh listed live here => ?_⟩
  · rintro ⟨old, listed⟩
    have owned := (source old).1 ⟨copy, listed⟩
    induction owned generalizing copy with
    | top => exact unique.2 imported.root listed ▸ .top
    | @child parent old _ above found inside ih =>
        obtain ⟨parentCopy, parents⟩ := (source parent).2 above
        obtain ⟨_, fresh, live, here, _, twins⟩ := nodes parent parentCopy parents
        cases found.symm.trans live
        obtain ⟨partner, below, listed'⟩ := twins.child inside
        cases unique.2 listed listed'
        exact .child (ih parentCopy parents) here below
  · induction owned with
    | top => exact ⟨id, imported.root⟩
    | @child parent copy _ _ found inside ih =>
        obtain ⟨old, listed⟩ := ih
        obtain ⟨_, fresh, _, here, _, twins⟩ := nodes old parent listed
        cases found.symm.trans here
        obtain ⟨child, _, listed⟩ := forall₂_mem twins.children inside
        exact ⟨child, listed⟩
  · obtain ⟨node, fresh, live, here, _, twins⟩ := nodes old copy listed
    exact ⟨node, fresh, live, here, twins⟩
  · obtain ⟨_, _, live', here', copied, _⟩ := nodes old copy listed
    cases live.symm.trans live'
    cases here.symm.trans here'
    exact ⟨copied.offset, copied.length⟩

/-- What is imported has patches that name only nodes below it. -/
theorem Imported.confined (imported : Imported other id tree final pairs) : other.Confined id := by
  intro old node owned live patch inside target named
  obtain ⟨⟨_, copy⟩, listed, rfl⟩ := List.mem_map.1 ((imported.owned old).2 owned)
  obtain ⟨_, _, live', _, _, patches⟩ := imported.each _ listed
  cases live.symm.trans live'
  obtain ⟨renamed, _, run⟩ := forall₂_mem (mapM_eq_some.1 patches).flip inside
  exact (imported.owned target).1 (Patch.isSome_rename.1 (Option.isSome_of_eq_some run) target named)

/-- What is refused has a patch that names another node. -/
theorem Unimported.not_confined (unimported : Unimported other id tree final) : ¬other.Confined id := by
  intro confined
  obtain ⟨pairs, listed, old, node, owned, live, refused⟩ := unimported.outside
  have each : ∀ patch ∈ node.patches, (Patch.rename pairs patch).isSome := fun patch inside =>
    Patch.isSome_rename.2 fun target named => listed target (confined old node owned live patch inside target named)
  obtain ⟨patches, run⟩ := exists_mapM_eq_some each
  rw [refused] at run
  cases run

/-- A fresh node without a parent stands for a node of another tree, with fresh nodes below it. Everything that was
there before is as it was, and both nodes write the same bytes, now and behind a refresh. -/
structure ImportedAs (other : BlockTree) (id : NodeId) (tree : BlockTree) (copy : NodeId) (final : BlockTree) :
    Prop where
  fresh : tree.nodes.size ≤ copy.index
  orphan : final.parent? copy = none
  kept : ∀ old, old.index < tree.nodes.size → final.node? old = tree.node? old
  isomorphic : ∃ twin, Isomorphic twin other id final copy ∧
    ∀ old new, twin old new → tree.nodes.size ≤ new.index
  bytes : final.toBytes copy = other.toBytes id
  refresh : other.Unmeasured id → RefreshedAlike other id final copy

/-- A subtree whose patches name only its own nodes is imported, and no other one is. -/
theorem importNode_of_wellFormed (source : other.WellFormed) (target : tree.WellFormed)
    (live : other.isLive id = true) :
    (other.Confined id → ∃ copy final, importNode other id tree = .ok copy final ∧
      ImportedAs other id tree copy final) ∧
    (¬other.Confined id → ∃ fault final, importNode other id tree = .error fault final ∧
      ∀ old, old.index < tree.nodes.size → final.node? old = tree.node? old) := by
  obtain ⟨node, found⟩ := isLive_iff.1 live
  have ensures := importNode_ensures source.forest (by rw [shape?_of_some found]; rfl) target.forest
  cases run : importNode other id tree with
  | ok copy final =>
      obtain ⟨rfl, pairs, imported⟩ := ensures.ok run
      have forest := imported.enlarged.forest
      have isomorphic := imported.isomorphic
      refine ⟨fun _ => ⟨_, final, rfl, ?_⟩, fun outside => absurd imported.confined outside⟩
      exact {
        fresh := Nat.le_refl _
        orphan := imported.orphan
        kept := imported.enlarged.kept
        isomorphic := ⟨_, isomorphic, fun _ _ listed => imported.fresh _ listed⟩
        bytes := isomorphic.toBytes_eq source.forest forest isomorphic.root
        refresh := isomorphic.toSimilar.refreshedAlike source.forest forest }
  | error fault final =>
      have unimported := ensures.error run
      exact ⟨fun confined => absurd confined unimported.not_confined,
        fun _ => ⟨fault, final, rfl, unimported.enlarged.kept⟩⟩

/-- A chunk with its size and the offset of a byte, and a container with a patch for the header of the chunk. -/
def chunkBeside : BlockTree where
  nodes := #[
    some {
      kind := .container
      tag := 3
      children := [⟨1⟩, ⟨2⟩, ⟨3⟩]
      patches := [.size (.word ⟨1⟩ 0), .relativeOffset ⟨2⟩ (.word ⟨1⟩ 4)] },
    some {
      kind := .leaf #[0, 0, 0, 0, 0, 0, 0, 0]
      tag := 0
      parent := some ⟨0⟩
      length := 8 },
    some {
      kind := .leaf #[7]
      tag := 0
      parent := some ⟨0⟩
      length := 1 },
    some {
      kind := .pad {}
      tag := 0
      parent := some ⟨0⟩ },
    some {
      kind := .container
      tag := 0
      patches := [.size (.word ⟨1⟩ 0)] }]

theorem chunkBeside_reached : chunkBeside.Reached := by
  have root : Reached _ := .edit (.newContainer 3) .empty (Step.ends_ok rfl)
  have header : Reached _ := .edit (.newLeaf 0 #[0, 0, 0, 0, 0, 0, 0, 0]) root (Step.ends_ok rfl)
  have byte : Reached _ := .edit (.newLeaf 0 #[7]) header (Step.ends_ok rfl)
  have padding : Reached _ := .edit (.newPad {}) byte (Step.ends_ok rfl)
  have beside : Reached _ := .edit (.newContainer 0) padding (Step.ends_ok rfl)
  have first : Reached _ := .edit (.addChild ⟨0⟩ ⟨1⟩) beside (Step.ends_ok rfl)
  have second : Reached _ := .edit (.addChild ⟨0⟩ ⟨2⟩) first (Step.ends_ok rfl)
  have third : Reached _ := .edit (.addChild ⟨0⟩ ⟨3⟩) second (Step.ends_ok rfl)
  have size : Reached _ := .edit (.addPatch ⟨0⟩ (.size (.word ⟨1⟩ 0))) third (Step.ends_ok rfl)
  have offset : Reached _ := .edit (.addPatch ⟨0⟩ (.relativeOffset ⟨2⟩ (.word ⟨1⟩ 4))) size (Step.ends_ok rfl)
  exact .edit (.addPatch ⟨4⟩ (.size (.word ⟨1⟩ 0))) offset (Step.ends_ok rfl)

theorem chunkBeside_unmeasured : chunkBeside.Unmeasured ⟨0⟩ := by
  rintro ⟨place⟩ node _ live field inside
  have low : place < 5 := index_lt live
  interval_cases place <;> cases live <;> simp [Field.word] at inside

/-- The chunk is imported and refreshed, and the container beside it is refused. -/
theorem importNode_of_wellFormed_chunk : ∃ copy final, importNode chunkBeside ⟨0⟩ {} = .ok copy final ∧
    ImportedAs chunkBeside ⟨0⟩ {} copy final ∧ RefreshedAlike chunkBeside ⟨0⟩ final copy ∧
    (∃ after, refresh copy final = .ok 12 after) ∧ chunkBeside.Confined ⟨0⟩ ∧ ¬chunkBeside.Confined ⟨4⟩ ∧
      ∃ fault after, importNode chunkBeside ⟨4⟩ {} = .error fault after := by
  have imports (id : NodeId) (live : chunkBeside.isLive id = true) :=
    importNode_of_wellFormed chunkBeside_reached.forest.wellFormed forest_empty.wellFormed live
  have confined : chunkBeside.Confined ⟨0⟩ := by
    by_contra outside
    obtain ⟨_, _, run, _⟩ := (imports ⟨0⟩ rfl).2 outside
    cases run
  have outside : ¬chunkBeside.Confined ⟨4⟩ := fun confined => by
    obtain ⟨_, _, run, _⟩ := (imports ⟨4⟩ rfl).1 confined
    cases run
  obtain ⟨copy, final, run, imported⟩ := (imports ⟨0⟩ rfl).1 confined
  obtain ⟨fault, after, refused, _⟩ := (imports ⟨4⟩ rfl).2 outside
  refine ⟨copy, final, run, imported, imported.refresh chunkBeside_unmeasured, ?_, confined, outside, fault, after,
    refused⟩
  cases run
  exact ⟨_, rfl⟩

end BlockTree
end DexArsc
