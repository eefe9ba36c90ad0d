/-
Header fields that are written. A field that takes a number is filled with its bytes, and all other bytes
of the tree stay, so that of several numbers the last one that covers a byte decides it.
-/

import DexArsc.Proofs.BlockTree.Layout
import DexArsc.Proofs.Bytes.Word
import Mathlib.Algebra.Ring.Nat

namespace DexArsc

/-- A node whose bytes are forgotten, except for their number. -/
def Node.blank (node : Node) : Node :=
  match node.kind with
  | .leaf bytes => { node with kind := .leaf (Array.replicate bytes.size 0) }
  | _ => node

namespace Node

variable {node other : Node}

theorem blank_leaf {bytes : Bytes} (kind : node.kind = .leaf bytes) :
    node.blank = { node with kind := .leaf (Array.replicate bytes.size 0) } := by
  rw [blank, kind]

theorem blank_of_ne_leaf (kind : ∀ bytes, node.kind ≠ .leaf bytes) : node.blank = node := by
  unfold blank
  split
  · rename_i bytes found
    exact absurd found (kind bytes)
  · rfl

@[simp] theorem parent_blank : node.blank.parent = node.parent := by
  unfold blank
  split <;> rfl

@[simp] theorem children_blank : node.blank.children = node.children := by
  unfold blank
  split <;> rfl

@[simp] theorem offset_blank : node.blank.offset = node.offset := by
  unfold blank
  split <;> rfl

@[simp] theorem length_blank : node.blank.length = node.length := by
  unfold blank
  split <;> rfl

@[simp] theorem patches_blank : node.blank.patches = node.patches := by
  unfold blank
  split <;> rfl

@[simp] theorem shape_blank : node.blank.shape = node.shape := by
  unfold blank
  split
  · rename_i kind
    rw [Node.shape, Node.shape, kind]
    rfl
  · rfl

/-- Nodes that are the same but for their bytes have as many bytes. -/
theorem leaf_of_blank {bytes : Bytes} (same : other.blank = node.blank) (kind : node.kind = .leaf bytes) :
    ∃ bytes' : Bytes, bytes'.size = bytes.size ∧ other = { node with kind := .leaf bytes' } := by
  have content : other.shape.content = .leaf := by
    rw [← shape_blank, same, shape_blank]
    exact content_eq_leaf.2 ⟨bytes, kind⟩
  obtain ⟨bytes', kind'⟩ := content_eq_leaf.1 content
  rw [blank_leaf kind, blank_leaf kind'] at same
  cases node
  cases other
  simp only [Node.mk.injEq, NodeKind.leaf.injEq] at same kind'
  obtain ⟨filled, tag, parent, children, offset, length, patches⟩ := same
  have size := congrArg Array.size filled
  rw [Array.size_replicate, Array.size_replicate] at size
  refine ⟨bytes', size, ?_⟩
  rw [kind', tag, parent, children, offset, length, patches]

/-- A node without bytes is the same as every node that is the same but for bytes. -/
theorem eq_of_blank (same : other.blank = node.blank) (no : ∀ bytes, node.kind ≠ .leaf bytes) : other = node := by
  have no' (bytes : Bytes) : other.kind ≠ .leaf bytes := fun kind => by
    obtain ⟨bytes', _, same⟩ := leaf_of_blank same.symm kind
    exact no bytes' (congrArg Node.kind same)
  rwa [blank_of_ne_leaf no, blank_of_ne_leaf no'] at same

end Node

namespace BlockTree

variable {tree between final : BlockTree}

/-- A byte of a leaf. -/
def byte? (tree : BlockTree) (id : NodeId) (place : Nat) : Option UInt8 :=
  match tree.leaf id with
  | .ok bytes => bytes[place]?
  | .error _ => none

theorem byte?_of_leaf {id : NodeId} {bytes : Bytes} (found : tree.leaf id = .ok bytes) (place : Nat) :
    tree.byte? id place = bytes[place]? := by
  rw [byte?, found]

/-- The tree in which a node holds other bytes. -/
def refill (tree : BlockTree) (id : NodeId) (bytes : Bytes) : BlockTree :=
  tree.modifyNode id fun node => { node with kind := .leaf bytes }

theorem modifyLeaf_eq {id : NodeId} {bytes : Bytes} (found : tree.leaf id = .ok bytes) (change : Bytes → Bytes) :
    modifyLeaf id change tree = .ok () (tree.refill id (change bytes)) := by
  obtain ⟨node, live, kind⟩ := leaf_eq_ok.1 found
  refine (modifyLeaf_ok found change).trans (congrArg _ (modifyNode_congr fun other there => ?_))
  cases there.symm.trans live
  rw [kind]

theorem byte?_refill {id : NodeId} {old : Bytes} (found : tree.leaf id = .ok old) (bytes : Bytes)
    (other : NodeId) (place : Nat) : (tree.refill id bytes).byte? other place =
      if other = id then bytes[place]? else tree.byte? other place := by
  obtain ⟨node, live, kind⟩ := leaf_eq_ok.1 found
  split
  · rename_i same
    refine byte?_of_leaf (leaf_eq_ok.2 ⟨{ node with kind := .leaf bytes }, ?_, rfl⟩) place
    rw [refill, node?_modifyNode, if_pos same, same, live, Option.map_some]
  · rename_i apart
    have same : (tree.refill id bytes).leaf other = tree.leaf other :=
      leaf_congr (by rw [refill, node?_modifyNode, if_neg apart])
    rw [byte?, byte?, same]

/-- The bytes of leaves are others, as many as before, and nothing else is. -/
structure Refilled (tree final : BlockTree) : Prop where
  size : final.nodes.size = tree.nodes.size
  nodes : ∀ id, (final.node? id).map Node.blank = (tree.node? id).map Node.blank

namespace Refilled

theorem refl (tree : BlockTree) : Refilled tree tree :=
  ⟨rfl, fun _ => rfl⟩

theorem trans (before : Refilled tree between) (behind : Refilled between final) : Refilled tree final :=
  ⟨behind.size.trans before.size, fun id => (behind.nodes id).trans (before.nodes id)⟩

theorem symm (refilled : Refilled tree final) : Refilled final tree :=
  ⟨refilled.size.symm, fun id => (refilled.nodes id).symm⟩

theorem node (refilled : Refilled tree final) {id : NodeId} {node : Node} (live : tree.node? id = some node) :
    ∃ other, final.node? id = some other ∧ other.blank = node.blank := by
  have same := refilled.nodes id
  rw [live] at same
  exact Option.map_eq_some_iff.1 same

theorem node_cases (refilled : Refilled tree final) (id : NodeId) :
    tree.node? id = none ∧ final.node? id = none ∨
      ∃ node other, tree.node? id = some node ∧ final.node? id = some other ∧ other.blank = node.blank := by
  cases live : tree.node? id with
  | none =>
      have gone := refilled.nodes id
      rw [live] at gone
      exact .inl ⟨rfl, Option.map_eq_none_iff.1 gone⟩
  | some node =>
      obtain ⟨other, here, same⟩ := refilled.node live
      exact .inr ⟨node, other, rfl, here, same⟩

theorem shapes (refilled : Refilled tree final) : final.shape? = tree.shape? := by
  funext id
  have shape (node? : Option Node) : node?.map Node.shape = (node?.map Node.blank).map Node.shape := by
    rw [Option.map_map]
    exact congrArg (node?.map ·) (funext fun node => Node.shape_blank.symm)
  rw [shape?, shape, refilled.nodes id, ← shape, ← shape?]

theorem leaf (refilled : Refilled tree final) {id : NodeId} {bytes : Bytes} (found : tree.leaf id = .ok bytes) :
    ∃ bytes', final.leaf id = .ok bytes' ∧ bytes'.size = bytes.size := by
  obtain ⟨node, live, kind⟩ := leaf_eq_ok.1 found
  obtain ⟨other, here, same⟩ := refilled.node live
  obtain ⟨bytes', size, rfl⟩ := Node.leaf_of_blank same kind
  exact ⟨bytes', leaf_eq_ok.2 ⟨_, here, rfl⟩, size⟩

/-- A node is the same when its bytes are. -/
theorem node?_eq (refilled : Refilled tree final) {id : NodeId}
    (same : ∀ place, final.byte? id place = tree.byte? id place) : final.node? id = tree.node? id := by
  rcases refilled.node_cases id with ⟨gone, gone'⟩ | ⟨node, other, live, here, equal⟩
  · rw [gone, gone']
  · rw [here, live]
    by_cases isLeaf : ∃ bytes, node.kind = .leaf bytes
    · obtain ⟨bytes, kind⟩ := isLeaf
      obtain ⟨bytes', size, rfl⟩ := Node.leaf_of_blank equal kind
      have bytes_eq : bytes' = bytes := Array.ext_getElem? fun place => by
        have byte := same place
        rwa [byte?_of_leaf (leaf_eq_ok.2 ⟨_, here, rfl⟩), byte?_of_leaf (leaf_eq_ok.2 ⟨node, live, kind⟩)] at byte
      rw [bytes_eq, ← kind]
    · rw [Node.eq_of_blank equal fun bytes kind => isLeaf ⟨bytes, kind⟩]

/-- The trees are the same when their bytes are. -/
theorem ext (refilled : Refilled tree final) (same : ∀ id place, final.byte? id place = tree.byte? id place) :
    final = tree :=
  ext_node? refilled.size fun id => refilled.node?_eq (same id)

/-- The bytes of a leaf are exchanged for as many others. -/
theorem refill {id : NodeId} {old bytes : Bytes} (found : tree.leaf id = .ok old) (size : bytes.size = old.size) :
    Refilled tree (tree.refill id bytes) where
  size := size_modifyNode ..
  nodes other := by
    obtain ⟨node, live, kind⟩ := leaf_eq_ok.1 found
    rw [BlockTree.refill, node?_modifyNode]
    split
    · rename_i same
      rw [same, live, Option.map_some, Option.map_some, Option.map_some, Node.blank_leaf rfl,
        Node.blank_leaf kind, size]
    · rfl

end Refilled

end BlockTree

namespace Field

/-- The bytes of a number in a field. -/
def encode (field : Field) (value : Nat) : List UInt8 :=
  (Bytes.ofWord32 (UInt32.ofNat value)).take field.width.size

/-- A byte of a leaf that belongs to a field. -/
def Covers (field : Field) (id : NodeId) (place : Nat) : Prop :=
  id = field.node ∧ field.position ≤ place ∧ place < field.position + field.width.size

instance (field : Field) (id : NodeId) (place : Nat) : Decidable (field.Covers id place) :=
  inferInstanceAs (Decidable (_ ∧ _))

/-- Fields that share a byte. -/
def Overlaps (field other : Field) : Prop :=
  ∃ id place, field.Covers id place ∧ other.Covers id place

theorem overlaps_comm {first second : Field} : first.Overlaps second ↔ second.Overlaps first :=
  exists_congr fun _ => exists_congr fun _ => and_comm

theorem node_eq_of_overlaps {first second : Field} (overlaps : first.Overlaps second) :
    first.node = second.node := by
  obtain ⟨id, _, ⟨here, _⟩, there, _⟩ := overlaps
  exact here.symm.trans there

/-- No field stores more than a word. -/
theorem capacity_le (field : Field) : 256 ^ field.width.size ≤ UInt32.size := by
  cases field.width <;> decide

@[simp] theorem length_encode (field : Field) (value : Nat) : (field.encode value).length = field.width.size := by
  unfold encode FieldWidth.size
  split <;> rfl

theorem littleEndian_encode {field : Field} {value : Nat} (fits : value < 256 ^ field.width.size) :
    Bytes.littleEndian (field.encode value) = value := by
  cases width : field.width with
  | byte =>
      simp only [width, FieldWidth.size] at fits
      simp [encode, width, FieldWidth.size, Bytes.ofWord32, Bytes.littleEndian]
      omega
  | half =>
      simp only [width, FieldWidth.size] at fits
      simp [encode, width, FieldWidth.size, Bytes.ofWord32, Bytes.littleEndian, Nat.shiftRight_eq_div_pow]
      omega
  | word =>
      have whole : field.encode value = Bytes.ofWord32 (UInt32.ofNat value) := by
        rw [encode, width]
        rfl
      rw [whole, Bytes.littleEndian_ofWord32, UInt32.toNat_ofNat']
      simp only [width, FieldWidth.size] at fits
      exact Nat.mod_eq_of_lt fits

/-- A number fits a field when the slot of the field stores it. -/
theorem narrow_eq_ok {field : Field} {what : String} {value : Nat} {result : Int} :
    field.width.slot.narrow what value = .ok result ↔ result = value ∧ value < 256 ^ field.width.size := by
  have range : (field.width.slot.least ≤ (value : Int) ∧ (value : Int) ≤ field.width.slot.greatest) ↔
      value < 256 ^ field.width.size := by
    cases field.width <;> simp only [FieldWidth.slot, FieldWidth.size, Slot.least, Slot.greatest] <;> omega
  unfold Slot.narrow
  by_cases fits : value < 256 ^ field.width.size
  · rw [if_pos (range.2 fits)]
    simp [fits, eq_comm]
  · rw [if_neg fun inside => fits (range.1 inside)]
    simp [fits]

end Field

namespace BlockTree

variable {tree between final : BlockTree}

/-- A number that a field of the tree takes. -/
def Takes (tree : BlockTree) (entry : Field × Nat) : Prop :=
  (∃ bytes, tree.leaf entry.1.node = .ok bytes ∧ entry.1.position + entry.1.width.size ≤ bytes.size) ∧
    entry.2 < 256 ^ entry.1.width.size

theorem Refilled.takes (refilled : Refilled tree final) {entry : Field × Nat} (takes : tree.Takes entry) :
    final.Takes entry := by
  obtain ⟨⟨bytes, found, within⟩, fits⟩ := takes
  obtain ⟨bytes', found', size⟩ := refilled.leaf found
  exact ⟨⟨bytes', found', size ▸ within⟩, fits⟩

/-- The byte that is left of a byte when numbers are written into fields one after another. -/
def overlay (entries : List (Field × Nat)) (id : NodeId) (place : Nat) (byte : Option UInt8) : Option UInt8 :=
  entries.foldl (fun byte (field, value) =>
    if field.Covers id place then (field.encode value)[place - field.position]? else byte) byte

theorem overlay_cons (field : Field) (value : Nat) (rest : List (Field × Nat)) (id : NodeId) (place : Nat)
    (byte : Option UInt8) : overlay ((field, value) :: rest) id place byte = overlay rest id place
      (if field.Covers id place then (field.encode value)[place - field.position]? else byte) :=
  rfl

theorem overlay_append (first second : List (Field × Nat)) (id : NodeId) (place : Nat) (byte : Option UInt8) :
    overlay (first ++ second) id place byte = overlay second id place (overlay first id place byte) :=
  List.foldl_append

/-- A byte that no field covers stays. -/
theorem overlay_of_uncovered {entries : List (Field × Nat)} {id : NodeId} {place : Nat}
    (uncovered : ∀ entry ∈ entries, ¬entry.1.Covers id place) (byte : Option UInt8) :
    overlay entries id place byte = byte := by
  induction entries generalizing byte with
  | nil => rfl
  | cons entry rest ih =>
      rw [overlay_cons, if_neg (uncovered entry List.mem_cons_self)]
      exact ih (fun next inside => uncovered next (List.mem_cons_of_mem _ inside)) byte

/-- The fields decide a byte, or they leave it. -/
theorem overlay_eq_or (entries : List (Field × Nat)) (id : NodeId) (place : Nat) :
    (∀ byte other, overlay entries id place byte = overlay entries id place other) ∨
      ∀ byte, overlay entries id place byte = byte := by
  induction entries with
  | nil => exact .inr fun _ => rfl
  | cons entry rest ih =>
      rcases ih with decided | kept
      · exact .inl fun byte other => decided _ _
      · by_cases covered : entry.1.Covers id place
        · refine .inl fun byte other => ?_
          rw [overlay_cons, overlay_cons, if_pos covered, if_pos covered]
        · refine .inr fun byte => ?_
          rw [overlay_cons, if_neg covered]
          exact kept byte

/-- The same numbers in the same fields once more. -/
theorem overlay_overlay (entries : List (Field × Nat)) (id : NodeId) (place : Nat) (byte : Option UInt8) :
    overlay entries id place (overlay entries id place byte) = overlay entries id place byte := by
  rcases overlay_eq_or entries id place with decided | kept
  · exact decided _ _
  · exact kept _

/-- Numbers are written into fields one after another. -/
structure Overwritten (entries : List (Field × Nat)) (tree final : BlockTree) : Prop where
  refilled : Refilled tree final
  bytes : ∀ id place, final.byte? id place = overlay entries id place (tree.byte? id place)

namespace Overwritten

variable {first second : List (Field × Nat)}

theorem refl (tree : BlockTree) : Overwritten [] tree tree :=
  ⟨.refl tree, fun _ _ => rfl⟩

theorem trans (before : Overwritten first tree between) (behind : Overwritten second between final) :
    Overwritten (first ++ second) tree final where
  refilled := before.refilled.trans behind.refilled
  bytes id place := by rw [behind.bytes, before.bytes, overlay_append]

/-- The same numbers in the same fields once more change nothing. -/
theorem again {third : BlockTree} (once : Overwritten first tree final) (twice : Overwritten first final third) :
    third = final :=
  twice.refilled.ext fun id place => by rw [twice.bytes, once.bytes, overlay_overlay]

end Overwritten

/-- Where a number is written into a field, or refused. -/
theorem writeField_ensures (field : Field) (value : Nat) (tree : BlockTree) :
    (writeField field value).Ensures tree
      (fun _ final => tree.Takes (field, value) ∧ Overwritten [(field, value)] tree final)
      (fun final => final = tree ∧ ¬tree.Takes (field, value)) := by
  unfold writeField
  refine .behind (Step.get_apply _) ?_
  cases found : tree.leaf field.node with
  | error fault =>
      refine Step.Ensures.stop rfl ⟨rfl, fun ⟨⟨bytes, here, _⟩, _⟩ => ?_⟩
      rw [found] at here
      cases here
  | ok bytes =>
      refine .behind rfl ?_
      by_cases overrun : bytes.size < field.position + field.width.size
      · rw [if_pos overrun]
        refine Step.Ensures.stop rfl ⟨rfl, fun ⟨⟨bytes', here, within⟩, _⟩ => ?_⟩
        cases here.symm.trans found
        exact absurd within (Nat.not_le.2 overrun)
      · rw [if_neg overrun]
        have within := Nat.le_of_not_lt overrun
        cases narrowed : field.width.slot.narrow "header field" value with
        | error fault =>
            refine Step.Ensures.stop rfl ⟨rfl, fun ⟨_, fits⟩ => ?_⟩
            rw [Field.narrow_eq_ok.2 ⟨rfl, fits⟩] at narrowed
            cases narrowed
        | ok result =>
            obtain ⟨rfl, fits⟩ := Field.narrow_eq_ok.1 narrowed
            have run := modifyLeaf_eq found fun bytes => bytes.overwrite field.position (field.encode value)
            refine .of_ok run ⟨⟨⟨bytes, found, within⟩, fits⟩, .refill found (Bytes.size_overwrite ..), ?_⟩
            intro id place
            rw [byte?_refill found, Bytes.getElem?_overwrite, Field.length_encode, overlay_cons, overlay]
            by_cases covered : field.Covers id place
            · obtain ⟨same, low, high⟩ := covered
              rw [if_pos same, if_pos ⟨low, high, by omega⟩, if_pos ⟨same, low, high⟩]
              rfl
            · rw [if_neg covered]
              split
              · rename_i same
                rw [if_neg fun inside => covered ⟨same, inside.1, inside.2.1⟩, same, byte?_of_leaf found]
                rfl
              · rfl

/-- A number stands in a field. -/
def Holds (tree : BlockTree) (field : Field) (value : Nat) : Prop :=
  value < 256 ^ field.width.size ∧ ∃ bytes, tree.leaf field.node = .ok bytes ∧
    bytes.Stands field.position (field.encode value)

theorem Holds.takes {field : Field} {value : Nat} (holds : tree.Holds field value) :
    tree.Takes (field, value) := by
  obtain ⟨fits, bytes, found, stands⟩ := holds
  have bound := stands.length_le (List.ne_nil_of_length_pos (by rw [Field.length_encode]; cases field.width <;> decide))
  rw [Field.length_encode] at bound
  exact ⟨⟨bytes, found, bound⟩, fits⟩

/-- A number that stands in a field is read back. -/
theorem Holds.readField {field : Field} {value : Nat} (holds : tree.Holds field value) :
    tree.readField field = .ok value := by
  obtain ⟨⟨bytes, found, within⟩, _⟩ := holds.takes
  obtain ⟨fits, _, found', stands⟩ := holds
  cases found.symm.trans found'
  have cut := stands.extract_eq
  rw [Field.length_encode] at cut
  have number : bytes.getNumber? field.position field.width.size = some value := by
    rw [Bytes.getNumber?, if_pos within, cut, Field.littleEndian_encode fits]
  rw [BlockTree.readField, found]
  dsimp only [bind, Except.bind]
  rw [number]
  rfl

/-- The bytes of a number that stands in a field. -/
theorem Holds.byte? {field : Field} {value : Nat} (holds : tree.Holds field value) {place : Nat}
    (low : field.position ≤ place) (high : place < field.position + field.width.size) :
    tree.byte? field.node place = (field.encode value)[place - field.position]? := by
  obtain ⟨_, bytes, found, stands⟩ := holds
  have covered : place - field.position < (field.encode value).length := by
    rw [Field.length_encode]
    omega
  have byte := Bytes.stands_iff.1 stands (place - field.position) covered
  rwa [Nat.add_sub_cancel' low, ← byte?_of_leaf found] at byte

/-- A number stands in the field that it was written into, unless later numbers are written there. -/
theorem Overwritten.holds {before behind : List (Field × Nat)} {field : Field} {value : Nat}
    (overwritten : Overwritten (before ++ (field, value) :: behind) tree final) (takes : tree.Takes (field, value))
    (apart : ∀ entry ∈ behind, ¬field.Overlaps entry.1) : final.Holds field value := by
  obtain ⟨⟨bytes, found, within⟩, fits⟩ := takes
  obtain ⟨bytes', found', size⟩ := overwritten.refilled.leaf found
  refine ⟨fits, bytes', found', Bytes.stands_iff.2 fun place inside => ?_⟩
  rw [Field.length_encode] at inside
  have covers : field.Covers field.node (field.position + place) := ⟨rfl, by omega, by omega⟩
  have byte := overwritten.bytes field.node (field.position + place)
  rw [byte?_of_leaf found', overlay_append, overlay_cons, if_pos covers, Nat.add_sub_cancel_left] at byte
  exact byte.trans (overlay_of_uncovered
    (fun entry listed covered => apart entry listed ⟨_, _, covers, covered⟩) _)

/-- A number stands in the field that it was written into, when no other entry covers a byte of the field. -/
theorem Overwritten.holds_of_mem {entries : List (Field × Nat)} {field : Field} {value : Nat}
    (overwritten : Overwritten entries tree final) (inside : (field, value) ∈ entries)
    (takes : tree.Takes (field, value))
    (alone : ∀ entry ∈ entries, field.Overlaps entry.1 → entry = (field, value)) : final.Holds field value := by
  obtain ⟨behind, before, split, last⟩ := List.eq_append_cons_of_mem (List.mem_reverse.2 inside)
  have whole : entries = before.reverse ++ (field, value) :: behind.reverse := by
    rw [← List.reverse_reverse entries, split]
    simp
  subst whole
  refine overwritten.holds takes fun entry listed overlaps => last ?_
  have same := alone entry (List.mem_append_right _ (List.mem_cons_of_mem _ listed)) overlaps
  exact List.mem_reverse.1 (same ▸ listed)

/-- A field is read back as it was written, when the bytes behind it are. -/
theorem Overwritten.readField {before behind : List (Field × Nat)} {field : Field} {value : Nat}
    (overwritten : Overwritten (before ++ (field, value) :: behind) tree final) (takes : tree.Takes (field, value))
    (apart : ∀ entry ∈ behind, ¬field.Overlaps entry.1) : final.readField field = .ok value :=
  (overwritten.holds takes apart).readField

end BlockTree
end DexArsc
