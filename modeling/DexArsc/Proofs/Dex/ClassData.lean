/-
The members of a class are read back from their bytes in any order, and a refresh puts them in the order of their
indexes. From then on every distance that is written is the difference of two indexes.
-/

import DexArsc.Proofs.Dex.ByteSize
import DexArsc.Proofs.Dex.Debug.Reencoded
import DexArsc.Proofs.Dex.File.Indexes
import Mathlib.Data.List.Chain

namespace DexArsc.Dex

open Reader

variable {α β γ : Type}

namespace IndexRef

/-- What a reference names among the items: one of them, an index of its own, or nothing. -/
def named (items : Section α) (ref : IndexRef α) : IndexRef α :=
  match ref.item with
  | some id => if (items.item? id).isSome then .ofId id else {}
  | none => .ofRaw ref.raw

/-- A refresh keeps what a reference names. -/
theorem target_refresh (items : Section α) (ref : IndexRef α) : (ref.refresh items).target = ref.named items := by
  unfold refresh named
  cases item : ref.item with
  | none => simp [target, item]
  | some id => cases found : items.indexOf? id <;> simp [target, ofRaw, found, ← Section.isSome_indexOf?]

/-- The target of a reference is what it names, unless its item was removed. -/
theorem named_eq_target {items : Section α} {ref : IndexRef α}
    (there : ∀ id, ref.item = some id → (items.item? id).isSome) : ref.named items = ref.target := by
  unfold named target
  cases item : ref.item with
  | none => rfl
  | some id => simp only [there id item, if_true]

end IndexRef

/-- Members that were renumbered: their slots hold the current indexes, which ascend, so no difference of two of them
in a row wraps. They name what they named, with all that is told about them, and have the targets that they had as long
as none of these was removed. Members with the same index keep their order. -/
structure RenumberedMembers (items : Section α) (ref : β → IndexRef α) (rest : β → γ) (before after : List β) :
    Prop where
  current : ∀ member ∈ after, (ref member).Settled items
  ascending : (after.map fun member => (ref member).raw).Pairwise (· ≤ ·)
  differences : (0 :: after.map fun member => (ref member).raw).IsChain fun first second =>
    first.toNat + (second - first).toNat = second.toNat
  named : (after.map fun member => ((ref member).target, rest member)).Perm
    (before.map fun member => ((ref member).named items, rest member))
  kept : (∀ member ∈ before, ∀ id, (ref member).item = some id → (items.item? id).isSome) →
    (after.map fun member => ((ref member).target, rest member)).Perm
      (before.map fun member => ((ref member).target, rest member))
  stable (index : UInt32) : ((after.filter fun member => (ref member).raw = index).map fun member =>
      ((ref member).target, rest member)) =
    (before.filter fun member => ((ref member).refresh items).raw = index).map fun member =>
      ((ref member).named items, rest member)

/-- Sorted members have ascending indexes. -/
theorem ascending_mergeSort (index : β → UInt32) (members : List β) :
    ((members.mergeSort fun first second => index first ≤ index second).map index).Pairwise (· ≤ ·) := by
  have sorted : (members.mergeSort fun first second => index first ≤ index second).Pairwise
      fun first second => decide (index first ≤ index second) = true := by
    apply List.pairwise_mergeSort
    · exact fun first second third => by simpa using UInt32.le_trans
    · exact fun first second => by simpa using UInt32.le_total _ _
  rw [List.pairwise_map]
  exact sorted.imp of_decide_eq_true

/-- Sorting keeps the order of the members with one index. -/
theorem filter_mergeSort (index : β → UInt32) (members : List β) (place : UInt32) :
    (members.mergeSort fun first second => index first ≤ index second).filter (index · = place) =
      members.filter (index · = place) := by
  have sublist : (members.filter (index · = place)).Sublist
      (members.mergeSort fun first second => index first ≤ index second) := by
    apply List.sublist_mergeSort
    · exact fun first second third => by simpa using UInt32.le_trans
    · exact fun first second => by simpa using UInt32.le_total _ _
    · refine List.pairwise_of_forall_mem_list fun first inside second there => ?_
      simp only [List.mem_filter, decide_eq_true_eq] at inside there ⊢
      rw [inside.2, there.2]
      exact UInt32.le_refl place
    · exact List.filter_sublist
  have within := sublist.filter (index · = place)
  rw [List.filter_filter] at within
  simp only [Bool.and_self] at within
  exact (within.eq_of_length ((List.mergeSort_perm _ _).filter _).length_eq.symm).symm

/-- Numbers that ascend from zero have no difference that wraps. -/
theorem isChain_of_pairwise_le {indexes : List UInt32} (ascending : indexes.Pairwise (· ≤ ·)) :
    (0 :: indexes).IsChain fun first second => first.toNat + (second - first).toNat = second.toNat := by
  have all : (0 :: indexes).Pairwise (· ≤ ·) :=
    List.pairwise_cons.2 ⟨fun index _ => UInt32.zero_le, ascending⟩
  refine all.isChain.imp fun first second le => ?_
  rw [UInt32.toNat_sub_of_le _ _ le]
  have less : first.toNat ≤ second.toNat := UInt32.le_iff_toNat_le.1 le
  omega

/-- Members are renumbered by a refresh of their references and a sort. -/
theorem renumbered_mergeSort {items : Section α} {ref : β → IndexRef α} {rest : β → γ} (refreshed : β → β)
    (image : ∀ member, ref (refreshed member) = (ref member).refresh items)
    (same : ∀ member, rest (refreshed member) = rest member) (before : List β) :
    RenumberedMembers items ref rest before
      ((before.map refreshed).mergeSort fun first second => (ref first).raw ≤ (ref second).raw) := by
  have perm := List.mergeSort_perm (before.map refreshed) fun first second =>
    decide ((ref first).raw ≤ (ref second).raw)
  have ascending := ascending_mergeSort (fun member => (ref member).raw) (before.map refreshed)
  have named := perm.map fun member => ((ref member).target, rest member)
  rw [List.map_map] at named
  simp only [Function.comp_def, image, same, IndexRef.target_refresh] at named
  refine ⟨fun member inside => ?_, ascending, isChain_of_pairwise_le ascending, named, fun there => ?_, fun index => ?_⟩
  · obtain ⟨origin, _, rfl⟩ := List.mem_map.1 (perm.mem_iff.1 inside)
    rw [image]
    exact IndexRef.settled_refresh _ _
  · convert named using 1
    refine List.map_congr_left fun member inside => ?_
    rw [IndexRef.named_eq_target (there member inside)]
  · rw [filter_mergeSort (fun member => (ref member).raw), List.filter_map, List.map_map]
    simp only [Function.comp_def, image, same, IndexRef.target_refresh]

theorem RenumberedMembers.length_eq {items : Section α} {ref : β → IndexRef α} {rest : β → γ} {before after : List β}
    (renumbered : RenumberedMembers items ref rest before after) : after.length = before.length := by
  simpa using renumbered.named.length_eq

namespace ClassData

/-- Data that was renumbered: each of the four lists of members by itself. -/
structure Renumbered (ids : IdSections) (data final : ClassData) : Prop where
  staticFields : RenumberedMembers ids.fields EncodedField.field EncodedField.flags data.staticFields final.staticFields
  instanceFields : RenumberedMembers ids.fields EncodedField.field EncodedField.flags data.instanceFields
    final.instanceFields
  directMethods : RenumberedMembers ids.methods EncodedMethod.method (fun member => (member.flags, member.code))
    data.directMethods final.directMethods
  virtualMethods : RenumberedMembers ids.methods EncodedMethod.method (fun member => (member.flags, member.code))
    data.virtualMethods final.virtualMethods

theorem renumbered_refreshIndexes (ids : IdSections) (data : ClassData) :
    data.Renumbered ids (data.refreshIndexes ids) where
  staticFields := renumbered_mergeSort (EncodedField.withRefs (.indexes ids)) (fun _ => rfl) (fun _ => rfl) _
  instanceFields := renumbered_mergeSort (EncodedField.withRefs (.indexes ids)) (fun _ => rfl) (fun _ => rfl) _
  directMethods := renumbered_mergeSort (EncodedMethod.withRefs (.indexes ids)) (fun _ => rfl) (fun _ => rfl) _
  virtualMethods := renumbered_mergeSort (EncodedMethod.withRefs (.indexes ids)) (fun _ => rfl) (fun _ => rfl) _

theorem Renumbered.counted {ids : IdSections} {data final : ClassData} (renumbered : data.Renumbered ids final)
    (counted : data.Counted) : final.Counted where
  staticFields := renumbered.staticFields.length_eq ▸ counted.staticFields
  instanceFields := renumbered.instanceFields.length_eq ▸ counted.instanceFields
  directMethods := renumbered.directMethods.length_eq ▸ counted.directMethods
  virtualMethods := renumbered.virtualMethods.length_eq ▸ counted.virtualMethods

/-- The indexes, the flags and the offsets of the code of the members, list by list. -/
def rows (data : ClassData) : (List (UInt32 × UInt32) × List (UInt32 × UInt32)) ×
    List (UInt32 × UInt32 × UInt32) × List (UInt32 × UInt32 × UInt32) :=
  let field (member : EncodedField) := (member.field.raw, member.flags)
  let method (member : EncodedMethod) := (member.method.raw, member.flags, member.code.raw)
  ((data.staticFields.map field, data.instanceFields.map field),
    data.directMethods.map method, data.virtualMethods.map method)

theorem rows_bare (data : ClassData) : data.bare.rows = data.rows := by
  simp only [rows, bare, mapMembers, List.map_map]
  rfl

/-- Data is read back from its bytes, whatever stands behind them and in whatever order its members are. -/
theorem decode_encode_append {data : ClassData} (counted : data.Counted) (suffix : List UInt8) :
    ∃ back : ClassData, decode (encode data ++ suffix).toArray = .ok (back, byteSize data) ∧ back.rows = data.rows :=
  ⟨data.bare, LawfulCodec.length_encode data ▸ (reads_of_counted counted).decode_append suffix, data.rows_bare⟩

/-- The members of a class are read back with their indexes, flags and code, in the order that they are written in and
from as many bytes as writing counts. After a refresh this order is that of the indexes, and the members are the same. -/
theorem decode_encode_renumbered {data : ClassData} (counted : data.Counted) :
    byteSize data = (encode data).length ∧
    (∀ suffix, ∃ back : ClassData, decode (encode data ++ suffix).toArray = .ok (back, byteSize data) ∧
      back.rows = data.rows) ∧
    ∀ ids, data.Renumbered ids (data.refreshIndexes ids) ∧
      ∀ suffix, ∃ back : ClassData, decode (encode (data.refreshIndexes ids) ++ suffix).toArray =
        .ok (back, byteSize (data.refreshIndexes ids)) ∧ back.rows = (data.refreshIndexes ids).rows := by
  refine ⟨(LawfulCodec.length_encode data).symm, decode_encode_append counted, fun ids => ?_⟩
  have renumbered := data.renumbered_refreshIndexes ids
  exact ⟨renumbered, decode_encode_append (renumbered.counted counted)⟩

/-- Fields in descending order, two of them with one index. The first one names an item that moved to the front, and so
does the field. -/
theorem decode_encode_renumbered_descending : ∃ (data back : ClassData) (ids : IdSections),
    data.rows.1.1 = [(7, 0x8), (3, 0x9), (3, 0xA)] ∧
      decode (encode data ++ [0x2A]).toArray = .ok (back, byteSize data) ∧ back.rows = data.rows ∧
      data.Renumbered ids (data.refreshIndexes ids) ∧
      (data.refreshIndexes ids).rows.1.1 = [(0, 0x8), (3, 0x9), (3, 0xA)] := by
  obtain ⟨data, same⟩ : ∃ data : ClassData, data = {
    staticFields := [⟨{ raw := 7, item := some ⟨0⟩ }, 0x8⟩, ⟨.ofRaw 3, 0x9⟩, ⟨.ofRaw 3, 0xA⟩]
    directMethods := [⟨.ofRaw 200, 0x10001, .ofRaw 0x1234⟩] } := ⟨_, rfl⟩
  let ids : IdSections := {
    strings := { kind := .stringId }, types := { kind := .typeId }, protos := { kind := .protoId }
    fields := { kind := .fieldId, cells := #[⟨some ⟨{}, {}, {}⟩, 0, 0, 0⟩], order := #[⟨0⟩] }
    methods := { kind := .methodId } }
  have counted : data.Counted := by rw [same]; constructor <;> decide
  obtain ⟨-, reads, renumbers⟩ := decode_encode_renumbered counted
  obtain ⟨back, run, rows⟩ := reads [0x2A]
  refine ⟨data, back, ids, by rw [same]; rfl, run, rows, (renumbers ids).1, ?_⟩
  have sorted : sortFields [⟨{ raw := 0, item := some ⟨0⟩ }, 0x8⟩, ⟨.ofRaw 3, 0x9⟩, ⟨.ofRaw 3, 0xA⟩] =
      [⟨{ raw := 0, item := some ⟨0⟩ }, 0x8⟩, ⟨.ofRaw 3, 0x9⟩, ⟨.ofRaw 3, 0xA⟩] :=
    List.mergeSort_of_pairwise (by decide)
  rw [same]
  exact congrArg (List.map fun member : EncodedField => (member.field.raw, member.flags)) sorted

end ClassData
end DexArsc.Dex
