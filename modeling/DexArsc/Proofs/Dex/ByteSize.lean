/-
Writing counts its bytes piece by piece. The count of a value is the number of the bytes that are written.
-/

import DexArsc.Dex.Class
import DexArsc.Dex.Header
import DexArsc.Dex.MapList
import DexArsc.Proofs.Bytes.Reads

namespace DexArsc

/-- What writing counts is the number of the bytes that it writes. -/
class LawfulCodec (α : Type) [Codec α] : Prop where
  length_encode : ∀ value : α, (encode value).length = byteSize value

theorem totalSize_cons {α : Type} (size : α → Nat) (first : α) (rest : List α) :
    totalSize size (first :: rest) = size first + totalSize size rest := by
  have from_start (start : Nat) (items : List α) :
      items.foldl (fun total item => total + size item) start = start + totalSize size items := by
    induction items generalizing start with
    | nil => rfl
    | cons next others ih =>
        unfold totalSize
        rw [List.foldl_cons, List.foldl_cons, ih, ih, Nat.zero_add, Nat.add_assoc]
  exact (from_start (0 + size first) rest).trans (by rw [Nat.zero_add])

theorem length_flatMap {α : Type} (bytes : α → List UInt8) (items : List α) :
    (items.flatMap bytes).length = totalSize (fun item => (bytes item).length) items := by
  induction items with
  | nil => rfl
  | cons first rest ih => rw [List.flatMap_cons, List.length_append, totalSize_cons, ih]

namespace Dex

instance : LawfulCodec TypeItem := ⟨fun _ => rfl⟩

instance : LawfulCodec TypeList where
  length_encode list := by
    change (Bytes.ofWord32 _ ++ list.types.flatMap IndexRef.shortBytes).length = 4 + _
    rw [List.length_append, Bytes.length_ofWord32, length_flatMap]
    rfl

instance : LawfulCodec ProtoItem := ⟨fun _ => rfl⟩

instance : LawfulCodec FieldItem := ⟨fun _ => rfl⟩

instance : LawfulCodec MethodItem := ⟨fun _ => rfl⟩

instance : LawfulCodec ClassDef := ⟨fun _ => rfl⟩

theorem length_fieldBytes (before : UInt32) (fields : List EncodedField) :
    (fieldBytes before fields).length = fieldsSize before fields := by
  induction fields generalizing before with
  | nil => rfl
  | cons field rest ih => rw [fieldBytes, fieldsSize, List.length_append, List.length_append, ih]

theorem length_methodBytes (before : UInt32) (methods : List EncodedMethod) :
    (methodBytes before methods).length = methodsSize before methods := by
  induction methods generalizing before with
  | nil => rfl
  | cons method rest ih =>
      rw [methodBytes, methodsSize, List.length_append, List.length_append, List.length_append, ih]

instance : LawfulCodec ClassData where
  length_encode data := by
    simp only [encode, byteSize, List.length_append, length_fieldBytes, length_methodBytes]

instance : LawfulCodec StringData where
  length_encode value := by
    simp only [encode, byteSize, List.length_append, List.length_singleton]

theorem ElementData.length_bytes (data : ElementData) : data.bytes.length = data.byteSize := by
  cases data with
  | startLocal register name type signature =>
      cases signature <;> simp only [bytes, ElementData.byteSize, List.length_cons, List.length_append] <;> omega
  | prologueEnd | epilogueBegin | lineEntry special => rfl
  | advanceAddress step | advanceLine step | endLocal register | restartLocal register | setFile name =>
      exact Nat.add_comm ..

theorem length_lineStepBytes (addresses : UInt32) (lines : Int) :
    (lineStepBytes addresses lines).length = lineStepSize addresses lines := by
  unfold lineStepBytes lineStepSize
  by_cases near : Special.hasLineStep lines = true
  · by_cases small : Special.number addresses lines ≤ Special.greatest <;>
      simp [near, small, ElementData.length_bytes, ElementData.byteSize]
  · by_cases small : Special.number addresses 0 ≤ Special.greatest <;>
      simp [near, small, ElementData.length_bytes, ElementData.byteSize, Nat.add_assoc]

theorem length_visibleBytes (address line : UInt32) (elements : List DebugElement) :
    (visibleBytes address line elements).length = visibleSize address line elements := by
  induction elements generalizing address line with
  | nil => rfl
  | cons element rest ih =>
      rw [visibleBytes, visibleSize]
      split
      · rw [List.length_append, length_lineStepBytes, ih]
      · rw [List.length_append, List.length_append, ElementData.length_bytes, ih]
        split
        · rw [ElementData.length_bytes, ElementData.byteSize]
        · rfl

theorem DebugSequence.length_bytes (sequence : DebugSequence) : sequence.bytes.length = sequence.byteSize := by
  unfold bytes DebugSequence.byteSize
  rw [List.length_append, List.length_singleton]
  split
  · rw [length_visibleBytes]
  · simp only [length_flatMap, ElementData.length_bytes]

instance : LawfulCodec DebugInfo where
  length_encode info := by
    simp only [encode, byteSize, List.length_append, length_flatMap, DebugSequence.length_bytes]

instance : LawfulCodec CatchHandler where
  length_encode handler := by
    obtain ⟨catches, catchAll⟩ := handler
    cases catchAll <;> simp [encode, byteSize, length_flatMap, Nat.add_assoc, -List.length_flatMap]

theorem CodeItem.length_tryBytes (code : CodeItem) : code.tryBytes.length = code.triesSize := by
  unfold tryBytes triesSize
  split
  · rfl
  · by_cases odd : code.units.size % 2 = 1 <;> simp [odd, length_flatMap, Nat.add_assoc, -List.length_flatMap]

instance : LawfulCodec CodeItem where
  length_encode code := by
    simp only [encode, byteSize, List.length_append, Bytes.length_ofWord16, Bytes.length_ofWord32, OffsetRef.bytes,
      length_flatMap, CodeItem.length_tryBytes]

instance : LawfulCodec Header where
  length_encode header := by
    simp only [encode, byteSize, List.length_append, Bytes.length_ofWord32, Area.bytes]

instance : LawfulCodec MapList where
  length_encode map := by
    change (_ ++ _ : List UInt8).length = 4 + _
    rw [List.length_append, Bytes.length_ofWord32, length_flatMap]
    rfl

end Dex
end DexArsc
