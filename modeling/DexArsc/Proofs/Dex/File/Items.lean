/-
Reading the items of a section where they were written: string data and all other items, one behind the other, each
at the next multiple of the alignment.
-/

import DexArsc.Dex.StringData
import DexArsc.Proofs.Bytes.Leb
import DexArsc.Proofs.Dex.Item
import DexArsc.Proofs.Dex.Code.Item
import DexArsc.Proofs.Dex.Debug.Info
import DexArsc.Proofs.Dex.File.Written
import DexArsc.Proofs.Text.ModifiedUtf8

namespace DexArsc.Dex

open Reader

/-- Bytes before a zero byte are the bytes up to it. -/
theorem bytesUntilZero_eq {data : Bytes} {bytes : List UInt8} (some : 0 ∉ bytes) (fuel position : Nat)
    (enough : bytes.length < fuel) (stands : data.Stands position (bytes ++ [0])) :
    bytesUntilZero data fuel position = bytes := by
  induction bytes generalizing fuel position with
  | nil =>
      obtain ⟨fuel, rfl⟩ : ∃ less, fuel = less + 1 := ⟨fuel - 1, by simp at enough; omega⟩
      rw [List.nil_append] at stands
      simp [bytesUntilZero, stands.getElem?_eq]
  | cons byte rest ih =>
      rw [List.length_cons] at enough
      obtain ⟨fuel, rfl⟩ : ∃ less, fuel = less + 1 := ⟨fuel - 1, by omega⟩
      rw [List.cons_append] at stands
      rw [List.mem_cons, not_or] at some
      have tail := ih some.2 fuel (position + 1) (by omega) stands.tail
      simp [bytesUntilZero, stands.getElem?_eq, Ne.symm some.1, tail]

/-- The bytes up to a zero byte are passed, and the byte behind them is read. -/
theorem readUntilZero_apply (data : Bytes) (position : Nat) : readUntilZero { data, position } =
    (Reader.byte >>= fun _ => pure (bytesUntilZero data (data.size - position) position) : Reader (List UInt8))
      { data, position := position + (bytesUntilZero data (data.size - position) position).length } := rfl

/-- Reading yields the bytes before a zero byte. -/
theorem reads_readUntilZero {bytes : List UInt8} (some : 0 ∉ bytes) :
    Reads readUntilZero (bytes ++ [0]) bytes := by
  intro data position stands
  have bound := stands.length_le (by simp)
  have last := (Bytes.Stands.append_iff.1 stands).2
  rw [List.length_append, List.length_singleton] at bound ⊢
  have found : bytesUntilZero data (data.size - position) position = bytes :=
    bytesUntilZero_eq some _ position (by omega) stands
  rw [readUntilZero_apply, found, Step.bind_ok (reads_byte 0 data _ last)]
  rfl

namespace StringData

/-- String data that can be written: its bytes hold no zero byte, and none is text that is kept
as bytes. -/
def Sound : StringData → Prop
  | decoded _ => True
  | raw _ bytes => 0 ∉ bytes ∧ Text.ofModifiedUtf8? bytes = none

theorem zero_notMem_contents {value : StringData} (sound : value.Sound) : 0 ∉ value.contents := by
  cases value with
  | decoded text => exact Text.zero_notMem_toModifiedUtf8 text
  | raw size bytes => exact sound.1

/-- A value is read back from its contents. -/
theorem ofBytes_contents {value : StringData} (sound : value.Sound) :
    ofBytes value.unitCount value.contents = value := by
  unfold ofBytes
  cases value with
  | decoded text =>
      simp only [contents]
      rw [Text.ofModifiedUtf8?_toModifiedUtf8]
  | raw size bytes =>
      simp only [contents]
      rw [sound.2]
      rfl

/-- String data is read back. -/
theorem reads (value : StringData) (sound : value.Sound) :
    Reads Codec.read (encode value) value := by
  change Reads _ (Leb.encode value.unitCount ++ value.contents ++ [0]) value
  rw [List.append_assoc]
  refine Reads.bind (reads_leb _) ?_
  have contents := (reads_readUntilZero (zero_notMem_contents sound)).bind_pure
    (ofBytes value.unitCount)
  rwa [ofBytes_contents sound] at contents

end StringData
end DexArsc.Dex

namespace DexArsc

namespace Reader

/-- Bytes are passed as long as there are enough of them. -/
theorem bytesAs_eq (what : String) {data : Bytes} {position count : Nat}
    (enough : position + count ≤ data.size) : bytesAs what count { data, position } =
      .ok (Cursor.window { data, position } count) { data, position := position + count } := by
  have room : ¬Cursor.remaining { data, position } < count := by
    simp only [Cursor.remaining, Cursor.limit, List.head?_nil, Option.getD_none]
    omega
  have peeks : peekAs what count { data, position } =
      .ok (Cursor.window { data, position } count) { data, position } := by
    rw [peekAs, Step.bind_ok (Step.get_apply _), if_neg room]
    rfl
  rw [bytesAs, Step.bind_ok peeks]
  rfl

/-- The cursor moves to the next multiple of an alignment. -/
theorem align_eq {data : Bytes} {position alignment : Nat}
    (enough : position + padding alignment position ≤ data.size) :
    align alignment { data, position } = .ok (padding alignment position)
      { data, position := position + padding alignment position } := by
  have here : Reader.position { data, position } = .ok position { data, position } := rfl
  rw [align, Step.bind_ok here, Step.bind_ok (bytesAs_eq _ enough)]
  rfl

theorem seek_eq {data : Bytes} {position place : Nat} (inside : place ≤ data.size) :
    seek place { data, position } = .ok () { data, position := place } := by
  have room : ¬Cursor.limit { data, position } < place := by
    simp only [Cursor.limit, List.head?_nil, Option.getD_none]
    omega
  rw [seek, Step.bind_ok (Step.get_apply _), if_neg room]
  rfl

theorem run_eq_ok {α : Type} {reader : Reader α} {data : Bytes} {value : α} {final : Cursor}
    (runs : reader { data } = .ok value final) : reader.run data = .ok value := by
  unfold run EStateM.run
  rw [runs]

end Reader

namespace Dex

variable {α β : Type}

/-- Items that stand at their places are read there. -/
theorem replicateOnto_items [Codec α] [LawfulCodec α] {data : Bytes} {image : α → β} {read : Reader β}
    (alignment : Nat) (label : Nat → String) (rows : List (UInt32 × α)) (position : Nat)
    (done : List (UInt32 × β))
    (placed : rows.map Prod.fst = (places alignment position
      (rows.map fun row => byteSize row.2)).map UInt32.ofNat)
    (fits : placesEnd alignment position (rows.map fun row => byteSize row.2) < UInt32.size)
    (stands : ∀ row ∈ rows, data.Stands row.1.toNat (encode row.2))
    (some : ∀ row ∈ rows, encode row.2 ≠ [])
    (reads : ∀ row ∈ rows, read.Reads (encode row.2) (image row.2)) :
    Reader.replicateOnto (do
      let _ ← Reader.align alignment
      let position ← Reader.position
      let item ← Step.within (label position) read
      return (UInt32.ofNat position, item)) rows.length done { data, position } =
      .ok (done.reverse ++ rows.map fun row => (row.1, image row.2))
        { data, position := placesEnd alignment position (rows.map fun row => byteSize row.2) } := by
  induction rows generalizing position done with
  | nil => simp [Reader.replicateOnto, placesEnd]
  | cons row rest ih =>
      obtain ⟨offset, item⟩ := row
      simp only [List.map_cons, places, List.cons.injEq] at placed
      obtain ⟨start, placed⟩ := placed
      simp only [List.map_cons, placesEnd] at fits ⊢
      have here := stands _ List.mem_cons_self
      have content := some _ List.mem_cons_self
      have value := reads _ List.mem_cons_self
      simp only at here content value start placed fits
      have later := le_placesEnd alignment (position + padding alignment position + byteSize item)
        (rest.map fun row => byteSize row.2)
      have place : offset.toNat = position + padding alignment position := by
        rw [start, UInt32.toNat_ofNat']
        exact Nat.mod_eq_of_lt (by
          change _ < UInt32.size
          omega)
      rw [place] at here
      have bound := here.length_le content
      have one : (do
          let _ ← Reader.align alignment
          let position ← Reader.position
          let item ← Step.within (label position) read
          return (UInt32.ofNat position, item) : Reader (UInt32 × β)) { data, position } =
          .ok (offset, image item)
            { data, position := position + padding alignment position + byteSize item } := by
        have at_place : Reader.position { data, position := position + padding alignment position } =
            .ok (position + padding alignment position)
              { data, position := position + padding alignment position } := rfl
        rw [Step.bind_ok (Reader.align_eq (by omega)), Step.bind_ok at_place,
          Step.bind_ok (value.within _ data _ here), start, LawfulCodec.length_encode]
        rfl
      rw [List.length_cons, Reader.replicateOnto, Step.bind_ok one, ih _ _ placed fits
        (fun row inside => stands row (List.mem_cons_of_mem _ inside))
        (fun row inside => some row (List.mem_cons_of_mem _ inside))
        (fun row inside => reads row (List.mem_cons_of_mem _ inside))]
      simp

/-- The items of a section are read from where the map lists it. -/
theorem readItems_eq [Codec α] [LawfulCodec α] {data : Bytes} {image : α → α} {entry : MapItem}
    {rows : List (UInt32 × α)} (count : entry.size.toNat = rows.length)
    (inside : entry.offset.toNat ≤ data.size)
    (placed : rows.map Prod.fst = (places entry.kind.alignment entry.offset.toNat
      (rows.map fun row => byteSize row.2)).map UInt32.ofNat)
    (fits : placesEnd entry.kind.alignment entry.offset.toNat
      (rows.map fun row => byteSize row.2) < UInt32.size)
    (stands : ∀ row ∈ rows, data.Stands row.1.toNat (encode row.2))
    (some : ∀ row ∈ rows, encode row.2 ≠ [])
    (reads : ∀ row ∈ rows, (Codec.read : Reader α).Reads (encode row.2) (image row.2)) :
    (readItems entry).run data = .ok (rows.map fun row => (row.1, image row.2)) := by
  have items := replicateOnto_items entry.kind.alignment (fun position => s!"item at 0x{Text.hex position}")
    rows entry.offset.toNat [] placed fits stands some reads
  rw [← count] at items
  apply Reader.run_eq_ok
  rw [readItems, Step.bind_ok (Reader.seek_eq inside)]
  exact items

theorem readStringData_eq {data : Bytes} {offset : UInt32} {value : StringData} (sound : value.Sound)
    (stands : data.Stands offset.toNat (encode value)) : readStringData data offset = .ok value := by
  have content : encode value ≠ [] := by
    change _ ++ [_] ≠ []
    simp
  have bound := stands.length_le content
  have reads := (StringData.reads value sound).within s!"string data at 0x{Text.hex offset.toNat}"
    data offset.toNat stands
  apply Reader.run_eq_ok
  rw [Step.bind_ok (Reader.seek_eq (by omega))]
  exact reads

/-- The strings are read through their ids. -/
theorem readStrings_eq {data : Bytes} {entry : MapItem} {rows : List (UInt32 × StringItem)}
    (count : entry.size.toNat = rows.length) (inside : entry.offset.toNat ≤ data.size)
    (placed : rows.map Prod.fst = (places 1 entry.offset.toNat
      (List.replicate rows.length 4)).map UInt32.ofNat)
    (fits : placesEnd 1 entry.offset.toNat (List.replicate rows.length 4) < UInt32.size)
    (ids : ∀ row ∈ rows, data.Stands row.1.toNat (Bytes.ofWord32 row.2.dataOffset))
    (contents : ∀ row ∈ rows, data.Stands row.2.dataOffset.toNat (encode row.2.value))
    (sound : ∀ row ∈ rows, row.2.value.Sound) : (readStrings entry).run data = .ok rows := by
  have items (rows : List (UInt32 × StringItem)) (position : Nat) (done : List (UInt32 × StringItem))
      (placed : rows.map Prod.fst = (places 1 position
        (List.replicate rows.length 4)).map UInt32.ofNat)
      (fits : placesEnd 1 position (List.replicate rows.length 4) < UInt32.size)
      (ids : ∀ row ∈ rows, data.Stands row.1.toNat (Bytes.ofWord32 row.2.dataOffset))
      (contents : ∀ row ∈ rows, data.Stands row.2.dataOffset.toNat (encode row.2.value))
      (sound : ∀ row ∈ rows, row.2.value.Sound) :
      ∃ final, Reader.replicateOnto (do
        let position ← Reader.position
        let dataOffset ← Reader.word32
        let value ← readStringData (← get).data dataOffset
        return (UInt32.ofNat position, { value, dataOffset })) rows.length done { data, position } =
          .ok (done.reverse ++ rows) final := by
    induction rows generalizing position done with
    | nil => exact ⟨{ data, position }, by simp [Reader.replicateOnto]⟩
    | cons row rest ih =>
        obtain ⟨offset, item⟩ := row
        have aligned : position + padding 1 position = position := rfl
        simp only [List.length_cons, List.replicate_succ, List.map_cons, places, placesEnd, aligned,
          List.cons.injEq] at placed fits
        obtain ⟨start, placed⟩ := placed
        have id := ids _ List.mem_cons_self
        have later := le_placesEnd 1 (position + 4) (List.replicate rest.length 4)
        have place : offset.toNat = position := by
          rw [start, UInt32.toNat_ofNat']
          exact Nat.mod_eq_of_lt (by
            change _ < UInt32.size
            omega)
        simp only [place] at id
        have here : Reader.position { data, position } = .ok position { data, position } := rfl
        have word := Reader.reads_word32 item.dataOffset data position id
        have value := readStringData_eq (sound _ List.mem_cons_self) (contents _ List.mem_cons_self)
        obtain ⟨final, others⟩ := ih (position + 4) ((offset, item) :: done) placed fits
          (fun row inside => ids row (List.mem_cons_of_mem _ inside))
          (fun row inside => contents row (List.mem_cons_of_mem _ inside))
          (fun row inside => sound row (List.mem_cons_of_mem _ inside))
        refine ⟨final, ?_⟩
        have one : (do
            let position ← Reader.position
            let dataOffset ← Reader.word32
            let value ← readStringData (← get).data dataOffset
            return (UInt32.ofNat position, { value, dataOffset }) : Reader (UInt32 × StringItem))
            { data, position } = .ok (offset, item) { data, position := position + 4 } := by
          rw [Step.bind_ok here, Step.bind_ok word, Step.bind_ok (Step.get_apply _)]
          simp only [value]
          rw [Step.bind_ok (Step.monadLift_ok _ _), start]
          rfl
        rw [List.length_cons, Reader.replicateOnto, Step.bind_ok one, others]
        simp
  obtain ⟨final, run⟩ := items rows entry.offset.toNat [] placed fits ids contents sound
  rw [← count] at run
  apply Reader.run_eq_ok
  rw [readStrings, Step.bind_ok (Reader.seek_eq inside)]
  exact run

namespace Part

/-- The item as it is read. -/
def bare : (part : Part) → part.Item → part.Item
  | typeId => TypeItem.bare
  | protoId => ProtoItem.bare
  | fieldId => FieldItem.bare
  | methodId => MethodItem.bare
  | classDef => ClassDef.bare
  | typeList => TypeList.bare
  | classData => ClassData.bare
  | codeItem => CodeItem.bare
  | debugInfo => DebugInfo.bare

/-- The item has a byte form from which it is read back. -/
def Writable : (part : Part) → part.Item → Prop
  | fieldId => fun item : FieldItem => item.owner.IsShort ∧ item.type.IsShort
  | methodId => fun item : MethodItem => item.owner.IsShort ∧ item.proto.IsShort
  | typeList => fun list : TypeList => ∀ ref ∈ list.types, ref.IsShort
  | codeItem => CodeItem.Writable
  | debugInfo => fun info : DebugInfo => info.sequence.Sound
  | _ => fun _ => True

theorem reads (part : Part) (item : part.Item) (writable : part.Writable item)
    (fits : (encode item).length < UInt32.size) :
    (Codec.read : Reader part.Item).Reads (encode item) (part.bare item) := by
  cases part with
  | typeId => exact TypeItem.reads item
  | protoId => exact ProtoItem.reads item
  | fieldId => exact FieldItem.reads item writable.1 writable.2
  | methodId => exact MethodItem.reads item writable.1 writable.2
  | classDef => exact ClassDef.reads item
  | typeList => exact TypeList.reads item writable fits
  | classData => exact ClassData.reads item fits
  | codeItem => exact CodeItem.reads item writable fits
  | debugInfo => exact DebugInfo.reads item writable fits

/-- No item takes no bytes. -/
theorem encode_ne_nil (part : Part) (item : part.Item) : encode item ≠ [] := by
  cases part with
  | classData =>
      intro none
      have length := congrArg List.length none
      have some := Leb.length_encode_pos (UInt32.ofNat (ClassData.staticFields item).length)
      change (((((((Leb.encode (UInt32.ofNat (ClassData.staticFields item).length) ++ _) ++ _) ++ _) ++
        _) ++ _) ++ _) ++ _ : List UInt8).length = 0 at length
      simp only [List.length_append] at length
      omega
  | codeItem =>
      intro none
      have length := congrArg List.length (none.symm.trans (CodeItem.encode_eq item))
      simp only [List.length_nil, List.length_append, Bytes.length_ofWord16] at length
      omega
  | debugInfo =>
      intro none
      have length := congrArg List.length none
      have some := Leb.length_encode_pos (DebugInfo.sequence item).lineStart
      change (((Leb.encode (DebugInfo.sequence item).lineStart ++ _) ++ _) ++ _ : List UInt8).length = 0
        at length
      simp only [List.length_append] at length
      omega
  | typeId => exact List.cons_ne_nil _ _
  | protoId => exact List.cons_ne_nil _ _
  | fieldId => exact List.cons_ne_nil _ _
  | methodId => exact List.cons_ne_nil _ _
  | classDef => exact List.cons_ne_nil _ _
  | typeList => exact List.cons_ne_nil _ _

end Part

end Dex
end DexArsc
