/-
What a reader does on bytes that stand in the data: it yields one value and passes exactly these
bytes, whatever stands before and behind them.
-/

import DexArsc.Bytes.NumberForm
import DexArsc.Bytes.Cursor
import DexArsc.Proofs.Step

namespace DexArsc

/-- The bytes stand at a position of the data. -/
def Bytes.Stands (data : Bytes) (position : Nat) (bytes : List UInt8) : Prop :=
  bytes <+: data.toList.drop position

/-- Bytes stand at a position when the data has each of them at its place. -/
theorem Bytes.stands_iff {data : Bytes} {position : Nat} {bytes : List UInt8} : data.Stands position bytes ↔
    ∀ place, place < bytes.length → data[position + place]? = bytes[place]? := by
  unfold Stands
  rw [List.prefix_iff_getElem?]
  refine forall_congr' fun place => forall_congr' fun inside => ?_
  rw [List.getElem?_drop, Array.getElem?_toList, List.getElem?_eq_getElem inside]

namespace Bytes.Stands

variable {data : Bytes} {position : Nat} {first second : List UInt8}

/-- No bytes stand everywhere. -/
theorem nil : data.Stands position [] := List.nil_prefix

/-- Bytes in a row stand one behind the other. -/
theorem append_iff : data.Stands position (first ++ second) ↔
    data.Stands position first ∧ data.Stands (position + first.length) second := by
  unfold Stands
  constructor
  · rintro ⟨rest, whole⟩
    refine ⟨⟨second ++ rest, by rw [← whole, List.append_assoc]⟩, rest, ?_⟩
    rw [← List.drop_drop, ← whole, List.append_assoc, List.drop_left]
  · rintro ⟨⟨rest, whole⟩, more, part⟩
    refine ⟨more, ?_⟩
    rw [← List.drop_drop, ← whole, List.drop_left] at part
    rw [List.append_assoc, part, whole]

/-- Bytes that stand somewhere end within the data. -/
theorem length_le (stands : data.Stands position first) (some : first ≠ []) :
    position + first.length ≤ data.size := by
  have bound := List.IsPrefix.length_le stands
  have positive := List.length_pos_iff.2 some
  simp only [List.length_drop, Array.length_toList] at bound
  omega

/-- The bytes that stand at a position are cut out by their length. -/
theorem extract_eq (stands : data.Stands position first) :
    (data.extract position (position + first.length)).toList = first := by
  rw [Array.toList_extract, List.extract, Nat.add_sub_cancel_left]
  exact (List.prefix_iff_eq_take.1 stands).symm

/-- A byte that stands at a position is found there. -/
theorem getElem?_eq {byte : UInt8} (stands : data.Stands position (byte :: first)) :
    data[position]? = some byte := by
  obtain ⟨rest, whole⟩ := stands
  have found := congrArg (fun bytes : List UInt8 => bytes[0]?) whole
  simpa using found.symm

/-- Bytes stand behind a byte that stands before them. -/
theorem tail {byte : UInt8} (stands : data.Stands position (byte :: first)) :
    data.Stands (position + 1) first := by
  have row : data.Stands position ([byte] ++ first) := stands
  exact (append_iff.1 row).2

/-- Bytes stand in longer data as well. -/
theorem extend (stands : data.Stands position first) (more : Bytes) (some : first ≠ []) :
    (data ++ more).Stands position first := by
  have bound := stands.length_le some
  unfold Stands at stands ⊢
  rw [Array.toList_append, List.drop_append_of_le_length (by simp; omega)]
  exact stands.trans (List.prefix_append _ _)

end Bytes.Stands

/-- On these bytes a reader yields the value and passes them. -/
def Reader.Reads {α : Type} (reader : Reader α) (bytes : List UInt8) (value : α) : Prop :=
  ∀ (data : Bytes) (position : Nat), data.Stands position bytes →
    reader { data, position } = .ok value { data, position := position + bytes.length }

/-- A reader that yields a value on fresh data reads it from the start. -/
theorem Reader.run_ok {α : Type} {reader : Reader α} {data : Bytes} {value : α}
    (run : reader.run data = .ok value) : ∃ stop, reader { data } = .ok value stop := by
  unfold Reader.run EStateM.run at run
  cases result : reader { data } with
  | ok found stop =>
      rw [result] at run
      cases run
      exact ⟨stop, rfl⟩
  | error fault stop => simp [result] at run

namespace Reader.Reads

variable {α β : Type}

/-- A value without bytes. -/
theorem pure (value : α) : Reads (Pure.pure value) [] value :=
  fun _ _ _ => rfl

/-- Two readers in a row read two runs of bytes. -/
theorem bind {first : Reader α} {next : α → Reader β} {bytes more : List UInt8} {value : α}
    {result : β} (reads : Reads first bytes value) (continues : Reads (next value) more result) :
    Reads (first >>= next) (bytes ++ more) result := by
  intro data position stands
  obtain ⟨front, back⟩ := Bytes.Stands.append_iff.1 stands
  change EStateM.bind first next _ = _
  simp only [EStateM.bind, reads data position front, continues data _ back, List.length_append,
    Nat.add_assoc]

/-- The last reader in a row leaves no bytes. -/
theorem bind_pure {first : Reader α} {bytes : List UInt8} {value : α} (change : α → β)
    (reads : Reads first bytes value) :
    Reads (first >>= fun value => Pure.pure (change value)) bytes (change value) := by
  rw [← List.append_nil bytes]
  exact bind reads (pure (change value))

/-- The image of a value is read from the same bytes. -/
theorem map {reader : Reader α} {bytes : List UInt8} {value : α} (change : α → β)
    (reads : Reads reader bytes value) : Reads (change <$> reader) bytes (change value) := by
  intro data position stands
  change EStateM.map change reader _ = _
  simp only [EStateM.map, reads data position stands]

/-- A place in the messages changes nothing that succeeds. -/
theorem within {reader : Reader α} {bytes : List UInt8} {value : α} (place : String)
    (reads : Reads reader bytes value) : Reads (Step.within place reader) bytes value := by
  intro data position stands
  simp only [Step.within, reads data position stands]

/-- Repeated readers read the bytes of a list one behind the other. -/
theorem replicateOnto {reader : Reader α} {values : List β} {bytes : β → List UInt8}
    {image : β → α} (reads : ∀ value ∈ values, Reads reader (bytes value) (image value))
    (done : List α) :
    Reads (reader.replicateOnto values.length done) (values.flatMap bytes)
      (done.reverse ++ values.map image) := by
  induction values generalizing done with
  | nil =>
      simp only [List.length_nil, List.flatMap_nil, List.map_nil, List.append_nil]
      exact pure done.reverse
  | cons value rest ih =>
      have tail := ih (fun value inside => reads value (List.mem_cons_of_mem _ inside))
        (image value :: done)
      simp only [List.reverse_cons, List.append_assoc, List.singleton_append] at tail
      exact bind (reads value List.mem_cons_self) tail

/-- Repeated readers read the bytes of a list. -/
theorem replicate {reader : Reader α} {values : List β} {bytes : β → List UInt8} {image : β → α}
    (reads : ∀ value ∈ values, Reads reader (bytes value) (image value)) :
    Reads (reader.replicate values.length) (values.flatMap bytes) (values.map image) := by
  simpa [Reader.replicate] using replicateOnto reads []

end Reader.Reads

namespace Reader

/-- Reading a number of bytes yields them. -/
theorem reads_bytesAs (what : String) (bytes : List UInt8) :
    Reads (bytesAs what bytes.length) bytes bytes := by
  intro data position stands
  have window : Cursor.window { data, position } bytes.length = bytes := by
    by_cases empty : bytes = []
    · subst empty
      have length : (Cursor.window { data, position } 0).length = 0 := by
        rw [Cursor.window, Array.length_toList, Array.size_extract]
        omega
      exact List.eq_nil_of_length_eq_zero length
    · simp only [Cursor.window, Cursor.limit, List.head?_nil, Option.getD_none,
        Nat.min_eq_right (stands.length_le empty), stands.extract_eq]
  have enough : ¬Cursor.remaining { data, position } < bytes.length := by
    by_cases empty : bytes = []
    · simp [empty]
    · have bound := stands.length_le empty
      simp only [Cursor.remaining, Cursor.limit, List.head?_nil, Option.getD_none]
      omega
  have peeks : peekAs what bytes.length { data, position } = .ok bytes { data, position } := by
    rw [peekAs, Step.bind_ok (Step.get_apply _), if_neg enough]
    exact congrArg (EStateM.Result.ok · _) window
  rw [bytesAs, Step.bind_ok peeks]
  rfl

/-- Reading a number of bytes yields them. -/
theorem reads_bytes (bytes : List UInt8) : Reads (Reader.bytes bytes.length) bytes bytes :=
  reads_bytesAs _ bytes

/-- Reading yields a byte. -/
theorem reads_byte (byte : UInt8) : Reads Reader.byte [byte] byte := by
  have value : UInt8.ofNat (Bytes.littleEndian [byte]) = byte := by
    simp [Bytes.littleEndian]
  have reads := (reads_bytesAs "u1" [byte]).bind_pure
    (fun bytes => UInt8.ofNat (Bytes.littleEndian bytes))
  rwa [value] at reads

end Reader

namespace Bytes

theorem littleEndian_ofWord16 (word : UInt16) : littleEndian (ofWord16 word) = word.toNat := by
  have bound := word.toNat_lt
  simp [ofWord16, littleEndian, Nat.shiftRight_eq_div_pow]
  omega

theorem littleEndian_ofWord32 (word : UInt32) : littleEndian (ofWord32 word) = word.toNat := by
  have bound := word.toNat_lt
  simp [ofWord32, littleEndian, Nat.shiftRight_eq_div_pow]
  omega

@[simp] theorem length_ofWord16 (word : UInt16) : (ofWord16 word).length = 2 := rfl

@[simp] theorem length_ofWord32 (word : UInt32) : (ofWord32 word).length = 4 := rfl

end Bytes

namespace Reader

/-- Reading yields a 16-bit word. -/
theorem reads_word16 (word : UInt16) : Reads Reader.word16 (Bytes.ofWord16 word) word := by
  have reads := (reads_bytesAs "u2" (Bytes.ofWord16 word)).bind_pure
    (fun bytes => UInt16.ofNat (Bytes.littleEndian bytes))
  rwa [Bytes.littleEndian_ofWord16, UInt16.ofNat_toNat] at reads

/-- Reading yields a 32-bit word. -/
theorem reads_word32 (word : UInt32) : Reads Reader.word32 (Bytes.ofWord32 word) word := by
  have reads := (reads_bytesAs "u4" (Bytes.ofWord32 word)).bind_pure
    (fun bytes => UInt32.ofNat (Bytes.littleEndian bytes))
  rwa [Bytes.littleEndian_ofWord32, UInt32.ofNat_toNat] at reads

end Reader

/-- What a reader reads from bytes is decoded from them, whatever stands behind them. -/
theorem Reader.Reads.decode_append {α : Type} [Codec α] {bytes : List UInt8} {value : α}
    (reads : Reads Codec.read bytes value) (suffix : List UInt8) :
    decode (bytes ++ suffix).toArray = .ok (value, bytes.length) := by
  have stands : Bytes.Stands (bytes ++ suffix).toArray 0 bytes := List.prefix_append _ _
  have run := reads _ 0 stands
  unfold decode Reader.run EStateM.run
  rw [Step.bind_ok run, Nat.zero_add]
  rfl

/-- What is decoded was read, up to where its bytes end. -/
theorem decode_eq_ok {α : Type} [Codec α] {data : Bytes} {value : α} {count : Nat}
    (run : decode data = .ok (value, count)) :
    ∃ stop, (Codec.read : Reader α) { data } = .ok value stop ∧ stop.position = count := by
  obtain ⟨final, run⟩ := Reader.run_ok run
  obtain ⟨read, stop, reading, run⟩ := Step.bind_eq_ok.1 run
  obtain ⟨_, _, here, run⟩ := Step.bind_eq_ok.1 run
  cases here
  cases run
  exact ⟨_, reading, rfl⟩

end DexArsc
