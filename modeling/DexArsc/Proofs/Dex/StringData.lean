/-
String data is read back from its bytes: every text, and every value that was read, as text or as bytes that hold none.
The zero byte behind it is the only one that ends it.
-/

import DexArsc.Proofs.Dex.Debug.Verbatim
import DexArsc.Proofs.Dex.File.Items

namespace DexArsc.Dex

open Reader

/-- The bytes up to a zero byte stand there and hold none. Where the walk did not stop for its fuel, a zero byte or the
end of the data is next. -/
theorem bytesUntilZero_spec (data : Bytes) (fuel position : Nat) :
    data.Stands position (bytesUntilZero data fuel position) ∧ 0 ∉ bytesUntilZero data fuel position ∧
      ((bytesUntilZero data fuel position).length < fuel →
        ∀ byte, data[position + (bytesUntilZero data fuel position).length]? = some byte → byte = 0) := by
  induction fuel generalizing position with
  | zero => exact ⟨.nil, List.not_mem_nil, fun less => absurd less (Nat.not_lt_zero _)⟩
  | succ fuel ih =>
      rw [bytesUntilZero]
      cases here : data[position]? with
      | none => simp [Bytes.Stands.nil, here]
      | some byte =>
          by_cases zero : byte = 0
          · simp [Bytes.Stands.nil, here, zero]
          · obtain ⟨stands, nonzero, next⟩ := ih (position + 1)
            simp only [if_neg zero, List.length_cons]
            refine ⟨?_, by simp [nonzero, Ne.symm zero], fun less => ?_⟩
            · rw [← List.singleton_append, Bytes.Stands.append_iff, Bytes.stands_iff]
              refine ⟨fun place inside => ?_, stands⟩
              obtain rfl : place = 0 := by simpa using inside
              exact here
            · rw [Nat.add_comm _ 1, ← Nat.add_assoc]
              exact next (by omega)

/-- Reading finds bytes without a zero byte, and one behind them. -/
theorem finds_readUntilZero : Finds readUntilZero fun value bytes => bytes = value ++ [0] ∧ 0 ∉ value := by
  intro data position value stop run
  rw [readUntilZero_apply] at run
  obtain ⟨stands, nonzero, next⟩ := bytesUntilZero_spec data (data.size - position) position
  generalize bytesUntilZero data (data.size - position) position = body at stands nonzero next run
  obtain ⟨last, between, first, run⟩ := Step.bind_eq_ok.1 run
  obtain ⟨behind, rfl⟩ := byte_eq_ok.1 first
  cases run
  have within := behind.length_le (by simp)
  rw [List.length_singleton] at within
  obtain rfl : last = 0 := next (by omega) last behind.getElem?_eq
  refine ⟨value ++ [0], Bytes.Stands.append_iff.2 ⟨stands, behind⟩, ?_, rfl, nonzero⟩
  rw [List.length_append, List.length_singleton, Nat.add_assoc]

namespace StringData

/-- Values of bytes without a zero byte can be written. -/
theorem sound_ofBytes (size : UInt32) {bytes : List UInt8} (nonzero : 0 ∉ bytes) : (ofBytes size bytes).Sound := by
  unfold ofBytes
  cases decodes : Text.ofModifiedUtf8? bytes with
  | some text => trivial
  | none => exact ⟨nonzero, decodes⟩

/-- Reading takes a number, bytes without a zero byte and a zero byte. -/
theorem finds_stringData : Finds (Codec.read : Reader StringData) fun value bytes =>
    ∃ number size body, bytes = number ++ (body ++ [0]) ∧ Reads Reader.leb number size ∧ 0 ∉ body ∧
      value = ofBytes size body := by
  refine (finds_leb.bind fun size => finds_readUntilZero.bind fun body => .pure (ofBytes size body)).imp ?_
  rintro _ _ ⟨size, number, _, rfl, reads, body, _, _, rfl, ⟨rfl, nonzero⟩, rfl, rfl⟩
  exact ⟨number, size, body, by rw [List.append_nil], reads, nonzero, rfl⟩

/-- Data is read exactly when it starts with a number, bytes without a zero byte and a zero byte. -/
theorem decode_eq_ok_iff {data : Bytes} {value : StringData} {count : Nat} : decode data = .ok (value, count) ↔
    ∃ number size body rest, data.toList = number ++ body ++ [0] ++ rest ∧ Reads Reader.leb number size ∧ 0 ∉ body ∧
      value = ofBytes size body ∧ count = number.length + body.length + 1 := by
  constructor
  · intro run
    obtain ⟨stop, read, rfl⟩ := DexArsc.decode_eq_ok run
    obtain ⟨_, ⟨rest, whole⟩, rfl, number, size, body, rfl, reads, nonzero, rfl⟩ :=
      finds_stringData data 0 value stop read
    refine ⟨number, size, body, rest, ?_, reads, nonzero, rfl, ?_⟩
    · rw [List.drop_zero] at whole
      rw [← whole, ← List.append_assoc]
    · simp only [List.length_append, List.length_singleton]
      omega
  · rintro ⟨number, size, body, rest, whole, reads, nonzero, rfl, rfl⟩
    have reads : Reads Codec.read (number ++ (body ++ [0])) (ofBytes size body) :=
      Reads.bind reads ((reads_readUntilZero nonzero).bind_pure (ofBytes size))
    have run := reads.decode_append rest
    rw [← List.append_assoc, ← whole, Array.toArray_toList] at run
    simpa only [List.length_append, List.length_singleton] using run

/-- The values of string data: every text, and whatever is read. -/
inductive Stored : StringData → Prop
  | text (text : String) : Stored (.decoded text)
  | read {data : Bytes} {value : StringData} {count : Nat} (run : decode data = .ok (value, count)) : Stored value

theorem Stored.sound {value : StringData} (stored : value.Stored) : value.Sound := by
  cases stored with
  | text text => trivial
  | read run =>
      obtain ⟨_, size, _, _, _, _, nonzero, rfl, _⟩ := decode_eq_ok_iff.1 run
      exact sound_ofBytes size nonzero

/-- Every text, and every value that is read, is written as a number, bytes without a zero byte and a zero byte. The
number counts the code units of a text, or is the one that was read with the bytes. The value is read back from these
bytes, whatever stands behind them, and takes as many as were written. -/
theorem decode_encode_of_stored {value : StringData} (stored : value.Stored) :
    (∃ number body, encode value = number ++ body ++ [0] ∧ 0 ∉ body ∧ Reads Reader.leb number value.unitCount ∧
      byteSize value = number.length + body.length + 1 ∧ ofBytes value.unitCount body = value) ∧
    (∀ text, value = .decoded text → value.unitCount.toNat = (Text.units text).length % UInt32.size) ∧
    ∀ suffix, decode (encode value ++ suffix).toArray = .ok (value, byteSize value) := by
  have sound := stored.sound
  refine ⟨⟨Leb.encode value.unitCount, value.contents, rfl, zero_notMem_contents sound, reads_leb _, ?_,
    ofBytes_contents sound⟩, ?_, fun suffix => ?_⟩
  · rw [← LawfulCodec.length_encode]
    change (Leb.encode value.unitCount ++ value.contents ++ [0]).length = _
    rw [List.length_append, List.length_append, List.length_singleton]
  · rintro text rfl
    rw [unitCount, UInt32.toNat_ofNat', Text.unitCount_eq]
  · rw [← LawfulCodec.length_encode]
    exact (value.reads sound).decode_append suffix

/-- Half a surrogate pair is no text. Its bytes stay with the number that was declared for them, which takes fewer bytes
than it was read from. -/
theorem decode_encode_of_stored_surrogate :
    decode #[0x85, 0x00, 0xED, 0xA0, 0x80, 0x00] = .ok (raw 5 [0xED, 0xA0, 0x80], 6) ∧
      encode (raw 5 [0xED, 0xA0, 0x80]) = [0x05, 0xED, 0xA0, 0x80, 0x00] ∧
      decode #[0x05, 0xED, 0xA0, 0x80, 0x00, 0x41] = .ok (raw 5 [0xED, 0xA0, 0x80], 5) := by
  have number : Reads Reader.leb [0x85, 0x00] 5 := reads_decoded (by simp) (by decide) fun rest => by rfl
  have run : decode #[0x85, 0x00, 0xED, 0xA0, 0x80, 0x00] = .ok (raw 5 [0xED, 0xA0, 0x80], 6) :=
    decode_eq_ok_iff.2 ⟨[0x85, 0x00], 5, [0xED, 0xA0, 0x80], [], rfl, number, by decide, by decide +kernel, rfl⟩
  have written : encode (raw 5 [0xED, 0xA0, 0x80]) = [0x05, 0xED, 0xA0, 0x80, 0x00] := by
    simp [encode, unitCount, contents, Leb.encode, Leb.unsignedGroups]
  obtain ⟨-, -, back⟩ := decode_encode_of_stored (.read run)
  have again := back [0x41]
  rw [← LawfulCodec.length_encode, written] at again
  exact ⟨run, written, again⟩

/-- A zero character of a text does not end it. -/
example : (decoded "a\u0000😀").contents = [0x61, 0xC0, 0x80, 0xED, 0xA0, 0xBD, 0xED, 0xB8, 0x80] := by decide +kernel

end StringData
end DexArsc.Dex
