/-
Which byte strings base-128 numbers are read from, and what number each of them stands for. A number
is spelled by groups of seven bits, the lowest first. Unsigned ones have at most 32 bits, and signed
ones are read in two's complement.
-/

import DexArsc.Proofs.Bytes.Leb
import Mathlib.Algebra.BigOperators.Ring.List

namespace DexArsc.Leb

/-- The number that the low seven bits of some bytes stand for, the lowest group first. -/
def payload (bytes : List UInt8) : Nat :=
  (bytes.mapIdx fun place byte => byte.toNat % 128 * 128 ^ place).sum

theorem payload_nil : payload [] = 0 := rfl

theorem payload_cons (byte : UInt8) (rest : List UInt8) :
    payload (byte :: rest) = byte.toNat % 128 + 128 * payload rest := by
  have shifted : (rest.mapIdx fun place byte => byte.toNat % 128 * 128 ^ (place + 1)) =
      (rest.mapIdx fun place byte => byte.toNat % 128 * 128 ^ place).map (128 * ·) := by
    rw [List.mapIdx_eq_zipIdx_map, List.mapIdx_eq_zipIdx_map, List.map_map]
    congr 1
    funext ⟨byte, place⟩
    change byte.toNat % 128 * 128 ^ (place + 1) = 128 * (byte.toNat % 128 * 128 ^ place)
    rw [Nat.pow_succ', Nat.mul_left_comm]
  unfold payload
  rw [List.mapIdx_cons, List.sum_cons, Nat.pow_zero, Nat.mul_one, shifted, List.sum_map_mul_left,
    List.map_id']

theorem payload_append (first second : List UInt8) :
    payload (first ++ second) = payload first + 128 ^ first.length * payload second := by
  induction first with
  | nil =>
      rw [List.nil_append, payload_nil, List.length_nil, Nat.pow_zero, Nat.one_mul, Nat.zero_add]
  | cons byte rest ih =>
      rw [List.cons_append, payload_cons, payload_cons, ih, List.length_cons, Nat.pow_succ',
        Nat.mul_add, Nat.add_assoc, Nat.mul_assoc]

theorem payload_lt (bytes : List UInt8) : payload bytes < 128 ^ bytes.length := by
  induction bytes with
  | nil => decide
  | cons byte rest ih =>
      have low : byte.toNat % 128 < 128 := Nat.mod_lt _ (by decide)
      rw [payload_cons, List.length_cons, Nat.pow_succ]
      omega

/-- What stands before a group, the group and what stands behind it make up the payload. -/
theorem payload_shift (before count : Nat) (byte : UInt8) (rest : List UInt8) :
    before + (byte.toNat % 128) <<< (7 * count) + payload rest * 128 ^ (count + 1) =
      before + payload (byte :: rest) * 128 ^ count := by
  have power : (2 ^ 7) ^ count = 128 ^ count := rfl
  rw [payload_cons, Nat.shiftLeft_eq, Nat.pow_mul, power, Nat.pow_succ', Nat.add_mul, Nat.add_assoc,
    Nat.mul_comm 128 (payload rest), Nat.mul_assoc]

/-- The first `count` bytes are the groups of one number: the last one ends it, and each one before
has its top bit set. -/
structure Spelled (encoded : List UInt8) (count : Nat) : Prop where
  positive : 0 < count
  enough : count ≤ encoded.length
  more : ∀ byte ∈ encoded.take (count - 1), 128 ≤ byte
  last : ∀ byte, encoded[count - 1]? = some byte → byte < 128

theorem not_spelled_nil {count : Nat} : ¬Spelled [] count := fun spelled =>
  absurd (Nat.lt_of_lt_of_le spelled.positive spelled.enough) (Nat.lt_irrefl 0)

theorem spelled_one {byte : UInt8} {rest : List UInt8} :
    Spelled (byte :: rest) 1 ↔ byte < 128 := by
  constructor
  · intro spelled
    exact spelled.last byte rfl
  · intro final
    exact ⟨Nat.one_pos, Nat.le_add_left .., by simp, by simpa using final⟩

theorem spelled_add_two {byte : UInt8} {rest : List UInt8} {count : Nat} :
    Spelled (byte :: rest) (count + 2) ↔ 128 ≤ byte ∧ Spelled rest (count + 1) := by
  constructor
  · rintro ⟨_, enough, more, last⟩
    refine ⟨more byte (by simp), Nat.succ_pos _, Nat.le_of_succ_le_succ enough, ?_, last⟩
    exact fun other inside => more other (List.mem_cons_of_mem _ inside)
  · rintro ⟨first, _, enough, more, last⟩
    refine ⟨Nat.succ_pos _, Nat.succ_le_succ enough, ?_, last⟩
    exact List.forall_mem_cons.2 ⟨first, more⟩

/-- The groups in front of some bytes are one that ends the number, or one more and the groups behind
it. -/
theorem exists_spelled_cons {byte : UInt8} {rest : List UInt8} {property : Nat → Prop} :
    (∃ count, Spelled (byte :: rest) count ∧ property count) ↔
      if byte < 128 then property 1
      else ∃ count, Spelled rest count ∧ property (count + 1) := by
  by_cases final : byte < 128
  · rw [if_pos final]
    constructor
    · rintro ⟨count, spelled, holds⟩
      match count, spelled with
      | 0, spelled => exact absurd spelled.positive (Nat.lt_irrefl 0)
      | 1, _ => exact holds
      | count + 2, spelled => exact absurd (spelled_add_two.1 spelled).1 (UInt8.not_le.2 final)
    · exact fun holds => ⟨1, spelled_one.2 final, holds⟩
  · rw [if_neg final]
    constructor
    · rintro ⟨count, spelled, holds⟩
      match count, spelled with
      | 0, spelled => exact absurd spelled.positive (Nat.lt_irrefl 0)
      | 1, spelled => exact absurd (spelled_one.1 spelled) final
      | count + 2, spelled => exact ⟨count + 1, (spelled_add_two.1 spelled).2, holds⟩
    · rintro ⟨count, spelled, holds⟩
      obtain ⟨count, rfl⟩ := Nat.exists_eq_add_one.2 spelled.positive
      exact ⟨count + 2, spelled_add_two.2 ⟨UInt8.not_lt.1 final, spelled⟩, holds⟩

/-- A group without its top bit leaves the fifth place clear when it is below 16. -/
theorem overflows_iff {byte : UInt8} (final : byte < 128) :
    byte &&& 0x70 ≠ 0 ↔ ¬byte < 16 := by
  have table : ∀ number < 128, UInt8.ofNat number &&& 0x70 ≠ 0 ↔ ¬number < 16 := by decide
  have found := table byte.toNat final
  rwa [UInt8.ofNat_toNat] at found

/-- Decoding the rest of a number succeeds exactly on its groups. The fifth one has only four bits
left to give. -/
theorem decodeGroups_eq_ok_iff {limit groups count before taken : Nat} {value : UInt32}
    {encoded : List UInt8} (few : groups + count ≤ 5) :
    decodeGroups limit groups count before encoded = .ok (value, taken) ↔
      ∃ own, Spelled encoded own ∧ own ≤ groups ∧ taken = count + own ∧
        (taken = 5 → ∀ byte, encoded[own - 1]? = some byte → byte < 16) ∧
        value = UInt32.ofNat (before + payload (encoded.take own) * 128 ^ count) := by
  -- Each turn takes one group off the bytes, and what they stood for goes into `before`.
  induction groups generalizing count before encoded with
  | zero =>
      refine ⟨fun decodes => absurd decodes Except.fail_ne_ok, ?_⟩
      rintro ⟨own, spelled, none, _⟩
      exact absurd spelled.positive (Nat.not_lt.2 none)
  | succ groups ih =>
      cases encoded with
      | nil =>
          refine ⟨fun decodes => absurd decodes Except.fail_ne_ok, ?_⟩
          rintro ⟨own, spelled, _⟩
          exact absurd spelled not_spelled_nil
      | cons byte rest =>
          rw [decodeGroups, exists_spelled_cons]
          by_cases final : byte < 128
          · simp only [if_pos final]
            by_cases overflow : count = 4 ∧ byte &&& 0x70 ≠ 0
            · rw [if_pos overflow]
              refine ⟨fun decodes => absurd decodes Except.fail_ne_ok, ?_⟩
              rintro ⟨_, rfl, fits, _⟩
              exact absurd (fits (by rw [overflow.1]) byte rfl) ((overflows_iff final).1 overflow.2)
            · have fits : count = 4 → byte < 16 := fun last =>
                not_not.1 fun above => overflow ⟨last, (overflows_iff final).2 above⟩
              have whole := payload_shift before count byte []
              rw [payload_nil, Nat.zero_mul, Nat.add_zero] at whole
              rw [if_neg overflow, Except.ok.injEq, Prod.mk.injEq, whole]
              constructor
              · rintro ⟨rfl, rfl⟩
                refine ⟨Nat.le_add_left .., rfl, fun last other here => ?_, rfl⟩
                cases here
                exact fits (Nat.succ.inj last)
              · rintro ⟨_, rfl, _, rfl⟩
                exact ⟨rfl, rfl⟩
          · simp only [if_neg final]
            by_cases overflow : count = 4 ∧ byte &&& 0x70 ≠ 0
            · rw [if_pos overflow]
              refine ⟨fun decodes => absurd decodes Except.fail_ne_ok, ?_⟩
              rintro ⟨own, spelled, more, _⟩
              have := spelled.positive
              omega
            · rw [if_neg overflow, ih (by omega)]
              refine exists_congr fun own => and_congr_right fun spelled => ?_
              obtain ⟨place, rfl⟩ := Nat.exists_eq_add_one.2 spelled.positive
              rw [payload_shift, Nat.add_le_add_iff_right, Nat.add_right_comm]
              rfl

/-- An unsigned number of at most `groups` groups stands in front of some bytes and takes `count` of
them. A fifth group has only its four low bits. -/
structure Accepts (groups : Nat) (encoded : List UInt8) (value : UInt32) (count : Nat) : Prop where
  within : count ≤ min groups maxGroups
  spelled : Spelled encoded count
  fifth : count = 5 → ∀ byte, encoded[4]? = some byte → byte < 16
  value : value.toNat = payload (encoded.take count)

/-- The groups of an unsigned number have at most 32 bits. -/
theorem payload_take_lt {encoded : List UInt8} {count : Nat} (few : count ≤ 5)
    (fifth : count = 5 → ∀ byte, encoded[4]? = some byte → byte < 16) :
    payload (encoded.take count) < UInt32.size := by
  have bound (taken : Nat) : payload (encoded.take taken) < 128 ^ taken :=
    Nat.lt_of_lt_of_le (payload_lt _) (Nat.pow_le_pow_right (by decide) (List.length_take_le ..))
  by_cases five : count = 5
  · subst five
    have front : payload (encoded.take 4) < 268435456 := bound 4
    rw [List.take_add_one, payload_append]
    cases last : encoded[4]? with
    | none =>
        rw [Option.toList_none, payload_nil, Nat.mul_zero, Nat.add_zero]
        exact Nat.lt_trans front (by decide)
    | some byte =>
        have small : byte.toNat < 16 := fifth rfl byte last
        have power : 128 ^ (encoded.take 4).length ≤ 128 ^ 4 :=
          Nat.pow_le_pow_right (by decide) (List.length_take_le ..)
        have back : 128 ^ (encoded.take 4).length * payload [byte] ≤ 268435456 * 15 :=
          Nat.mul_le_mul power (by rw [payload_cons, payload_nil]; omega)
        rw [Option.toList_some]
        change _ < 4294967296
        omega
  · have most : 128 ^ count ≤ 128 ^ 4 := Nat.pow_le_pow_right (by decide) (by omega)
    exact Nat.lt_of_lt_of_le (bound count) (Nat.le_trans most (by decide))

theorem decode_eq_ok_iff {groups count : Nat} {value : UInt32} {encoded : List UInt8} :
    decode encoded groups = .ok (value, count) ↔ Accepts groups encoded value count := by
  unfold decode
  rw [decodeGroups_eq_ok_iff (Nat.min_le_right groups maxGroups)]
  constructor
  · rintro ⟨own, spelled, within, taken, fifth, rfl⟩
    obtain rfl : own = count := by omega
    have fifth : own = 5 → ∀ byte, encoded[4]? = some byte → byte < 16 := by
      rintro rfl
      exact fifth rfl
    have bound := payload_take_lt (Nat.le_trans within (Nat.min_le_right ..)) fifth
    refine ⟨within, spelled, fifth, ?_⟩
    rw [Nat.zero_add, Nat.pow_zero, Nat.mul_one, UInt32.toNat_ofNat', Nat.mod_eq_of_lt bound]
  · rintro ⟨within, spelled, fifth, value⟩
    refine ⟨count, spelled, within, (Nat.zero_add count).symm, ?_, ?_⟩
    · rintro rfl
      exact fifth rfl
    · rw [Nat.zero_add, Nat.pow_zero, Nat.mul_one, ← value, UInt32.ofNat_toNat]

/-- A number from one power of 128 to the next has as many groups as the larger one has factors. -/
theorem length_unsignedGroups (value count : Nat) (least : count = 0 ∨ 128 ^ count ≤ value)
    (greatest : value < 128 ^ (count + 1)) : (unsignedGroups value).length = count + 1 := by
  induction count generalizing value with
  | zero =>
      rw [unsignedGroups, if_pos (by simpa using greatest)]
      rfl
  | succ count ih =>
      have least := least.resolve_left (Nat.succ_ne_zero count)
      have large : 128 ≤ value :=
        Nat.le_trans (Nat.le_self_pow (Nat.succ_ne_zero count) 128) least
      rw [unsignedGroups, if_neg (Nat.not_lt.2 large), List.length_cons, ih]
      · right
        rwa [Nat.le_div_iff_mul_le (by decide), ← Nat.pow_succ]
      · rwa [Nat.div_lt_iff_lt_mul (by decide), ← Nat.pow_succ]

theorem length_encode (value : UInt32) : (encode value).length = size value := by
  have bound := value.toNat_lt
  unfold encode size
  split
  · exact length_unsignedGroups _ 0 (.inl rfl) (by omega)
  split
  · exact length_unsignedGroups _ 1 (.inr (by omega)) (by omega)
  split
  · exact length_unsignedGroups _ 2 (.inr (by omega)) (by omega)
  split
  · exact length_unsignedGroups _ 3 (.inr (by omega)) (by omega)
  · exact length_unsignedGroups _ 4 (.inr (by omega)) (by omega)

theorem decodePlusOne_eq_ok_iff {encoded : List UInt8} {number : Int} {count : Nat} :
    decodePlusOne encoded = .ok (number, count) ↔ ∃ value : UInt32,
      decode encoded maxGroups = .ok (value, count) ∧ number = value.toNat - 1 := by
  unfold decodePlusOne
  rw [Except.bind_eq_ok]
  constructor
  · rintro ⟨⟨value, taken⟩, decodes, same⟩
    cases same
    exact ⟨value, decodes, rfl⟩
  · rintro ⟨value, decodes, rfl⟩
    exact ⟨(value, count), decodes, rfl⟩

/-- The number before an unsigned one is stored as this one. -/
theorem encodePlusOne_sub_one (value : UInt32) :
    encodePlusOne (value.toNat - 1) = encode value := by
  have bound := value.toNat_lt
  have number : (((value.toNat : Int) - 1 + 1) % UInt32.size).toNat = value.toNat := by
    simp only [UInt32.size]
    omega
  rw [encodePlusOne, number, UInt32.ofNat_toNat]

/-- The unsigned decoder accepts exactly the spelled numbers of 32 bits, and the encoder writes each
number in the fewest groups, whose count is its `size`. The form plus one stores the numbers from -1
on in place of those from zero on. -/
theorem unsigned_exact (groups : Nat) :
    (∀ encoded value count,
      decode encoded groups = .ok (value, count) ↔ Accepts groups encoded value count) ∧
    (∀ value suffix, decode (encode value ++ suffix) groups = .ok (value, size value) ↔
      size value ≤ min groups maxGroups) ∧
    (∀ encoded value count, decode encoded groups = .ok (value, count) → size value ≤ count) ∧
    (∀ number : Int, -1 ≤ number → number ≤ 0xFFFFFFFE → ∀ suffix,
      decodePlusOne (encodePlusOne number ++ suffix) =
        .ok (number, (encodePlusOne number).length)) ∧
    (∀ value : UInt32, encodePlusOne (value.toNat - 1) = encode value) ∧
    ∀ encoded number count, decodePlusOne encoded = .ok (number, count) ↔ ∃ value : UInt32,
      decode encoded maxGroups = .ok (value, count) ∧ number = value.toNat - 1 := by
  refine ⟨fun encoded value count => decode_eq_ok_iff, fun value suffix => ?_, ?_, ?_,
    encodePlusOne_sub_one, fun encoded number count => decodePlusOne_eq_ok_iff⟩
  · have whole := decode_eq_ok_iff.1 (decode_encode value suffix)
    rw [length_encode] at whole
    rw [decode_eq_ok_iff]
    exact ⟨Accepts.within, fun within => { whole with within }⟩
  · intro encoded value count decodes
    rw [← length_encode]
    exact length_encode_le_of_decodeGroups (by decide) decodes
  · intro number least greatest suffix
    obtain ⟨value, rfl⟩ : ∃ value : UInt32, number = value.toNat - 1 := by
      refine ⟨UInt32.ofNat (number + 1).toNat, ?_⟩
      rw [UInt32.toNat_ofNat', Nat.mod_eq_of_lt (by omega)]
      omega
    rw [encodePlusOne_sub_one]
    exact decodePlusOne_eq_ok_iff.2 ⟨value, decode_encode value suffix, rfl⟩

theorem decodeSignedGroups_eq_ok_iff {groups count before taken : Nat} {value : Int32}
    {encoded : List UInt8} :
    decodeSignedGroups groups count before encoded = .ok (value, taken) ↔
      ∃ own, Spelled encoded own ∧ own ≤ groups ∧ taken = count + own ∧
        value = signed (7 * taken) (before + payload (encoded.take own) * 128 ^ count) := by
  induction groups generalizing count before encoded with
  | zero =>
      refine ⟨fun decodes => absurd decodes Except.fail_ne_ok, ?_⟩
      rintro ⟨own, spelled, none, _⟩
      exact absurd spelled.positive (Nat.not_lt.2 none)
  | succ groups ih =>
      cases encoded with
      | nil =>
          refine ⟨fun decodes => absurd decodes Except.fail_ne_ok, ?_⟩
          rintro ⟨own, spelled, _⟩
          exact absurd spelled not_spelled_nil
      | cons byte rest =>
          rw [decodeSignedGroups, exists_spelled_cons]
          by_cases final : byte < 128
          · have whole := payload_shift before count byte []
            rw [payload_nil, Nat.zero_mul, Nat.add_zero] at whole
            simp only [if_pos final]
            rw [Except.ok.injEq, Prod.mk.injEq, whole]
            constructor
            · rintro ⟨rfl, rfl⟩
              exact ⟨Nat.le_add_left .., rfl, rfl⟩
            · rintro ⟨_, rfl, rfl⟩
              exact ⟨rfl, rfl⟩
          · simp only [if_neg final]
            rw [ih]
            refine exists_congr fun own => and_congr_right fun spelled => ?_
            rw [payload_shift, Nat.add_le_add_iff_right, Nat.add_right_comm]
            rfl

/-- Signed bits are read in two's complement, and of more than 32 bits the low 32 count. -/
theorem toInt_signed (bits value : Nat) :
    (signed bits value).toInt = (BitVec.ofNat (min bits 32) value).toInt := by
  have width : 1 <<< min bits 32 = 2 ^ min bits 32 := Nat.one_shiftLeft _
  have most : 2 ^ min bits 32 ≤ 4294967296 :=
    Nat.pow_le_pow_right (by decide) (Nat.min_le_right bits 32)
  have positive : 0 < 2 ^ min bits 32 := Nat.two_pow_pos _
  have least := Int.le_bmod (x := value) positive
  have greatest := Int.bmod_lt (x := value) positive
  rw [signed, width, BitVec.toInt_ofNat']
  exact Int32.toInt_ofInt_of_le (by omega) (by omega)

theorem decodeSigned_eq_ok_iff {encoded : List UInt8} {value : Int32} {count : Nat} :
    decodeSigned encoded = .ok (value, count) ↔ Spelled encoded count ∧ count ≤ maxGroups ∧
      value.toInt = (BitVec.ofNat (min (7 * count) 32) (payload (encoded.take count))).toInt := by
  unfold decodeSigned
  rw [decodeSignedGroups_eq_ok_iff, ← toInt_signed, Int32.toInt_inj]
  constructor
  · rintro ⟨own, spelled, few, taken, reading⟩
    obtain rfl : own = count := by omega
    rw [Nat.zero_add, Nat.pow_zero, Nat.mul_one] at reading
    exact ⟨spelled, few, reading⟩
  · rintro ⟨spelled, few, reading⟩
    refine ⟨count, spelled, few, (Nat.zero_add count).symm, ?_⟩
    rw [reading, Nat.zero_add, Nat.pow_zero, Nat.mul_one]

/-- The signed encoder writes each number in the fewest groups that it is read from. What is read
from at most four groups is their two's complement reading. -/
theorem signed_canonical (value : Int32) :
    (∀ suffix, decodeSigned (encodeSigned value ++ suffix) =
      .ok (value, (encodeSigned value).length)) ∧
    (encodeSigned value).length ≤ maxGroups ∧
    (∀ encoded count, decodeSigned encoded = .ok (value, count) →
      (encodeSigned value).length ≤ count) ∧
    ∀ encoded count, count ≤ 4 → (decodeSigned encoded = .ok (value, count) ↔
      Spelled encoded count ∧
        value.toInt = (BitVec.ofNat (7 * count) (payload (encoded.take count))).toInt) := by
  refine ⟨decodeSigned_encodeSigned value, length_encodeSigned_le value,
    fun encoded count decodes => length_encodeSigned_le_of_decodeSignedGroups decodes,
    fun encoded count few => ?_⟩
  rw [decodeSigned_eq_ok_iff, Nat.min_eq_left (by omega)]
  exact and_congr_right fun _ => and_iff_right (Nat.le_succ_of_le few)

end DexArsc.Leb
