/-
Base-128 numbers are read back from their encodings, which are shortest: a number that is read takes
at least as many bytes as its encoding has.
-/

import DexArsc.Proofs.Bytes.Reads
import Mathlib.Algebra.Ring.Int.Defs
import Mathlib.Algebra.Ring.Nat

namespace DexArsc.Leb

/-- A number below the reach of the remaining groups is read back from its groups. -/
theorem decodeGroups_unsignedGroups (limit value : Nat) (rest : List UInt8)
    (groups count before : Nat) (all : groups + 1 + count = 5)
    (bound : value * 128 ^ count < UInt32.size) :
    decodeGroups limit (groups + 1) count before (unsignedGroups value ++ rest) =
      .ok (UInt32.ofNat (before + value * 128 ^ count),
        count + (unsignedGroups value).length) := by
  -- The reach of the last group is what keeps its upper bits zero.
  have lastGroup : count = 4 → value < 16 := by
    rintro rfl
    change value * 268435456 < 4294967296 at bound
    omega
  induction value using unsignedGroups.induct generalizing groups count before with
  | case1 value small =>
      rw [unsignedGroups, if_pos small]
      have number : (UInt8.ofNat value).toNat = value := by
        rw [UInt8.toNat_ofNat']
        exact Nat.mod_eq_of_lt (by omega)
      have clear : ¬(count = 4 ∧ UInt8.ofNat value &&& 0x70 ≠ 0) := by
        rintro ⟨last, above⟩
        apply above
        have few : ∀ value < 16, UInt8.ofNat value &&& 0x70 = 0 := by decide
        exact few value (lastGroup last)
      have final : UInt8.ofNat value < 128 := by
        rw [UInt8.lt_iff_toNat_lt, number]
        exact small
      simp only [List.singleton_append, decodeGroups, if_neg clear, if_pos final, number,
        Nat.mod_eq_of_lt small, Nat.shiftLeft_eq, Nat.pow_mul, List.length_singleton]
  | case2 value large ih =>
      rw [unsignedGroups, if_neg large]
      have number : (UInt8.ofNat (value % 128 + 128)).toNat = value % 128 + 128 := by
        rw [UInt8.toNat_ofNat']
        exact Nat.mod_eq_of_lt (by omega)
      have notLast : count ≠ 4 := fun last => large (Nat.lt_trans (lastGroup last) (by decide))
      have more : ¬UInt8.ofNat (value % 128 + 128) < 128 := by
        rw [UInt8.lt_iff_toNat_lt, number]
        change ¬value % 128 + 128 < 128
        omega
      obtain ⟨groups, rfl⟩ : ∃ fewer, groups = fewer + 1 := ⟨groups - 1, by omega⟩
      have parts : value * 128 ^ count =
          value % 128 * 128 ^ count + value / 128 * 128 ^ (count + 1) := by
        conv => lhs; rw [← Nat.mod_add_div value 128, Nat.add_mul]
        rw [Nat.pow_succ, Nat.mul_comm 128, Nat.mul_assoc, Nat.mul_comm 128 (128 ^ count)]
      have tail := ih groups (count + 1) (before + value % 128 * 128 ^ count) (by omega)
        (by omega) (by
          rintro last
          obtain rfl : count = 3 := by omega
          change value * 2097152 < 4294967296 at bound
          omega)
      have payload : (value % 128 + 128) % 128 = value % 128 := by omega
      simp only [List.cons_append, decodeGroups, notLast, false_and, if_false, if_neg more, number,
        payload, Nat.shiftLeft_eq, Nat.pow_mul, List.length_cons]
      rw [tail, parts]
      simp only [Nat.add_assoc, Nat.add_comm 1]

/-- An unsigned number is read back from its encoding, whatever stands behind it. -/
theorem decode_encode (value : UInt32) (rest : List UInt8) :
    decode (encode value ++ rest) maxGroups = .ok (value, (encode value).length) := by
  have decoded := decodeGroups_unsignedGroups 5 value.toNat rest 4 0 0 rfl
    (by simpa using value.toNat_lt)
  simpa [decode, encode, maxGroups] using decoded

/-- The groups of a number below a power of 128 are no more than its exponent. -/
theorem length_unsignedGroups_le (value count : Nat) (bound : value < 128 ^ (count + 1)) :
    (unsignedGroups value).length ≤ count + 1 := by
  induction count generalizing value with
  | zero =>
      rw [unsignedGroups, if_pos (by simpa using bound)]
      simp
  | succ count ih =>
      rw [unsignedGroups]
      split
      · simp
      · have fewer := ih (value / 128) (Nat.div_lt_of_lt_mul (by rwa [Nat.mul_comm, ← Nat.pow_succ]))
        simpa using fewer

theorem length_encode_le (value : UInt32) : (encode value).length ≤ maxGroups :=
  length_unsignedGroups_le value.toNat 4 (Nat.lt_trans value.toNat_lt (by decide))

theorem encode_ne_nil (value : UInt32) : encode value ≠ [] := by
  rw [encode, unsignedGroups]
  split <;> simp

theorem length_encode_pos (value : UInt32) : 0 < (encode value).length :=
  List.length_pos_iff.2 (encode_ne_nil value)

/-- Low bits that agree with a number in reach extend to this number. -/
theorem signed_eq {bits payload : Nat} {value : Int} (turns : Int)
    (agree : payload = value + (1 <<< min bits 32 : Nat) * turns)
    (least : -(1 <<< min bits 32 : Nat) ≤ 2 * value) (greatest : 2 * value < (1 <<< min bits 32 : Nat)) :
    signed bits payload = Int32.ofInt value := by
  rw [signed, agree]
  congr 1
  rw [Int.add_mul_bmod_self_left]
  exact Int.bmod_eq_of_le_mul_two (by omega) (by omega)

/-- A signed number within the reach of the remaining groups is read back from its groups. -/
theorem decodeSignedGroups_signedGroups (value : Int) (rest : List UInt8)
    (groups count before : Nat) (all : groups + 1 + count = 5)
    (least : -0x80000000 ≤ value * 128 ^ count) (greatest : value * 128 ^ count < 0x80000000)
    (room : before < 128 ^ count) :
    decodeSignedGroups (groups + 1) count before (signedGroups value ++ rest) =
      .ok (Int32.ofInt (before + value * 128 ^ count), count + (signedGroups value).length) := by
  induction value using signedGroups.induct generalizing groups count before with
  | case1 value small =>
      rw [signedGroups, if_pos small]
      have number : (UInt8.ofNat (value % 128).toNat).toNat = (value % 128).toNat := by
        rw [UInt8.toNat_ofNat']
        exact Nat.mod_eq_of_lt (by omega)
      have final : UInt8.ofNat (value % 128).toNat < 128 := by
        rw [UInt8.lt_iff_toNat_lt, number]
        change (value % 128).toNat < 128
        omega
      have payload : (value % 128).toNat % 128 = (value % 128).toNat := by omega
      simp only [List.singleton_append, decodeSignedGroups, if_pos final, number, payload,
        Nat.shiftLeft_eq, Nat.pow_mul, List.length_singleton]
      have few : count = 0 ∨ count = 1 ∨ count = 2 ∨ count = 3 ∨ count = 4 := by omega
      congr 2
      rcases few with rfl | rfl | rfl | rfl | rfl <;> simp at least greatest room
      case inr.inr.inr.inr =>
        exact signed_eq (-8 * (value / 128)) (by simp; omega) (by simp; omega) (by simp; omega)
      all_goals
        exact signed_eq (-(value / 128)) (by simp; omega) (by simp; omega) (by simp; omega)
  | case2 value large ih =>
      rw [signedGroups, if_neg large]
      have number : (UInt8.ofNat ((value % 128).toNat + 128)).toNat = (value % 128).toNat + 128 := by
        rw [UInt8.toNat_ofNat']
        exact Nat.mod_eq_of_lt (by omega)
      have more : ¬UInt8.ofNat ((value % 128).toNat + 128) < 128 := by
        rw [UInt8.lt_iff_toNat_lt, number]
        change ¬(value % 128).toNat + 128 < 128
        omega
      have few : count = 0 ∨ count = 1 ∨ count = 2 ∨ count = 3 := by
        have : count ≠ 4 := by
          rintro rfl
          simp only [Int.reducePow] at least greatest
          omega
        omega
      obtain ⟨groups, rfl⟩ : ∃ fewer, groups = fewer + 1 := ⟨groups - 1, by omega⟩
      have tail := ih groups (count + 1) (before + (value % 128).toNat * 128 ^ count) (by omega)
        (by rcases few with rfl | rfl | rfl | rfl <;> simp at least ⊢ <;> omega)
        (by rcases few with rfl | rfl | rfl | rfl <;> simp at greatest ⊢ <;> omega)
        (by rcases few with rfl | rfl | rfl | rfl <;> simp at room ⊢ <;> omega)
      have payload : ((value % 128).toNat + 128) % 128 = (value % 128).toNat := by omega
      have parts : ((before + (value % 128).toNat * 128 ^ count : Nat) : Int) +
          value / 128 * 128 ^ (count + 1) = before + value * 128 ^ count := by
        rcases few with rfl | rfl | rfl | rfl <;> simp <;> omega
      simp only [List.cons_append, decodeSignedGroups, if_neg more, number, payload,
        Nat.shiftLeft_eq, Nat.pow_mul, List.length_cons]
      rw [tail, parts]
      simp only [Nat.add_assoc, Nat.add_comm 1]

/-- A signed number is read back from its encoding, whatever stands behind it. -/
theorem decodeSigned_encodeSigned (value : Int32) (rest : List UInt8) :
    decodeSigned (encodeSigned value ++ rest) = .ok (value, (encodeSigned value).length) := by
  have least := value.le_toInt
  have greatest := value.toInt_lt
  have decoded := decodeSignedGroups_signedGroups value.toInt rest 4 0 0 rfl (by omega) (by omega)
    (by decide)
  simpa [decodeSigned, encodeSigned, maxGroups] using decoded

theorem length_signedGroups_le (value : Int) (count : Nat) (least : -64 * 128 ^ count ≤ value)
    (greatest : value < 64 * 128 ^ count) : (signedGroups value).length ≤ count + 1 := by
  induction count generalizing value with
  | zero =>
      rw [signedGroups, if_pos (by omega)]
      simp
  | succ count ih =>
      rw [signedGroups]
      split
      · simp
      · have power : (128 : Int) ^ (count + 1) = 128 * 128 ^ count := by
          rw [Int.pow_succ, Int.mul_comm]
        rw [power] at least greatest
        have fewer := ih (value / 128) (by omega) (by omega)
        simpa using fewer

theorem length_encodeSigned_le (value : Int32) : (encodeSigned value).length ≤ maxGroups := by
  have least := value.le_toInt
  have greatest := value.toInt_lt
  exact length_signedGroups_le value.toInt 4 (by simp; omega) (by simp; omega)

theorem encodeSigned_ne_nil (value : Int32) : encodeSigned value ≠ [] := by
  rw [encodeSigned, signedGroups]
  split <;> simp

/-- A number is decoded from the bytes that it takes, whatever stands behind them. -/
theorem decodeGroups_eq_ok {limit groups count before taken : Nat} {value : UInt32} {encoded : List UInt8}
    (decodes : decodeGroups limit groups count before encoded = .ok (value, taken)) :
    ∃ bytes, bytes <+: encoded ∧ taken = count + bytes.length ∧ bytes ≠ [] ∧ bytes.length ≤ groups ∧
      ∀ rest, decodeGroups limit groups count before (bytes ++ rest) = .ok (value, taken) := by
  induction groups generalizing count before encoded with
  | zero => exact absurd decodes Except.fail_ne_ok
  | succ groups ih =>
      cases encoded with
      | nil => exact absurd decodes Except.fail_ne_ok
      | cons byte more =>
          rw [decodeGroups] at decodes
          split at decodes
          · exact absurd decodes Except.fail_ne_ok
          rename_i fits
          by_cases last : byte < 128
          · simp only [if_pos last, Except.ok.injEq, Prod.mk.injEq] at decodes
            obtain ⟨rfl, rfl⟩ := decodes
            refine ⟨[byte], ⟨more, rfl⟩, rfl, List.cons_ne_nil _ _, Nat.le_add_left .., fun rest => ?_⟩
            rw [List.singleton_append, decodeGroups, if_neg fits]
            simp only [if_pos last]
          · simp only [if_neg last] at decodes
            obtain ⟨bytes, ⟨tail, whole⟩, rfl, some, few, again⟩ := ih decodes
            refine ⟨byte :: bytes, ⟨tail, by rw [List.cons_append, whole]⟩, ?_, List.cons_ne_nil _ _,
              Nat.succ_le_succ few, fun rest => ?_⟩
            · rw [List.length_cons]
              omega
            · rw [List.cons_append, decodeGroups, if_neg fits]
              simp only [if_neg last]
              exact again rest

/-- A signed number is decoded from the bytes that it takes, whatever stands behind them. -/
theorem decodeSignedGroups_eq_ok {groups count before taken : Nat} {value : Int32} {encoded : List UInt8}
    (decodes : decodeSignedGroups groups count before encoded = .ok (value, taken)) :
    ∃ bytes, bytes <+: encoded ∧ taken = count + bytes.length ∧ bytes ≠ [] ∧ bytes.length ≤ groups ∧
      ∀ rest, decodeSignedGroups groups count before (bytes ++ rest) = .ok (value, taken) := by
  induction groups generalizing count before encoded with
  | zero => exact absurd decodes Except.fail_ne_ok
  | succ groups ih =>
      cases encoded with
      | nil => exact absurd decodes Except.fail_ne_ok
      | cons byte more =>
          rw [decodeSignedGroups] at decodes
          by_cases last : byte < 128
          · simp only [if_pos last, Except.ok.injEq, Prod.mk.injEq] at decodes
            obtain ⟨rfl, rfl⟩ := decodes
            refine ⟨[byte], ⟨more, rfl⟩, rfl, List.cons_ne_nil _ _, Nat.le_add_left .., fun rest => ?_⟩
            rw [List.singleton_append, decodeSignedGroups]
            simp only [if_pos last]
          · simp only [if_neg last] at decodes
            obtain ⟨bytes, ⟨tail, whole⟩, rfl, some, few, again⟩ := ih decodes
            refine ⟨byte :: bytes, ⟨tail, by rw [List.cons_append, whole]⟩, ?_, List.cons_ne_nil _ _,
              Nat.succ_le_succ few, fun rest => ?_⟩
            · rw [List.length_cons]
              omega
            · rw [List.cons_append, decodeSignedGroups]
              simp only [if_neg last]
              exact again rest

theorem length_encode_le_of_decodeGroups {limit groups count before taken : Nat} {value : UInt32}
    {encoded : List UInt8} (below : before < 128 ^ count)
    (decodes : decodeGroups limit groups count before encoded = .ok (value, taken)) :
    (encode value).length ≤ taken := by
  induction groups generalizing count before encoded with
  | zero => exact absurd decodes Except.fail_ne_ok
  | succ groups ih =>
      cases encoded with
      | nil => exact absurd decodes Except.fail_ne_ok
      | cons byte rest =>
          rw [decodeGroups] at decodes
          split at decodes
          · exact absurd decodes Except.fail_ne_ok
          · have payload : byte.toNat % 128 < 128 := Nat.mod_lt _ (by decide)
            have shift : (byte.toNat % 128) <<< (7 * count) = byte.toNat % 128 * 128 ^ count := by
              rw [Nat.shiftLeft_eq, Nat.pow_mul]
            have power : 128 ^ (count + 1) = 128 * 128 ^ count := by
              rw [Nat.pow_succ, Nat.mul_comm]
            have groupBelow : before + (byte.toNat % 128) <<< (7 * count) < 128 ^ (count + 1) := by
              rw [shift, power]
              have most : byte.toNat % 128 * 128 ^ count ≤ 127 * 128 ^ count :=
                Nat.mul_le_mul_right _ (by omega)
              omega
            simp only at decodes
            split at decodes
            · rw [Except.ok.injEq, Prod.mk.injEq] at decodes
              obtain ⟨rfl, rfl⟩ := decodes
              apply length_unsignedGroups_le
              rw [UInt32.toNat_ofNat']
              exact Nat.lt_of_le_of_lt (Nat.mod_le _ _) groupBelow
            · exact ih groupBelow decodes

/-- The number that the low bits of some groups stand for needs no more groups. -/
theorem length_encodeSigned_signed (count value : Nat) :
    (encodeSigned (signed (7 * (count + 1)) value)).length ≤ count + 1 := by
  by_cases many : 4 ≤ count
  · have few := length_encodeSigned_le (signed (7 * (count + 1)) value)
    unfold maxGroups at few
    omega
  · have bits : (1 <<< min (7 * (count + 1)) 32 : Nat) = 128 * 128 ^ count := by
      rw [Nat.min_eq_left (by omega), Nat.one_shiftLeft, Nat.pow_mul, Nat.pow_succ, Nat.mul_comm]
    have power : 128 ^ count ≤ 2097152 :=
      Nat.pow_le_pow_right (by decide) (show count ≤ 3 by omega)
    have positive : 0 < 128 ^ count := Nat.pow_pos (by decide)
    have least : -(((128 * 128 ^ count : Nat) : Int) / 2) ≤ (value : Int).bmod (128 * 128 ^ count) :=
      Int.le_bmod (by omega)
    have greatest : (value : Int).bmod (128 * 128 ^ count) <
        (((128 * 128 ^ count : Nat) : Int) + 1) / 2 := Int.bmod_lt (by omega)
    have cast : ((128 ^ count : Nat) : Int) = 128 ^ count := by simp
    have number : (signed (7 * (count + 1)) value).toInt =
        (value : Int).bmod (128 * 128 ^ count) := by
      rw [signed, bits]
      exact Int32.toInt_ofInt_of_le (by omega) (by omega)
    rw [encodeSigned, number]
    exact length_signedGroups_le _ _ (by rw [← cast]; omega) (by rw [← cast]; omega)

theorem length_encodeSigned_le_of_decodeSignedGroups {groups count before taken : Nat}
    {value : Int32} {encoded : List UInt8}
    (decodes : decodeSignedGroups groups count before encoded = .ok (value, taken)) :
    (encodeSigned value).length ≤ taken := by
  induction groups generalizing count before encoded with
  | zero => exact absurd decodes Except.fail_ne_ok
  | succ groups ih =>
      cases encoded with
      | nil => exact absurd decodes Except.fail_ne_ok
      | cons byte rest =>
          rw [decodeSignedGroups] at decodes
          split at decodes
          · rw [Except.ok.injEq, Prod.mk.injEq] at decodes
            obtain ⟨rfl, rfl⟩ := decodes
            exact length_encodeSigned_signed _ _
          · exact ih decodes

end DexArsc.Leb

namespace DexArsc.Reader

/-- The bytes before the cursor's limit start with bytes that stand at its position. -/
theorem window_eq_append {data : Bytes} {position count : Nat} {bytes : List UInt8}
    (stands : data.Stands position bytes) (some : bytes ≠ []) (few : bytes.length ≤ count) :
    ∃ rest, Cursor.window { data, position } count = bytes ++ rest := by
  have bound := stands.length_le some
  obtain ⟨rest, whole⟩ := stands
  refine ⟨rest.take (min data.size (position + count) - position - bytes.length), ?_⟩
  simp only [Cursor.window, Cursor.limit, List.head?_nil, Option.getD_none, Array.toList_extract,
    List.extract, ← whole, List.take_append]
  rw [List.take_of_length_le (by omega)]

/-- A decoder that reads a number from the start of its input reads the number from a cursor. -/
theorem reads_decoded {α : Type} {decode : List UInt8 → Except Fault (α × Nat)}
    {bytes : List UInt8} {value : α} (some : bytes ≠ []) (few : bytes.length ≤ Leb.maxGroups)
    (decodes : ∀ rest, decode (bytes ++ rest) = .ok (value, bytes.length)) :
    Reads (decoded decode) bytes value := by
  intro data position stands
  obtain ⟨rest, window⟩ := window_eq_append stands some few
  rw [decoded, Step.bind_ok (Step.get_apply _), window, decodes rest]
  rfl

/-- Reading yields an unsigned base-128 number. -/
theorem reads_leb (value : UInt32) : Reads Reader.leb (Leb.encode value) value :=
  reads_decoded (Leb.encode_ne_nil value) (Leb.length_encode_le value) (Leb.decode_encode value)

/-- Reading yields a signed base-128 number. -/
theorem reads_signedLeb (value : Int32) :
    Reads Reader.signedLeb (Leb.encodeSigned value) value :=
  reads_decoded (Leb.encodeSigned_ne_nil value) (Leb.length_encodeSigned_le value)
    (Leb.decodeSigned_encodeSigned value)

variable {α : Type}

/-- A reader that passes at least as many bytes as its result is worth. -/
def Passes (reader : Reader α) (worth : α → Nat) : Prop :=
  ∀ {start stop : Cursor} {value : α}, reader start = .ok value stop →
    start.position + worth value ≤ stop.position

theorem passes_decoded {decode : List UInt8 → Except Fault (α × Nat)} {worth : α → Nat}
    (decodes : ∀ {encoded : List UInt8} {value : α} {taken : Nat},
      decode encoded = .ok (value, taken) → worth value ≤ taken) :
    Passes (decoded decode) worth := by
  intro start stop value run
  rw [decoded, Step.bind_ok (Step.get_apply start)] at run
  obtain ⟨⟨found, taken⟩, between, lift, rest⟩ := Step.bind_eq_ok.1 run
  obtain ⟨result, rfl⟩ := Step.monadLift_eq_ok.1 lift
  cases rest
  exact Nat.add_le_add_left (decodes result) _

theorem passes_leb : Passes leb fun value => (Leb.encode value).length :=
  passes_decoded fun decodes => Leb.length_encode_le_of_decodeGroups (by decide) decodes

theorem passes_signedLeb : Passes signedLeb fun value => (Leb.encodeSigned value).length :=
  passes_decoded fun decodes => Leb.length_encodeSigned_le_of_decodeSignedGroups decodes

theorem replicateOnto_eq_ok {reader : Reader α} {count : Nat} {done values : List α}
    {start stop : Cursor} (run : reader.replicateOnto count done start = .ok values stop) :
    ∃ read, values = done.reverse ++ read ∧ read.length = count ∧
      (∀ value ∈ read, ∃ start stop, reader start = .ok value stop) ∧
      ∀ worth : α → Nat, Passes reader worth →
        start.position + (read.map worth).sum ≤ stop.position := by
  induction count generalizing done start with
  | zero =>
      cases run
      exact ⟨[], by simp, rfl, by simp, by simp⟩
  | succ count ih =>
      obtain ⟨value, between, first, rest⟩ := Step.bind_eq_ok.1 run
      obtain ⟨read, rfl, length, each, behind⟩ := ih rest
      refine ⟨value :: read, by simp, by simp [length], ?_, fun worth passes => ?_⟩
      · intro other inside
        rcases List.mem_cons.1 inside with rfl | inside
        · exact ⟨start, between, first⟩
        · exact each other inside
      · have passed := passes first
        have later := behind worth passes
        rw [List.map_cons, List.sum_cons]
        omega

/-- Values that are read one after another take the bytes that all of them are worth. -/
theorem replicate_eq_ok {reader : Reader α} {count : Nat} {values : List α} {start stop : Cursor}
    (run : reader.replicate count start = .ok values stop) : values.length = count ∧
      (∀ value ∈ values, ∃ start stop, reader start = .ok value stop) ∧
      ∀ worth : α → Nat, Passes reader worth →
        start.position + (values.map worth).sum ≤ stop.position := by
  obtain ⟨read, same, length, each, behind⟩ := replicateOnto_eq_ok run
  rw [List.reverse_nil, List.nil_append] at same
  subst same
  exact ⟨length, each, behind⟩

end DexArsc.Reader
