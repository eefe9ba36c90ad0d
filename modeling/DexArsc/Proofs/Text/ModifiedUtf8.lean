/-
Texts are read back from their modified UTF-8, in which no byte is zero. A text never takes more bytes
in plain UTF-8 than the bytes that it was read of.
-/

import DexArsc.Proofs.Text.Utf16
import DexArsc.Text.Encoding
import Mathlib.Algebra.Ring.Nat

namespace DexArsc.Text

/-- A character's number is not a surrogate and below the last plane's end. -/
theorem char_range (c : Char) : c.toNat < 0xD800 ∨ 0xDFFF < c.toNat ∧ c.toNat < 0x110000 := c.valid

theorem toNat_ofNat_of_lt_byte {value : Nat} (fits : value < 0x100) :
    (UInt8.ofNat value).toNat = value := by
  rw [UInt8.toNat_ofNat']
  exact Nat.mod_eq_of_lt fits

/-- The bytes of a list that continue a character give their low bits. -/
theorem continueChar_cons {more bits payload : Nat} {low high : UInt8} (rest : List UInt8)
    (small : payload < 0x40) (least : low.toNat ≤ 0x80 + payload)
    (greatest : 0x80 + payload ≤ high.toNat) :
    continueChar (more + 1) low high bits (UInt8.ofNat (payload + 0x80) :: rest) =
      continueChar more 0x80 0xBF (bits * 64 + payload) rest := by
  have number := @toNat_ofNat_of_lt_byte (payload + 0x80) (by omega)
  have inside : low ≤ UInt8.ofNat (payload + 0x80) ∧ UInt8.ofNat (payload + 0x80) ≤ high := by
    rw [UInt8.le_iff_toNat_le, UInt8.le_iff_toNat_le, number]
    omega
  rw [continueChar, if_pos inside, number]
  congr 2
  omega

/-- The demands of a first byte by its number. -/
theorem leadByte?_ofNat {value : Nat} (fits : value < 0x100) :
    leadByte? (UInt8.ofNat value) =
      if 0xC2 ≤ value ∧ value ≤ 0xDF then some { more := 1, bits := value % 0x20 }
      else if value = 0xE0 then some { more := 2, low := 0xA0, bits := value % 0x10 }
      else if value = 0xED then some { more := 2, high := 0x9F, bits := value % 0x10 }
      else if 0xE1 ≤ value ∧ value ≤ 0xEF then some { more := 2, bits := value % 0x10 }
      else if value = 0xF0 then some { more := 3, low := 0x90, bits := value % 8 }
      else if 0xF1 ≤ value ∧ value ≤ 0xF3 then some { more := 3, bits := value % 8 }
      else if value = 0xF4 then some { more := 3, high := 0x8F, bits := value % 8 }
      else none := by
  have number := toNat_ofNat_of_lt_byte fits
  simp only [leadByte?, UInt8.le_iff_toNat_le, ← UInt8.toNat_inj, number]
  rfl

/-- A first byte that is not ASCII is followed by what it demands. -/
theorem nextPiece_of_leadByte {byte : UInt8} {lead : LeadByte} (demands : leadByte? byte = some lead)
    (rest : List UInt8) :
    nextPiece byte rest = continueChar lead.more lead.low lead.high lead.bits rest := by
  have high : ¬byte < 0x80 := by
    intro small
    rw [UInt8.lt_iff_toNat_lt] at small
    have none := leadByte?_ofNat byte.toNat_lt
    rw [UInt8.ofNat_toNat, demands] at none
    simp at none small
    repeat rw [if_neg (by omega)] at none
    cases none
  rw [nextPiece, if_neg high, demands]

/-- A character of two bytes. -/
theorem nextPiece_two {byte : UInt8} {bits : Nat} (demands : leadByte? byte = some { more := 1, bits })
    (last : Nat) (rest : List UInt8) :
    nextPiece byte (UInt8.ofNat (last % 0x40 + 0x80) :: rest) =
      (some (Char.ofNat (bits * 64 + last % 0x40)), rest) := by
  rw [nextPiece_of_leadByte demands, continueChar_cons rest (by omega) (by simp) (by simp; omega)]
  rfl

/-- A character of three bytes. -/
theorem nextPiece_three {byte low high : UInt8} {bits : Nat}
    (demands : leadByte? byte = some { more := 2, low, high, bits }) (middle last : Nat)
    (least : low.toNat ≤ 0x80 + middle % 0x40) (greatest : 0x80 + middle % 0x40 ≤ high.toNat)
    (rest : List UInt8) :
    nextPiece byte (UInt8.ofNat (middle % 0x40 + 0x80) :: UInt8.ofNat (last % 0x40 + 0x80) :: rest) =
      (some (Char.ofNat ((bits * 64 + middle % 0x40) * 64 + last % 0x40)), rest) := by
  rw [nextPiece_of_leadByte demands, continueChar_cons _ (by omega) least greatest,
    continueChar_cons rest (by omega) (by simp) (by simp; omega)]
  rfl

/-- A character of four bytes. -/
theorem nextPiece_four {byte low high : UInt8} {bits : Nat}
    (demands : leadByte? byte = some { more := 3, low, high, bits }) (second third last : Nat)
    (least : low.toNat ≤ 0x80 + second % 0x40) (greatest : 0x80 + second % 0x40 ≤ high.toNat)
    (rest : List UInt8) :
    nextPiece byte (UInt8.ofNat (second % 0x40 + 0x80) :: UInt8.ofNat (third % 0x40 + 0x80) ::
      UInt8.ofNat (last % 0x40 + 0x80) :: rest) =
      (some (Char.ofNat (((bits * 64 + second % 0x40) * 64 + third % 0x40) * 64 + last % 0x40)),
        rest) := by
  rw [nextPiece_of_leadByte demands, continueChar_cons _ (by omega) least greatest,
    continueChar_cons _ (by omega) (by simp) (by simp; omega),
    continueChar_cons rest (by omega) (by simp) (by simp; omega)]
  rfl

/-- A character is the first piece of its UTF-8 form, whatever stands behind it. -/
theorem nextPiece_utf8EncodeChar (c : Char) : ∃ byte more, String.utf8EncodeChar c = byte :: more ∧
    (byte = 0 ↔ c.toNat = 0) ∧ byte ≠ 0xC0 ∧
    ∀ rest, nextPiece byte (more ++ rest) = (some c, rest) := by
  have range := char_range c
  have value : c.val.toNat = c.toNat := rfl
  have image : Char.ofNat c.toNat = c := Char.ofNat_toNat c
  unfold String.utf8EncodeChar
  simp only [value]
  generalize c.toNat = number at range image
  have longer (lead : Nat) (above : 0xC1 < lead) (below : lead < 0x100) (large : 0x7F < number) :
      (UInt8.ofNat lead = 0 ↔ number = 0) ∧ UInt8.ofNat lead ≠ 0xC0 := by
    rw [Ne, ← UInt8.toNat_inj, ← UInt8.toNat_inj, toNat_ofNat_of_lt_byte below]
    change (lead = 0 ↔ number = 0) ∧ ¬lead = 0xC0
    omega
  by_cases one : number ≤ 0x7F
  · rw [if_pos one]
    have byte := @toNat_ofNat_of_lt_byte number (by omega)
    refine ⟨_, _, rfl, ?_, ?_, fun rest => ?_⟩
    · rw [← UInt8.toNat_inj, byte]
      rfl
    · rw [Ne, ← UInt8.toNat_inj, byte]
      change ¬number = 0xC0
      omega
    · rw [nextPiece, if_pos (by rw [UInt8.lt_iff_toNat_lt, byte]; exact Nat.lt_succ_of_le one), byte,
        image]
      rfl
  rw [if_neg one]
  by_cases two : number ≤ 0x7FF
  · rw [if_pos two]
    obtain ⟨zero, other⟩ := longer (number / 64 % 0x20 + 0xC0) (by omega) (by omega) (by omega)
    refine ⟨_, _, rfl, zero, other, fun rest => ?_⟩
    have demands := @leadByte?_ofNat (number / 64 % 0x20 + 0xC0) (by omega)
    rw [if_pos (by omega)] at demands
    rw [List.cons_append, List.nil_append, nextPiece_two demands]
    have whole : (number / 64 % 0x20 + 0xC0) % 0x20 * 64 + number % 0x40 = number := by omega
    rw [whole, image]
  rw [if_neg two]
  by_cases three : number ≤ 0xFFFF
  · rw [if_pos three]
    obtain ⟨zero, other⟩ := longer (number / 4096 % 0x10 + 0xE0) (by omega) (by omega) (by omega)
    refine ⟨_, _, rfl, zero, other, fun rest => ?_⟩
    have whole : ((number / 4096 % 0x10 + 0xE0) % 0x10 * 64 + number / 64 % 0x40) * 64 +
        number % 0x40 = number := by omega
    have demands := @leadByte?_ofNat (number / 4096 % 0x10 + 0xE0) (by omega)
    rw [if_neg (by omega)] at demands
    by_cases least : number / 4096 % 0x10 + 0xE0 = 0xE0
    · rw [if_pos least] at demands
      rw [List.cons_append, List.cons_append, List.nil_append,
        nextPiece_three demands _ _ (by simp; omega) (by simp; omega), whole, image]
    rw [if_neg least] at demands
    by_cases surrogates : number / 4096 % 0x10 + 0xE0 = 0xED
    · rw [if_pos surrogates] at demands
      rw [List.cons_append, List.cons_append, List.nil_append,
        nextPiece_three demands _ _ (by simp) (by simp; omega), whole, image]
    · rw [if_neg surrogates, if_pos (by omega)] at demands
      rw [List.cons_append, List.cons_append, List.nil_append,
        nextPiece_three demands _ _ (by simp) (by simp; omega), whole, image]
  rw [if_neg three]
  obtain ⟨zero, other⟩ := longer (number / 262144 % 0x08 + 0xF0) (by omega) (by omega) (by omega)
  refine ⟨_, _, rfl, zero, other, fun rest => ?_⟩
  have whole : (((number / 262144 % 0x08 + 0xF0) % 8 * 64 + number / 4096 % 0x40) * 64 +
      number / 64 % 0x40) * 64 + number % 0x40 = number := by omega
  have demands := @leadByte?_ofNat (number / 262144 % 0x08 + 0xF0) (by omega)
  rw [if_neg (by omega), if_neg (by omega), if_neg (by omega), if_neg (by omega)] at demands
  rw [List.cons_append, List.cons_append, List.cons_append, List.nil_append]
  by_cases least : number / 262144 % 0x08 + 0xF0 = 0xF0
  · rw [if_pos least] at demands
    rw [nextPiece_four demands _ _ _ (by simp; omega) (by simp; omega), whole, image]
  rw [if_neg least] at demands
  by_cases inner : number / 262144 % 0x08 + 0xF0 ≤ 0xF3
  · rw [if_pos (by omega)] at demands
    rw [nextPiece_four demands _ _ _ (by simp) (by simp; omega), whole, image]
  · rw [if_neg (by omega), if_pos (by omega)] at demands
    rw [nextPiece_four demands _ _ _ (by simp) (by simp; omega), whole, image]

/-- The number of a surrogate is read back from its three bytes. -/
theorem surrogateUnit_threeBytes (unit : Nat) (least : 0xD800 ≤ unit) (greatest : unit ≤ 0xDFFF) :
    ∃ second third, threeBytes (UInt16.ofNat unit) = [0xED, second, third] ∧ 0xA0 ≤ second.toNat ∧
      isContinuation second ∧ isContinuation third ∧
      surrogateUnit second third = UInt16.ofNat unit := by
  have continues (payload : Nat) : isContinuation (UInt8.ofNat (0x80 + payload % 0x40)) = true := by
    have all : ∀ payload < 0x40, isContinuation (UInt8.ofNat (0x80 + payload)) = true := by decide
    exact all _ (Nat.mod_lt _ (by decide))
  have number : (UInt16.ofNat unit).toNat = unit := by
    rw [UInt16.toNat_ofNat']
    omega
  refine ⟨UInt8.ofNat (0x80 + unit / 0x40 % 0x40), UInt8.ofNat (0x80 + unit % 0x40), ?_, ?_,
    continues _, continues _, ?_⟩
  · rw [threeBytes, number, show 0xE0 + unit / 0x1000 = 0xED by omega]
    rfl
  · rw [toNat_ofNat_of_lt_byte (by omega)]
    omega
  · rw [surrogateUnit, toNat_ofNat_of_lt_byte (by omega), toNat_ofNat_of_lt_byte (by omega)]
    congr 1
    omega

/-- A character beyond the first plane is read back from its surrogates, which are no UTF-8. -/
theorem supplementary_char (c : Char) (far : 0x10000 ≤ c.toNat) :
    ∃ more, modifiedChar c = 0xED :: more ∧ (∀ rest, (nextPiece 0xED (more ++ rest)).1 = none) ∧
      ∀ rest, surrogatePair? (0xED :: (more ++ rest)) = some (c, rest) := by
  have range := char_range c
  obtain ⟨second, third, highBytes, invalid, secondMore, thirdMore, high⟩ := surrogateUnit_threeBytes
    (0xD800 + (c.toNat - 0x10000) / 0x400) (by omega) (by omega)
  obtain ⟨fifth, sixth, lowBytes, _, fifthMore, sixthMore, low⟩ := surrogateUnit_threeBytes
    (0xDC00 + (c.toNat - 0x10000) % 0x400) (by omega) (by omega)
  refine ⟨[second, third, 0xED, fifth, sixth], ?_, fun rest => ?_, fun rest => ?_⟩
  · have notNull : c ≠ '\u0000' := by
      rintro rfl
      exact absurd far (by decide)
    have beyond : ¬c.toNat < 0x10000 := by omega
    simp only [modifiedChar, if_neg notNull, charUnits, if_neg beyond, List.flatMap_cons,
      List.flatMap_nil, highBytes, lowBytes, List.cons_append, List.nil_append]
  · have demands : leadByte? 0xED = some { more := 2, high := 0x9F, bits := 0xD } := rfl
    rw [nextPiece_of_leadByte demands]
    have outside : ¬(0x80 ≤ second ∧ second ≤ 0x9F) := by
      rw [UInt8.le_iff_toNat_le, UInt8.le_iff_toNat_le]
      change ¬(_ ∧ _ ≤ 0x9F)
      omega
    simp only [List.cons_append, continueChar, if_neg outside]
  · have highNumber : (UInt16.ofNat (0xD800 + (c.toNat - 0x10000) / 0x400)).toNat =
        0xD800 + (c.toNat - 0x10000) / 0x400 := by
      rw [UInt16.toNat_ofNat']
      omega
    have lowNumber : (UInt16.ofNat (0xDC00 + (c.toNat - 0x10000) % 0x400)).toNat =
        0xDC00 + (c.toNat - 0x10000) % 0x400 := by
      rw [UInt16.toNat_ofNat']
      omega
    have isHigh : isHighSurrogate (surrogateUnit second third) = true := by
      simp only [high, isHighSurrogate, UInt16.le_iff_toNat_le, Bool.and_eq_true,
        decide_eq_true_eq, highNumber]
      change 0xD800 ≤ _ ∧ _ ≤ 0xDBFF
      omega
    have isLow : isLowSurrogate (surrogateUnit fifth sixth) = true := by
      simp only [low, isLowSurrogate, UInt16.le_iff_toNat_le, Bool.and_eq_true,
        decide_eq_true_eq, lowNumber]
      change 0xDC00 ≤ _ ∧ _ ≤ 0xDFFF
      omega
    have char : ofSurrogates (surrogateUnit second third) (surrogateUnit fifth sixth) = c := by
      rw [ofSurrogates, high, low, highNumber, lowNumber]
      rw [show 0x10000 + (0xD800 + (c.toNat - 0x10000) / 0x400 - 0xD800) * 0x400 +
        (0xDC00 + (c.toNat - 0x10000) % 0x400 - 0xDC00) = c.toNat by omega]
      exact Char.ofNat_toNat c
    simp only [List.cons_append, List.nil_append, surrogatePair?, List.all_cons, List.all_nil,
      secondMore, thirdMore, fifthMore, sixthMore, isHigh, isLow, char, Bool.and_self, if_true]

/-- A character is read back from its modified form, whatever stands behind it. Its first byte is
not zero, and plain UTF-8 yields the character or nothing. -/
theorem nextModified?_modifiedChar (c : Char) : ∃ byte more, modifiedChar c = byte :: more ∧
    byte ≠ 0 ∧ (∀ rest, nextModified? byte (more ++ rest) = some (c, rest)) ∧
    ∀ rest, nextPiece byte (more ++ rest) = (some c, rest) ∨
      (nextPiece byte (more ++ rest)).1 = none := by
  by_cases null : c = '\u0000'
  · subst null
    exact ⟨0xC0, [0x80], rfl, by decide, fun rest => rfl, fun rest => .inr rfl⟩
  by_cases near : c.toNat < 0x10000
  · obtain ⟨byte, more, form, zero, other, piece⟩ := nextPiece_utf8EncodeChar c
    have some : byte ≠ 0 := by
      intro same
      have number := zero.1 same
      apply null
      rw [← Char.ofNat_toNat c, number]
    refine ⟨byte, more, ?_, some, fun rest => ?_, fun rest => .inl (piece rest)⟩
    · rw [modifiedChar, if_neg null, if_pos near, form]
    · unfold nextModified?
      rw [if_neg some, if_neg other, piece rest]
      exact if_pos near
  · obtain ⟨more, form, invalid, pair⟩ := supplementary_char c (by omega)
    refine ⟨0xED, more, form, by decide, fun rest => ?_, fun rest => .inr (invalid rest)⟩
    have piece := invalid rest
    unfold nextModified?
    rw [if_neg (by decide), if_neg (by decide)]
    rcases next : nextPiece 0xED (more ++ rest) with ⟨none | other, behind⟩
    · exact pair rest
    · rw [next] at piece
      cases piece

/-- Characters are read back from their modified forms. -/
theorem ofModifiedOnto?_flatMap (chars done : List Char) (fuel : Nat) (enough : chars.length ≤ fuel) :
    ofModifiedOnto? fuel done (chars.flatMap modifiedChar) = some (done.reverse ++ chars) := by
  induction chars generalizing done fuel with
  | nil => rw [List.flatMap_nil, ofModifiedOnto?, List.append_nil]
  | cons c rest ih =>
      obtain ⟨byte, more, form, _, next, _⟩ := nextModified?_modifiedChar c
      rw [List.length_cons] at enough
      obtain ⟨fuel, rfl⟩ : ∃ less, fuel = less + 1 := ⟨fuel - 1, by omega⟩
      rw [List.flatMap_cons, form, List.cons_append, ofModifiedOnto?, next]
      simp only
      rw [ih (c :: done) fuel (by omega), List.reverse_cons, List.append_assoc]
      rfl

theorem length_le_flatMap_modifiedChar (chars : List Char) :
    chars.length ≤ (chars.flatMap modifiedChar).length := by
  induction chars with
  | nil => exact Nat.le_refl 0
  | cons c rest ih =>
      obtain ⟨byte, more, form, _⟩ := nextModified?_modifiedChar c
      rw [List.flatMap_cons, form, List.length_append, List.length_cons, List.length_cons]
      omega

/-- The pieces that are already done stand before the others. -/
theorem piecesOnto_append (done before : List (Option Char)) (bytes : List UInt8) :
    piecesOnto (done ++ before) bytes = before.reverse ++ piecesOnto done bytes := by
  induction done, bytes using piecesOnto.induct with
  | case1 done => simp [piecesOnto]
  | case2 done byte rest ih =>
      rw [piecesOnto, ← List.cons_append, ih]
      conv => rhs; rw [piecesOnto]

theorem pieces_cons (byte : UInt8) (rest : List UInt8) :
    pieces (byte :: rest) = (nextPiece byte rest).1 :: pieces (nextPiece byte rest).2 := by
  rw [pieces, piecesOnto]
  exact piecesOnto_append [] [(nextPiece byte rest).1] (nextPiece byte rest).2

/-- Where a modified form is plain UTF-8, both forms are of the same characters. -/
theorem pieces_flatMap_modifiedChar (chars read : List Char)
    (plain : (pieces (chars.flatMap modifiedChar)).mapM id = some read) : read = chars := by
  induction chars generalizing read with
  | nil =>
      rw [List.flatMap_nil, pieces, piecesOnto] at plain
      exact (Option.some.inj plain).symm
  | cons c rest ih =>
      obtain ⟨byte, more, form, _, _, piece⟩ := nextModified?_modifiedChar c
      rw [List.flatMap_cons, form, List.cons_append, pieces_cons, List.mapM_cons] at plain
      rcases piece (rest.flatMap modifiedChar) with found | missing
      · rw [found] at plain
        simp only [id_eq, Option.pure_def, Option.bind_eq_bind, Option.bind_some,
          Option.bind_eq_some_iff, Option.some.injEq] at plain
        obtain ⟨chars, tail, rfl⟩ := plain
        rw [ih chars tail]
      · rw [missing] at plain
        cases plain

/-- A text is read back from its modified form. -/
theorem ofModifiedUtf8?_toModifiedUtf8 (text : String) :
    ofModifiedUtf8? (toModifiedUtf8 text) = some text := by
  have modified : ofModified? (toModifiedUtf8 text) = some text.toList :=
    ofModifiedOnto?_flatMap text.toList [] _ (length_le_flatMap_modifiedChar _)
  unfold ofModifiedUtf8?
  rw [modified]
  cases plain : ofUtf8? (toModifiedUtf8 text) with
  | none => simp
  | some read =>
      rw [ofUtf8?, Option.map_eq_some_iff] at plain
      obtain ⟨chars, decoded, rfl⟩ := plain
      rw [toModifiedUtf8] at decoded
      rw [pieces_flatMap_modifiedChar _ _ decoded]
      simp

/-- The pieces of a UTF-8 form are its characters. -/
theorem pieces_flatMap_utf8EncodeChar (chars : List Char) :
    pieces (chars.flatMap String.utf8EncodeChar) = chars.map some := by
  induction chars with
  | nil =>
      rw [List.flatMap_nil, pieces, piecesOnto]
      rfl
  | cons c rest ih =>
      obtain ⟨byte, more, form, _, _, piece⟩ := nextPiece_utf8EncodeChar c
      rw [List.flatMap_cons, form, List.cons_append, pieces_cons, piece, ih, List.map_cons]

/-- A text is read back from its plain UTF-8 form. -/
theorem ofModifiedUtf8?_toUtf8 (text : String) : ofModifiedUtf8? (toUtf8 text) = some text := by
  rw [ofModifiedUtf8?, ofUtf8?, toUtf8, pieces_flatMap_utf8EncodeChar, mapM_id_eq_some.2 rfl,
    Option.map_some, Option.some_or,
    String.ofList_toList]

/-- A text has as many bytes as its UTF-8 form. -/
theorem length_toUtf8 (text : String) : (toUtf8 text).length = text.utf8ByteSize := by
  have whole := @String.toByteArray_ofList text.toList
  rw [String.ofList_toList] at whole
  rw [toUtf8, ← List.size_toByteArray, ← List.utf8Encode, ← whole]
  rfl

/-- A byte with a number from one to 255 is not zero. -/
theorem zero_ne_ofNat {value : Nat} (some : 0 < value) (fits : value < 0x100) :
    0 ≠ UInt8.ofNat value := by
  rw [Ne, ← UInt8.toNat_inj, toNat_ofNat_of_lt_byte fits]
  change ¬0 = value
  omega

theorem zero_notMem_threeBytes (unit : UInt16) : 0 ∉ threeBytes unit := by
  have bound := unit.toNat_lt
  simp only [threeBytes, List.mem_cons, List.not_mem_nil, or_false, not_or]
  exact ⟨zero_ne_ofNat (by omega) (by omega), zero_ne_ofNat (by omega) (by omega),
    zero_ne_ofNat (by omega) (by omega)⟩

/-- No byte of the modified form of a text is zero. -/
theorem zero_notMem_toModifiedUtf8 (text : String) : 0 ∉ toModifiedUtf8 text := by
  unfold toModifiedUtf8
  rw [List.mem_flatMap]
  rintro ⟨c, _, inside⟩
  unfold modifiedChar at inside
  by_cases null : c = '\u0000'
  · rw [if_pos null] at inside
    revert inside
    decide
  rw [if_neg null] at inside
  by_cases near : c.toNat < 0x10000
  · rw [if_pos near] at inside
    have some : c.toNat ≠ 0 := by
      intro same
      apply null
      rw [← Char.ofNat_toNat c, same]
    have value : c.val.toNat = c.toNat := rfl
    unfold String.utf8EncodeChar at inside
    simp only [value] at inside
    generalize c.toNat = number at inside near some
    split at inside
    · rw [List.mem_singleton] at inside
      exact zero_ne_ofNat (by omega) (by omega) inside
    split at inside
    · simp only [List.mem_cons, List.not_mem_nil, or_false] at inside
      rcases inside with first | second
      · exact zero_ne_ofNat (by omega) (by omega) first
      · exact zero_ne_ofNat (by omega) (by omega) second
    · rw [if_pos (by omega)] at inside
      simp only [List.mem_cons, List.not_mem_nil, or_false] at inside
      rcases inside with first | second | third
      · exact zero_ne_ofNat (by omega) (by omega) first
      · exact zero_ne_ofNat (by omega) (by omega) second
      · exact zero_ne_ofNat (by omega) (by omega) third
  · rw [if_neg near, List.mem_flatMap] at inside
    obtain ⟨unit, _, inside⟩ := inside
    exact zero_notMem_threeBytes unit inside

/-- The bytes of the character with a number. -/
theorem utf8Size_ofNat_le (value : Nat) : (Char.ofNat value).utf8Size ≤
    if value < 0x80 then 1 else if value < 0x800 then 2 else if value < 0x10000 then 3 else 4 := by
  have less : (Char.ofNat value).val.toNat ≤ value := by
    by_cases valid : value.isValidChar
    · exact Nat.le_of_eq (toNat_char valid)
    · rw [Char.ofNat, dif_neg valid]
      exact Nat.zero_le _
  unfold Char.utf8Size
  simp only [UInt32.le_iff_toNat_le]
  grind

/-- A character that is continued has six bits of every byte that it takes. -/
theorem continueChar_eq_some {more bits : Nat} {low high : UInt8} {bytes rest : List UInt8} {c : Char}
    (found : continueChar more low high bits bytes = (some c, rest)) :
    ∃ value, c = Char.ofNat value ∧ value < (bits + 1) * 64 ^ more ∧ rest.length + more = bytes.length := by
  fun_induction continueChar more low high bits bytes with
  | case1 low high bits bytes =>
      cases found
      exact ⟨bits, rfl, by omega, rfl⟩
  | case2 => cases found
  | case3 more low high bits byte behind inside ih =>
      obtain ⟨value, same, below, length⟩ := ih found
      refine ⟨value, same, Nat.lt_of_lt_of_le below ?_, by rw [List.length_cons]; omega⟩
      rw [Nat.pow_succ', ← Nat.mul_assoc]
      exact Nat.mul_le_mul_right _ (by omega)
  | case4 => cases found

/-- The bits that a first byte gives. -/
theorem leadByte?_eq_some {byte : UInt8} {lead : LeadByte} (demands : leadByte? byte = some lead) :
    lead.more = 1 ∧ lead.bits < 0x20 ∨ lead.more = 2 ∧ lead.bits < 0x10 ∨ lead.more = 3 := by
  have bits := leadByte?_ofNat byte.toNat_lt
  rw [UInt8.ofNat_toNat, demands] at bits
  grind

/-- A character takes no more bytes than the piece that it is read of. -/
theorem utf8Size_nextPiece {byte : UInt8} {rest behind : List UInt8} {c : Char}
    (found : nextPiece byte rest = (some c, behind)) : c.utf8Size + behind.length ≤ rest.length + 1 := by
  by_cases ascii : byte < 0x80
  · rw [nextPiece, if_pos ascii] at found
    cases found
    have size := utf8Size_ofNat_le byte.toNat
    rw [if_pos (show byte.toNat < 0x80 from UInt8.lt_iff_toNat_lt.1 ascii)] at size
    omega
  · rw [nextPiece, if_neg ascii] at found
    cases demands : leadByte? byte with
    | none =>
        rw [demands] at found
        cases found
    | some lead =>
        rw [demands] at found
        obtain ⟨value, rfl, below, length⟩ := continueChar_eq_some found
        have size := utf8Size_ofNat_le value
        rcases leadByte?_eq_some demands with ⟨more, bits⟩ | ⟨more, bits⟩ | more
        · rw [more] at below length
          grind
        · rw [more] at below length
          grind
        · have four := (Char.ofNat value).utf8Size_le_four
          omega

/-- Characters take no more bytes than the pieces that they are read of. -/
theorem length_of_pieces {bytes : List UInt8} {chars : List Char} (read : pieces bytes = chars.map some) :
    (chars.flatMap String.utf8EncodeChar).length ≤ bytes.length := by
  induction chars generalizing bytes with
  | nil => exact Nat.zero_le _
  | cons c chars ih =>
      cases bytes with
      | nil => simp [pieces, piecesOnto] at read
      | cons byte rest =>
          rw [pieces_cons, List.map_cons, List.cons.injEq] at read
          have first := @utf8Size_nextPiece byte rest (nextPiece byte rest).2 c (by rw [← read.1])
          have behind := ih read.2
          rw [List.flatMap_cons, List.length_append, String.length_utf8EncodeChar, List.length_cons]
          omega

/-- A character in modified form takes no more bytes in plain form. -/
theorem utf8Size_nextModified? {byte : UInt8} {rest behind : List UInt8} {c : Char}
    (found : nextModified? byte rest = some (c, behind)) : c.utf8Size + behind.length ≤ rest.length + 1 := by
  have four := c.utf8Size_le_four
  unfold nextModified? at found
  split at found
  · cases found
  split at found
  · split at found
    · cases found
      have one : '\u0000'.utf8Size = 1 := rfl
      rw [one, List.length_cons]
      omega
    · cases found
  split at found
  · rename_i other behind' piece
    split at found
    · cases found
      exact utf8Size_nextPiece piece
    · cases found
  · unfold surrogatePair? at found
    split at found
    · rename_i same
      obtain ⟨rfl, rfl⟩ := List.cons.inj same
      simp only at found
      split at found
      · obtain ⟨-, rfl⟩ := Prod.mk.inj (Option.some.inj found)
        simp only [List.length_cons]
        omega
      · cases found
    · cases found

theorem length_of_ofModifiedOnto? {fuel : Nat} {done chars : List Char} {bytes : List UInt8}
    (read : ofModifiedOnto? fuel done bytes = some chars) : (chars.flatMap String.utf8EncodeChar).length ≤
      (done.flatMap String.utf8EncodeChar).length + bytes.length := by
  fun_induction ofModifiedOnto? fuel done bytes with
  | case1 fuel done =>
      cases read
      simp [List.length_flatMap]
  | case2 => cases read
  | case3 done fuel byte rest c behind next ih =>
      have first := utf8Size_nextModified? next
      have whole := ih read
      rw [List.flatMap_cons, List.length_append, String.length_utf8EncodeChar] at whole
      rw [List.length_cons]
      omega
  | case4 => cases read

/-- A text takes no more bytes than what it is read of. -/
theorem utf8ByteSize_ofModifiedUtf8? {bytes : List UInt8} {text : String}
    (read : ofModifiedUtf8? bytes = some text) : text.utf8ByteSize ≤ bytes.length := by
  rw [← length_toUtf8, toUtf8]
  rcases Option.or_eq_some_iff.1 read with plain | ⟨-, modified⟩
  · obtain ⟨chars, all, rfl⟩ := Option.map_eq_some_iff.1 plain
    rw [String.toList_ofList]
    exact length_of_pieces (mapM_id_eq_some.1 all)
  · obtain ⟨chars, all, rfl⟩ := Option.map_eq_some_iff.1 modified
    rw [String.toList_ofList]
    simpa using length_of_ofModifiedOnto? all

/-- A text has no more code units than bytes. -/
theorem unitCount_le (text : String) : unitCount text ≤ text.utf8ByteSize := by
  have char (c : Char) : (charUnits c).length ≤ c.utf8Size := by
    unfold charUnits
    split
    · exact c.utf8Size_pos
    · rename_i far
      have large : 0x10000 ≤ c.val.toNat := Nat.le_of_not_lt far
      unfold Char.utf8Size
      simp only [UInt32.le_iff_toNat_le]
      grind
  have row (chars : List Char) : (chars.flatMap charUnits).length ≤ (chars.flatMap String.utf8EncodeChar).length := by
    induction chars with
    | nil => exact Nat.le_refl _
    | cons c chars ih =>
        rw [List.flatMap_cons, List.flatMap_cons, List.length_append, List.length_append, String.length_utf8EncodeChar]
        exact Nat.add_le_add (char c) ih
  rw [unitCount_eq, ← length_toUtf8]
  exact row text.toList

end DexArsc.Text
