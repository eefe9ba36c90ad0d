/-
The UTF-8, UTF-16 and modified UTF-8 forms of texts. UTF-8 bytes are read as pieces: characters and
malformed runs. A text is strictly decoded when every piece is a character, and a lossy text has the
replacement character for every malformed run. In modified UTF-8 every UTF-16 code unit is written on
its own, in at most three bytes, and the null character takes two bytes, so no byte of a written text
is zero. A reader also accepts plain UTF-8, zero bytes included, when the whole text is in that form.
-/

namespace DexArsc.Text

/-- The replacement character. -/
def replacement : Char := '\uFFFD'

/-- What the first byte of a character demands: the number of bytes behind it, the range of the
first of them and the bits that the first byte gives. -/
structure LeadByte where
  more : Nat
  low : UInt8 := 0x80
  high : UInt8 := 0xBF
  bits : Nat

/-- The demands of a first byte that is not ASCII. -/
def leadByte? (byte : UInt8) : Option LeadByte :=
  let bits := byte.toNat
  if 0xC2 ≤ byte ∧ byte ≤ 0xDF then some { more := 1, bits := bits % 0x20 }
  else if byte = 0xE0 then some { more := 2, low := 0xA0, bits := bits % 0x10 }
  else if byte = 0xED then some { more := 2, high := 0x9F, bits := bits % 0x10 }
  else if 0xE1 ≤ byte ∧ byte ≤ 0xEF then some { more := 2, bits := bits % 0x10 }
  else if byte = 0xF0 then some { more := 3, low := 0x90, bits := bits % 8 }
  else if 0xF1 ≤ byte ∧ byte ≤ 0xF3 then some { more := 3, bits := bits % 8 }
  else if byte = 0xF4 then some { more := 3, high := 0x8F, bits := bits % 8 }
  else none

/-- The character with the given bits and the `more` bytes at the start of a list. A byte outside
the range ends a malformed run and is left. -/
def continueChar : (more : Nat) → (low high : UInt8) → (bits : Nat) → List UInt8 →
    Option Char × List UInt8
  | 0, _, _, bits, rest => (some (Char.ofNat bits), rest)
  | _ + 1, _, _, _, [] => (none, [])
  | more + 1, low, high, bits, byte :: rest =>
    if low ≤ byte ∧ byte ≤ high then
      continueChar more 0x80 0xBF (bits * 64 + byte.toNat % 64) rest
    else
      (none, byte :: rest)

/-- The piece that starts with a byte, and the bytes behind it. -/
def nextPiece (byte : UInt8) (rest : List UInt8) : Option Char × List UInt8 :=
  if byte < 0x80 then
    (some (Char.ofNat byte.toNat), rest)
  else
    match leadByte? byte with
    | none => (none, rest)
    | some lead => continueChar lead.more lead.low lead.high lead.bits rest

/-- A character never takes bytes that are not there. -/
theorem continueChar_length (more : Nat) (low high : UInt8) (bits : Nat) (bytes : List UInt8) :
    (continueChar more low high bits bytes).2.length ≤ bytes.length := by
  fun_induction continueChar more low high bits bytes with
  | case1 => exact Nat.le_refl _
  | case2 => exact Nat.le_refl _
  | case3 more low high bits byte rest inside inductionHypothesis =>
    exact Nat.le_succ_of_le inductionHypothesis
  | case4 => exact Nat.le_refl _

/-- The bytes behind a piece are fewer than the bytes of the piece and those behind it. -/
theorem nextPiece_length (byte : UInt8) (rest : List UInt8) :
    (nextPiece byte rest).2.length < (byte :: rest).length := by
  unfold nextPiece
  split
  · simp
  · split
    · simp
    · exact Nat.lt_succ_of_le (continueChar_length ..)

/-- The pieces of bytes behind those that are already done, which are listed in reverse. -/
def piecesOnto (done : List (Option Char)) : List UInt8 → List (Option Char)
  | [] => done.reverse
  | byte :: rest => piecesOnto ((nextPiece byte rest).1 :: done) (nextPiece byte rest).2
termination_by bytes => bytes.length
decreasing_by exact nextPiece_length byte rest

/-- The pieces of bytes: characters, and `none` for each malformed run. -/
def pieces (bytes : List UInt8) : List (Option Char) :=
  piecesOnto [] bytes

/-- The text with a UTF-8 form. -/
def ofUtf8? (bytes : List UInt8) : Option String :=
  ((pieces bytes).mapM id).map String.ofList

/-- The text of bytes, with the replacement character for every malformed run. -/
def ofUtf8Lossy (bytes : List UInt8) : String :=
  String.ofList ((pieces bytes).map fun piece => piece.getD replacement)

/-- The UTF-8 form of a text. -/
def toUtf8 (text : String) : List UInt8 :=
  text.toList.flatMap String.utf8EncodeChar

/-- A code unit is the first of a surrogate pair. -/
def isHighSurrogate (unit : UInt16) : Bool :=
  0xD800 ≤ unit && unit ≤ 0xDBFF

/-- A code unit is the second of a surrogate pair. -/
def isLowSurrogate (unit : UInt16) : Bool :=
  0xDC00 ≤ unit && unit ≤ 0xDFFF

/-- The character of a surrogate pair. -/
def ofSurrogates (high low : UInt16) : Char :=
  Char.ofNat (0x10000 + (high.toNat - 0xD800) * 0x400 + (low.toNat - 0xDC00))

/-- The code units of a character: one, or a surrogate pair beyond the first plane. -/
def charUnits (c : Char) : List UInt16 :=
  if c.toNat < 0x10000 then
    [UInt16.ofNat c.toNat]
  else
    [UInt16.ofNat (0xD800 + (c.toNat - 0x10000) / 0x400),
      UInt16.ofNat (0xDC00 + (c.toNat - 0x10000) % 0x400)]

/-- The code units of a text. -/
def units (text : String) : List UInt16 :=
  text.toList.flatMap charUnits

/-- The number of code units of a text. -/
def unitCount (text : String) : Nat :=
  text.foldl (fun count c => count + (charUnits c).length) 0

/-- The character of a code unit that stands alone, unless it is a surrogate. -/
def ofUnit? (unit : UInt16) : Option Char :=
  if isHighSurrogate unit || isLowSurrogate unit then none else some (Char.ofNat unit.toNat)

/-- The characters of code units behind those that are already done, which are listed in
reverse. -/
def ofUnitsOnto (done : List (Option Char)) : List UInt16 → List (Option Char)
  | [] => done.reverse
  | [unit] => (ofUnit? unit :: done).reverse
  | unit :: next :: rest =>
    if isHighSurrogate unit && isLowSurrogate next then
      ofUnitsOnto (some (ofSurrogates unit next) :: done) rest
    else
      ofUnitsOnto (ofUnit? unit :: done) (next :: rest)

/-- The characters of code units, with `none` for each unpaired surrogate. -/
def ofUnits (units : List UInt16) : List (Option Char) :=
  ofUnitsOnto [] units

/-- The text with given code units. -/
def ofUtf16? (units : List UInt16) : Option String :=
  ((ofUnits units).mapM id).map String.ofList

/-- The text of code units, with the replacement character for every unpaired surrogate. -/
def ofUtf16Lossy (units : List UInt16) : String :=
  String.ofList ((ofUnits units).map fun c => c.getD replacement)

/-- The three-byte form of a code unit. -/
def threeBytes (unit : UInt16) : List UInt8 :=
  [UInt8.ofNat (0xE0 + unit.toNat / 0x1000), UInt8.ofNat (0x80 + unit.toNat / 0x40 % 0x40),
    UInt8.ofNat (0x80 + unit.toNat % 0x40)]

/-- The modified form of a character. -/
def modifiedChar (c : Char) : List UInt8 :=
  if c = '\u0000' then [0xC0, 0x80]
  else if c.toNat < 0x10000 then String.utf8EncodeChar c
  else (charUnits c).flatMap threeBytes

/-- The modified form of a text. -/
def toModifiedUtf8 (text : String) : List UInt8 :=
  text.toList.flatMap modifiedChar

/-- The code unit of the three-byte form of a surrogate, whose first byte is `0xED`. -/
def surrogateUnit (second third : UInt8) : UInt16 :=
  UInt16.ofNat (0xD000 + second.toNat % 0x40 * 0x40 + third.toNat % 0x40)

/-- A byte inside a character. -/
def isContinuation (byte : UInt8) : Bool :=
  byte &&& 0xC0 == 0x80

/-- The character of the two surrogates at the start of a list, and the bytes behind them. -/
def surrogatePair? : List UInt8 → Option (Char × List UInt8)
  | 0xED :: second :: third :: 0xED :: fifth :: sixth :: rest =>
    let high := surrogateUnit second third
    let low := surrogateUnit fifth sixth
    if [second, third, fifth, sixth].all isContinuation && isHighSurrogate high &&
        isLowSurrogate low then
      some (ofSurrogates high low, rest)
    else
      none
  | _ => none

/-- The character in modified form at the start of a list, and the bytes behind it. A zero byte
begins no modified form: the null character has its two bytes. -/
def nextModified? (byte : UInt8) (rest : List UInt8) : Option (Char × List UInt8) :=
  if byte = 0 then
    none
  else if byte = 0xC0 then
    match rest with
    | 0x80 :: rest => some ('\u0000', rest)
    | _ => none
  else
    match nextPiece byte rest with
    | (some c, rest) => if c.toNat < 0x10000 then some (c, rest) else none
    | (none, _) => surrogatePair? (byte :: rest)

/-- The characters in modified form, for at most `fuel` characters, behind those that are already
done, which are listed in reverse. -/
def ofModifiedOnto? : (fuel : Nat) → (done : List Char) → List UInt8 → Option (List Char)
  | _, done, [] => some done.reverse
  | 0, _, _ :: _ => none
  | fuel + 1, done, byte :: rest =>
    match nextModified? byte rest with
    | some (c, rest) => ofModifiedOnto? fuel (c :: done) rest
    | none => none

/-- The characters in modified form. -/
def ofModified? (bytes : List UInt8) : Option (List Char) :=
  ofModifiedOnto? bytes.length [] bytes

/-- The text with a modified or a plain UTF-8 form. -/
def ofModifiedUtf8? (bytes : List UInt8) : Option String :=
  (ofUtf8? bytes).or ((ofModified? bytes).map String.ofList)

end DexArsc.Text
