/-
String data: a count of UTF-16 code units, a text in modified UTF-8 and a zero byte. Data that
holds no text is kept verbatim with its declared count.
-/

import DexArsc.Bytes.Cursor
import DexArsc.Dex.Key
import DexArsc.Text.Encoding

namespace DexArsc.Dex

/-- The value of string data. -/
inductive StringData
  | decoded (text : String)
  | raw (size : UInt32) (bytes : List UInt8)
  deriving DecidableEq, Hashable, Inhabited

namespace StringData

/-- The text of decoded data. -/
def text? : StringData → Option String
  | decoded text => some text
  | raw _ _ => none

/-- A text for every value, with the replacement character for malformed bytes. -/
def lossyText : StringData → String
  | decoded text => text
  | raw _ bytes => Text.ofUtf8Lossy bytes

/-- The value of bytes and their declared count of code units. -/
def ofBytes (size : UInt32) (bytes : List UInt8) : StringData :=
  match Text.ofModifiedUtf8? bytes with
  | some text => decoded text
  | none => raw size bytes

/-- The order of values: decoded ones by code points and before all others, which are ordered by
their declared count and then by their bytes. -/
def compare : StringData → StringData → Ordering
  | decoded a, decoded b => compareTexts a b
  | decoded _, raw _ _ => .lt
  | raw _ _, decoded _ => .gt
  | raw sizeA a, raw sizeB b =>
    (compareOfLessAndEq sizeA sizeB).then (compareLists (compareOfLessAndEq · ·) a b)

/-- The order of sorted string ids: decoded values are ordered by UTF-16 code units. -/
def compareUnits : StringData → StringData → Ordering
  | decoded a, decoded b => compareLists (compareOfLessAndEq · ·) (Text.units a) (Text.units b)
  | a, b => a.compare b

/-- The constructor form. -/
def quoted : StringData → String
  | decoded text => "Decoded(" ++ Text.quoted text ++ ")"
  | raw size bytes =>
    "Raw(" ++ toString size.toNat ++ ", " ++
      Text.bracketed (bytes.map fun byte => toString byte.toNat) ++ ")"

instance : KeyText StringData := ⟨quoted⟩

/-- The declared count of code units. -/
def unitCount : StringData → UInt32
  | decoded text => UInt32.ofNat (Text.unitCount text)
  | raw size _ => size

/-- The bytes between the count and the zero byte. -/
def contents : StringData → List UInt8
  | decoded text => Text.toModifiedUtf8 text
  | raw _ bytes => bytes

end StringData

/-- The bytes from a position up to a zero byte, the limit of the walk or the end of the data. -/
def bytesUntilZero (data : Bytes) : (fuel position : Nat) → List UInt8
  | 0, _ => []
  | fuel + 1, position =>
    match data[position]? with
    | none => []
    | some byte => if byte = 0 then [] else byte :: bytesUntilZero data fuel (position + 1)

/-- Reading yields the bytes up to a zero byte, which is passed. -/
def readUntilZero : Reader (List UInt8) := do
  let cursor ← get
  let bytes := bytesUntilZero cursor.data cursor.remaining cursor.position
  Reader.advance bytes.length
  let _ ← Reader.byte
  return bytes

instance : Codec StringData where
  read := do
    let size ← Reader.leb
    return StringData.ofBytes size (← readUntilZero)
  encode value := Leb.encode value.unitCount ++ value.contents ++ [0]
  byteSize value := (Leb.encode value.unitCount).length + value.contents.length + 1

end DexArsc.Dex
