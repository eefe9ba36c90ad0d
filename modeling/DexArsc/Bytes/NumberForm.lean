/-
The forms in which numbers are stored: words of a fixed size, and the variable-length forms.
-/

import DexArsc.Bytes.Cursor

namespace DexArsc

/-- A form in which a number is stored. -/
inductive NumberForm
  | byte
  | half
  | word
  | leb
  | lebPlusOne
  | signedLeb
  deriving DecidableEq, Inhabited

namespace NumberForm

/-- All forms. -/
def all : List NumberForm :=
  [byte, half, word, leb, lebPlusOne, signedLeb]

/-- The short name of a form. -/
def name : NumberForm → String
  | byte => "u1"
  | half => "u2"
  | word => "u4"
  | leb => "uleb"
  | lebPlusOne => "p1"
  | signedLeb => "sleb"

/-- The form with a name. -/
def ofName? (name : String) : Option NumberForm :=
  all.find? (·.name == name)

/-- The bytes of a number, of which only the low 32 bits are stored. -/
def encode (form : NumberForm) (value : Int) : List UInt8 :=
  let low := UInt32.ofInt value
  match form with
  | byte => [low.toUInt8]
  | half => Bytes.ofWord16 low.toUInt16
  | word => Bytes.ofWord32 low
  | leb => Leb.encode low
  | lebPlusOne => Leb.encodePlusOne value
  | signedLeb => Leb.encodeSigned (Int32.ofInt value)

/-- Reading yields a number. -/
def read : NumberForm → Reader Int
  | byte => return (← Reader.byte).toNat
  | half => return (← Reader.word16).toNat
  | word => return (← Reader.word32).toNat
  | leb => return (← Reader.leb).toNat
  | lebPlusOne => Reader.lebPlusOne
  | signedLeb => return (← Reader.signedLeb).toInt

end NumberForm
end DexArsc
