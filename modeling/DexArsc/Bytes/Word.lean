/-
Little-endian words: their bytes, their places inside byte data, and the slots that numbers are
narrowed into.
-/

import DexArsc.Fault

namespace DexArsc

/-- Byte data that is read or patched by position. -/
abbrev Bytes := Array UInt8

namespace Bytes

/-- The two bytes of a 16-bit word, the low byte first. -/
def ofWord16 (word : UInt16) : List UInt8 :=
  [word.toUInt8, (word >>> 8).toUInt8]

/-- The four bytes of a 32-bit word, the low byte first. -/
def ofWord32 (word : UInt32) : List UInt8 :=
  [word.toUInt8, (word >>> 8).toUInt8, (word >>> 16).toUInt8, (word >>> 24).toUInt8]

/-- The number with the given bytes, the lowest first. -/
def littleEndian : List UInt8 → Nat
  | [] => 0
  | byte :: rest => byte.toNat + 256 * littleEndian rest

/-- The number in `count` bytes at a position, unless they pass the end. -/
def getNumber? (data : Bytes) (position count : Nat) : Option Nat :=
  if position + count ≤ data.size then
    some (littleEndian (data.extract position (position + count)).toList)
  else
    none

/-- The 16-bit word at a position, unless it passes the end. -/
def getWord16? (data : Bytes) (position : Nat) : Option UInt16 :=
  (data.getNumber? position 2).map UInt16.ofNat

/-- The 32-bit word at a position, unless it passes the end. -/
def getWord32? (data : Bytes) (position : Nat) : Option UInt32 :=
  (data.getNumber? position 4).map UInt32.ofNat

/-- The data with bytes overwritten from a position on. Bytes past the end are dropped. -/
def overwrite (data : Bytes) (position : Nat) : List UInt8 → Bytes
  | [] => data
  | byte :: rest => overwrite (data.setIfInBounds position byte) (position + 1) rest

/-- The data with the 16-bit word at a position replaced. -/
def putWord16 (data : Bytes) (position : Nat) (word : UInt16) : Bytes :=
  data.overwrite position (ofWord16 word)

/-- The data with the 32-bit word at a position replaced. -/
def putWord32 (data : Bytes) (position : Nat) (word : UInt32) : Bytes :=
  data.overwrite position (ofWord32 word)

end Bytes

/-- The slots that store a number. -/
inductive Slot
  | byte
  | half
  | word
  | signedWord
  deriving DecidableEq

namespace Slot

/-- The least number that a slot stores. -/
def least : Slot → Int
  | signedWord => -0x80000000
  | _ => 0

/-- The greatest number that a slot stores. -/
def greatest : Slot → Int
  | byte => 0xFF
  | half => 0xFFFF
  | word => 0xFFFFFFFF
  | signedWord => 0x7FFFFFFF

/-- Narrowing keeps a number that its slot can store and refuses every other. -/
def narrow (slot : Slot) (what : String) (value : Int) : Except Fault Int :=
  if slot.least ≤ value ∧ value ≤ slot.greatest then
    .ok value
  else
    fail (.bytes (.doesNotFit what value))

end Slot

/-- The 16-bit word that stores a number. -/
def narrow16 (what : String) (value : Nat) : Except Fault UInt16 :=
  (Slot.half.narrow what value).map fun value => UInt16.ofNat value.toNat

/-- The 32-bit word that stores a number. -/
def narrow32 (what : String) (value : Nat) : Except Fault UInt32 :=
  (Slot.word.narrow what value).map fun value => UInt32.ofNat value.toNat

end DexArsc

namespace DexArsc

/-- The number of bytes from a position to the next multiple of an alignment. An alignment of
zero or one never pads. -/
def padding (alignment position : Nat) : Nat :=
  if alignment ≤ 1 then 0 else (alignment - position % alignment) % alignment

/-- Padding with one byte, up to a boundary. -/
structure Padding where
  alignment : UInt64 := 4
  fill : UInt8 := 0
  deriving DecidableEq, Inhabited

namespace Padding

/-- The number of padding bytes at a position. -/
def sizeAt (pad : Padding) (position : UInt64) : UInt64 :=
  UInt64.ofNat (padding pad.alignment.toNat position.toNat)

/-- The padding bytes at a position. -/
def bytesAt (pad : Padding) (position : Nat) : List UInt8 :=
  List.replicate (padding pad.alignment.toNat position) pad.fill

end Padding
end DexArsc
