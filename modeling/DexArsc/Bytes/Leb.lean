/-
Base-128 numbers of at most 32 bits. A number is a run of groups, the lowest group first. Each
group has seven bits of the number, and every group but the last has its top bit set.
-/

import DexArsc.Bytes.Word

namespace DexArsc.Leb

/-- A 32-bit number has at most five groups. -/
def maxGroups : Nat := 5

/-- The groups of an unsigned number. -/
def unsignedGroups (value : Nat) : List UInt8 :=
  if value < 128 then
    [UInt8.ofNat value]
  else
    UInt8.ofNat (value % 128 + 128) :: unsignedGroups (value / 128)

/-- The encoding of an unsigned number. -/
def encode (value : UInt32) : List UInt8 :=
  unsignedGroups value.toNat

/-- The number of bytes in the encoding of an unsigned number. -/
def size (value : UInt32) : Nat :=
  if value.toNat < 0x80 then 1
  else if value.toNat < 0x4000 then 2
  else if value.toNat < 0x200000 then 3
  else if value.toNat < 0x10000000 then 4
  else 5

/-- Decoding reads the remaining groups of an unsigned number. The fifth group has only four
bits left to give. -/
def decodeGroups (limit : Nat) : (groups count value : Nat) → List UInt8 →
    Except Fault (UInt32 × Nat)
  | 0, _, _, _ => fail (.bytes (.unterminatedLeb false limit))
  | _ + 1, count, _, [] => fail (.bytes (.truncatedLeb false count))
  | groups + 1, count, value, byte :: rest =>
    if count = 4 ∧ byte &&& 0x70 ≠ 0 then
      fail (.bytes (.lebOverflow byte))
    else
      let value := value + (byte.toNat % 128) <<< (7 * count)
      if byte < 128 then
        .ok (UInt32.ofNat value, count + 1)
      else
        decodeGroups limit groups (count + 1) value rest

/-- Decoding reads an unsigned number of at most `groups` groups. The result is the number and
the count of bytes it takes. -/
def decode (encoded : List UInt8) (groups : Nat) : Except Fault (UInt32 × Nat) :=
  let groups := min groups maxGroups
  decodeGroups groups groups 0 0 encoded

/-- The groups of a signed number. -/
def signedGroups (value : Int) : List UInt8 :=
  if -64 ≤ value ∧ value < 64 then
    [UInt8.ofNat (value % 128).toNat]
  else
    UInt8.ofNat ((value % 128).toNat + 128) :: signedGroups (value / 128)
termination_by value.natAbs
decreasing_by omega

/-- The encoding of a signed number. -/
def encodeSigned (value : Int32) : List UInt8 :=
  signedGroups value.toInt

/-- The signed number with the given low bits. Fewer than 32 bits are read in two's complement,
and of more than 32 bits the low 32 count. -/
def signed (bits value : Nat) : Int32 :=
  Int32.ofInt ((value : Int).bmod (1 <<< min bits 32))

/-- Decoding reads the remaining groups of a signed number. -/
def decodeSignedGroups : (groups count value : Nat) → List UInt8 → Except Fault (Int32 × Nat)
  | 0, _, _, _ => fail (.bytes (.unterminatedLeb true maxGroups))
  | _ + 1, count, _, [] => fail (.bytes (.truncatedLeb true count))
  | groups + 1, count, value, byte :: rest =>
    let value := value + (byte.toNat % 128) <<< (7 * count)
    if byte < 128 then
      .ok (signed (7 * (count + 1)) value, count + 1)
    else
      decodeSignedGroups groups (count + 1) value rest

/-- Decoding reads a signed number. The result is the number and the count of bytes it takes. -/
def decodeSigned (encoded : List UInt8) : Except Fault (Int32 × Nat) :=
  decodeSignedGroups maxGroups 0 0 encoded

/-- The encoding of a number that is stored plus one, so that minus one takes a single zero. -/
def encodePlusOne (value : Int) : List UInt8 :=
  encode (UInt32.ofNat ((value + 1) % UInt32.size).toNat)

/-- Decoding reads a number that is stored plus one. -/
def decodePlusOne (encoded : List UInt8) : Except Fault (Int × Nat) := do
  let (value, count) ← decode encoded maxGroups
  return (value.toNat - 1, count)

end DexArsc.Leb
