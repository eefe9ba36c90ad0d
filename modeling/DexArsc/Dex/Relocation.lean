/-
Relocation: the map from offsets as they were read to offsets in the current layout.
-/

import Std.Data.HashMap
import DexArsc.Bytes.Word

namespace DexArsc.Dex

/-- A change of length inside a raw section: every position from `position` on moves. -/
structure Shift where
  position : UInt32
  distance : Int
  deriving DecidableEq

/-- The current place of a position. The last shift at or before it counts. -/
def shifted (shifts : List Shift) (position : UInt32) : UInt32 :=
  match (shifts.filter (·.position ≤ position)).getLast? with
  | none => position
  | some shift => UInt32.ofNat ((position.toNat + shift.distance) % UInt32.size).toNat

/-- A run of bytes that was read at one offset and now starts at another one. -/
structure Extent where
  origin : UInt32
  length : UInt32
  offset : UInt32
  shifts : List Shift := []
  deriving DecidableEq

namespace Extent

/-- An extent holds the offsets from its origin up to its end, which stays within 32 bits. -/
def contains (extent : Extent) (origin : UInt32) : Bool :=
  extent.origin ≤ origin &&
    origin.toNat < min (extent.origin.toNat + extent.length.toNat) 0xFFFFFFFF

/-- The current offset of an offset that was read. -/
def map (extent : Extent) (origin : UInt32) : UInt32 :=
  extent.offset + shifted extent.shifts (origin - extent.origin)

end Extent

/-- The current offsets of items and of runs of bytes, the last added run first. -/
structure Relocator where
  items : Std.HashMap UInt32 UInt32 := {}
  extents : List Extent := []

namespace Relocator

/-- An item that was read at `origin` is now at `offset`. -/
def addItem (relocator : Relocator) (origin offset : UInt32) : Relocator :=
  if origin = 0 then relocator
  else { relocator with items := relocator.items.insert origin offset }

/-- A run of bytes hides all earlier ones where they overlap. -/
def addExtent (relocator : Relocator) (extent : Extent) : Relocator :=
  if extent.origin = 0 ∨ extent.length = 0 then relocator
  else { relocator with extents := extent :: relocator.extents }

/-- The current offset of an offset that was read. Zero stays zero. -/
def map? (relocator : Relocator) (origin : UInt32) : Option UInt32 :=
  if origin = 0 then
    some 0
  else
    relocator.items[origin]?.or
      ((relocator.extents.find? (·.contains origin)).map (·.map origin))

/-- The current offset of an offset that was read, or zero when its target is gone. -/
def relocate (relocator : Relocator) (origin : UInt32) : UInt32 :=
  (relocator.map? origin).getD 0

end Relocator

/-- An offset into a raw section, as it was read and in the current layout. -/
structure RawOffset where
  origin : UInt32 := 0
  current : UInt32 := 0
  deriving DecidableEq, Inhabited

namespace RawOffset

/-- An offset that has just been read. -/
def ofOrigin (origin : UInt32) : RawOffset :=
  { origin, current := origin }

/-- The offset in the current layout. -/
def relocate (relocator : Relocator) (offset : RawOffset) : RawOffset :=
  { offset with current := relocator.relocate offset.origin }

end RawOffset
end DexArsc.Dex
