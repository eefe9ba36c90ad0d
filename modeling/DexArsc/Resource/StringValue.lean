/-
The string values of type chunks. A type chunk lists the offsets of its entries, and an entry
holds one value or a list of them. A value of the string type holds an index into the global
string pool, which a map can replace.
-/

import DexArsc.Bytes.Word
import DexArsc.Step

namespace DexArsc.Resource

namespace TypeChunk

/-- The 16-bit field of a type chunk at a position. -/
def half (chunk : Bytes) (position : Nat) : Except Fault Nat :=
  match chunk.getWord16? position with
  | some value => .ok value.toNat
  | none => fail (.resource (.typeFieldBeyond position chunk.size))

/-- The 32-bit field of a type chunk at a position. -/
def word (chunk : Bytes) (position : Nat) : Except Fault Nat :=
  match chunk.getWord32? position with
  | some value => .ok value.toNat
  | none => fail (.resource (.typeFieldBeyond position chunk.size))

/-- The ways in which a type chunk lists the offsets of its entries. -/
inductive OffsetForm
  /-- Pairs of an entry's number and its offset in words. -/
  | sparse
  /-- The offset of each entry in words, in 16 bits. -/
  | half
  /-- The offset of each entry in bytes, in 32 bits. -/
  | word
  deriving DecidableEq

/-- The form that the flags of a chunk name. -/
def offsetForm (chunk : Bytes) : OffsetForm :=
  let flags := chunk[9]?.getD 0
  if flags &&& 0x01 ≠ 0 then .sparse else if flags &&& 0x02 ≠ 0 then .half else .word

/-- The offset of the entry with a number, from the start of the entries. The greatest number
stands for no entry, except in the sparse form. -/
def entryOffset? (chunk : Bytes) (header index : Nat) : OffsetForm → Except Fault (Option Nat)
  | .sparse => return some ((← half chunk (header + index * 4 + 2)) * 4)
  | .half => do
    let value ← half chunk (header + index * 2)
    return if value = 0xFFFF then none else some (value * 4)
  | .word => do
    let value ← word chunk (header + index * 4)
    return if value = 0xFFFFFFFF then none else some value

/-- The offsets of `count` entries from a number on, behind those that are already found, which
are listed in reverse. -/
def entryOffsetsFrom (chunk : Bytes) (header : Nat) (form : OffsetForm) :
    (count index : Nat) → (found : List Nat) → Except Fault (List Nat)
  | 0, _, found => .ok found.reverse
  | count + 1, index, found => do
    match ← entryOffset? chunk header index form with
    | none => entryOffsetsFrom chunk header form count (index + 1) found
    | some offset => entryOffsetsFrom chunk header form count (index + 1) (offset :: found)

/-- The offsets of all entries from the start of the entries. -/
def entryOffsets (chunk : Bytes) : Except Fault (List Nat) := do
  let header ← half chunk 2
  let count ← word chunk 12
  entryOffsetsFrom chunk header (offsetForm chunk) count 0 []

/-- The data type of string values. -/
def stringType : UInt8 := 0x03

/-- The position of a string value's index, for the position of a value with a header. -/
def stringAt? (chunk : Bytes) (value : Nat) : Option Nat :=
  if chunk[value + 3]? = some stringType then some (value + 4) else none

/-- The positions of the string indexes of an entry. A compact entry has its data type in its
flags, and a complex entry has a list of named values. -/
def stringIndexes (chunk : Bytes) (entry : Nat) : Except Fault (List Nat) := do
  let size ← half chunk entry
  let flags ← half chunk (entry + 2)
  if flags / 8 % 2 = 1 then
    return if UInt8.ofNat (flags / 256) = stringType then [entry + 4] else []
  else if flags % 2 = 1 then
    let count ← word chunk (entry + 12)
    let inside := List.range (min count chunk.size)
    return inside.filterMap fun index => stringAt? chunk (entry + size + index * 12 + 4)
  else
    return (stringAt? chunk (entry + size)).toList

/-- The list without elements that occur before. -/
def distinct (entries : List Nat) : List Nat :=
  entries.eraseDups

end TypeChunk

/-- The new index of a string index, found by a step on another state. -/
abbrev StringMap (state : Type) := UInt32 → Step state UInt32

variable {state : Type}

/-- The string index at a position of a chunk is replaced by its image. -/
def remapIndex (map : StringMap state) (position : Nat) : Step (Bytes × state) Unit := do
  let old := UInt32.ofNat (← TypeChunk.word (← get).1 position)
  let new ← Step.onPart Prod.snd (fun state (chunk, _) => (chunk, state)) (map old)
  if new ≠ old then
    modify fun (chunk, state) => (chunk.putWord32 position new, state)

/-- The string indexes of an entry are replaced by their images. The result is their number. -/
def remapEntry (map : StringMap state) (entry : Nat) : Step (Bytes × state) Nat := do
  let positions ← TypeChunk.stringIndexes (← get).1 entry
  positions.forM (remapIndex map)
  return positions.length

/-- All string indexes of a type chunk are replaced by their images, those of an entry that is
listed twice only once. The result is their number. -/
def remapStrings (map : StringMap state) : Step (Bytes × state) Nat := do
  let chunk := (← get).1
  let start ← TypeChunk.word chunk 16
  let offsets ← TypeChunk.entryOffsets chunk
  let entries := TypeChunk.distinct (offsets.map (start + ·))
  entries.foldlM (fun count entry => return count + (← remapEntry map entry)) 0

end DexArsc.Resource
