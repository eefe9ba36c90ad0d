/-
A bounded reader of byte data. The cursor stands at a position and never passes the innermost
open extent. A block that declares its size opens an extent before its body is read and closes
it afterwards.
-/

import DexArsc.Bytes.Leb
import DexArsc.Bytes.Word

namespace DexArsc

/-- A position in byte data and the ends of the open extents, the innermost first. -/
structure Cursor where
  data : Bytes
  position : Nat := 0
  limits : List Nat := []

/-- A step that reads from a cursor. -/
abbrev Reader := Step Cursor

namespace Cursor

/-- The end of the innermost extent, or of the data. -/
def limit (cursor : Cursor) : Nat :=
  cursor.limits.head?.getD cursor.data.size

/-- The number of bytes up to the limit. -/
def remaining (cursor : Cursor) : Nat :=
  cursor.limit - cursor.position

/-- A cursor at its limit is at its end. -/
def isAtEnd (cursor : Cursor) : Bool :=
  cursor.remaining == 0

/-- At most `count` bytes between the position and the limit. -/
def window (cursor : Cursor) (count : Nat) : List UInt8 :=
  (cursor.data.extract cursor.position
    (min cursor.limit (cursor.position + count))).toList

end Cursor

namespace Reader

/-- The current position. -/
def position : Reader Nat :=
  return (← get).position

/-- The number of bytes up to the limit. -/
def remaining : Reader Nat :=
  return (← get).remaining

/-- The cursor moves forward. -/
def advance (count : Nat) : Reader Unit :=
  modify fun cursor => { cursor with position := cursor.position + count }

/-- Peeking yields the next `count` bytes and stays in place. -/
def peekAs (what : String) (count : Nat) : Reader (List UInt8) := do
  let cursor ← get
  if cursor.remaining < count then
    fail (.bytes (.endOfStream what cursor.position))
  return cursor.window count

/-- Peeking yields the next `count` bytes and stays in place. -/
def peek (count : Nat) : Reader (List UInt8) :=
  peekAs "byte array" count

/-- Reading yields the next `count` bytes. -/
def bytesAs (what : String) (count : Nat) : Reader (List UInt8) := do
  let bytes ← peekAs what count
  advance count
  return bytes

/-- Reading yields the next `count` bytes. -/
def bytes (count : Nat) : Reader (List UInt8) :=
  bytesAs "byte array" count

/-- Reading yields the next byte. -/
def byte : Reader UInt8 :=
  return UInt8.ofNat (Bytes.littleEndian (← bytesAs "u1" 1))

/-- Reading yields the next 16-bit word. -/
def word16 : Reader UInt16 :=
  return UInt16.ofNat (Bytes.littleEndian (← bytesAs "u2" 2))

/-- Reading yields the next 32-bit word. -/
def word32 : Reader UInt32 :=
  return UInt32.ofNat (Bytes.littleEndian (← bytesAs "u4" 4))

/-- Reading decodes the bytes before the limit and passes those that the number takes. -/
def decoded {α : Type} (decode : List UInt8 → Except Fault (α × Nat)) : Reader α := do
  let cursor ← get
  let (value, count) ← decode (cursor.window Leb.maxGroups)
  advance count
  return value

/-- Reading yields an unsigned base-128 number of at most `groups` groups. -/
def lebWithin (groups : Nat) : Reader UInt32 :=
  decoded fun encoded => Leb.decode encoded groups

/-- Reading yields an unsigned base-128 number. -/
def leb : Reader UInt32 :=
  lebWithin Leb.maxGroups

/-- Reading yields a base-128 number that is stored plus one. -/
def lebPlusOne : Reader Int :=
  decoded Leb.decodePlusOne

/-- Reading yields a signed base-128 number. -/
def signedLeb : Reader Int32 :=
  decoded Leb.decodeSigned

/-- The cursor moves to the next multiple of an alignment. The result is the number of bytes
passed, which have to exist. -/
def align (alignment : Nat) : Reader Nat := do
  let count := padding alignment (← position)
  let _ ← bytesAs "alignment padding" count
  return count

/-- The cursor moves to a position before the limit. -/
def seek (position : Nat) : Reader Unit := do
  let cursor ← get
  if cursor.limit < position then
    fail (.bytes (.seekBeyondExtent position cursor.limit))
  set { cursor with position }

/-- The next `size` bytes become the innermost extent. -/
def openExtent (size : Nat) : Reader Unit := do
  let cursor ← get
  let limit := cursor.position + size
  if UInt64.size ≤ limit then
    fail (.bytes (.sizeOverflow size cursor.position))
  if cursor.limit < limit then
    fail (.bytes (.sizeBeyondExtent size cursor.position cursor.limit))
  set { cursor with limits := limit :: cursor.limits }

/-- The innermost extent is closed, even when the cursor is not at its end. -/
def closeExtent : Reader Unit := do
  let cursor ← get
  match cursor.limits with
  | [] => fail (.bytes (.noExtent cursor.position))
  | limit :: limits =>
    set { cursor with limits }
    if limit ≠ cursor.position then
      fail (.bytes (.stoppedAt limit cursor.position))

/-- The innermost extent is closed and the cursor moves to its end. The result is the number of
bytes passed. -/
def skipExtent : Reader Nat := do
  let cursor ← get
  match cursor.limits with
  | [] => fail (.bytes (.noExtent cursor.position))
  | limit :: limits =>
    if limit < cursor.position then
      set { cursor with limits }
      fail (.bytes (.ranTo limit cursor.position))
    set { cursor with position := limit, limits }
    return limit - cursor.position

/-- The result of a step on fresh data, without the final position. -/
def run {α : Type} (reader : Reader α) (data : Bytes) (start : Nat := 0) : Except Fault α :=
  match EStateM.run reader { data, position := start } with
  | .ok value _ => .ok value
  | .error fault _ => .error fault

end Reader
end DexArsc

namespace DexArsc

/-- Values that are read from a cursor and written as bytes. -/
class Codec (α : Type) where
  read : Reader α
  encode : α → List UInt8
  /-- The number of bytes that writing counts, piece by piece. -/
  byteSize : α → Nat

export Codec (encode byteSize)

/-- The sizes of the pieces of a list, added up as they are written. -/
def totalSize {α : Type} (size : α → Nat) (items : List α) : Nat :=
  items.foldl (fun total item => total + size item) 0

/-- The value at the start of the data, and the number of bytes in its byte form. -/
def decode {α : Type} [Codec α] (data : Bytes) : Except Fault (α × Nat) :=
  Reader.run (return (← Codec.read, ← Reader.position)) data

/-- `count` steps one after another. The results come behind those that are already done, which
are listed in reverse. -/
def Reader.replicateOnto {α : Type} (reader : Reader α) : (count : Nat) → List α → Reader (List α)
  | 0, done => return done.reverse
  | count + 1, done => do
    let result ← reader
    Reader.replicateOnto reader count (result :: done)

/-- `count` steps one after another, with the list of their results. -/
def Reader.replicate {α : Type} (reader : Reader α) (count : Nat) : Reader (List α) :=
  reader.replicateOnto count []

end DexArsc
