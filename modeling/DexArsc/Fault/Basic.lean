/-
The categories of failure, and the ways in which reading or writing plain bytes and operating on a
block tree fail.
-/

import DexArsc.Text.Quoted

namespace DexArsc

/-- The category of a failure. -/
inductive FaultKind
  /-- Bytes are truncated, malformed or inconsistent. -/
  | format
  /-- A tag or a section is outside the supported format. -/
  | unsupportedFormat
  /-- A key is malformed or already taken. -/
  | invalidKey
  /-- A position lies outside the collection it addresses. -/
  | indexOutOfRange
  /-- A file could not be reached. -/
  | io
  deriving DecidableEq, Inhabited

/-- The name of the category. -/
def FaultKind.name : FaultKind → String
  | format => "Format"
  | unsupportedFormat => "UnsupportedFormat"
  | invalidKey => "InvalidKey"
  | indexOutOfRange => "IndexOutOfRange"
  | io => "Io"

/-- The category's words at the start of a message. -/
def FaultKind.title : FaultKind → String
  | format => "format error"
  | unsupportedFormat => "unsupported format"
  | invalidKey => "invalid key"
  | indexOutOfRange => "index out of range"
  | io => "i/o error"

/-- A failure of the byte codecs and the bounded reader. -/
inductive ByteCause
  /-- A base-128 number ends before its last group. -/
  | truncatedLeb (signed : Bool) (groups : Nat)
  /-- The fifth group of a base-128 number carries bits beyond the 32nd. -/
  | lebOverflow (group : UInt8)
  /-- A base-128 number has no last group within the allowed number of groups. -/
  | unterminatedLeb (signed : Bool) (groups : Nat)
  /-- Fewer bytes remain than a read needs. -/
  | endOfStream (what : String) (position : Nat)
  /-- A declared size cannot be added to a position. -/
  | sizeOverflow (size position : Nat)
  /-- A declared size passes the end of the enclosing extent. -/
  | sizeBeyondExtent (size position limit : Nat)
  /-- An extent is closed away from its end. -/
  | stoppedAt (limit position : Nat)
  /-- An extent is closed after its end. -/
  | ranTo (limit position : Nat)
  /-- No extent is open. -/
  | noExtent (position : Nat)
  /-- A position lies past the end of the extent. -/
  | seekBeyondExtent (position limit : Nat)
  /-- A number has no representation in the slot that stores it. -/
  | doesNotFit (what : String) (value : Int)
  deriving DecidableEq

namespace ByteCause

/-- The category of a byte failure. -/
def kind (_ : ByteCause) : FaultKind :=
  .format

private def codec (signed : Bool) : String :=
  if signed then "sleb128" else "uleb128"

/-- The message of a byte failure. -/
def message : ByteCause → String
  | truncatedLeb signed groups => s!"Truncated {codec signed} after {groups} bytes"
  | lebOverflow group =>
    "uleb128 fifth group 0x" ++ Text.hexPadded 2 group.toNat ++ " carries bits beyond 32"
  | unterminatedLeb signed groups => s!"{codec signed} not terminated within {groups} bytes"
  | endOfStream what position => s!"Unexpected end of stream reading {what} at index {position}"
  | sizeOverflow size position => s!"Declared size {size} overflows at offset {position}"
  | sizeBeyondExtent size position limit =>
    s!"Declared size {size} at offset {position} exceeds enclosing extent ending at {limit}"
  | stoppedAt limit position =>
    s!"Block declared to end at {limit} but parsing stopped at {position}"
  | ranTo limit position => s!"Block declared to end at {limit} but parsing ran to {position}"
  | noExtent position => s!"No declared extent to close at offset {position}"
  | seekBeyondExtent position limit =>
    s!"Attempted to seek to {position} past end of extent {limit}"
  | doesNotFit what value => s!"{what} value {value} does not fit its slot"

end ByteCause

/-- A failure of a block tree operation. Nodes are named by their place in the arena. -/
inductive TreeCause
  /-- The node was removed or never existed. -/
  | notLive (node : Nat)
  /-- The node holds no bytes of its own. -/
  | notLeaf (node : Nat)
  /-- The node is already a child. -/
  | hasParent (node : Nat)
  /-- The node is an ancestor of its intended parent. -/
  | cyclic (node : Nat)
  /-- The node is no container. -/
  | cannotOwn (node : Nat)
  /-- The position lies beyond the children. -/
  | childBeyond (position size : Nat)
  /-- The field to write passes the end of its leaf. -/
  | patchOverrun (position size : Nat)
  /-- The field to read passes the end of its leaf. -/
  | fieldBeyond (position size : Nat)
  /-- A patch of an imported node names a node outside the imported subtree. -/
  | patchOutside (node : Nat)
  deriving DecidableEq

namespace TreeCause

/-- The category of a tree failure. -/
def kind : TreeCause → FaultKind
  | notLive _ | childBeyond _ _ => .indexOutOfRange
  | _ => .format

/-- The message of a tree failure. -/
def message : TreeCause → String
  | notLive node => s!"Block node {node} is not live"
  | notLeaf node => s!"Block node {node} is not a leaf"
  | hasParent node => s!"Block node {node} already has a parent"
  | cyclic node => s!"Block node {node} cannot become its own descendant"
  | cannotOwn node => s!"Block node {node} cannot own children"
  | childBeyond position size => s!"Child index {position} beyond {size} children"
  | patchOverrun position size => s!"Patch at {position} overruns a {size} byte header"
  | fieldBeyond position size => s!"Field at {position} beyond a {size} byte header"
  | patchOutside node => s!"Patch on block node {node} points outside the imported subtree"

end TreeCause

end DexArsc
