/-
Elements of debug sequences. A sequence is a program for a machine with an address and a line,
and each element carries the state that the machine has reached with it.
-/

import DexArsc.Dex.Item

namespace DexArsc.Dex

/-- The kinds of debug element. -/
inductive ElementKind
  | advanceAddress
  | advanceLine
  | startLocal
  | endLocal
  | restartLocal
  | prologueEnd
  | epilogueBegin
  | setFile
  | lineEntry
  deriving DecidableEq, Inhabited

namespace ElementKind

/-- All kinds of debug element. -/
def all : List ElementKind :=
  [advanceAddress, advanceLine, startLocal, endLocal, restartLocal, prologueEnd, epilogueBegin,
    setFile, lineEntry]

/-- The name of a kind. -/
def name : ElementKind → String
  | advanceAddress => "AdvancePc"
  | advanceLine => "AdvanceLine"
  | startLocal => "StartLocal"
  | endLocal => "EndLocal"
  | restartLocal => "RestartLocal"
  | prologueEnd => "PrologueEnd"
  | epilogueBegin => "EpilogueBegin"
  | setFile => "SetFile"
  | lineEntry => "LineNumber"

/-- The kind with a name. -/
def ofName? (name : String) : Option ElementKind :=
  all.find? (·.name == name)

end ElementKind

/-- What a debug element does. -/
inductive ElementData
  /-- The address grows. -/
  | advanceAddress (step : UInt32)
  /-- The line changes. -/
  | advanceLine (step : Int32)
  /-- A register becomes a local variable. -/
  | startLocal (register : UInt32) (name : IndexRef StringItem) (type : IndexRef TypeItem)
      (signature : Option (IndexRef StringItem))
  /-- A local variable ends. -/
  | endLocal (register : UInt32)
  /-- A local variable lives again. -/
  | restartLocal (register : UInt32)
  /-- The prologue ends. -/
  | prologueEnd
  /-- The epilogue begins. -/
  | epilogueBegin
  /-- The following lines belong to another source file. -/
  | setFile (name : IndexRef StringItem)
  /-- The address and the line change and become an entry of the line table. The number is the
  special opcode as it was read, counted from the first one. -/
  | lineEntry (special : UInt8)
  deriving DecidableEq

namespace ElementData

/-- The kind of an element. -/
def kind : ElementData → ElementKind
  | advanceAddress _ => .advanceAddress
  | advanceLine _ => .advanceLine
  | startLocal .. => .startLocal
  | endLocal _ => .endLocal
  | restartLocal _ => .restartLocal
  | prologueEnd => .prologueEnd
  | epilogueBegin => .epilogueBegin
  | setFile _ => .setFile
  | lineEntry _ => .lineEntry

/-- The plainest element of a kind, without a step, a register or a name. -/
def plain : ElementKind → ElementData
  | .advanceAddress => advanceAddress 0
  | .advanceLine => advanceLine 0
  | .startLocal => startLocal 0 {} {} none
  | .endLocal => endLocal 0
  | .restartLocal => restartLocal 0
  | .prologueEnd => prologueEnd
  | .epilogueBegin => epilogueBegin
  | .setFile => setFile {}
  | .lineEntry => lineEntry 0

/-- The element with its references replaced by their images. -/
def mapRefs (string : IndexRef StringItem → IndexRef StringItem)
    (type : IndexRef TypeItem → IndexRef TypeItem) : ElementData → ElementData
  | startLocal register name of signature =>
    startLocal register (string name) (type of) (signature.map string)
  | setFile name => setFile (string name)
  | data => data

end ElementData

/-- An index slot that is stored plus one, so that the sentinel takes a single zero. -/
def readOptionalIndex {α : Type} : Reader (IndexRef α) :=
  return .ofRaw ((← Reader.leb) - 1)

/-- The bytes of an index slot that is stored plus one. -/
def IndexRef.optionalBytes {α : Type} (ref : IndexRef α) : List UInt8 :=
  Leb.encode (ref.raw + 1)

namespace Special

/-- The opcode of the first special step. -/
def firstOpcode : UInt8 := 0x0a

/-- The least line step of a special opcode. -/
def lineBase : Int := -4

/-- The number of line steps of a special opcode. -/
def lineRange : Int := 15

/-- The greatest special step. -/
def greatest : Int := 245

/-- A line step that special opcodes can take. -/
def hasLineStep (lines : Int) : Bool :=
  lineBase ≤ lines && lines < lineBase + lineRange

/-- The number of an address step and a line step, before the check that one byte can hold it. -/
def number (addresses : UInt32) (lines : Int) : Int :=
  addresses.toNat * lineRange + (lines - lineBase)

/-- The special step with an address step and a line step, when one byte can hold it. -/
def encode? (addresses : UInt32) (lines : Int) : Option UInt8 :=
  if hasLineStep lines && number addresses lines ≤ greatest then
    some (UInt8.ofNat (number addresses lines).toNat)
  else
    none

/-- The address step of a special step. -/
def addresses (special : UInt8) : UInt32 :=
  special.toUInt32 / 15

/-- The line step of a special step. -/
def lines (special : UInt8) : Int :=
  special.toNat % lineRange + lineBase

end Special

/-- A debug element with the state after it. -/
structure DebugElement where
  address : UInt32
  line : UInt32
  data : ElementData
  deriving DecidableEq

/-- Linked references name the same target when they name the same item, and references that
are not linked when they hold the same index. -/
def sameTarget {α : Type} (a b : IndexRef α) : Bool :=
  match a.item, b.item with
  | some a, some b => a == b
  | none, none => a.raw == b.raw
  | _, _ => false

namespace DebugElement

/-- The kind of an element. -/
def kind (element : DebugElement) : ElementKind :=
  element.data.kind

/-- Steps of the machine are bookkeeping, and all other elements are visible. -/
def isVisible (element : DebugElement) : Bool :=
  element.kind != .advanceAddress && element.kind != .advanceLine

/-- Elements are the same event when they do the same at the same address. -/
def sameEvent (a b : DebugElement) : Bool :=
  a.address == b.address &&
    match a.data, b.data with
    | .lineEntry _, .lineEntry _ => a.line == b.line
    | .startLocal registerA nameA typeA signatureA, .startLocal registerB nameB typeB signatureB =>
      registerA == registerB && sameTarget nameA nameB && sameTarget typeA typeB &&
        match signatureA, signatureB with
        | some a, some b => sameTarget a b
        | none, none => true
        | _, _ => false
    | .setFile nameA, .setFile nameB => sameTarget nameA nameB
    | dataA, dataB => dataA == dataB

end DebugElement
end DexArsc.Dex
