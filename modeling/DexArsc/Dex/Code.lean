/-
Code items: registers, instructions, try blocks and catch handlers.
-/

import DexArsc.Dex.Debug.Info
import DexArsc.Dex.Instruction
import DexArsc.Dex.ItemRef

namespace DexArsc.Dex

/-- An operand of an instruction as a reference. -/
structure OperandRef where
  position : Nat
  wide : Bool
  target : ItemRef
  deriving DecidableEq

/-- A run of code units with a handler, which is named by its place in the handler list. -/
structure TryBlock where
  start : UInt32
  count : UInt16
  handler : Nat
  deriving DecidableEq

/-- The addresses of handlers for exception types and for all others. -/
structure CatchHandler where
  catches : List (IndexRef TypeItem × UInt32) := []
  catchAll : Option UInt32 := none
  deriving DecidableEq

/-- The code of a method. -/
structure CodeItem where
  registers : UInt16 := 0
  ins : UInt16 := 0
  outs : UInt16 := 0
  debugInfo : OffsetRef DebugInfo := {}
  units : Array UInt16 := #[]
  references : List OperandRef := []
  tries : List TryBlock := []
  handlers : List CatchHandler := []
  deriving DecidableEq, Inhabited

namespace OperandRef

/-- The number of code units of an operand. -/
def size (ref : OperandRef) : Nat :=
  if ref.wide then 2 else 1

/-- The code units with the operand's index in its place. -/
def store (ref : OperandRef) (units : Array UInt16) : Except Fault (Array UInt16) := do
  if units.size < ref.position + ref.size then
    fail (.dex (.operandBeyond ref.position units.size))
  let index := ref.target.raw
  if ref.wide then
    return (units.setIfInBounds ref.position index.toUInt16).setIfInBounds (ref.position + 1)
      (index >>> 16).toUInt16
  else
    return units.setIfInBounds ref.position
      (← narrow16 "instruction index operand" index.toNat)

/-- The references with current indexes, and the code units with these indexes. A failure leaves
the references and the code units behind it as they were. -/
def refreshAll (ids : IdSections) :
    List OperandRef → Array UInt16 → List OperandRef × Array UInt16 × Except Fault Unit
  | [], units => ([], units, .ok ())
  | ref :: rest, units =>
    let ref := { ref with target := ref.target.refresh ids }
    match ref.store units with
    | .error fault => (ref :: rest, units, .error fault)
    | .ok units =>
      let (refs, units, result) := refreshAll ids rest units
      (ref :: refs, units, result)

end OperandRef

namespace CatchHandler

/-- The handler with its references to types replaced by their images. -/
def mapTypes (change : IndexRef TypeItem → IndexRef TypeItem) (handler : CatchHandler) :
    CatchHandler :=
  { handler with catches := handler.catches.map fun (type, address) => (change type, address) }

instance : Codec CatchHandler where
  read := do
    let size := (← Reader.signedLeb).toInt
    let one : Reader (IndexRef TypeItem × UInt32) :=
      return (.ofRaw (← Reader.leb), ← Reader.leb)
    let catches ← one.replicate size.natAbs
    let catchAll ← if size ≤ 0 then some <$> Reader.leb else pure none
    return { catches, catchAll }
  encode handler :=
    let size : Int := handler.catches.length
    Leb.encodeSigned (Int32.ofInt (if handler.catchAll.isSome then -size else size)) ++
      (handler.catches.flatMap fun (type, address) => Leb.encode type.raw ++ Leb.encode address) ++
      (handler.catchAll.map Leb.encode).getD []
  byteSize handler :=
    let size : Int := handler.catches.length
    (Leb.encodeSigned (Int32.ofInt (if handler.catchAll.isSome then -size else size))).length +
      totalSize (fun (type, address) => (Leb.encode type.raw).length + (Leb.encode address).length)
        handler.catches +
      (handler.catchAll.map fun address => (Leb.encode address).length).getD 0

end CatchHandler

/-- The operand's index in the code units. -/
def Operand.index? (units : Array UInt16) (operand : Operand) : Option UInt32 :=
  match units[operand.position]?, units[operand.position + 1]? with
  | some low, some high =>
    some (if operand.wide then low.toUInt32 ||| high.toUInt32 <<< 16 else low.toUInt32)
  | some low, none => if operand.wide then none else some low.toUInt32
  | none, _ => none

namespace CodeItem

/-- The linked operands among a list of operands. -/
def linkOperands (ids : IdSections) (units : Array UInt16) :
    List Operand → Except Fault (List OperandRef)
  | [] => .ok []
  | operand :: rest => do
    match operand.index? units with
    | none => fail (.dex (.operandOverrun operand.position))
    | some index =>
      let refs ← linkOperands ids units rest
      match ItemRef.ofOperand? operand.kind index with
      | none => return refs
      | some target =>
        return { position := operand.position, wide := operand.wide, target := target.link ids } ::
          refs

/-- The code with every operand and every exception type linked to its item. -/
def link (ids : IdSections) (code : CodeItem) : Except Fault CodeItem := do
  let references ← linkOperands ids code.units (← operands code.units)
  return { code with
    references
    handlers := code.handlers.map (CatchHandler.mapTypes (·.link ids.types)) }

/-- The code linked to its debug information. -/
def linkDebugInfo (infos : Section DebugInfo) (code : CodeItem) : CodeItem :=
  { code with debugInfo := code.debugInfo.link infos }

/-- A list with an operand inserted behind all operands at lower or equal positions. -/
def insertOperand (ref : OperandRef) (refs : List OperandRef) : List OperandRef :=
  (refs ++ [ref]).mergeSort fun a b => a.position ≤ b.position

/-- The operand at a position is pointed at another item of its pool. -/
def bind (code : CodeItem) (position : Nat) (target : ItemRef) : Except Fault CodeItem := do
  match (← operands code.units).find? (·.position == position) with
  | none => fail (.dex (.noOperand position))
  | some operand =>
    if operand.kind ≠ target.operandKind then
      fail (.dex (.operandMismatch position operand.kind target.operandKind))
    let ref : OperandRef := { position, wide := operand.wide, target }
    let references := match code.references.findIdx? (·.position == position) with
      | some index => code.references.set index ref
      | none => insertOperand ref code.references
    return { code with references }

/-- The code receives the current indexes of its operands and exception types and the current
offset of its debug information. -/
def refresh (ids : IdSections) (infos : Section DebugInfo) : Step CodeItem Unit := do
  let code ← get
  let (references, units, result) := OperandRef.refreshAll ids code.references code.units
  set { code with references, units }
  result
  modify fun code =>
    { code with
      handlers := code.handlers.map (CatchHandler.mapTypes (·.refresh ids.types))
      debugInfo := code.debugInfo.refresh infos }

/-- The bytes of handlers behind the given number of bytes, with the offset of each handler. -/
def encodeHandlers : (offset : Nat) → List CatchHandler → List UInt8 × List UInt16
  | _, [] => ([], [])
  | offset, handler :: rest =>
    let bytes := encode handler
    let (more, offsets) := encodeHandlers (offset + bytes.length) rest
    (bytes ++ more, UInt16.ofNat offset :: offsets)

/-- Reading yields `count` handlers with their offsets from a base. -/
def readHandlers (base : Nat) : (count : Nat) → Reader (List (Nat × CatchHandler))
  | 0 => return []
  | count + 1 => do
    let position ← Reader.position
    let handler ← Codec.read
    return (position - base, handler) :: (← readHandlers base count)

/-- A try block as it is written: its start, its length and the offset of its handler. -/
structure RawTry where
  start : UInt32
  count : UInt16
  offset : UInt16

/-- Reading yields a try block as it is written. -/
def readTry : Reader RawTry :=
  return { start := ← Reader.word32, count := ← Reader.word16, offset := ← Reader.word16 }

/-- The try block whose handler starts at the written offset. -/
def resolveTry (offsets : List Nat) (block : RawTry) : Except Fault TryBlock :=
  match offsets.findIdx? (· == block.offset.toNat) with
  | some handler => .ok { start := block.start, count := block.count, handler }
  | none => fail (.dex (.noHandler block.start.toNat block.offset.toNat))

/-- The try blocks whose handlers start at the written offsets. -/
def resolveTries (offsets : List Nat) (blocks : List RawTry) : Except Fault (List TryBlock) :=
  blocks.mapM (resolveTry offsets)

/-- Reading yields `count` try blocks and their handlers, behind an odd number of code units
with a padding unit. -/
def readTries (units count : Nat) : Reader (List TryBlock × List CatchHandler) := do
  if count = 0 then
    return ([], [])
  if units % 2 = 1 then
    let _ ← Reader.word16
  let blocks ← readTry.replicate count
  let base ← Reader.position
  let handlers ← readHandlers base (← Reader.leb).toNat
  let tries ← resolveTries (handlers.map Prod.fst) blocks
  return (tries, handlers.map Prod.snd)

/-- The bytes of try blocks and handlers. Without a try block there are none. -/
def tryBytes (code : CodeItem) : List UInt8 :=
  if code.tries.isEmpty then
    []
  else
    let count := Leb.encode (UInt32.ofNat code.handlers.length)
    let (handlers, offsets) := encodeHandlers count.length code.handlers
    (if code.units.size % 2 = 1 then Bytes.ofWord16 0 else []) ++
      (code.tries.flatMap fun block =>
        Bytes.ofWord32 block.start ++ Bytes.ofWord16 block.count ++
          Bytes.ofWord16 (offsets[block.handler]?.getD 0)) ++
      count ++ handlers

/-- The number of bytes that writing try blocks and handlers counts. -/
def triesSize (code : CodeItem) : Nat :=
  if code.tries.isEmpty then
    0
  else
    let count := Leb.encode (UInt32.ofNat code.handlers.length)
    (if code.units.size % 2 = 1 then 2 else 0) + totalSize (fun _ => 4 + 2 + 2) code.tries +
      (count ++ (encodeHandlers count.length code.handlers).1).length

instance : Codec CodeItem where
  read := do
    let registers ← Reader.word16
    let ins ← Reader.word16
    let outs ← Reader.word16
    let tryCount ← Reader.word16
    let debugInfo ← readOffset
    let unitCount ← Reader.word32
    let remaining ← Reader.remaining
    if remaining < unitCount.toNat * 2 then
      fail (.dex (.codeTooLong unitCount.toNat remaining))
    let units ← Reader.word16.replicate unitCount.toNat
    let (tries, handlers) ← readTries unitCount.toNat tryCount.toNat
    return { registers, ins, outs, debugInfo, units := units.toArray, tries, handlers }
  encode code :=
    Bytes.ofWord16 code.registers ++ Bytes.ofWord16 code.ins ++ Bytes.ofWord16 code.outs ++
      Bytes.ofWord16 (UInt16.ofNat code.tries.length) ++ code.debugInfo.bytes ++
      Bytes.ofWord32 (UInt32.ofNat code.units.size) ++
      code.units.toList.flatMap Bytes.ofWord16 ++ code.tryBytes
  byteSize code :=
    2 + 2 + 2 + 2 + 4 + 4 + totalSize (fun _ => 2) code.units.toList + code.triesSize

end CodeItem
end DexArsc.Dex
