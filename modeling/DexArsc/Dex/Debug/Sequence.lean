/-
Debug sequences. An untouched sequence is written back step by step. The first edit drops the
steps of the machine, which are computed anew from the visible elements when the sequence is
written. An element is found at an address by bisection.
-/

import DexArsc.Dex.Debug.Element

namespace DexArsc

/-- The part of an interval of `size` positions from `base` on that bisection keeps last. The
upper half is kept when its first position passes. -/
def bisectFrom (passes : Nat → Bool) (base size : Nat) : Nat :=
  if size ≤ 1 then
    base
  else
    let half := size / 2
    bisectFrom passes (if passes (base + half) then base + half else base) (size - half)
termination_by size
decreasing_by omega

/-- The number of positions below `size` that pass, where those that pass come first. -/
def bisect (passes : Nat → Bool) (size : Nat) : Nat :=
  if size = 0 then
    0
  else
    let base := bisectFrom passes 0 size
    if passes base then base + 1 else base

end DexArsc

namespace DexArsc.Dex

/-- The line before the first element, and the elements. A dirty sequence was edited. -/
structure DebugSequence where
  start : UInt32 := 0
  elements : List DebugElement := []
  dirty : Bool := false
  deriving DecidableEq, Inhabited

/-- The line with a step added, modulo `2 ^ 32`. -/
def stepLine (line : UInt32) (step : Int) : UInt32 :=
  UInt32.ofNat ((line.toNat + step) % UInt32.size).toNat

/-- Reading yields the element of an opcode, for the state before it. -/
def readElement (address line : UInt32) (opcode : UInt8) : Reader DebugElement := do
  match opcode.toNat with
  | 0x01 =>
    let step ← Reader.leb
    return { address := address + step, line, data := .advanceAddress step }
  | 0x02 =>
    let step ← Reader.signedLeb
    return { address, line := stepLine line step.toInt, data := .advanceLine step }
  | 0x03 =>
    let data := .startLocal (← Reader.leb) (← readOptionalIndex) (← readOptionalIndex) none
    return { address, line, data }
  | 0x04 =>
    let data := .startLocal (← Reader.leb) (← readOptionalIndex) (← readOptionalIndex)
      (some (← readOptionalIndex))
    return { address, line, data }
  | 0x05 => return { address, line, data := .endLocal (← Reader.leb) }
  | 0x06 => return { address, line, data := .restartLocal (← Reader.leb) }
  | 0x07 => return { address, line, data := .prologueEnd }
  | 0x08 => return { address, line, data := .epilogueBegin }
  | 0x09 => return { address, line, data := .setFile (← readOptionalIndex) }
  | _ =>
    let special := opcode - Special.firstOpcode
    return {
      address := address + Special.addresses special
      line := stepLine line (Special.lines special)
      data := .lineEntry special }

/-- Reading yields at most `fuel` elements up to the end opcode, for the state before them. -/
def readElements : (fuel : Nat) → (address line : UInt32) → Reader (List DebugElement)
  | 0, _, _ => return []
  | fuel + 1, address, line => do
    let opcode ← Reader.byte
    if opcode = 0 then
      return []
    let element ← readElement address line opcode
    return element :: (← readElements fuel element.address element.line)

/-- The bytes of an element. -/
def ElementData.bytes : ElementData → List UInt8
  | advanceAddress step => 0x01 :: Leb.encode step
  | advanceLine step => 0x02 :: Leb.encodeSigned step
  | startLocal register name type none =>
    0x03 :: (Leb.encode register ++ name.optionalBytes ++ type.optionalBytes)
  | startLocal register name type (some signature) =>
    0x04 :: (Leb.encode register ++ name.optionalBytes ++ type.optionalBytes ++
      signature.optionalBytes)
  | endLocal register => 0x05 :: Leb.encode register
  | restartLocal register => 0x06 :: Leb.encode register
  | prologueEnd => [0x07]
  | epilogueBegin => [0x08]
  | setFile name => 0x09 :: name.optionalBytes
  | lineEntry special => [Special.firstOpcode + special]

/-- The number of bytes that writing an element counts. -/
def ElementData.byteSize : ElementData → Nat
  | advanceAddress step => 1 + (Leb.encode step).length
  | advanceLine step => 1 + (Leb.encodeSigned step).length
  | startLocal register name type none =>
    1 + (Leb.encode register).length + name.optionalBytes.length + type.optionalBytes.length
  | startLocal register name type (some signature) =>
    1 + (Leb.encode register).length + name.optionalBytes.length + type.optionalBytes.length +
      signature.optionalBytes.length
  | endLocal register => 1 + (Leb.encode register).length
  | restartLocal register => 1 + (Leb.encode register).length
  | prologueEnd => 1
  | epilogueBegin => 1
  | setFile name => 1 + name.optionalBytes.length
  | lineEntry _ => 1

/-- The bytes of an address step and a line step that end in an entry of the line table. A step
that no special opcode can take is taken before it. -/
def lineStepBytes (addresses : UInt32) (lines : Int) : List UInt8 :=
  let (lineAdvance, lines) :=
    if Special.hasLineStep lines then ([], lines)
    else (ElementData.bytes (.advanceLine (Int32.ofInt lines)), 0)
  let (addressAdvance, addresses) :=
    if Special.number addresses lines ≤ Special.greatest then ([], addresses)
    else (ElementData.bytes (.advanceAddress addresses), 0)
  lineAdvance ++ addressAdvance ++
    ElementData.bytes (.lineEntry (UInt8.ofNat (Special.number addresses lines).toNat))

/-- The number of bytes that writing an address step and a line step counts. -/
def lineStepSize (addresses : UInt32) (lines : Int) : Nat :=
  let (lineAdvance, lines) :=
    if Special.hasLineStep lines then (0, lines)
    else (1 + (Leb.encodeSigned (Int32.ofInt lines)).length, 0)
  let addressAdvance :=
    if Special.number addresses lines ≤ Special.greatest then 0 else 1 + (Leb.encode addresses).length
  lineAdvance + addressAdvance + 1

/-- The bytes of visible elements with the steps between them, for the state before them. -/
def visibleBytes : (address line : UInt32) → List DebugElement → List UInt8
  | _, _, [] => []
  | address, line, element :: rest =>
    match element.data with
    | .lineEntry _ =>
      let lines : Int := element.line.toNat - line.toNat
      let addresses := if address ≤ element.address then element.address - address else 0
      lineStepBytes addresses lines ++ visibleBytes (max address element.address) element.line rest
    | data =>
      let advance :=
        if address < element.address then
          ElementData.bytes (.advanceAddress (element.address - address))
        else
          []
      advance ++ data.bytes ++ visibleBytes (max address element.address) line rest

/-- The number of bytes that writing visible elements counts, for the state before them. -/
def visibleSize : (address line : UInt32) → List DebugElement → Nat
  | _, _, [] => 0
  | address, line, element :: rest =>
    match element.data with
    | .lineEntry _ =>
      let lines : Int := element.line.toNat - line.toNat
      let addresses := if address ≤ element.address then element.address - address else 0
      lineStepSize addresses lines + visibleSize (max address element.address) element.line rest
    | data =>
      let advance :=
        if address < element.address then 1 + (Leb.encode (element.address - address)).length else 0
      advance + data.byteSize + visibleSize (max address element.address) line rest

/-- The first elements of two lists are the same events, up to the end of the second list. -/
def opensWith : List DebugElement → List DebugElement → Bool
  | _, [] => true
  | [], _ :: _ => false
  | a :: as, b :: bs => a.sameEvent b && opensWith as bs

namespace DebugSequence

/-- A sequence without elements, which is written from its visible elements. -/
def make (start : UInt32) : DebugSequence :=
  { start, dirty := true }

/-- Reading yields a sequence that starts at a line. -/
def read (start : UInt32) : Reader DebugSequence := do
  return { start, elements := ← readElements ((← Reader.remaining) + 1) 0 start }

/-- The visible elements. -/
def visible (sequence : DebugSequence) : List DebugElement :=
  sequence.elements.filter DebugElement.isVisible

/-- The entries of the line table. -/
def lineEntries (sequence : DebugSequence) : List DebugElement :=
  sequence.elements.filter (·.kind == .lineEntry)

/-- The addresses and lines of the line table. -/
def positions (sequence : DebugSequence) : List (UInt32 × UInt32) :=
  sequence.lineEntries.map fun element => (element.address, element.line)

/-- The line before the first element as it is written. An edited sequence starts at its first
entry of the line table. -/
def lineStart (sequence : DebugSequence) : UInt32 :=
  if sequence.dirty then
    match sequence.lineEntries with
    | first :: _ => first.line
    | [] => sequence.start
  else
    sequence.start

/-- The sequence ready for an edit, without the steps of the machine. -/
def edited (sequence : DebugSequence) : DebugSequence :=
  if sequence.dirty then sequence
  else { sequence with elements := sequence.visible, dirty := true }

/-- The sequence moved to another starting line. Every element's line moves by the same amount
and stays within 32 bits. -/
def setLineStart (sequence : DebugSequence) (line : UInt32) : DebugSequence :=
  let sequence := sequence.edited
  let shift : Int := line.toNat - sequence.lineStart.toNat
  let move (element : DebugElement) : DebugElement :=
    { element with
      line := UInt32.ofNat (max 0 (min (element.line.toNat + shift) 0xFFFFFFFF)).toNat }
  { sequence with start := line, elements := sequence.elements.map move }

/-- The line of the last entry of the line table before an element, or zero. -/
def lineBefore (sequence : DebugSequence) (index : Nat) : UInt32 :=
  match ((sequence.elements.take index).filter (·.kind == .lineEntry)).getLast? with
  | some element => element.line
  | none => 0

/-- The first element of a kind at an address, or else a new one behind all elements up to that
address. The result is the element's index. -/
def findOrInsert (kind : ElementKind) (address : UInt32) (sequence : DebugSequence) :
    Nat × DebugSequence :=
  let sequence := sequence.edited
  match sequence.elements.findIdx? fun e => e.address == address && e.kind == kind with
  | some index => (index, sequence)
  | none =>
    let addresses := (sequence.elements.map DebugElement.address).toArray
    let index := bisect (fun i => addresses[i]?.any (· ≤ address)) addresses.size
    let element := { address, line := sequence.lineBefore index, data := .plain kind }
    (index, { sequence with elements := sequence.elements.insertIdx index element })

/-- The element at an index is replaced by its image. -/
def modifyElement (index : Nat) (change : DebugElement → DebugElement)
    (sequence : DebugSequence) : DebugSequence :=
  let sequence := sequence.edited
  { sequence with elements := sequence.elements.modify index change }

/-- The element at an index receives other contents, and another address and line when they are
given. The result is its kind. -/
def replaceElement (index : Nat) (address line : Option UInt32) (data : ElementData)
    (sequence : DebugSequence) : Option ElementKind × DebugSequence :=
  let sequence := sequence.modifyElement index fun element =>
    { address := address.getD element.address, line := line.getD element.line, data }
  (sequence.elements[index]?.map DebugElement.kind, sequence)

/-- The entry of the line table at an address receives a line. The result is its index. -/
def setLineAt (address line : UInt32) (sequence : DebugSequence) : Nat × DebugSequence :=
  let (index, sequence) := sequence.findOrInsert .lineEntry address
  (index, sequence.modifyElement index fun element => { element with line })

/-- An element becomes the last one, unless it precedes the last one. -/
def push (element : DebugElement) : Step DebugSequence Unit := do
  modify edited
  if let some last := (← get).elements.getLast? then
    if element.address < last.address then
      fail (.dex (.elementPrecedes element.address.toNat last.address.toNat))
  modify fun sequence => { sequence with elements := sequence.elements ++ [element] }

/-- The elements that pass a test are removed. The result is their number. -/
def removeIf (test : DebugElement → Bool) (sequence : DebugSequence) : Nat × DebugSequence :=
  let sequence := sequence.edited
  let elements := sequence.elements.filter fun element => !test element
  (sequence.elements.length - elements.length, { sequence with elements })

/-- The elements with addresses from one up to another are removed. The result is their number. -/
def removeBetween (first stop : UInt32) (sequence : DebugSequence) : Nat × DebugSequence :=
  sequence.removeIf fun element => first ≤ element.address && element.address < stop

/-- All elements are removed. -/
def clear (sequence : DebugSequence) : DebugSequence :=
  { sequence with elements := [], dirty := true }

/-- The visible elements of two sequences are the same events. -/
def sameEvents (a b : DebugSequence) : Bool :=
  a.visible.length == b.visible.length && opensWith a.visible b.visible

/-- The visible elements of a sequence start with those of another one. -/
def startsWith (a b : DebugSequence) : Bool :=
  opensWith a.visible b.visible

/-- The sequence with its references replaced by their images. -/
def mapRefs (string : IndexRef StringItem → IndexRef StringItem)
    (type : IndexRef TypeItem → IndexRef TypeItem) (sequence : DebugSequence) : DebugSequence :=
  { sequence with
    elements := sequence.elements.map fun element =>
      { element with data := element.data.mapRefs string type } }

/-- The bytes of a sequence, with the end opcode. -/
def bytes (sequence : DebugSequence) : List UInt8 :=
  let elements :=
    if sequence.dirty then visibleBytes 0 sequence.lineStart sequence.visible
    else sequence.elements.flatMap fun element => element.data.bytes
  elements ++ [0x00]

/-- The number of bytes that writing a sequence counts. -/
def byteSize (sequence : DebugSequence) : Nat :=
  let elements :=
    if sequence.dirty then visibleSize 0 sequence.lineStart sequence.visible
    else totalSize (fun element => element.data.byteSize) sequence.elements
  elements + 1

end DebugSequence
end DexArsc.Dex
