/-
The ways in which reading, editing or writing a dex file fails.
-/

import DexArsc.Fault.Basic
import DexArsc.Dex.Kind

namespace DexArsc

open Dex (OperandKind SectionKind)
open Text (bracketed hex hexPadded)

/-- The parts of a key's grammar. -/
inductive KeyPart
  | typeDescriptor
  | memberName
  | prototype
  | fieldReference
  | methodReference
  | parameterType
  | fieldType
  deriving DecidableEq

/-- The words for a part of the key grammar. -/
def KeyPart.title : KeyPart → String
  | typeDescriptor => "type descriptor"
  | memberName => "member name"
  | prototype => "prototype"
  | fieldReference => "field reference"
  | methodReference => "method reference"
  | parameterType => "parameter type"
  | fieldType => "field type"

/-- A failure of a dex operation. Items are named by their slots, keys by their quoted text. -/
inductive DexCause
  /-- An item is inserted beyond the end of its section. -/
  | insertBeyond (index size : Nat) (area : SectionKind)
  /-- A section has no item at an index. -/
  | indexBeyond (index : Nat) (area : SectionKind) (size : Nat)
  /-- An item is not in its section. -/
  | notInSection (slot : Nat) (area : SectionKind)
  /-- An item is moved beyond the end of its section. -/
  | moveBeyond (index size : Nat) (area : SectionKind)
  /-- A new order repeats an item or names one outside the section. -/
  | orderRepeats (area : SectionKind) (slot : Nat)
  /-- A new order has the wrong number of items. -/
  | orderCount (area : SectionKind) (given size : Nat)
  /-- A pool is searched while its keys are out of date. -/
  | staleKeys (area : SectionKind) (key : String)
  /-- Another item already has the key. -/
  | keyTaken (key : String) (area : SectionKind)
  /-- Two items have the same key. -/
  | duplicateKey (key : String) (area : SectionKind)
  /-- A text does not follow the key grammar. -/
  | malformedKey (part : KeyPart) (text : String)
  /-- A payload's size fields pass the end of the instructions. -/
  | payloadBeyond (position size : Nat)
  /-- An instruction passes the end of the instructions. -/
  | instructionOverrun (unit : UInt16) (position size : Nat)
  /-- Too few bytes remain for a file header. -/
  | shortHeader (remaining : Nat)
  /-- A file starts with another magic value. -/
  | invalidMagic (magic : List UInt8)
  /-- A file is in big-endian order. -/
  | bigEndian
  /-- A header has an invalid endian tag. -/
  | invalidEndianTag (tag : UInt32)
  /-- A map list declares more entries than its bytes can hold. -/
  | mapTooLong (size remaining : Nat)
  /-- A map list names a section twice. -/
  | duplicateMapEntry (area : SectionKind)
  /-- An operand's second unit passes the end of the instructions. -/
  | operandOverrun (position : Nat)
  /-- No operand begins at a code unit. -/
  | noOperand (position : Nat)
  /-- An operand takes an item of another kind. -/
  | operandMismatch (position : Nat) (expected given : OperandKind)
  /-- An operand lies beyond the instructions. -/
  | operandBeyond (position size : Nat)
  /-- A code item declares more code units than its bytes can hold. -/
  | codeTooLong (size remaining : Nat)
  /-- A try block names no handler. -/
  | noHandler (start offset : Nat)
  /-- A debug element precedes the one before it. -/
  | elementPrecedes (address last : Nat)
  /-- An index slot holds no bytes. -/
  | emptyValue
  /-- Encoded values are nested too deeply. -/
  | nestedTooDeep (limit : Nat)
  /-- An encoded value has an unknown type. -/
  | unknownValue (type position : Nat)
  /-- An encoded index is wider than an index can be. -/
  | wideIndex (position width : Nat)
  /-- The header's file size differs from the supplied bytes. -/
  | fileSizeMismatch (declared size : Nat)
  /-- A file has no map list. -/
  | noMapList
  /-- A section kind outside the format is refused. -/
  | unknownSection (code : UInt16)
  /-- A section begins outside the file. -/
  | sectionOutside (area : SectionKind) (offset : Nat)
  /-- The header and the map list count different numbers of items. -/
  | countMismatch (declared : Nat) (area : SectionKind) (mapped : Nat)
  /-- A string is not in the file. -/
  | noString (slot : Nat)
  /-- A type is not in the file. -/
  | noType (slot : Nat)
  /-- A class is not in the file. -/
  | noClass (slot : Nat)
  /-- A descriptor's new text would change the shorties of methods. -/
  | shortyOfDescriptor (old new : String)
  /-- A type's new descriptor would change the shorties of methods. -/
  | shortyOfType (old new : String)
  /-- A type with this descriptor already exists. -/
  | typeExists (descriptor : String)
  /-- A descriptor names no class. -/
  | notClass (descriptor : String)
  /-- A class is already defined. -/
  | classDefined (descriptor : String)
  /-- A field is already a member of its class. -/
  | fieldMember (key : String)
  /-- A method is already a member of its class. -/
  | methodMember (key : String)
  /-- A section kind has no layout rule. -/
  | noLayoutRule (area : SectionKind)
  /-- Offsets still change after the last layout pass. -/
  | unsettledLayout (passes : Nat)
  /-- A section kind has no writer. -/
  | noWriter (area : SectionKind)
  /-- A section would overlap bytes already written. -/
  | layoutOverlap (offset written : Nat)
  deriving DecidableEq

namespace DexCause

/-- The category of a dex failure. -/
def kind : DexCause → FaultKind
  | insertBeyond .. | indexBeyond .. | notInSection .. | moveBeyond .. | orderRepeats ..
  | orderCount .. | noOperand .. | operandBeyond .. | noString .. | noType .. | noClass .. =>
    .indexOutOfRange
  | staleKeys .. | keyTaken .. | duplicateKey .. | malformedKey .. | operandMismatch ..
  | shortyOfDescriptor .. | shortyOfType .. | typeExists .. | notClass .. | classDefined ..
  | fieldMember .. | methodMember .. => .invalidKey
  | bigEndian | unknownSection .. => .unsupportedFormat
  | _ => .format

/-- The message of a dex failure. -/
def message : DexCause → String
  | insertBeyond index size area =>
    s!"Insert at {index} beyond {size} items of {area.title}"
  | indexBeyond index area size =>
    s!"Index {index} out of range for {area.title} with {size} items"
  | notInSection slot area => s!"Item Id({slot}) is not in {area.title}"
  | moveBeyond index size area => s!"Move to {index} beyond {size} items of {area.title}"
  | orderRepeats area slot =>
    s!"Reorder of {area.title} names Id({slot}) twice or not at all"
  | orderCount area given size =>
    s!"Reorder of {area.title} has {given} ids for {size} items"
  | staleKeys area key =>
    s!"Key map of {area.title} must be rebuilt before lookup of {key}"
  | keyTaken key area => s!"{key} already exists in {area.title}"
  | duplicateKey key area => s!"Duplicate key {key} in {area.title}"
  | malformedKey part text => "Malformed " ++ part.title ++ " '" ++ text ++ "'"
  | payloadBeyond position size =>
    s!"Payload at {position} runs past the end of {size} code units"
  | instructionOverrun unit position size =>
    s!"Instruction 0x{hexPadded 4 unit.toNat} at {position} overruns {size} code units"
  | shortHeader remaining => s!"Not enough bytes for header: {remaining}"
  | invalidMagic magic =>
    let digits := bracketed (magic.map fun byte => hexPadded 2 byte.toNat)
    s!"Invalid magic value {digits}"
  | bigEndian => "Big-endian dex files are not supported"
  | invalidEndianTag tag => s!"Invalid endian tag 0x{hexPadded 8 tag.toNat}"
  | mapTooLong size remaining =>
    s!"Map list declares {size} entries with {remaining} bytes left"
  | duplicateMapEntry area => s!"Duplicate map entry for {area.title}"
  | operandOverrun position => s!"Operand at code unit {position} runs past the instructions"
  | noOperand position => s!"No pool index operand at code unit {position}"
  | operandMismatch position expected given =>
    s!"Operand at code unit {position} takes {expected.name}, not {given.name}"
  | operandBeyond position size =>
    s!"Operand at code unit {position} lies past the {size} code units of the item"
  | codeTooLong size remaining =>
    s!"Code item declares {size} code units with {remaining} bytes left"
  | noHandler start offset =>
    s!"Try block at 0x{hex start} names handler offset {offset} that starts no handler"
  | elementPrecedes address last =>
    s!"Debug element at 0x{hex address} precedes last element at 0x{hex last}"
  | emptyValue => "Empty encoded value slot"
  | nestedTooDeep limit => s!"Encoded values nested deeper than {limit}"
  | unknownValue type position =>
    s!"Unknown encoded value type 0x{hexPadded 2 type} at +0x{hex position}"
  | wideIndex position width => s!"Index value at +0x{hex position} is {width} bytes wide"
  | fileSizeMismatch declared size => s!"Header declares {declared} bytes but {size} were supplied"
  | noMapList => "Dex file has no map list"
  | unknownSection code => s!"Unknown map entry type 0x{hexPadded 4 code.toNat}"
  | sectionOutside area offset => s!"{area.title} at 0x{hex offset} lies outside the file"
  | countMismatch declared area mapped =>
    s!"Header counts {declared} {area.title} items but the map lists {mapped}"
  | noString slot => s!"String Id({slot}) is not in this file"
  | noType slot => s!"Type Id({slot}) is not in this file"
  | noClass slot => s!"Class Id({slot}) is not in this file"
  | shortyOfDescriptor old new =>
    s!"Renaming type descriptor {old} to {new} would change method shorties"
  | shortyOfType old new => s!"Renaming {old} to {new} would change method shorties"
  | typeExists descriptor => s!"Type {descriptor} already exists"
  | notClass descriptor => s!"{descriptor} is not a class descriptor"
  | classDefined descriptor => s!"Class {descriptor} is already defined"
  | fieldMember key => s!"Field {key} is already a member"
  | methodMember key => s!"Method {key} is already a member"
  | noLayoutRule area => s!"{area.title} has no layout rule"
  | unsettledLayout passes => s!"Layout did not settle after {passes} passes"
  | noWriter area => s!"{area.title} has no writer"
  | layoutOverlap offset written =>
    s!"Layout overlap at 0x{hex offset}, 0x{hex written} bytes already written"

end DexCause
end DexArsc
