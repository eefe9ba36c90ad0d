/-
The kinds of section that a dex file's map lists, with the layout rules of each kind, and
the pools that an instruction operand can index.
-/

import DexArsc.Text.Quoted

namespace DexArsc.Dex

/-- The kinds of section. A code outside the format stands for itself. -/
inductive SectionKind
  | header
  | stringId
  | typeId
  | protoId
  | fieldId
  | methodId
  | classDef
  | callSiteId
  | methodHandle
  | mapList
  | typeList
  | annotationSetRefList
  | annotationSet
  | classData
  | codeItem
  | stringData
  | debugInfo
  | annotationItem
  | encodedArray
  | annotationsDirectory
  | hiddenApi
  | unknown (code : UInt16)
  deriving DecidableEq, Inhabited

namespace SectionKind

/-- The kind that a map code names. -/
def ofCode (code : UInt16) : SectionKind :=
  match code.toNat with
  | 0x0000 => .header
  | 0x0001 => .stringId
  | 0x0002 => .typeId
  | 0x0003 => .protoId
  | 0x0004 => .fieldId
  | 0x0005 => .methodId
  | 0x0006 => .classDef
  | 0x0007 => .callSiteId
  | 0x0008 => .methodHandle
  | 0x1000 => .mapList
  | 0x1001 => .typeList
  | 0x1002 => .annotationSetRefList
  | 0x1003 => .annotationSet
  | 0x2000 => .classData
  | 0x2001 => .codeItem
  | 0x2002 => .stringData
  | 0x2003 => .debugInfo
  | 0x2004 => .annotationItem
  | 0x2005 => .encodedArray
  | 0x2006 => .annotationsDirectory
  | 0xF000 => .hiddenApi
  | _ => .unknown code

/-- The map code of a kind. -/
def code : SectionKind → UInt16
  | header => 0x0000
  | stringId => 0x0001
  | typeId => 0x0002
  | protoId => 0x0003
  | fieldId => 0x0004
  | methodId => 0x0005
  | classDef => 0x0006
  | callSiteId => 0x0007
  | methodHandle => 0x0008
  | mapList => 0x1000
  | typeList => 0x1001
  | annotationSetRefList => 0x1002
  | annotationSet => 0x1003
  | classData => 0x2000
  | codeItem => 0x2001
  | stringData => 0x2002
  | debugInfo => 0x2003
  | annotationItem => 0x2004
  | encodedArray => 0x2005
  | annotationsDirectory => 0x2006
  | hiddenApi => 0xF000
  | unknown code => code

/-- The byte alignment of every item in a section of this kind. -/
def alignment : SectionKind → Nat
  | stringData | debugInfo | annotationItem | encodedArray | classData => 1
  | _ => 4

/-- An id section holds items of one size, addressed by index rather than by offset. -/
def isIdSection : SectionKind → Bool
  | stringId | typeId | protoId | fieldId | methodId | classDef | callSiteId | methodHandle => true
  | _ => false

/-- The place in a reading order that meets every item before the items that name it. -/
def readRank : SectionKind → Nat
  | header => 0
  | mapList => 1
  | stringId => 2
  | stringData => 3
  | typeId => 4
  | typeList => 5
  | protoId => 6
  | fieldId => 7
  | methodId => 8
  | classDef => 9
  | callSiteId => 10
  | methodHandle => 11
  | debugInfo => 12
  | codeItem => 13
  | classData => 14
  | _ => 15

/-- The constructor form of a kind. -/
def name : SectionKind → String
  | header => "Header"
  | stringId => "StringId"
  | typeId => "TypeId"
  | protoId => "ProtoId"
  | fieldId => "FieldId"
  | methodId => "MethodId"
  | classDef => "ClassDef"
  | callSiteId => "CallSiteId"
  | methodHandle => "MethodHandle"
  | mapList => "MapList"
  | typeList => "TypeList"
  | annotationSetRefList => "AnnotationSetRefList"
  | annotationSet => "AnnotationSet"
  | classData => "ClassData"
  | codeItem => "CodeItem"
  | stringData => "StringData"
  | debugInfo => "DebugInfo"
  | annotationItem => "Annotation"
  | encodedArray => "EncodedArray"
  | annotationsDirectory => "AnnotationsDirectory"
  | hiddenApi => "HiddenApi"
  | unknown code => "Unknown(" ++ toString code.toNat ++ ")"

/-- The title of a section in messages. A code outside the format is written in hexadecimal. -/
def title : SectionKind → String
  | unknown code => "section 0x" ++ Text.hexPadded 4 code.toNat
  | kind => kind.name

end SectionKind

/-- What an index inside an instruction names. -/
inductive OperandKind
  | string
  | type
  | field
  | method
  | callSite
  | methodProto
  | methodHandle
  deriving DecidableEq, Inhabited

namespace OperandKind

/-- The constructor form of an operand kind. -/
def name : OperandKind → String
  | string => "String"
  | type => "Type"
  | field => "Field"
  | method => "Method"
  | callSite => "CallSite"
  | methodProto => "MethodProto"
  | methodHandle => "MethodHandle"

end OperandKind

end DexArsc.Dex
