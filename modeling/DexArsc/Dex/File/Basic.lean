/-
Dex files: pools of ids, sections of data, and the order of all sections in the file. Every item
names others by references, so the sections can change while the items keep their meaning.
-/

import DexArsc.Dex.Class
import DexArsc.Dex.Header
import DexArsc.Dex.Key
import DexArsc.Dex.MapList
import DexArsc.Dex.Pool
import DexArsc.Dex.RawSection

namespace DexArsc.Dex

/-- A section of a file: a modelled one by its kind, or one that is kept as bytes by its place
among those. -/
inductive LayoutEntry
  | modelled (kind : SectionKind)
  | raw (index : Nat)
  deriving DecidableEq

/-- The sections that a file models, in the order of a file built from scratch. -/
def defaultLayout : List SectionKind :=
  [.header, .stringId, .typeId, .protoId, .fieldId, .methodId, .classDef, .codeItem, .debugInfo,
    .typeList, .stringData, .classData, .mapList]

/-- A section that is not modelled is kept as bytes. -/
def SectionKind.isModelled (kind : SectionKind) : Bool :=
  defaultLayout.contains kind

/-- A dex file. -/
structure DexFile where
  header : Header := {}
  /-- The map list as of the last read or layout. -/
  map : MapList := {}
  strings : Pool StringData StringItem := .empty .stringId
  types : Pool String TypeItem := .empty .typeId
  protos : Pool Prototype ProtoItem := .empty .protoId
  fields : Pool FieldKey FieldItem := .empty .fieldId
  methods : Pool MethodKey MethodItem := .empty .methodId
  classDefs : Section ClassDef := { kind := .classDef }
  typeLists : Section TypeList := { kind := .typeList }
  classData : Section ClassData := { kind := .classData }
  codes : Section CodeItem := { kind := .codeItem }
  debugInfos : Section DebugInfo := { kind := .debugInfo }
  /-- The sections that are kept as bytes. -/
  raws : List RawSection := []
  layout : List LayoutEntry := defaultLayout.map .modelled
  /-- The number of class definitions as of the last read. -/
  readClasses : Nat := 0

namespace DexFile

/-- The sections that references address by index. -/
def ids (file : DexFile) : IdSections where
  strings := file.strings.items
  types := file.types.items
  protos := file.protos.items
  fields := file.fields.items
  methods := file.methods.items

/-- The sections kept as bytes that are still part of the file. -/
def rawSections (file : DexFile) : List RawSection :=
  file.layout.filterMap fun
    | .raw index => file.raws[index]?
    | .modelled _ => none

/-- The kind of a section. -/
def kindOf (file : DexFile) : LayoutEntry → SectionKind
  | .modelled kind => kind
  | .raw index => (file.raws[index]?.map RawSection.kind).getD (.unknown 0xFFFF)

/-- The number of items in a section. A section kept as bytes counts as one item unless it has
no bytes. -/
def countOf (file : DexFile) : LayoutEntry → Nat
  | .raw index => if file.raws[index]?.any (!·.bytes.isEmpty) then 1 else 0
  | .modelled kind =>
    match kind with
    | .header | .mapList => 1
    | .stringId | .stringData => file.strings.size
    | .typeId => file.types.size
    | .protoId => file.protos.size
    | .fieldId => file.fields.size
    | .methodId => file.methods.size
    | .classDef => file.classDefs.size
    | .typeList => file.typeLists.size
    | .classData => file.classData.size
    | .codeItem => file.codes.size
    | .debugInfo => file.debugInfos.size
    | _ => 0

/-- The numbers of strings, types, prototypes, fields, methods, classes, type lists, class data,
code items, debug information and sections kept as bytes. -/
def itemCounts (file : DexFile) : List Nat :=
  [file.strings.size, file.types.size, file.protos.size, file.fields.size, file.methods.size,
    file.classDefs.size, file.typeLists.size, file.classData.size, file.codes.size,
    file.debugInfos.size, file.rawSections.length]

/-- A section that is missing from the layout is placed among the others: an id section before
all data and all id sections with higher codes, and any other section before the map list. -/
def place (file : DexFile) (kind : SectionKind) : DexFile :=
  let entry := LayoutEntry.modelled kind
  if file.layout.contains entry then
    file
  else
    let isBehind (other : LayoutEntry) : Bool :=
      if kind.isIdSection then
        let otherKind := file.kindOf other
        otherKind != .header && (!otherKind.isIdSection || kind.code < otherKind.code)
      else
        other == .modelled .mapList
    let index := (file.layout.findIdx? isBehind).getD file.layout.length
    { file with layout := file.layout.insertIdx index entry }

/-- Every modelled section is placed in the layout, the header at the front. -/
def completeLayout (file : DexFile) : DexFile :=
  let header := LayoutEntry.modelled .header
  let file :=
    if file.layout.contains header then file else { file with layout := header :: file.layout }
  defaultLayout.foldl place file

/-- The text of a linked string. -/
def stringOf? (file : DexFile) (ref : IndexRef StringItem) : Option String := do
  return (← file.strings.items.item? (← ref.item)).value.lossyText

/-- The descriptor of a linked type. -/
def descriptorOf? (file : DexFile) (ref : IndexRef TypeItem) : Option String := do
  file.stringOf? (← file.types.items.item? (← ref.item)).descriptor

/-- The key of a type. -/
def typeKey? (file : DexFile) (item : TypeItem) : Option String :=
  file.stringOf? item.descriptor

/-- The key of a prototype. A prototype without a list of parameters has no parameters. -/
def protoKey? (file : DexFile) (item : ProtoItem) : Option Prototype := do
  let returnType ← file.descriptorOf? item.returnType
  let parameters ← match item.parameters.item with
    | some id => (← file.typeLists.item? id).types.mapM file.descriptorOf?
    | none => some []
  return { returnType, parameters }

/-- The key of a field. -/
def fieldKey? (file : DexFile) (item : FieldItem) : Option FieldKey := do
  return {
    owner := ← file.descriptorOf? item.owner
    name := ← file.stringOf? item.name
    type := ← file.descriptorOf? item.type }

/-- The key of a method. -/
def methodKey? (file : DexFile) (item : MethodItem) : Option MethodKey := do
  let proto ← file.protos.items.item? (← item.proto.item)
  return {
    owner := ← file.descriptorOf? item.owner
    name := ← file.stringOf? item.name
    prototype := ← file.protoKey? proto }

/-- The class definition of a type. -/
def findClass? (file : DexFile) (descriptor : String) : Option (Id ClassDef) :=
  (file.classDefs.entries.find? fun (_, item) =>
    file.descriptorOf? item.type == some descriptor).map Prod.fst

/-- The class data of a class definition. -/
def classDataOf? (file : DexFile) (id : Id ClassDef) : Option ClassData := do
  file.classData.item? (← (← file.classDefs.item? id).classData.item)

end DexFile
end DexArsc.Dex
