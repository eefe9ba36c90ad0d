/-
Class definitions and class data.
-/

import DexArsc.Dex.Code
import DexArsc.Dex.Relocation

namespace DexArsc.Dex

namespace Access

/-- The flag of private members. -/
def isPrivate : UInt32 := 0x2

/-- The flag of static members. -/
def isStatic : UInt32 := 0x8

/-- The flag of constructors. -/
def isConstructor : UInt32 := 0x10000

end Access

/-- A field of a class. -/
structure EncodedField where
  field : IndexRef FieldItem
  flags : UInt32
  deriving DecidableEq

/-- A method of a class. -/
structure EncodedMethod where
  method : IndexRef MethodItem
  flags : UInt32
  code : OffsetRef CodeItem
  deriving DecidableEq

/-- The members of a class. -/
structure ClassData where
  staticFields : List EncodedField := []
  instanceFields : List EncodedField := []
  directMethods : List EncodedMethod := []
  virtualMethods : List EncodedMethod := []
  deriving DecidableEq, Inhabited

/-- A class definition. -/
structure ClassDef where
  type : IndexRef TypeItem
  flags : UInt32
  superclass : IndexRef TypeItem := {}
  interfaces : OffsetRef TypeList := {}
  sourceFile : IndexRef StringItem := {}
  annotations : RawOffset := {}
  classData : OffsetRef ClassData := {}
  staticValues : RawOffset := {}
  deriving DecidableEq

namespace ClassDef

/-- The class linked to the items that it names. -/
def link (ids : IdSections) (lists : Section TypeList) (data : Section ClassData)
    (item : ClassDef) : ClassDef :=
  { item with
    type := item.type.link ids.types
    superclass := item.superclass.link ids.types
    interfaces := item.interfaces.link lists
    sourceFile := item.sourceFile.link ids.strings
    classData := item.classData.link data }

/-- The class with its current index slots. -/
def refreshIndexes (ids : IdSections) (item : ClassDef) : ClassDef :=
  { item with
    type := item.type.refresh ids.types
    superclass := item.superclass.refresh ids.types
    sourceFile := item.sourceFile.refresh ids.strings }

/-- The class with its current offset slots. -/
def refreshOffsets (lists : Section TypeList) (data : Section ClassData) (relocator : Relocator)
    (item : ClassDef) : ClassDef :=
  { item with
    interfaces := item.interfaces.refresh lists
    classData := item.classData.refresh data
    annotations := item.annotations.relocate relocator
    staticValues := item.staticValues.relocate relocator }

end ClassDef

instance : Codec ClassDef where
  read := return {
    type := ← readIndex
    flags := ← Reader.word32
    superclass := ← readIndex
    interfaces := ← readOffset
    sourceFile := ← readIndex
    annotations := .ofOrigin (← Reader.word32)
    classData := ← readOffset
    staticValues := .ofOrigin (← Reader.word32) }
  encode item :=
    item.type.bytes ++ Bytes.ofWord32 item.flags ++ item.superclass.bytes ++
      item.interfaces.bytes ++ item.sourceFile.bytes ++
      Bytes.ofWord32 item.annotations.current ++ item.classData.bytes ++
      Bytes.ofWord32 item.staticValues.current
  byteSize _ := 4 + 4 + 4 + 4 + 4 + 4 + 4 + 4

/-- Reading yields `count` fields, each with the distance of its index from the one before. -/
def readFields : (count : Nat) → (before : UInt32) → Reader (List EncodedField)
  | 0, _ => return []
  | count + 1, before => do
    let index := before + (← Reader.leb)
    let flags ← Reader.leb
    return { field := .ofRaw index, flags } :: (← readFields count index)

/-- Reading yields `count` methods, each with the distance of its index from the one before. -/
def readMethods : (count : Nat) → (before : UInt32) → Reader (List EncodedMethod)
  | 0, _ => return []
  | count + 1, before => do
    let index := before + (← Reader.leb)
    let flags ← Reader.leb
    let code ← Reader.leb
    return { method := .ofRaw index, flags, code := .ofRaw code } :: (← readMethods count index)

/-- The bytes of fields, each with the distance of its index from the one before. -/
def fieldBytes : (before : UInt32) → List EncodedField → List UInt8
  | _, [] => []
  | before, field :: rest =>
    Leb.encode (field.field.raw - before) ++ Leb.encode field.flags ++
      fieldBytes field.field.raw rest

/-- The bytes of methods, each with the distance of its index from the one before. -/
def methodBytes : (before : UInt32) → List EncodedMethod → List UInt8
  | _, [] => []
  | before, method :: rest =>
    Leb.encode (method.method.raw - before) ++ Leb.encode method.flags ++
      Leb.encode method.code.raw ++ methodBytes method.method.raw rest

/-- The number of bytes that writing fields counts. -/
def fieldsSize : (before : UInt32) → List EncodedField → Nat
  | _, [] => 0
  | before, field :: rest =>
    (Leb.encode (field.field.raw - before)).length + (Leb.encode field.flags).length +
      fieldsSize field.field.raw rest

/-- The number of bytes that writing methods counts. -/
def methodsSize : (before : UInt32) → List EncodedMethod → Nat
  | _, [] => 0
  | before, method :: rest =>
    (Leb.encode (method.method.raw - before)).length + (Leb.encode method.flags).length +
      (Leb.encode method.code.raw).length + methodsSize method.method.raw rest

instance : Codec ClassData where
  read := do
    let statics ← Reader.leb
    let instances ← Reader.leb
    let directs ← Reader.leb
    let virtuals ← Reader.leb
    return {
      staticFields := ← readFields statics.toNat 0
      instanceFields := ← readFields instances.toNat 0
      directMethods := ← readMethods directs.toNat 0
      virtualMethods := ← readMethods virtuals.toNat 0 }
  encode data :=
    Leb.encode (UInt32.ofNat data.staticFields.length) ++
      Leb.encode (UInt32.ofNat data.instanceFields.length) ++
      Leb.encode (UInt32.ofNat data.directMethods.length) ++
      Leb.encode (UInt32.ofNat data.virtualMethods.length) ++
      fieldBytes 0 data.staticFields ++ fieldBytes 0 data.instanceFields ++
      methodBytes 0 data.directMethods ++ methodBytes 0 data.virtualMethods
  byteSize data :=
    (Leb.encode (UInt32.ofNat data.staticFields.length)).length +
      (Leb.encode (UInt32.ofNat data.instanceFields.length)).length +
      (Leb.encode (UInt32.ofNat data.directMethods.length)).length +
      (Leb.encode (UInt32.ofNat data.virtualMethods.length)).length +
      fieldsSize 0 data.staticFields + fieldsSize 0 data.instanceFields +
      methodsSize 0 data.directMethods + methodsSize 0 data.virtualMethods

namespace ClassData

/-- All fields, the static ones first. -/
def fields (data : ClassData) : List EncodedField :=
  data.staticFields ++ data.instanceFields

/-- All methods, the direct ones first. -/
def methods (data : ClassData) : List EncodedMethod :=
  data.directMethods ++ data.virtualMethods

/-- The members replaced by their images. -/
def mapMembers (field : EncodedField → EncodedField) (method : EncodedMethod → EncodedMethod)
    (data : ClassData) : ClassData where
  staticFields := data.staticFields.map field
  instanceFields := data.instanceFields.map field
  directMethods := data.directMethods.map method
  virtualMethods := data.virtualMethods.map method

/-- The data linked to the items that it names. -/
def link (ids : IdSections) (codes : Section CodeItem) : ClassData → ClassData :=
  mapMembers (fun member => { member with field := member.field.link ids.fields })
    fun member =>
      { member with
        method := member.method.link ids.methods
        code := member.code.link codes }

/-- The fields in ascending order of their indexes. -/
def sortFields (fields : List EncodedField) : List EncodedField :=
  fields.mergeSort fun a b => a.field.raw ≤ b.field.raw

/-- The methods in ascending order of their indexes. -/
def sortMethods (methods : List EncodedMethod) : List EncodedMethod :=
  methods.mergeSort fun a b => a.method.raw ≤ b.method.raw

/-- The data with its current index slots, and with its members in their order. -/
def refreshIndexes (ids : IdSections) (data : ClassData) : ClassData :=
  let data := data.mapMembers
    (fun member => { member with field := member.field.refresh ids.fields })
    fun member => { member with method := member.method.refresh ids.methods }
  { staticFields := sortFields data.staticFields
    instanceFields := sortFields data.instanceFields
    directMethods := sortMethods data.directMethods
    virtualMethods := sortMethods data.virtualMethods }

/-- The data with its current offset slots. -/
def refreshOffsets (codes : Section CodeItem) : ClassData → ClassData :=
  mapMembers id fun member => { member with code := member.code.refresh codes }

/-- The data with a field among the static or the instance fields, as its flags say. -/
def addField (data : ClassData) (field : EncodedField) : ClassData :=
  if field.flags &&& Access.isStatic ≠ 0 then
    { data with staticFields := data.staticFields ++ [field] }
  else
    { data with instanceFields := data.instanceFields ++ [field] }

/-- The data with a method among the direct or the virtual methods, as its flags say. -/
def addMethod (data : ClassData) (method : EncodedMethod) : ClassData :=
  if method.flags &&& (Access.isStatic ||| Access.isPrivate ||| Access.isConstructor) ≠ 0 then
    { data with directMethods := data.directMethods ++ [method] }
  else
    { data with virtualMethods := data.virtualMethods ++ [method] }

end ClassData
end DexArsc.Dex
