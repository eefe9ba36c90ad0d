/-
The classes of a file and their members, code and debug information.
-/

import DexArsc.Dex.File.Keys

namespace DexArsc.Dex

/-- The data names a field as a member. -/
def ClassData.hasField (data : ClassData) (id : Id FieldItem) : Bool :=
  data.fields.any (·.field.item == some id)

/-- The data names a method as a member. -/
def ClassData.hasMethod (data : ClassData) (id : Id MethodItem) : Bool :=
  data.methods.any (·.method.item == some id)

namespace DexFile

/-- A new class definition without members. -/
def defineClass (descriptor : String) (flags : UInt32) (superclass : Option String) :
    Step DexFile (Id ClassDef) := do
  checkTypeDescriptor descriptor
  unless descriptor.startsWith "L" do
    fail (.dex (.notClass descriptor))
  superclass.forM fun descriptor => checkTypeDescriptor descriptor
  if ((← get).findClass? descriptor).isSome then
    fail (.dex (.classDefined descriptor))
  let type ← internType descriptor
  let superclass ← superclass.mapM internType
  let file ← get
  let (id, classDefs) := file.classDefs.push {
    type := .ofId type
    flags
    superclass := (superclass.map IndexRef.ofId).getD {} }
  set { file with classDefs }
  return id

/-- The class is defined in the file. -/
def checkClass (file : DexFile) (id : Id ClassDef) : Except Fault Unit := do
  unless file.classDefs.contains id do
    fail (.dex (.noClass id.slot))

/-- The class data of a class, which is created for the first member. -/
def memberData (id : Id ClassDef) : Step DexFile (Id ClassData) := do
  let file ← get
  match file.classDefs.item? id with
  | none => fail (.dex (.noClass id.slot))
  | some { classData := { item := some data, .. }, .. } => return data
  | some _ => do
    let (data, classData) := file.classData.push {}
    let classDefs := file.classDefs.modify id fun item =>
      { item with classData := item.classData.setItem (some data) }
    set { file with classData, classDefs }
    return data

/-- A field becomes a member of a class. -/
def addField (id : Id ClassDef) (key : FieldKey) (flags : UInt32) :
    Step DexFile (Id FieldItem) := do
  (← get).checkClass id
  let field ← internField key
  let dataId ← memberData id
  let file ← get
  if (file.classData.item? dataId).any (·.hasField field) then
    fail (.dex (.fieldMember key.text))
  let member : EncodedField := { field := .ofId field, flags }
  set { file with classData := file.classData.modify dataId (·.addField member) }
  return field

/-- New code, whose operands hold current indexes. -/
def addCode (code : CodeItem) : Step DexFile (Id CodeItem) := do
  let file ← get
  let linked ← code.link file.ids
  let (id, codes) := file.codes.push (linked.linkDebugInfo file.debugInfos)
  set { file with codes }
  return id

/-- New debug information, whose references hold current indexes. -/
def addDebugInfo (info : DebugInfo) : Step DexFile (Id DebugInfo) := do
  let file ← get
  let (id, debugInfos) :=
    file.debugInfos.push (info.link file.strings.items file.types.items)
  set { file with debugInfos }
  return id

/-- A method becomes a member of a class, with code or without. -/
def addMethod (id : Id ClassDef) (key : MethodKey) (flags : UInt32) (code : Option CodeItem) :
    Step DexFile (Id MethodItem) := do
  (← get).checkClass id
  let method ← internMethod key
  if ((← get).classDataOf? id).any (·.hasMethod method) then
    fail (.dex (.methodMember key.text))
  let code ← code.mapM addCode
  let dataId ← memberData id
  let member : EncodedMethod := {
    method := .ofId method
    flags
    code := (code.map OffsetRef.ofId).getD {} }
  modify fun file =>
    { file with classData := file.classData.modify dataId (·.addMethod member) }
  return method

/-- A step on the code with an id. Without such an item there is no result. -/
def editCode {α : Type} (id : Id CodeItem) (step : Step CodeItem α) :
    Step DexFile (Option α) :=
  Step.onPart? (·.codes.item? id)
    (fun code file => { file with codes := file.codes.modify id fun _ => code }) step

/-- A step on the debug information with an id. Without such an item there is no result. -/
def editDebugInfo {α : Type} (id : Id DebugInfo) (step : Step DebugInfo α) :
    Step DexFile (Option α) :=
  Step.onPart? (·.debugInfos.item? id)
    (fun info file => { file with debugInfos := file.debugInfos.modify id fun _ => info }) step

/-- The source file, the superclass and the interfaces of a class are replaced. -/
def setClass (id : Id ClassDef) (source : Option (Id StringItem)) (superclass : Option (Id TypeItem))
    (interfaces : Option (Id TypeList)) (file : DexFile) : DexFile :=
  { file with
    classDefs := file.classDefs.modify id fun item =>
      { item with
        sourceFile := item.sourceFile.setItem source
        superclass := item.superclass.setItem superclass
        interfaces := item.interfaces.setItem interfaces } }

/-- Some class has the class data. -/
def usesClassData (file : DexFile) (id : Id ClassData) : Bool :=
  file.classDefs.entries.any fun (_, item) => item.classData.item == some id

/-- Some method has the code. -/
def usesCode (file : DexFile) (id : Id CodeItem) : Bool :=
  file.classData.entries.any fun (_, data) => data.methods.any (·.code.item == some id)

/-- Some code has the debug information. -/
def usesDebugInfo (file : DexFile) (id : Id DebugInfo) : Bool :=
  file.codes.entries.any fun (_, code) => code.debugInfo.item == some id

/-- Debug information that no code has is removed. -/
def releaseDebugInfo (file : DexFile) (id : Id DebugInfo) : DexFile :=
  if file.usesDebugInfo id then file
  else { file with debugInfos := (file.debugInfos.remove id).2 }

/-- Code that no method has is removed with its debug information. -/
def releaseCode (file : DexFile) (id : Id CodeItem) : DexFile :=
  if file.usesCode id then
    file
  else
    match file.codes.remove id with
    | (none, _) => file
    | (some code, codes) =>
      code.debugInfo.item.elim { file with codes } (releaseDebugInfo { file with codes })

/-- Class data that no class has is removed with its code. -/
def releaseClassData (file : DexFile) (id : Id ClassData) : DexFile :=
  if file.usesClassData id then
    file
  else
    match file.classData.remove id with
    | (none, _) => file
    | (some data, classData) =>
      (data.methods.filterMap (·.code.item)).foldl releaseCode { file with classData }

/-- A class definition is removed with the class data, the code and the debug information that
nothing else uses. -/
def removeClass (id : Id ClassDef) : Step DexFile ClassDef := do
  let file ← get
  match file.classDefs.remove id with
  | (none, _) => fail (.dex (.noClass id.slot))
  | (some item, classDefs) => do
    set (item.classData.item.elim { file with classDefs } (releaseClassData { file with classDefs }))
    return item

/-- The debug information among those that are kept which says the same as another one, for each
that is not kept itself. It is looked for in the bucket of the other one only. -/
def duplicates : (kept : List (Id DebugInfo × DebugInfo)) → List (Id DebugInfo × DebugInfo) →
    List (Id DebugInfo × Id DebugInfo)
  | _, [] => []
  | kept, (id, info) :: rest =>
    match kept.find? fun (_, other) => other.bucket == info.bucket && other.sameAs info with
    | some (shared, _) => (id, shared) :: duplicates kept rest
    | none => duplicates (kept ++ [(id, info)]) rest

/-- Code items with the same debug information share it. The result is the number of duplicates,
which are removed. -/
def shareDebugInfo (file : DexFile) : Nat × DexFile :=
  let replaced := duplicates [] file.debugInfos.entries
  let share (code : CodeItem) : CodeItem :=
    match code.debugInfo.item.bind (replaced.lookup ·) with
    | some shared => { code with debugInfo := code.debugInfo.setItem (some shared) }
    | none => code
  let debugInfos := replaced.foldl (fun infos (id, _) => (infos.remove id).2) file.debugInfos
  (replaced.length, { file with codes := file.codes.map share, debugInfos })

end DexFile
end DexArsc.Dex
