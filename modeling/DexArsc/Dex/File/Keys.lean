/-
The keys of a file's ids. A renamed string changes the keys of the items that are built on it,
so the key maps of their pools are computed anew before the next search.
-/

import DexArsc.Dex.File.Basic

namespace DexArsc.Dex

/-- The entries of a key map. Items without a key are left out. -/
def Section.keyed {κ α : Type} (items : Section α) (key? : α → Option κ) : List (κ × Id α) :=
  items.entries.filterMap fun (id, item) => (key? item).map fun key => (key, id)

/-- A stale pool receives a fresh key map. -/
def Pool.freshen {κ α : Type} [BEq κ] [Hashable κ] [KeyText κ] (pool : Pool κ α)
    (key? : α → Option κ) : Except Fault (Pool κ α) :=
  if pool.stale then pool.rebuild (pool.items.keyed key?) else .ok pool

/-- The references of a list name exactly the given types. -/
def TypeList.names (list : TypeList) (types : List (Id TypeItem)) : Bool :=
  list.types.map IndexRef.item == types.map some

/-- The current index of a reference's item, or the index in the slot when the reference is not
linked to a live item. -/
def IndexRef.currentIndex {α : Type} (ref : IndexRef α) (items : Section α) : UInt32 :=
  (ref.item.bind items.indexOf?).getD ref.raw

/-- The order of indexes by their first difference. -/
def compareIndexes : List UInt32 → List UInt32 → Ordering :=
  compareLists (compareOfLessAndEq · ·)

namespace DexFile

/-- Every stale pool receives a fresh key map. -/
def rebuildKeys : Step DexFile Unit := do
  let file ← get
  set { file with strings := ← file.strings.freshen fun item => some item.value }
  let file ← get
  set { file with types := ← file.types.freshen file.typeKey? }
  let file ← get
  set { file with protos := ← file.protos.freshen file.protoKey? }
  let file ← get
  set { file with fields := ← file.fields.freshen file.fieldKey? }
  let file ← get
  set { file with methods := ← file.methods.freshen file.methodKey? }

/-- The key maps of the pools whose keys are built on types are out of date. -/
def invalidateMembers (file : DexFile) : DexFile :=
  { file with
    protos := file.protos.invalidate
    fields := file.fields.invalidate
    methods := file.methods.invalidate }

/-- The item of a pool with a key, or else a new one. The file gives the pool away for the step,
so that the pool grows in place. -/
def internItem {κ α : Type} [BEq κ] [Hashable κ] [KeyText κ] (part : DexFile → Pool κ α)
    (put : Pool κ α → DexFile → DexFile) (key : κ) (item : α) : Step DexFile (Id α) :=
  fun file =>
    let pool := part file
    let file := put (.empty .header) file
    match Pool.findOrPush key (fun _ => item) pool with
    | .ok (id, _) pool => .ok id (put pool file)
    | .error fault pool => .error fault (put pool file)

/-- The string with a value, or else a new one. -/
def internString (value : String) : Step DexFile (Id StringItem) := do
  rebuildKeys
  let key := StringData.decoded value
  internItem strings (fun strings file => { file with strings }) key { value := key }

/-- The type with a descriptor, or else a new one. -/
def internType (descriptor : String) : Step DexFile (Id TypeItem) := do
  checkTypeDescriptor descriptor
  rebuildKeys
  if let some id := (← get).types.find? descriptor then
    return id
  let string ← internString descriptor
  internItem types (fun types file => { file with types }) descriptor
    { descriptor := .ofId string }

/-- The list of the types with given descriptors, or else a new one. -/
def internTypeList (descriptors : List String) : Step DexFile (Id TypeList) := do
  descriptors.forM fun descriptor => checkTypeDescriptor descriptor
  let types ← descriptors.mapM internType
  let file ← get
  match file.typeLists.entries.find? fun (_, list) => list.names types with
  | some (id, _) => return id
  | none => do
    let (id, typeLists) := file.typeLists.push { types := types.map .ofId }
    set { file with typeLists }
    return id

/-- The prototype with a key, or else a new one. -/
def internProto (key : Prototype) : Step DexFile (Id ProtoItem) := do
  key.check
  rebuildKeys
  if let some id := (← get).protos.find? key then
    return id
  let shorty ← internString key.shorty
  let returnType ← internType key.returnType
  let parameters ←
    if key.parameters.isEmpty then pure {}
    else OffsetRef.ofId <$> internTypeList key.parameters
  internItem protos (fun protos file => { file with protos }) key
    { shorty := .ofId shorty, returnType := .ofId returnType, parameters }

/-- The field with a key, or else a new one. -/
def internField (key : FieldKey) : Step DexFile (Id FieldItem) := do
  key.check
  rebuildKeys
  if let some id := (← get).fields.find? key then
    return id
  let owner ← internType key.owner
  let type ← internType key.type
  let name ← internString key.name
  internItem fields (fun fields file => { file with fields }) key
    { owner := .ofId owner, type := .ofId type, name := .ofId name }

/-- The method with a key, or else a new one. -/
def internMethod (key : MethodKey) : Step DexFile (Id MethodItem) := do
  key.checkNames
  key.prototype.check
  rebuildKeys
  if let some id := (← get).methods.find? key then
    return id
  let owner ← internType key.owner
  let proto ← internProto key.prototype
  let name ← internString key.name
  internItem methods (fun methods file => { file with methods }) key
    { owner := .ofId owner, proto := .ofId proto, name := .ofId name }

/-- Some type has a string as its descriptor. -/
def isDescriptor (file : DexFile) (id : Id StringItem) : Bool :=
  file.types.items.entries.any fun (_, item) => item.descriptor.item == some id

/-- Some field or method has a string as its name. -/
def isMemberName (file : DexFile) (id : Id StringItem) : Bool :=
  (file.fields.items.entries.any fun (_, item) => item.name.item == some id) ||
    file.methods.items.entries.any fun (_, item) => item.name.item == some id

/-- A new text for a string follows the grammar of every key that is built on the string, and
keeps the shorties of methods. -/
def checkRole (file : DexFile) (id : Id StringItem) (old new : String) : Except Fault Unit := do
  if file.isDescriptor id then
    checkTypeDescriptor new
    if shortyChar old ≠ shortyChar new then
      fail (.dex (.shortyOfDescriptor old new))
  if file.isMemberName id then
    checkMemberName new

/-- A string receives another value in place, and every item that is built on it follows. A
failure changes nothing but stale key maps. -/
def renameString (id : Id StringItem) (text : String) : Step DexFile Unit := do
  rebuildKeys
  let file ← get
  let new := StringData.decoded text
  match file.strings.items.item? id with
  | none => fail (.dex (.noString id.slot))
  | some { value := old, .. } =>
    if old ≠ new then
      file.checkRole id old.lossyText text
      let strings ← file.strings.rekey id old new
      let items := strings.items.modify id fun item => { item with value := new }
      let file := { file with strings := { strings with items }, types := file.types.invalidate }
      set file.invalidateMembers

/-- A type receives another descriptor. The string of the old descriptor stays. -/
def renameType (id : Id TypeItem) (new : String) : Step DexFile Unit := do
  checkTypeDescriptor new
  rebuildKeys
  let file ← get
  match (file.types.items.item? id).bind file.typeKey? with
  | none => fail (.dex (.noType id.slot))
  | some old =>
    if old ≠ new then
      if shortyChar old ≠ shortyChar new then
        fail (.dex (.shortyOfType old new))
      if (file.types.find? new).isSome then
        fail (.dex (.typeExists new))
      let string ← internString new
      let file ← get
      let types ← file.types.rekey id old new
      let items := types.items.modify id fun item =>
        { descriptor := item.descriptor.setItem (some string) }
      set { file with types := { types with items } }.invalidateMembers

/-- The id sections are brought into the order that the format demands. -/
def sortIds (file : DexFile) : DexFile :=
  let byKey {α : Type} (key : α → List UInt32) (a b : α) : Ordering :=
    compareIndexes (key a) (key b)
  let index {α : Type} (items : Section α) (ref : IndexRef α) : UInt32 := ref.currentIndex items
  let strings := file.strings.items.sortBy fun a b => a.value.compareUnits b.value
  let types := file.types.items.sortBy (byKey fun item => [index strings item.descriptor])
  let parameters (item : ProtoItem) : List UInt32 :=
    match item.parameters.item.bind file.typeLists.item? with
    | some list => list.types.map (index types)
    | none => []
  let protos := file.protos.items.sortBy
    (byKey fun item => index types item.returnType :: parameters item)
  let fields := file.fields.items.sortBy
    (byKey fun item => [index types item.owner, index strings item.name, index types item.type])
  let methods := file.methods.items.sortBy
    (byKey fun item => [index types item.owner, index strings item.name, index protos item.proto])
  { file with
    strings := { file.strings with items := strings }
    types := { file.types with items := types }
    protos := { file.protos with items := protos }
    fields := { file.fields with items := fields }
    methods := { file.methods with items := methods } }

end DexFile
end DexArsc.Dex
