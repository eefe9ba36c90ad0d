/-
The layout of a file. Every section and every item receives an offset, and every reference its
current index and offset. Offsets depend on the sizes of items and these on offsets, so passes
are repeated until no offset changes.
-/

import DexArsc.Dex.File.Basic
import DexArsc.Options

namespace DexArsc.Dex

/-- An index that is written into 16 bits. -/
def checkShortIndex {α : Type} (what : String) (ref : IndexRef α) : Except Fault Unit :=
  (narrow16 what ref.raw.toNat).map fun _ => ()

/-- A reference in a type list receives its current index. -/
def refreshListEntry (types : Section TypeItem) : Step (IndexRef TypeItem) Unit := do
  modify (·.refresh types)
  checkShortIndex "type list entry" (← get)

namespace TypeList

/-- The references receive their current indexes, which have to fit into 16 bits. -/
def refresh (types : Section TypeItem) : Step TypeList Unit :=
  Step.onPart TypeList.types (fun types _ => { types }) (Step.onEach (refreshListEntry types))

end TypeList

/-- The field receives its current indexes, which have to fit into 16 bits. -/
def FieldItem.refreshChecked (ids : IdSections) : Step FieldItem Unit := do
  modify (·.refresh ids.strings ids.types)
  let item ← get
  checkShortIndex "field class index" item.owner
  checkShortIndex "field type index" item.type

/-- The method receives its current indexes, which have to fit into 16 bits. -/
def MethodItem.refreshChecked (ids : IdSections) : Step MethodItem Unit := do
  modify (·.refresh ids.strings ids.types ids.protos)
  let item ← get
  checkShortIndex "method class index" item.owner
  checkShortIndex "method proto index" item.proto

/-- The offsets that a layout pass has assigned, in their order, and the position behind them. -/
structure Placement where
  position : Nat := 0
  offsets : Array UInt32 := #[]
  deriving DecidableEq

variable {α : Type}

/-- Each item of a list of ids is placed at the next multiple of an alignment. -/
def placeItems [Codec α] (alignment : Nat) :
    List (Id α) → Placement → Step (Section α) Placement
  | [], placed => return placed
  | id :: rest, placed => do
    let position := placed.position + padding alignment placed.position
    let offset ← narrow32 "item offset" position
    modify (·.setItemOffset id offset)
    let size := (((← get).item? id).map byteSize).getD 0
    placeItems alignment rest
      { position := position + size, offsets := placed.offsets.push offset }

/-- The section is placed at the position reached. -/
def placeStart (position : Nat) : Step (Section α) Unit := do
  let offset ← narrow32 "section offset" position
  modify fun items => { items with offset }

/-- The section and its items are placed from the position reached. -/
def placeWithItems [Codec α] (placed : Placement) : Step (Section α) Placement := do
  placeStart placed.position
  let items ← get
  placeItems items.kind.alignment items.order.toList placed

/-- Each string id of a list is placed behind the one before. -/
def placeStringIds : List (Id StringItem) → (position : Nat) → Step (Section StringItem) Nat
  | [], position => return position
  | id :: rest, position => do
    let offset ← narrow32 "string id offset" position
    modify (·.setItemOffset id offset)
    placeStringIds rest (position + 4)

/-- The data of each string of a list is placed behind the one before. -/
def placeStringData : List (Id StringItem) → Placement → Step (Section StringItem) Placement
  | [], placed => return placed
  | id :: rest, placed => do
    match (← get).item? id with
    | none => placeStringData rest placed
    | some item => do
      let dataOffset ← narrow32 "string data offset" placed.position
      modify (·.modify id fun item => { item with dataOffset })
      placeStringData rest {
        position := placed.position + byteSize item.value
        offsets := placed.offsets.push dataOffset }

namespace DexFile

/-- A step on the items of a pool. -/
def onItems {κ α β : Type} [BEq κ] [Hashable κ] (part : DexFile → Pool κ α)
    (put : Pool κ α → DexFile → DexFile) (step : Step (Section α) β) : Step DexFile β :=
  Step.onPart (fun file => (part file).items)
    (fun items file => put { part file with items } file) step

/-- A step on the items of the string pool. -/
def onStrings {β : Type} : Step (Section StringItem) β → Step DexFile β :=
  onItems strings fun strings file => { file with strings }

/-- A step on the items of the type pool. -/
def onTypes {β : Type} : Step (Section TypeItem) β → Step DexFile β :=
  onItems types fun types file => { file with types }

/-- A step on the items of the prototype pool. -/
def onProtos {β : Type} : Step (Section ProtoItem) β → Step DexFile β :=
  onItems protos fun protos file => { file with protos }

/-- A step on the items of the field pool. -/
def onFields {β : Type} : Step (Section FieldItem) β → Step DexFile β :=
  onItems fields fun fields file => { file with fields }

/-- A step on the items of the method pool. -/
def onMethods {β : Type} : Step (Section MethodItem) β → Step DexFile β :=
  onItems methods fun methods file => { file with methods }

/-- A step on the class definitions. -/
def onClassDefs {β : Type} : Step (Section ClassDef) β → Step DexFile β :=
  Step.onPart classDefs fun classDefs file => { file with classDefs }

/-- A step on the type lists. -/
def onTypeLists {β : Type} : Step (Section TypeList) β → Step DexFile β :=
  Step.onPart typeLists fun typeLists file => { file with typeLists }

/-- A step on the class data. -/
def onClassData {β : Type} : Step (Section ClassData) β → Step DexFile β :=
  Step.onPart classData fun classData file => { file with classData }

/-- A step on the code items. -/
def onCodes {β : Type} : Step (Section CodeItem) β → Step DexFile β :=
  Step.onPart codes fun codes file => { file with codes }

/-- A step on the debug information. -/
def onDebugInfos {β : Type} : Step (Section DebugInfo) β → Step DexFile β :=
  Step.onPart debugInfos fun debugInfos file => { file with debugInfos }

/-- A step on the sections that are kept as bytes. -/
def onRaws {β : Type} : Step (List RawSection) β → Step DexFile β :=
  Step.onPart raws fun raws file => { file with raws }

/-- Data about single classes is dropped when the number of classes has changed. -/
def dropHiddenApi (file : DexFile) : DexFile :=
  if file.classDefs.size = file.readClasses then
    file
  else
    let isHiddenApi : LayoutEntry → Bool
      | .raw index => file.raws[index]?.any (·.kind == .hiddenApi)
      | .modelled _ => false
    { file with layout := file.layout.filter fun entry => !isHiddenApi entry }

/-- Every reference by index receives the current index of its item. -/
def refreshIndexes : Step DexFile Unit := do
  let ids := (← get).ids
  onTypes (modify (·.map (·.refresh ids.strings)))
  let ids := (← get).ids
  onTypeLists (Section.onItems fun _ => TypeList.refresh ids.types)
  onProtos (modify (·.map (·.refreshIndexes ids.strings ids.types)))
  onFields (Section.onItems fun _ => FieldItem.refreshChecked ids)
  let ids := (← get).ids
  onMethods (Section.onItems fun _ => MethodItem.refreshChecked ids)
  let ids := (← get).ids
  onDebugInfos (modify (·.map (·.refresh ids.strings ids.types)))
  onClassData (modify (·.map (·.refreshIndexes ids)))
  onClassDefs (modify (·.map (·.refreshIndexes ids)))
  onRaws (Step.onEach (RawSection.refreshIndexes ids))

/-- The map from the offsets as they were read to those of the current layout. -/
def relocator (file : DexFile) : Relocator :=
  let add {α : Type} (relocator : Relocator) (items : Section α) : Relocator :=
    items.order.foldl (fun relocator id =>
      match items.live? id with
      | some cell => relocator.addItem cell.origin cell.offset
      | none => relocator) relocator
  let items := add (add (add (add {} file.typeLists) file.classData) file.codes) file.debugInfos
  file.rawSections.foldl (fun relocator raw => relocator.addExtent raw.extent) items

/-- Every reference by offset receives the current offset of its item. -/
def refreshOffsets : Step DexFile Unit := do
  let lists := (← get).typeLists
  onProtos (modify (·.map (·.refreshOffsets lists)))
  let file ← get
  onCodes (Section.onItems fun _ => CodeItem.refresh file.ids file.debugInfos)
  let codes := (← get).codes
  onClassData (modify (·.map (·.refreshOffsets codes)))
  let file ← get
  let relocator := file.relocator
  onClassDefs (modify (·.map (·.refreshOffsets lists file.classData relocator)))
  onRaws (modify (·.map (·.relocate relocator)))

/-- A modelled section is placed from the position reached, in a file whose map list has a number
of entries. -/
def placeSection (entries : Nat) (kind : SectionKind) (placed : Placement) :
    Step DexFile Placement :=
  match kind with
  | .header => return { placed with position := placed.position + headerSize }
  | .mapList => return { placed with position := placed.position + MapList.sizeOf entries }
  | .stringId => onStrings do
    placeStart placed.position
    let position ← placeStringIds (← get).order.toList placed.position
    return { placed with position }
  | .stringData => onStrings do placeStringData (← get).order.toList placed
  | .typeId => onTypes (placeWithItems placed)
  | .protoId => onProtos (placeWithItems placed)
  | .fieldId => onFields (placeWithItems placed)
  | .methodId => onMethods (placeWithItems placed)
  | .classDef => onClassDefs (placeWithItems placed)
  | .typeList => onTypeLists (placeWithItems placed)
  | .classData => onClassData (placeWithItems placed)
  | .codeItem => onCodes (placeWithItems placed)
  | .debugInfo => onDebugInfos (placeWithItems placed)
  | other => fail (.dex (.noLayoutRule other))

/-- The start of a section at or behind a position. The header is not aligned. -/
def sectionStart (options : WriteOptions) (kind : SectionKind) (position : Nat) : Nat :=
  let alignment := kind.alignment
  if kind = .header then position
  else if 1 < alignment then position + padding (max alignment options.alignment) position
  else position + padding alignment position

/-- A layout pass under way: what is placed, the map list and the start of the data. -/
structure LayoutPass where
  placed : Placement := {}
  map : List MapItem := []
  dataStart : Option Nat := none

/-- A section with items is placed. -/
def placeEntry (entries : Nat) (entry : LayoutEntry) (count start : Nat) (pass : LayoutPass) :
    Step DexFile LayoutPass := do
  let kind := (← get).kindOf entry
  let (placed, item) ← match entry with
    | .raw index => do
      let offset ← narrow32 "section offset" start
      onRaws (modify (·.modify index fun raw => { raw with offset }))
      let raw := (← get).raws[index]?
      let size := (raw.map fun raw => raw.bytes.size).getD 0
      let item : MapItem := { kind, size := (raw.map RawSection.count).getD 0, offset }
      pure ({ pass.placed with position := start + size }, item)
    | .modelled kind => do
      let placed ← placeSection entries kind { pass.placed with position := start }
      let offset ← narrow32 "section offset" start
      modify fun file =>
        { file with header := file.header.setArea kind (UInt32.ofNat count) offset }
      let size := if kind = .header ∨ kind = .mapList then 1 else UInt32.ofNat count
      pure (placed, ({ kind, size, offset } : MapItem))
  let stop ← narrow32 "section end" placed.position
  return { pass with
    placed := { placed with offsets := placed.offsets.push stop }
    map := pass.map ++ [item] }

/-- The sections of a list are placed one behind the other. A section without items has no
place. -/
def placeEntries (options : WriteOptions) (entries : Nat) :
    List LayoutEntry → LayoutPass → Step DexFile LayoutPass
  | [], pass => return pass
  | entry :: rest, pass => do
    let file ← get
    let (kind, count) := (file.kindOf entry, file.countOf entry)
    if count = 0 then
      set { file with header := file.header.setArea kind 0 0 }
      placeEntries options entries rest pass
    else
      let start := sectionStart options kind pass.placed.position
      let isData := kind != .header && !kind.isIdSection
      let dataStart := pass.dataStart.or (if isData then some start else none)
      placeEntries options entries rest
        (← placeEntry entries entry count start { pass with dataStart })

/-- Every section and every item receives an offset. The result lists all offsets. -/
def layoutPass (options : WriteOptions) : Step DexFile (Array UInt32) := do
  let file ← get
  let entries := (file.layout.filter fun entry => 0 < file.countOf entry).length
  let pass ← placeEntries options entries file.layout {}
  let fileSize ← narrow32 "file size" pass.placed.position
  let map : MapList := { items := pass.map }
  let dataStart := UInt32.ofNat (pass.dataStart.getD pass.placed.position)
  modify fun file =>
    { file with
      map
      header := { file.header with
        size := UInt32.ofNat headerSize
        fileSize
        linkData := {}
        mapOffset := ((map.find? .mapList).map MapItem.offset).getD 0
        data := { size := fileSize - dataStart, offset := dataStart } } }
  return pass.placed.offsets

/-- The number of layout passes after which a file counts as unsettled. -/
def maxPasses : Nat := 16

/-- Layout passes are repeated until one assigns the same offsets as the pass before. -/
def settle (options : WriteOptions) : (passes : Nat) → (before : Option (Array UInt32)) →
    Step DexFile Unit
  | 0, _ => fail (.dex (.unsettledLayout maxPasses))
  | passes + 1, before => do
    let offsets ← layoutPass options
    refreshOffsets
    unless before = some offsets do
      settle options passes (some offsets)

/-- Every reference, count and offset is brought up to date. -/
def refresh (options : WriteOptions) : Step DexFile Unit := do
  modify fun file => file.completeLayout.dropHiddenApi
  refreshIndexes
  settle options maxPasses none

end DexFile
end DexArsc.Dex
