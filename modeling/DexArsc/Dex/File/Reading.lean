/-
Reading a dex file: its header, its map list and the sections that the map lists. All references
are linked before the key maps are built.
-/

import DexArsc.Dex.File.Keys
import DexArsc.Options

namespace DexArsc.Dex

/-- Reading yields the items of a section with their offsets, each item at a multiple of the
section's alignment. -/
def readItems {α : Type} [Codec α] (entry : MapItem) : Reader (List (UInt32 × α)) := do
  Reader.seek entry.offset.toNat
  let one : Reader (UInt32 × α) := do
    let _ ← Reader.align entry.kind.alignment
    let position ← Reader.position
    let item ← Step.within s!"item at 0x{Text.hex position}" Codec.read
    return (UInt32.ofNat position, item)
  one.replicate entry.size.toNat

/-- The string data at an offset. -/
def readStringData (data : Bytes) (offset : UInt32) : Except Fault StringData :=
  Reader.run (do
    Reader.seek offset.toNat
    Step.within s!"string data at 0x{Text.hex offset.toNat}" Codec.read) data

/-- Reading yields the strings of the string ids with the offsets of the ids. -/
def readStrings (entry : MapItem) : Reader (List (UInt32 × StringItem)) := do
  Reader.seek entry.offset.toNat
  let one : Reader (UInt32 × StringItem) := do
    let position ← Reader.position
    let dataOffset ← Reader.word32
    let value ← readStringData (← get).data dataOffset
    return (UInt32.ofNat position, { value, dataOffset })
  one.replicate entry.size.toNat

namespace Section

variable {α : Type}

/-- The section with items that were read behind its own, at its offset in the file. -/
def withRead (items : Section α) (entry : MapItem) (read : List (UInt32 × α)) : Section α :=
  { read.foldl (fun items (origin, item) => (items.pushRead item origin).2) items with
    offset := entry.offset }

/-- The section with the items that the map lists. -/
def load [Codec α] (items : Section α) (data : Bytes) (entry : MapItem) :
    Except Fault (Section α) :=
  return items.withRead entry (← (readItems entry).run data)

end Section

namespace Pool

variable {κ α : Type} [BEq κ] [Hashable κ]

/-- The pool with items that were read. Their keys wait for the rebuild. -/
def withRead (pool : Pool κ α) (entry : MapItem) (read : List (UInt32 × α)) : Pool κ α :=
  { pool with items := pool.items.withRead entry read, stale := pool.stale || !read.isEmpty }

/-- The pool with the items that the map lists. -/
def load [Codec α] (pool : Pool κ α) (data : Bytes) (entry : MapItem) : Except Fault (Pool κ α) :=
  return pool.withRead entry (← (readItems entry).run data)

end Pool

namespace DexFile

/-- The file with the items of a section. String data is read through the string ids. -/
def loadSection (data : Bytes) (file : DexFile) (entry : MapItem) : Except Fault DexFile :=
  match entry.kind with
  | .stringId => do
    let read ← (readStrings entry).run data
    return { file with strings := file.strings.withRead entry read }
  | .typeId => return { file with types := ← file.types.load data entry }
  | .protoId => return { file with protos := ← file.protos.load data entry }
  | .fieldId => return { file with fields := ← file.fields.load data entry }
  | .methodId => return { file with methods := ← file.methods.load data entry }
  | .classDef => return { file with classDefs := ← file.classDefs.load data entry }
  | .typeList => return { file with typeLists := ← file.typeLists.load data entry }
  | .classData => return { file with classData := ← file.classData.load data entry }
  | .codeItem => return { file with codes := ← file.codes.load data entry }
  | .debugInfo => return { file with debugInfos := ← file.debugInfos.load data entry }
  | _ => return file

/-- The bytes of a section that is kept as bytes: up to the next section in the file, or else up
to the end of the file. -/
def rawBytes (data : Bytes) (entry : MapItem) (behind : List MapItem) : Except Fault Bytes :=
  let next := behind.find? fun other => entry.offset < other.offset
  let stop := min ((next.map fun other => other.offset.toNat).getD data.size) data.size
  if stop < entry.offset.toNat then
    fail (.dex (.sectionOutside entry.kind entry.offset.toNat))
  else
    .ok (data.extract entry.offset.toNat stop)

/-- The file with its layout, and with the sections that are kept as bytes. The entries are in
the order of their offsets. -/
def loadLayout (data : Bytes) (options : ReadOptions) (file : DexFile) :
    List MapItem → Except Fault DexFile
  | [] => .ok file
  | entry :: behind => do
    if entry.kind.isModelled then
      loadLayout data options { file with layout := file.layout ++ [.modelled entry.kind] } behind
    else
      if let .unknown code := entry.kind then
        unless options.preserveUnknown do
          fail (.dex (.unknownSection code))
      let raw ← RawSection.read entry.kind entry.size entry.offset (← rawBytes data entry behind)
      let file := { file with
        layout := file.layout ++ [.raw file.raws.length]
        raws := file.raws ++ [raw] }
      loadLayout data options file behind

/-- The header and the map list count the same items. -/
def checkCounts (header : Header) (map : MapList) : Except Fault Unit :=
  header.idAreas.forM fun (kind, area) => do
    let mapped := ((map.find? kind).map MapItem.size).getD 0
    if mapped ≠ area.size then
      fail (.dex (.countMismatch area.size.toNat kind mapped.toNat))

/-- Reading yields the header and the map list. -/
def readHead (options : ReadOptions) : Reader (Header × MapList) := do
  let size := (← get).data.size
  let header : Header ← Step.within "dex header" Codec.read
  if header.fileSize.toNat ≠ size ∧ options.strictSizes then
    fail (.dex (.fileSizeMismatch header.fileSize.toNat size))
  if header.mapOffset = 0 then
    fail (.dex .noMapList)
  Reader.seek header.mapOffset.toNat
  let map : MapList ← Step.within "map list" Codec.read
  if options.strictSizes then
    checkCounts header map
  return (header, map)

/-- The code linked to the items that it names. -/
def linkCode (ids : IdSections) (infos : Section DebugInfo) (offset : UInt32) :
    Step CodeItem Unit := do
  let code ← Except.within s!"code item at 0x{Text.hex offset.toNat}" ((← get).link ids)
  set (code.linkDebugInfo infos)

/-- Every reference is linked to its item. -/
def link : Step DexFile Unit := do
  modify fun file =>
    { file with types.items := file.types.items.map (·.link file.strings.items) }
  modify fun file => { file with typeLists := file.typeLists.map (·.link file.types.items) }
  modify fun file =>
    { file with
      protos.items :=
        file.protos.items.map (·.link file.strings.items file.types.items file.typeLists) }
  modify fun file =>
    { file with fields.items := file.fields.items.map (·.link file.strings.items file.types.items) }
  modify fun file =>
    { file with
      methods.items :=
        file.methods.items.map (·.link file.strings.items file.types.items file.protos.items) }
  modify fun file =>
    { file with debugInfos := file.debugInfos.map (·.link file.strings.items file.types.items) }
  let file ← get
  Step.onPart codes (fun codes file => { file with codes })
    (Section.onItems (linkCode file.ids file.debugInfos))
  modify fun file => { file with classData := file.classData.map (·.link file.ids file.codes) }
  modify fun file =>
    { file with
      classDefs := file.classDefs.map (·.link file.ids file.typeLists file.classData)
      raws := file.raws.map (·.link file.ids) }

/-- The file with the given bytes. -/
def read (data : Bytes) (options : ReadOptions) : Except Fault DexFile := do
  let (header, map) ← (readHead options).run data
  let file ← loadLayout data options { header, layout := [] } map.byOffset
  let entries := (map.items.filter (·.kind.isModelled)).mergeSort fun a b =>
    a.kind.readRank ≤ b.kind.readRank
  let file ← entries.foldlM (fun file entry =>
    Except.within s!"{entry.kind.title} at 0x{Text.hex entry.offset.toNat}"
      (loadSection data file entry)) file.completeLayout
  let file := { file with map, readClasses := file.classDefs.size }
  match (do link; rebuildKeys : Step DexFile Unit) file with
  | .ok () file => .ok file
  | .error fault _ => .error fault

end DexFile
end DexArsc.Dex
