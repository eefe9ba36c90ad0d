/-
Reading a written file: the header, the map list, the layout, the sections and the references come back as they
were written.
-/

import DexArsc.Proofs.Dex.File.Apart
import DexArsc.Proofs.Dex.File.Load
import DexArsc.Proofs.Dex.File.Places

namespace DexArsc.Dex
namespace DexFile

variable {options : WriteOptions} {file : DexFile} {bytes : Bytes}

theorem size_areaIn (slots : List Slot) (kind : SectionKind) :
    (areaIn slots kind).size = (((planMap slots).find? kind).map MapItem.size).getD 0 := by
  unfold areaIn MapList.find? planMap
  rw [List.find?_map]
  change _ = (((slots.find? fun slot => slot.block.kind == kind).map Slot.mapItem).map
    MapItem.size).getD 0
  cases slots.find? fun slot => slot.block.kind == kind with
  | none => rfl
  | some slot => rfl

/-- The header counts what the map list counts. -/
theorem checkCounts_plan (header : Header) (slots : List Slot) (stop : Nat) :
    checkCounts (planHeader header slots stop) (planMap slots) = .ok () := by
  unfold checkCounts Header.idAreas
  simp only [List.forM_eq_forM, List.forM_cons, List.forM_nil]
  simp only [planHeader, size_areaIn, ne_eq, not_true_eq_false, if_false]
  rfl

/-- The map list stands where the header says, behind the header. -/
theorem Written.map_stands (written : Written options file bytes) :
    headerSize ≤ file.header.mapOffset.toNat ∧
      bytes.Stands file.header.mapOffset.toNat (encode file.map) := by
  have piece : (file.header.mapOffset, encode file.map) ∈ file.pieces :=
    List.mem_flatMap.2 ⟨.modelled .mapList, mem_present.2
      ⟨written.current.ready.complete _ rfl, Nat.one_pos⟩, List.mem_singleton.2 rfl⟩
  have stands := (stands_of_write written.write).2.2 _ piece
  rwa [Header.length_encode written.current.header] at stands

/-- The header and the map list are read as they were written. -/
theorem Written.readHead (written : Written options file bytes) (sound : file.map.Sound)
    (reading : ReadOptions) : (readHead reading).run bytes = .ok (file.header, file.map) := by
  obtain ⟨size, stands, _⟩ := stands_of_write written.write
  obtain ⟨behind, place⟩ := written.map_stands
  have content : encode file.map ≠ [] := by
    intro none
    have length := MapList.length_encode file.map
    rw [none] at length
    unfold MapList.sizeOf at length
    simp at length
    omega
  have inside := place.length_le content
  have header := (Header.reads written.current.header).within "dex header" bytes 0 stands
  have map := (MapList.reads sound (by
    have bound := file.header.fileSize.toNat_lt
    change (encode file.map).length < 4294967296
    omega)).within "map list" bytes _ place
  have counts : checkCounts file.header file.map = .ok () := by
    rw [written.current.laidOut.planned.header, written.current.laidOut.planned.map]
    exact checkCounts_plan _ _ _
  have some : file.header.mapOffset ≠ 0 := by
    intro zero
    rw [zero] at behind
    exact absurd behind (by decide)
  apply Reader.run_eq_ok
  unfold DexFile.readHead
  rw [Step.bind_ok (Step.get_apply _), Step.bind_ok header]
  simp only [size, ne_eq, not_true_eq_false, false_and, if_false, some]
  rw [Step.bind_ok (Reader.seek_eq (by omega)), Step.bind_ok map]
  by_cases strict : reading.strictSizes = true
  · simp only [strict, if_true, counts]
    rfl
  · simp only [strict, Bool.false_eq_true, if_false]
    rfl

end DexFile

/-- The sections kept as bytes that are read from the entries of a map list. -/
inductive RawsRead (data : Bytes) : List MapItem → List RawSection → Prop
  | nil : RawsRead data [] []
  | modelled {item : MapItem} {rest : List MapItem} {raws : List RawSection}
    (kind : item.kind.isModelled = true) (reads : RawsRead data rest raws) :
    RawsRead data (item :: rest) raws
  | raw {item : MapItem} {rest : List MapItem} {bytes : Bytes} {raw : RawSection}
    {raws : List RawSection} (kind : item.kind.isModelled = false)
    (found : DexFile.rawBytes data item rest = .ok bytes)
    (read : RawSection.read item.kind item.size item.offset bytes = .ok raw)
    (reads : RawsRead data rest raws) : RawsRead data (item :: rest) (raw :: raws)

/-- The layout that is read from the entries of a map list, behind a number of sections kept as
bytes. -/
def readLayout : (next : Nat) → List MapItem → List LayoutEntry
  | _, [] => []
  | next, item :: rest =>
    if item.kind.isModelled then .modelled item.kind :: readLayout next rest
    else .raw next :: readLayout (next + 1) rest

namespace DexFile

theorem loadLayout_eq_ok {data : Bytes} {items : List MapItem} {file final : DexFile} :
    loadLayout data {} file items = .ok final ↔ ∃ raws, RawsRead data items raws ∧
      final = { file with
        layout := file.layout ++ readLayout file.raws.length items
        raws := file.raws ++ raws } := by
  induction items generalizing file with
  | nil =>
      constructor
      · intro run
        cases run
        exact ⟨[], .nil, by simp [readLayout]⟩
      · rintro ⟨raws, reads, rfl⟩
        cases reads
        simp [loadLayout, readLayout]
  | cons item rest ih =>
      by_cases kind : item.kind.isModelled = true
      · rw [loadLayout, if_pos kind, ih]
        refine exists_congr fun raws => ?_
        simp only [readLayout, kind, if_true, List.append_assoc, List.singleton_append]
        refine and_congr_left fun _ => ⟨.modelled kind, fun reads => ?_⟩
        cases reads with
        | modelled _ reads => exact reads
        | raw other => exact absurd kind (by simp [other])
      · have other : item.kind.isModelled = false := by simpa using kind
        have passes : loadLayout data {} file (item :: rest) = (do
            let raw ← RawSection.read item.kind item.size item.offset (← rawBytes data item rest)
            loadLayout data {} { file with
              layout := file.layout ++ [.raw file.raws.length]
              raws := file.raws ++ [raw] } rest) := by
          rw [loadLayout, if_neg kind]
          split <;> rfl
        rw [passes]
        simp only [Except.bind_eq_ok, ih]
        constructor
        · rintro ⟨bytes, found, raw, read, raws, reads, rfl⟩
          refine ⟨raw :: raws, .raw other found read reads, ?_⟩
          simp [readLayout, other]
        · rintro ⟨raws, reads, rfl⟩
          cases reads with
          | modelled same => exact absurd same kind
          | @raw _ _ bytes raw raws _ found read reads =>
              refine ⟨bytes, found, raw, read, raws, reads, ?_⟩
              simp [readLayout, other]

variable {options : WriteOptions} {file : DexFile} {bytes : Bytes}

/-- The entries of the map list are in the order of their offsets. -/
theorem Current.byOffset (current : Current options file) : file.map.byOffset = file.map.items := by
  have ascending := (plan_ascending options 0 current.ready.orderly.filled_blocks)
  have fits := current.laidOut.planned.fits
  apply MapList.byOffset_of_ascending
  rw [current.laidOut.planned.map]
  change ((file.slots options).map Slot.mapItem).Pairwise _
  rw [List.pairwise_map]
  refine ascending.2.imp_of_mem fun {first second} inside there before => ?_
  have first_le := ((ascending.1 first inside).2)
  have second_le := ((ascending.1 second there).2)
  have first_stop := first.start_le_stop
  have second_stop := second.start_le_stop
  unfold DexFile.stop at fits
  rw [UInt32.lt_iff_toNat_lt]
  change (UInt32.ofNat first.start).toNat < (UInt32.ofNat second.start).toNat
  rw [toNat_ofNat_of_lt (by omega), toNat_ofNat_of_lt (by omega)]
  exact before

/-- An entry of the map list is that of a section with items. -/
theorem Current.mem_map (current : Current options file) {item : MapItem}
    (inside : item ∈ file.map.items) : ∃ entry ∈ file.present, ∃ slot ∈ file.slots options,
      item = slot.mapItem ∧ slot.block = file.block file.present.length entry ∧
      file.offsetsAt entry = slot.places.map UInt32.ofNat ∧ slot.start < slot.stop ∧
      slot.stop ≤ file.stop options := by
  rw [current.laidOut.planned.map] at inside
  obtain ⟨slot, listed, rfl⟩ := List.mem_map.1 inside
  obtain ⟨index, found⟩ := List.getElem?_of_mem listed
  have length : (file.slots options).length = file.present.length := by
    rw [slots, length_plan, blocks, List.length_map]
  have bound : index < file.present.length := by
    rw [← length]
    exact (List.getElem?_eq_some_iff.1 found).1
  obtain ⟨other, there, block, pair⟩ :=
    slot_of_present options (List.getElem?_eq_getElem bound)
  rw [found, Option.some.injEq] at there
  subst there
  have bounds := (plan_ascending options 0 current.ready.orderly.filled_blocks).1 slot listed
  refine ⟨_, List.getElem_mem bound, slot, listed, rfl, block,
    current.laidOut.planned.placed _ pair, ?_, bounds.2⟩
  apply Slot.start_lt_stop
  rw [block]
  exact current.ready.orderly.filled _ (mem_present.1 (List.getElem_mem bound)).2 _

/-- What reading needs of the items of a written file. -/
structure Legible (file : DexFile) : Prop where
  map : file.map.Sound
  strings : file.strings.items.All fun item => item.value.Sound
  writable : ∀ part : Part, (part.items file).All part.Writable
  faithful : ∀ part : Part, (part.items file).All (part.Refs (.faithful file))
  scanned : file.codes.All CodeItem.Scanned
  keys : file.KeysDistinct

/-- What the entries of the map list of a written file hold. -/
def contents (file : DexFile) : Contents where
  strings := file.strings.items.rows
  rows part := (part.items file).rows.map fun row => (row.1, part.bare row.2)

/-- A section with items at its slot in written bytes, where its pieces stand. -/
structure Located (file : DexFile) (bytes : Bytes) (entry : LayoutEntry) (slot : Slot) : Prop where
  block : slot.block = file.block file.present.length entry
  offsets : file.offsetsAt entry = slot.places.map UInt32.ofNat
  place : slot.mapItem.offset.toNat = slot.start
  start : slot.start ≤ bytes.size
  stop : slot.stop < UInt32.size
  some : 0 < file.countOf entry
  pieces : ∀ piece ∈ file.piecesAt entry, bytes.Stands piece.1.toNat piece.2

/-- Every entry of the map list tells where a section is. -/
theorem Written.located (written : Written options file bytes) {item : MapItem} (inside : item ∈ file.map.items) :
    ∃ entry slot, item = slot.mapItem ∧ slot.block.kind = file.kindOf entry ∧ file.Located bytes entry slot := by
  obtain ⟨entry, present, slot, _, rfl, block, offsets, start, stop⟩ := written.current.mem_map inside
  have fits := written.current.laidOut.planned.fits
  have size : bytes.size = file.stop options := by
    rw [(stands_of_write written.write).1, written.current.laidOut.planned.header]
    exact toNat_ofNat_of_lt fits
  exact ⟨entry, slot, rfl, by rw [block, kind_block], {
    block
    offsets
    place := toNat_ofNat_of_lt (by omega)
    start := by omega
    stop := by omega
    some := (mem_present.1 present).2
    pieces := fun piece listed =>
      ((stands_of_write written.write).2.2 piece (List.mem_flatMap.2 ⟨entry, present, listed⟩)).2 }⟩

/-- The data of the strings stands where the string ids say. -/
theorem Written.stringData_stands (written : Written options file bytes)
    {row : UInt32 × StringItem} (listed : row ∈ file.strings.items.rows) :
    bytes.Stands row.2.dataOffset.toNat (encode row.2.value) := by
  have length : file.strings.items.rows.length = file.strings.size :=
    written.current.ready.orderly.strings.length_rows
  have some : 0 < file.strings.size := length ▸ List.length_pos_of_mem listed
  have piece : (row.2.dataOffset, encode row.2.value) ∈ file.piecesAt (.modelled .stringData) :=
    List.mem_map.2 ⟨row, listed, rfl⟩
  exact ((stands_of_write written.write).2.2 _ (List.mem_flatMap.2 ⟨.modelled .stringData,
    mem_present.2 ⟨written.current.ready.complete _ rfl, some⟩, piece⟩)).2

theorem Located.readStrings {slot : Slot} (located : file.Located bytes (.modelled .stringId) slot)
    (written : Written options file bytes) (sound : file.strings.items.All fun item => item.value.Sound) :
    (readStrings slot.mapItem).run bytes = .ok file.strings.items.rows := by
  have orderly := written.current.ready.orderly
  have length : file.strings.items.rows.length = file.strings.size := orderly.strings.length_rows
  have block := located.block
  have fits := located.stop
  have sizes : slot.block.sizes = List.replicate file.strings.items.rows.length 4 := by
    rw [block, length]
    rfl
  have one : slot.block.alignment = 1 := by
    rw [block]
    rfl
  have none : slot.block.tail = 0 := by
    rw [block]
    rfl
  have ends : slot.stop = placesEnd 1 slot.start (List.replicate file.strings.items.rows.length 4) := by
    rw [Slot.stop, sizes, one, none, Nat.add_zero]
  refine readStrings_eq ?_ (located.place ▸ located.start) ?_ ?_ ?_ ?_ ?_
  · change slot.block.units.toNat = _
    rw [block, length]
    exact toNat_ofNat_of_lt written.apart.strings
  · rw [orderly.strings.map_fst_rows, located.place]
    change file.offsetsAt (.modelled .stringId) = _
    rw [located.offsets, Slot.places, sizes, one]
  · rwa [located.place, ← ends]
  · exact fun row listed => located.pieces (row.1, Bytes.ofWord32 row.2.dataOffset) (List.mem_map_of_mem listed)
  · exact fun row listed => written.stringData_stands listed
  · exact fun row listed => sound.of_mem_rows listed

theorem Located.readItems {part : Part} {slot : Slot} (located : file.Located bytes (.modelled part.kind) slot)
    (written : Written options file bytes) (writable : (part.items file).All part.Writable) :
    (readItems slot.mapItem : Reader (List (UInt32 × part.Item))).run bytes =
      .ok ((part.items file).rows.map fun row => (row.1, part.bare row.2)) := by
  have valid := written.current.ready.orderly.valid part
  have fits := located.stop
  have size : bytes.size < UInt32.size := by
    rw [(stands_of_write written.write).1]
    exact file.header.fileSize.toNat_lt
  have block := located.block
  rw [block_kind] at block
  have offsets := located.offsets
  rw [offsetsAt_kind] at offsets
  have sizes : slot.block.sizes = (part.items file).rows.map fun row => byteSize row.2 := by
    rw [block, valid.map_size_rows]
  have alignment : slot.block.alignment = slot.mapItem.kind.alignment := by
    change _ = slot.block.kind.alignment
    rw [block]
  have none : slot.block.tail = 0 := by rw [block]
  have ends : slot.stop = placesEnd slot.mapItem.kind.alignment slot.start
      ((part.items file).rows.map fun row => byteSize row.2) := by
    rw [Slot.stop, sizes, alignment, none, Nat.add_zero]
  have stands (row : UInt32 × part.Item) (listed : row ∈ (part.items file).rows) :
      bytes.Stands row.1.toNat (encode row.2) := by
    refine located.pieces (row.1, encode row.2) ?_
    rw [piecesAt_kind]
    exact List.mem_map.2 ⟨row, listed, rfl⟩
  refine readItems_eq ?_ (located.place ▸ located.start) ?_ ?_ stands (fun row _ => part.encode_ne_nil row.2) ?_
  · change slot.block.units.toNat = _
    rw [block, valid.length_rows]
    exact toNat_ofNat_of_lt (written.apart.few part)
  · rw [valid.map_fst_rows, located.place, offsets, Slot.places, sizes, alignment]
  · rwa [located.place, ← ends]
  · intro row listed
    have bound := (stands row listed).length_le (part.encode_ne_nil row.2)
    exact part.reads row.2 (writable.of_mem_rows listed) (by omega)

/-- Every entry of the map list is read as it was written. -/
theorem Written.readAt (written : Written options file bytes) (legible : file.Legible)
    {item : MapItem} (inside : item ∈ file.map.items) : file.contents.ReadAt bytes item := by
  have orderly := written.current.ready.orderly
  obtain ⟨entry, slot, rfl, kind, located⟩ := written.located inside
  constructor
  · intro strings
    obtain rfl := orderly.eq_modelled rfl (kind.symm.trans strings)
    exact located.readStrings written legible.strings
  · intro part same
    obtain rfl := orderly.eq_modelled part.isModelled_kind (kind.symm.trans same)
    exact located.readItems written (legible.writable part)

/-- A file that was read, with the sections kept as bytes that the entries of the map list hold. -/
structure Reread (file : DexFile) (raws : List RawSection) (again : DexFile) : Prop extends
    Relinked file again where
  header : again.header = file.header
  map : again.map = file.map
  classes : again.readClasses = file.classDefs.size
  raws : again.raws = raws.map (·.link again.ids)
  layout : Completed (readLayout 0 file.map.items) (.modelled .header :: defaultLayout.map .modelled)
    again.layout
  keys : again.KeysKnown

theorem Written.stable (written : Written options file bytes) : file.Stable where
  orderly := written.current.ready.orderly
  apart := written.apart
  settled := written.current.settled

/-- The code of a file that is up to date stores its indexes. -/
theorem Current.stored (current : Current options file)
    (scanned : file.codes.All CodeItem.Scanned) : file.codes.All CodeItem.Stored := by
  have offsets := offsetsSettled_of_refresh current.laidOut.offsets
  exact fun id code found =>
    ((scanned id code found).refresh (offsets.codes id code found)).2

/-- Only the orders of the items count for linking by index. -/
theorem linkRaw_congr {file other : DexFile}
    (strings : other.strings.items.order = file.strings.items.order)
    (same : ∀ part : Part, (part.items other).order = (part.items file).order) :
    RawSection.link other.ids = RawSection.link file.ids := by
  have ref {α : Type} {items others : Section α} (order : others.order = items.order)
      (ref : IndexRef α) : ref.link others = ref.link items := by
    unfold IndexRef.link Section.get?
    rw [order]
  have target : ItemRef.link other.ids = ItemRef.link file.ids := by
    funext target
    cases target with
    | string target => exact congrArg ItemRef.string (ref strings target)
    | type target => exact congrArg ItemRef.type (ref (same .typeId) target)
    | proto target => exact congrArg ItemRef.proto (ref (same .protoId) target)
    | field target => exact congrArg ItemRef.field (ref (same .fieldId) target)
    | method target => exact congrArg ItemRef.method (ref (same .methodId) target)
  funext raw
  unfold RawSection.link
  rw [target]

/-- The entries of the modelled sections, in reading order. -/
def entries (file : DexFile) : List MapItem :=
  (file.map.items.filter (·.kind.isModelled)).mergeSort fun a b => a.kind.readRank ≤ b.kind.readRank

theorem mem_entries {item : MapItem} :
    item ∈ file.entries ↔ item ∈ file.map.items ∧ item.kind.isModelled = true := by
  rw [entries, List.mem_mergeSort, List.mem_filter]

theorem nodup_entries (sound : file.map.Sound) : (file.entries.map MapItem.kind).Nodup := by
  have perm := (List.mergeSort_perm (file.map.items.filter (·.kind.isModelled))
    fun a b => a.kind.readRank ≤ b.kind.readRank).map MapItem.kind
  exact perm.nodup_iff.2 (sound.distinct.sublist (List.filter_sublist.map _))

/-- A section with items has an entry. -/
theorem Current.entry_of_present (current : Current options file) {kind : SectionKind}
    (modelled : kind.isModelled = true) (some : 0 < file.countOf (.modelled kind)) :
    ∃ item ∈ file.entries, item.kind = kind := by
  obtain ⟨slot, listed, block, _⟩ := current.slot _ (mem_present.2
    ⟨current.ready.complete kind modelled, some⟩)
  have same : slot.mapItem.kind = kind := by
    change slot.block.kind = kind
    rw [block, kind_block]
    rfl
  refine ⟨slot.mapItem, mem_entries.2 ⟨?_, same ▸ modelled⟩, same⟩
  rw [current.laidOut.planned.map]
  exact List.mem_map_of_mem listed

/-- What was loaded mirrors what was written. -/
theorem Current.mirrors (current : Current options file) {start loaded : DexFile}
    (loading : Loading file.contents start file.entries loaded) : Mirrors file loaded where
  strings := by
    have same := loading.strings
    unfold Contents.stringsBy at same
    split at same
    · rename_i entry _
      exact ⟨entry.offset, same⟩
    · rename_i none
      refine ⟨0, ?_⟩
      have empty : file.strings.items.rows = [] := by
        apply List.length_eq_zero_iff.1
        rw [current.ready.orderly.strings.length_rows]
        apply Nat.eq_zero_of_not_pos
        intro some
        obtain ⟨item, listed, kind⟩ := current.entry_of_present
          (show SectionKind.stringId.isModelled = true from rfl) some
        exact List.find?_eq_none.1 none item listed (by simp [kind])
      rw [empty]
      exact same
  parts part := by
    have same := loading.rows part
    unfold Contents.rowsBy at same
    split at same
    · rename_i entry _
      exact ⟨entry.offset, same⟩
    · rename_i none
      refine ⟨0, ?_⟩
      have empty : (part.items file).rows = [] := by
        apply List.length_eq_zero_iff.1
        rw [(current.ready.orderly.valid part).length_rows]
        apply Nat.eq_zero_of_not_pos
        intro some
        obtain ⟨item, listed, kind⟩ := current.entry_of_present part.isModelled_kind
          (by rwa [Part.countOf_kind])
        exact List.find?_eq_none.1 none item listed (by simp [kind])
      rw [empty]
      exact same

theorem Unread.linked {loaded : DexFile} (unread : loaded.Unread) (codes : Section CodeItem) :
    (loaded.linked codes).Unread where
  strings := unread.strings
  types := ⟨unread.types.keys, unread.types.stale⟩
  protos := ⟨unread.protos.keys, unread.protos.stale⟩
  fields := ⟨unread.fields.keys, unread.fields.stale⟩
  methods := ⟨unread.methods.keys, unread.methods.stale⟩

/-- Keys that wait for the rebuild are not trusted before it. -/
theorem Unread.keysTrusted {loaded : DexFile} (unread : loaded.Unread) (strings : loaded.strings.items.Valid)
    (parts : ∀ part : Part, (part.items loaded).Valid) : loaded.KeysTrusted where
  strings := unread.strings.trusted strings _
  types := unread.types.trusted (parts .typeId) _
  protos := unread.protos.trusted (parts .protoId) _
  fields := unread.fields.trusted (parts .fieldId) _
  methods := unread.methods.trusted (parts .methodId) _

/-- The sections of a file that was read are valid. -/
theorem Relinked.valid {again : DexFile} (relinked : Relinked file again) :
    again.strings.items.Valid ∧ ∀ part : Part, (part.items again).Valid := by
  constructor
  · obtain ⟨place, same⟩ := relinked.strings
    rw [same]
    exact Section.valid_fresh
  · intro part
    obtain ⟨place, same⟩ := relinked.parts part
    rw [same]
    exact Section.valid_fresh

theorem Relinked.of_sameItems {again final : DexFile} (relinked : Relinked file again)
    (same : again.SameItems final) : Relinked file final where
  strings := by
    rw [same.strings]
    exact relinked.strings
  parts part := by
    rw [same.items part]
    exact relinked.parts part

/-- Loading starts with empty sections, whose keys are left to the rebuild. -/
theorem Loading.empty (contents : Contents) (header : Header) (raws : List RawSection) (layout : List LayoutEntry) :
    Loading contents { header, raws, layout } [] { header, raws, layout } where
  header := rfl
  raws := rfl
  layout := rfl
  strings := rfl
  rows part := by cases part <;> rfl
  unread := ⟨⟨rfl, .inr rfl⟩, ⟨rfl, .inr rfl⟩, ⟨rfl, .inr rfl⟩, ⟨rfl, .inr rfl⟩, ⟨rfl, .inr rfl⟩⟩

/-- As many classes are loaded as were written. -/
theorem Written.size_classes (written : Written options file bytes) {start loaded : DexFile}
    (loading : Loading file.contents start file.entries loaded) : loaded.classDefs.size = file.classDefs.size := by
  obtain ⟨place, here⟩ := (written.current.mirrors loading).parts .classDef
  have size := congrArg Section.size here
  rwa [Section.size_fresh, List.length_map, (written.stable.orderly.valid .classDef).length_rows] at size

/-- Sections kept as bytes are linked to the same orders before and behind the rebuild of the keys. -/
theorem linkRaw_of_relinked {again linked loaded : DexFile} (items : linked.SameItems again)
    (strings : linked.strings.items = loaded.strings.items) (relinked : file.Relinked linked)
    (mirrors : file.Mirrors loaded) : RawSection.link again.ids = RawSection.link loaded.ids := by
  apply linkRaw_congr
  · rw [items.strings, strings]
  · intro part
    obtain ⟨_, here⟩ := relinked.parts part
    obtain ⟨_, there⟩ := mirrors.parts part
    rw [items.items part, here, there, Section.order_fresh, Section.order_fresh]
    apply congrArg List.toArray
    apply List.ext_getElem?
    intro slot
    simp only [List.getElem?_mapIdx, List.getElem?_map, Option.map_map]
    rfl

/-- A loaded file is linked, and its keys are rebuilt. -/
theorem Written.link_loaded (written : Written options file bytes) (legible : file.Legible) {start loaded : DexFile}
    (loading : Loading file.contents start file.entries loaded) :
    let whole := { loaded with map := file.map, readClasses := loaded.classDefs.size }
    ∃ codes again, (DexFile.link >>= fun _ => rebuildKeys) whole = .ok () again ∧
      (whole.linked codes).SameItems again ∧ file.Relinked (whole.linked codes) ∧ again.KeysKnown := by
  intro whole
  have found := written.current.mirrors loading
  have mirrors : Mirrors file whole := ⟨found.strings, fun part => by
    obtain ⟨place, same⟩ := found.parts part
    exact ⟨place, Eq.trans (by cases part <;> rfl) same⟩⟩
  obtain ⟨linked, links, shape, relinked⟩ := mirrors.link written.stable.orderly written.apart
    written.stable.settled legible.faithful legible.scanned (written.current.stored legible.scanned)
  have unread : linked.Unread := by
    rw [shape]
    apply Unread.linked
    exact ⟨loading.unread.strings, loading.unread.types, loading.unread.protos,
      loading.unread.fields, loading.unread.methods⟩
  obtain ⟨strings, parts⟩ := relinked.valid
  obtain ⟨again, rebuild, items, keys⟩ := rebuildKeys_of_distinct parts strings
    (relinked.keysDistinct written.stable legible.keys) (unread.keysTrusted strings parts)
  refine ⟨linked.codes, again, ?_, shape ▸ items, shape ▸ relinked, keys⟩
  rw [Step.bind_ok links, rebuild]

/-- A written file is read back. -/
theorem read_of_written (written : Written options file bytes) (legible : file.Legible)
    {raws : List RawSection} (rawsRead : RawsRead bytes file.map.items raws) :
    ∃ again, read bytes {} = .ok again ∧ Reread file raws again := by
  obtain ⟨layout, complete, completed⟩ := completeLayout_eq
    { header := file.header, raws, layout := readLayout 0 file.map.items }
  have start : loadLayout bytes {} { header := file.header, layout := [] } file.map.byOffset =
      .ok { header := file.header, raws, layout := readLayout 0 file.map.items } := by
    rw [written.current.byOffset]
    exact loadLayout_eq_ok.2 ⟨raws, rawsRead, rfl⟩
  obtain ⟨loaded, run, loading⟩ := (Loading.empty file.contents file.header raws layout).run
    (fun item (inside : item ∈ file.entries) => written.readAt legible (mem_entries.1 inside).1)
    (nodup_entries legible.map)
  obtain ⟨codes, again, links, items, relinked, keys⟩ := written.link_loaded legible loading
  have others := items.others
  refine ⟨again, ?_, {
    toRelinked := relinked.of_sameItems items
    header := Eq.trans (by rw [others]; rfl) loading.header
    map := by rw [others]; rfl
    classes := Eq.trans (by rw [others]; rfl) (written.size_classes loading)
    raws := ?_
    layout := by
      rw [show again.layout = loaded.layout by rw [others]; rfl, loading.layout]
      exact completed
    keys }⟩
  · unfold read
    refine Except.bind_eq_ok.2 ⟨_, written.readHead legible.map {},
      Except.bind_eq_ok.2 ⟨_, start, Except.bind_eq_ok.2 ⟨loaded, ?_, ?_⟩⟩⟩
    · rw [complete]
      exact run
    · dsimp only
      rw [links]
  · have mirrors : file.Mirrors loaded := written.current.mirrors loading
    have orders : RawSection.link again.ids = RawSection.link loaded.ids :=
      linkRaw_of_relinked items rfl relinked mirrors
    have kept : again.raws = loaded.raws.map (·.link loaded.ids) := by
      rw [others]
      rfl
    rw [kept, orders, loading.raws]

end DexFile
end DexArsc.Dex
