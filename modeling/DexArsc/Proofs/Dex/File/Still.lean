/-
A file that was written: refreshing or writing it once more changes nothing, and gives the same bytes.
-/

import Mathlib.Tactic.Choose
import DexArsc.Proofs.Dex.File.Apart
import DexArsc.Proofs.Dex.File.Written

namespace DexArsc.Dex

variable {α : Type}

namespace Section

/-- Two sections with the same items in the same order, each at the same place. -/
structure SameItems (items final : Section α) : Prop where
  kind : final.kind = items.kind
  order : final.order = items.order
  live? : ∀ id, final.live? id = items.live? id

variable {items final third : Section α}

theorem SameItems.trans (first : items.SameItems final) (second : final.SameItems third) :
    items.SameItems third where
  kind := second.kind.trans first.kind
  order := second.order.trans first.order
  live? id := (second.live? id).trans (first.live? id)

/-- What a live slot holds is known from the views of the section. -/
theorem sameItems_of_views (kind : final.kind = items.kind) (order : final.order = items.order)
    (item : ∀ id, final.item? id = items.item? id) (index : ∀ id, final.indexOf? id = items.indexOf? id)
    (offset : ∀ id, final.offsetOf? id = items.offsetOf? id)
    (origin : ∀ id, final.originOf? id = items.originOf? id) : items.SameItems final where
  kind := kind
  order := order
  live? id := by
    have item := item id
    have index := index id
    have offset := offset id
    have origin := origin id
    rw [item?_eq, item?_eq] at item
    rw [indexOf?, indexOf?] at index
    rw [offsetOf?, offsetOf?] at offset
    rw [originOf?, originOf?] at origin
    cases here : final.live? id with
    | none =>
        rw [here, Option.map_none, eq_comm, Option.map_eq_none_iff] at index
        exact index.symm
    | some cell =>
        rw [here, Option.map_some, eq_comm, Option.map_eq_some_iff] at index
        obtain ⟨other, there, index⟩ := index
        rw [here, there] at item offset origin
        rw [there]
        obtain ⟨_, _, _, _⟩ := cell
        obtain ⟨_, _, _, _⟩ := other
        simp_all

namespace SameItems

variable (same : items.SameItems final)

include same

theorem item? (id : Id α) : final.item? id = items.item? id := by rw [item?_eq, item?_eq, same.live?]

theorem indexOf? (id : Id α) : final.indexOf? id = items.indexOf? id :=
  congrArg (Option.map Cell.position) (same.live? id)

theorem offsetOf? (id : Id α) : final.offsetOf? id = items.offsetOf? id :=
  congrArg (Option.map Cell.offset) (same.live? id)

theorem originOf? (id : Id α) : final.originOf? id = items.originOf? id :=
  congrArg (Option.map Cell.origin) (same.live? id)

theorem size : final.size = items.size := congrArg Array.size same.order

theorem rows : final.rows = items.rows := by
  unfold Section.rows
  simp only [same.order, same.live?]

theorem addTo (relocator : Relocator) : Section.addTo relocator final = Section.addTo relocator items :=
  addTo_congr same.order same.offsetOf? same.originOf? relocator

theorem map (change : α → α) : (items.map change).SameItems (final.map change) where
  kind := same.kind
  order := same.order
  live? id := by rw [live?_map, live?_map, same.live?]

end SameItems
end Section

namespace DexFile

/-- Two files with the same items in the same order and at the same places, the same sections kept as
bytes, and the same header, map list and layout. -/
structure SameState (file final : DexFile) : Prop where
  header : final.header = file.header
  map : final.map = file.map
  layout : final.layout = file.layout
  strings : file.strings.items.SameItems final.strings.items
  parts : ∀ part : Part, (part.items file).SameItems (part.items final)
  raws : final.raws = file.raws
  readClasses : final.readClasses = file.readClasses

variable {options : WriteOptions} {file final third : DexFile} {bytes : Bytes}

theorem SameState.trans (first : file.SameState final) (second : final.SameState third) :
    file.SameState third where
  header := second.header.trans first.header
  map := second.map.trans first.map
  layout := second.layout.trans first.layout
  strings := first.strings.trans second.strings
  parts part := (first.parts part).trans (second.parts part)
  raws := second.raws.trans first.raws
  readClasses := second.readClasses.trans first.readClasses

/-- The strings keep their values and the places of their data. -/
theorem sameItems_strings (ready : file.Ready) (unplaced : final.unplaced = file.unplaced)
    (offsets : ∀ entry, final.offsetsAt entry = file.offsetsAt entry) :
    file.strings.items.SameItems final.strings.items := by
  have order := order_strings_of_unplaced unplaced
  have valid := (ready.orderly.of_unplaced unplaced).strings
  have same := strings_of_unplaced unplaced
  have kind : (final.strings.items.map StringItem.unplaced).unplaced.kind =
      (file.strings.items.map StringItem.unplaced).unplaced.kind := congrArg Section.kind same
  refine Section.sameItems_of_views kind order (fun id => ?_) (fun id => ?_)
    (Section.offsetOf?_of_offsets ready.orderly.strings valid order (offsets (.modelled .stringId)))
    fun id => ?_
  · have value := value_of_unplaced unplaced id
    cases there : file.strings.items.item? id with
    | none => rwa [there, Option.map_none, Option.map_eq_none_iff] at value
    | some item =>
        rw [there, Option.map_some, Option.map_eq_some_iff] at value
        obtain ⟨image, here, same⟩ := value
        have listed := ready.orderly.strings.mem_order_iff.2 (by rw [there]; rfl)
        obtain ⟨place, found⟩ := List.getElem?_of_mem (Array.mem_toList_iff.2 listed)
        have dataAt := congrArg (fun offsets : List UInt32 => offsets[place]?)
          (offsets (.modelled .stringData))
        unfold DexFile.offsetsAt Section.dataOffsets at dataAt
        simp only [order, List.getElem?_map, found, Option.map_some, here, there, Option.getD_some,
          Option.some.injEq] at dataAt
        rw [here]
        obtain ⟨_, _⟩ := item
        obtain ⟨_, _⟩ := image
        simp only at same dataAt
        rw [same, dataAt]
  · have index := Section.indexOf?_of_unplaced same id
    rwa [Section.indexOf?_map, Section.indexOf?_map] at index
  · have origin := congrArg (fun items => Section.originOf? items id) same
    simpa using origin

/-- Files that differ by places only are the same when the places are. -/
theorem sameState_of_offsetsAt (ready : file.Ready) (unplaced : final.unplaced = file.unplaced)
    (header : final.header = file.header) (map : final.map = file.map)
    (offsets : ∀ entry, final.offsetsAt entry = file.offsetsAt entry) : file.SameState final where
  header := header
  map := map
  layout := layout_of_unplaced unplaced
  strings := sameItems_strings ready unplaced offsets
  parts part := by
    have same := items_of_unplaced unplaced part
    have places := offsets (.modelled part.kind)
    rw [offsetsAt_kind, offsetsAt_kind] at places
    have kind : (part.items final).unplaced.kind = (part.items file).unplaced.kind :=
      congrArg Section.kind same
    refine Section.sameItems_of_views kind (Section.order_of_unplaced same)
      (Section.item?_of_unplaced same) (Section.indexOf?_of_unplaced same)
      (Section.offsetOf?_of_offsets (ready.orderly.valid part)
        ((ready.orderly.of_unplaced unplaced).valid part) (Section.order_of_unplaced same) places)
      fun id => ?_
    have origin := congrArg (fun items => Section.originOf? items id) same
    simpa using origin
  raws := by
    apply List.ext_getElem?
    intro index
    have same := raws_of_unplaced unplaced index
    have offset : (final.raws[index]?.map RawSection.offset).toList =
        (file.raws[index]?.map RawSection.offset).toList := offsets (.raw index)
    cases here : final.raws[index]? with
    | none =>
        rw [here, Option.map_none, eq_comm, Option.map_eq_none_iff] at same
        exact same.symm
    | some raw =>
        rw [here, Option.map_some, eq_comm, Option.map_eq_some_iff] at same
        obtain ⟨other, there, same⟩ := same
        rw [here, there] at offset
        rw [there]
        obtain ⟨_, _, _, _, _, _, _, _⟩ := raw
        obtain ⟨_, _, _, _, _, _, _, _⟩ := other
        simp_all [RawSection.unplaced]
  readClasses := readClasses_of_unplaced unplaced

/-- A pass over a file that follows the plan leaves every place as it is. -/
theorem Planned.offsetsAt (planned : Planned options file file) (pass : Planned options file final)
    (entry : LayoutEntry) (inside : entry ∈ file.present) :
    final.offsetsAt entry = file.offsetsAt entry := by
  obtain ⟨index, found⟩ := List.getElem?_of_mem inside
  obtain ⟨slot, _, _, pair⟩ := slot_of_present options found
  rw [pass.placed _ pair, planned.placed _ pair]

/-- A pass over a file that follows the plan changes nothing. -/
theorem Ready.sameState_of_layoutPass (ready : file.Ready) (planned : Planned options file file)
    {reported : Array UInt32} (run : DexFile.layoutPass options file = .ok reported final) :
    file.SameState final := by
  have pass := ((ready.layoutPass options).ok run).2
  refine sameState_of_offsetsAt ready pass.unplaced (pass.header.trans planned.header.symm)
    (pass.map.trans planned.map.symm) fun entry => ?_
  by_cases inside : entry ∈ file.present
  · exact planned.offsetsAt pass entry inside
  · exact ready.layoutPass_others run inside

namespace SameState

variable (same : file.SameState final)

include same

theorem ids : file.ids.SameIndexes final.ids where
  strings := same.strings.indexOf?
  types := (same.parts .typeId).indexOf?
  protos := (same.parts .protoId).indexOf?
  fields := (same.parts .fieldId).indexOf?
  methods := (same.parts .methodId).indexOf?

theorem relocator : final.relocator = file.relocator := by
  have items : Section.addTo (Section.addTo (Section.addTo (Section.addTo {} final.typeLists)
      final.classData) final.codes) final.debugInfos =
      Section.addTo (Section.addTo (Section.addTo (Section.addTo {} file.typeLists)
        file.classData) file.codes) file.debugInfos := by
    rw [show Section.addTo {} final.typeLists = Section.addTo {} file.typeLists from
        (same.parts .typeList).addTo {}]
    refine ((same.parts .debugInfo).addTo _).trans (congrArg (Section.addTo · file.debugInfos) ?_)
    refine ((same.parts .codeItem).addTo _).trans (congrArg (Section.addTo · file.codes) ?_)
    exact (same.parts .classData).addTo _
  rw [relocator_eq, relocator_eq, items]
  unfold rawSections
  rw [same.layout, same.raws]

theorem withRelocated : file.withRelocated.SameState final.withRelocated where
  header := same.header
  map := same.map
  layout := same.layout
  strings := same.strings
  parts part := by
    have items := same.parts part
    cases part with
    | classDef =>
        change (file.classDefs.map _).SameItems (final.classDefs.map _)
        rw [same.relocator]
        exact items.map _
    | _ => exact items
  raws := by
    change final.raws.map _ = file.raws.map _
    rw [same.raws, same.relocator]
  readClasses := same.readClasses

/-- References that are settled stay so when the items keep their places. -/
theorem offsetsSettled (settled : file.OffsetsSettled) : final.OffsetsSettled := by
  have map : final.offsetMap = file.offsetMap := offsetMap_congr fun part => (same.parts part).offsetOf?
  refine ⟨fun id item found => ?_, fun id item found => ?_, fun id item found => ?_, fun id code found => ?_⟩
  · rw [map]
    exact settled.protos id item (((same.parts .protoId).item? id).symm.trans found)
  · rw [map]
    exact settled.classData id item (((same.parts .classData).item? id).symm.trans found)
  · rw [map]
    exact settled.classDefs id item (((same.parts .classDef).item? id).symm.trans found)
  · have step : CodeItem.refresh final.ids final.debugInfos = CodeItem.refresh file.ids file.debugInfos :=
      CodeItem.refresh_congr same.ids (same.parts .debugInfo).offsetOf?
    rw [step]
    exact settled.codes id code (((same.parts .codeItem).item? id).symm.trans found)

theorem countOf (entry : LayoutEntry) : final.countOf entry = file.countOf entry := by
  have strings := same.strings.size
  have size (part : Part) := (same.parts part).size
  cases entry with
  | raw index =>
      unfold DexFile.countOf
      rw [same.raws]
  | modelled kind =>
      cases kind with
      | stringId | stringData => exact strings
      | typeId => exact size .typeId
      | protoId => exact size .protoId
      | fieldId => exact size .fieldId
      | methodId => exact size .methodId
      | classDef => exact size .classDef
      | typeList => exact size .typeList
      | classData => exact size .classData
      | codeItem => exact size .codeItem
      | debugInfo => exact size .debugInfo
      | _ => rfl

theorem piecesAt (entry : LayoutEntry) : final.piecesAt entry = file.piecesAt entry := by
  cases entry with
  | raw index =>
      unfold DexFile.piecesAt
      rw [same.raws]
  | modelled kind =>
      unfold DexFile.piecesAt
      split
      · rename_i other
        cases other
      · rw [same.header, same.map]
      · rw [same.strings.rows]
      · rw [same.strings.rows]
      · simp only [(same.parts _).rows]

theorem write : final.write = file.write := by
  have present : final.present = file.present := by
    unfold DexFile.present
    simp only [same.layout, same.countOf]
  have pieces : final.pieces = file.pieces := by
    unfold DexFile.pieces
    rw [present]
    exact congrArg (file.present.flatMap ·) (funext same.piecesAt)
  funext fill
  rw [write_eq, write_eq, same.header, pieces]

end SameState

theorem slots_congr (blocks : final.blocks = file.blocks) : final.slots options = file.slots options :=
  congrArg (plan options 0) blocks

theorem stop_congr (blocks : final.blocks = file.blocks) : final.stop options = file.stop options :=
  congrArg (planEnd options 0) blocks

/-- A file follows the plan when it does so once it is relocated. -/
theorem Planned.of_withRelocated (planned : Planned options file.withRelocated file.withRelocated) :
    Planned options file file := by
  have blocks := blocks_withRelocated file
  refine ⟨?_, rfl, fun pair inside => ?_, ?_, ?_⟩
  · rw [← stop_congr blocks]
    exact planned.fits
  · rw [← offsetsAt_withRelocated]
    exact planned.placed pair (by rwa [present_withRelocated, slots_congr blocks])
  · rw [← slots_congr blocks]
    exact planned.map
  · rw [← slots_congr blocks, ← stop_congr blocks]
    exact planned.header

/-- A file that is laid out once it is relocated settles with the second pass. -/
theorem LaidOut.settle (laidOut : LaidOut options file.withRelocated) (ready : file.Ready)
    (settled : file.OffsetsSettled) (passes : Nat) : ∃ final,
    DexFile.settle options (passes + 2) none file = .ok () final ∧ file.withRelocated.SameState final := by
  have planned := laidOut.planned.of_withRelocated
  obtain ⟨reported, mid, first, report, pass⟩ :=
    (ready.layoutPass options).succeeds (Nat.not_le.2 planned.fits)
  have same := ready.sameState_of_layoutPass planned first
  have refresh := (same.offsetsSettled settled).refreshOffsets_eq
  have laidOutMid := pass.laidOut (same.offsetsSettled settled)
  have readyMid := (ready.of_unplaced pass.unplaced).refreshOffsets refresh
  have settledMid := offsetsSettled_of_refresh refresh
  obtain ⟨reported', final, second, report', _⟩ :=
    (readyMid.layoutPass options).succeeds (Nat.not_le.2 laidOutMid.planned.fits)
  have same' := readyMid.sameState_of_layoutPass laidOutMid.planned second
  have blocks : mid.withRelocated.blocks = file.blocks :=
    (blocks_withRelocated mid).trans (blocks_of_unplaced pass.unplaced)
  rw [slots_congr blocks, ← report] at report'
  refine ⟨final.withRelocated, ?_, same.withRelocated.trans ?_⟩
  · unfold DexFile.settle
    rw [Step.bind_ok first, Step.bind_ok refresh]
    change DexFile.settle options (passes + 1) (some reported) mid.withRelocated = _
    unfold DexFile.settle
    rw [Step.bind_ok second, Step.bind_ok (same'.offsetsSettled settledMid).refreshOffsets_eq, report']
    simp
  · have relocated := settledMid.refreshOffsets_eq
    rw [laidOutMid.offsets, EStateM.Result.ok.injEq] at relocated
    have whole := same'.withRelocated
    rwa [← relocated.2] at whole

/-- Every section kept as bytes holds the current indexes. -/
def Reencoded (file : DexFile) : Prop :=
  ∀ raw ∈ file.raws, raw.Reencoded file.ids

/-- Another refresh of the indexes only takes back the relocation of the sections kept as bytes. -/
theorem Current.refreshIndexes (current : Current options file) (reencoded : file.Reencoded) :
    ∃ mid, refreshIndexes file = .ok () mid ∧ mid.withRelocated = file ∧ mid.Ready ∧
      mid.OffsetsSettled := by
  have : Nonempty RawSection :=
    ⟨{ kind := .header, count := 0, origin := 0, offset := 0, source := #[], bytes := #[], fixups := [] }⟩
  choose! fresh run relocated using fun raw inside => (reencoded raw inside).refreshIndexes
  have settled := offsetsSettled_of_refresh current.laidOut.offsets
  have refresh : DexFile.refreshIndexes file = .ok () { file with raws := file.raws.map fresh } := by
    have short := current.indexed.short
    refine refreshIndexes_eq_ok.2 ⟨by rw [current.indexed.indexed_eq_self],
      ⟨short.typeLists, short.fields, short.methods⟩, ?_⟩
    refine Step.onEach_eq_ok.2 ⟨List.length_map _, fun place raw image here there => ?_⟩
    rw [List.getElem?_map, here, Option.map_some, Option.some.injEq] at there
    subst there
    exact run raw (List.mem_of_getElem? here)
  have settled := offsetsSettled_of_refresh current.laidOut.offsets
  have still := settled.refreshOffsets_eq
  rw [current.laidOut.offsets, EStateM.Result.ok.injEq] at still
  have raws (relocator : Relocator) : (file.raws.map fresh).map (·.relocate relocator) =
      file.raws.map (·.relocate relocator) := by
    rw [List.map_map]
    exact List.map_congr_left fun raw inside => relocated raw inside relocator
  have relocator : relocator { file with raws := file.raws.map fresh } = file.relocator := by
    have extent (raw : RawSection) (inside : raw ∈ file.raws) : (fresh raw).extent = raw.extent :=
      show ((fresh raw).relocate {}).extent = (raw.relocate {}).extent by rw [relocated raw inside]
    have extents : (rawSections { file with raws := file.raws.map fresh }).map RawSection.extent =
        file.rawSections.map RawSection.extent := by
      rw [rawSections_map, List.map_map]
      refine List.map_congr_left fun raw inside => extent raw ?_
      obtain ⟨entry, _, found⟩ := List.mem_filterMap.1 inside
      cases entry with
      | modelled kind => cases found
      | raw index => exact List.mem_of_getElem? found
    have fold (raws : List RawSection) (start : Relocator) :
        raws.foldl (fun relocator raw => relocator.addExtent raw.extent) start =
          (raws.map RawSection.extent).foldl Relocator.addExtent start := List.foldl_map.symm
    rw [relocator_eq, relocator_eq, fold, fold, extents]
  refine ⟨_, refresh, ?_, current.ready.refreshIndexes refresh, ?_⟩
  · refine Eq.trans ?_ still.2.symm
    unfold withRelocated
    rw [relocator, raws]
  · exact ⟨settled.protos, settled.classData, settled.classDefs, settled.codes⟩

/-- A section that is kept as bytes holds data about single classes. -/
theorem isHiddenApi_iff (file : DexFile) (index : Nat) :
    (file.raws[index]?.any fun raw => raw.kind == .hiddenApi) = true ↔ file.kindOf (.raw index) = .hiddenApi := by
  change _ ↔ (file.raws[index]?.map RawSection.kind).getD (.unknown 0xFFFF) = .hiddenApi
  cases file.raws[index]? with
  | none => simp
  | some raw => simp

/-- Data about single classes stays as long as the number of classes is the one that was read. -/
theorem dropHiddenApi_eq_self : file.dropHiddenApi = file ↔ file.classDefs.size = file.readClasses ∨
    ∀ index, .raw index ∈ file.layout → file.kindOf (.raw index) ≠ .hiddenApi := by
  unfold dropHiddenApi
  by_cases size : file.classDefs.size = file.readClasses
  · simp [size]
  · rw [if_neg size, or_iff_right size]
    have whole (layout : List LayoutEntry) : { file with layout } = file ↔ layout = file.layout :=
      ⟨congrArg DexFile.layout, fun same => by rw [same]⟩
    rw [whole, List.filter_eq_self]
    constructor
    · intro kept index inside
      have test := kept _ inside
      rw [Bool.not_eq_true', Bool.eq_false_iff] at test
      exact fun kind => test ((isHiddenApi_iff file index).2 kind)
    · intro kept entry inside
      cases entry with
      | modelled kind => rfl
      | raw index =>
          rw [Bool.not_eq_true', Bool.eq_false_iff]
          exact fun test => kept index inside ((isHiddenApi_iff file index).1 test)

/-- Only the layout, the kinds of its sections and the numbers of classes count. -/
theorem dropHiddenApi_congr (kept : file.dropHiddenApi = file) (layout : final.layout = file.layout)
    (kinds : ∀ entry, final.kindOf entry = file.kindOf entry)
    (size : final.classDefs.size = file.classDefs.size) (read : final.readClasses = file.readClasses) :
    final.dropHiddenApi = final := by
  rw [dropHiddenApi_eq_self] at kept ⊢
  rwa [size, read, layout, funext kinds]

/-- What is dropped once is gone. -/
theorem dropHiddenApi_dropHiddenApi (file : DexFile) :
    file.dropHiddenApi.dropHiddenApi = file.dropHiddenApi := by
  unfold dropHiddenApi
  by_cases size : file.classDefs.size = file.readClasses
  · simp only [if_pos size]
  · simp only [if_neg size, List.filter_filter, Bool.and_self]

/-- A file that another refresh leaves as it is. -/
structure Still (options : WriteOptions) (file : DexFile) (bytes : Bytes) : Prop where
  written : Written options file bytes
  kept : file.dropHiddenApi = file
  reencoded : file.Reencoded

theorem Reencoded.of_unplaced (reencoded : file.Reencoded) (same : final.unplaced = file.unplaced) :
    final.Reencoded := by
  intro raw inside
  obtain ⟨index, found⟩ := List.getElem?_of_mem inside
  have image := raws_of_unplaced same index
  rw [found, Option.map_some, eq_comm, Option.map_eq_some_iff] at image
  obtain ⟨other, there, image⟩ := image
  have whole : raw = { other with offset := raw.offset } :=
    congrArg (fun unplaced : RawSection => { unplaced with offset := raw.offset }) image.symm
  rw [whole]
  exact ((reencoded other (List.mem_of_getElem? there)).congr (sameIndexes_of_unplaced same)).withOffset _

theorem Reencoded.refreshOffsets (reencoded : file.Reencoded) (refresh : refreshOffsets file = .ok () final) :
    final.Reencoded := by
  intro raw inside
  rw [(refreshOffsets_eq_ok.1 refresh).1] at inside
  obtain ⟨other, listed, rfl⟩ := List.mem_map.1 inside
  exact ((reencoded other listed).congr (refreshOffsets_frame refresh).ids).relocate _

theorem reencoded_of_refresh (refresh : refreshIndexes file = .ok () final) : final.Reencoded := by
  obtain ⟨length, each⟩ := Step.onEach_eq_ok.1 (refreshIndexes_eq_ok.1 refresh).2.2
  intro raw inside
  obtain ⟨index, here⟩ := List.getElem?_of_mem inside
  have bound := (List.getElem?_eq_some_iff.1 here).1
  have there : file.raws[index]? = some file.raws[index] := List.getElem?_eq_getElem (by omega)
  exact RawSection.reencoded_of_refresh (each index _ raw there here)

/-- A file that is regular is still once it is written. -/
theorem still_of_toBytes (regular : file.Regular) (run : toBytes options file = .ok bytes final) :
    Still options final bytes := by
  have written := written_of_toBytes regular run
  obtain ⟨mid, out, refreshed, _, last⟩ := toBytes_eq_ok.1 run
  obtain ⟨start, indexes, settled⟩ := refresh_eq_ok.1 refreshed
  have ready : start.Ready := by
    obtain ⟨layout, same, ready⟩ := regular.start
    rw [same] at indexes
    exact ready.refreshIndexes indexes
  have frame := refreshIndexes_frame indexes
  have kept := settle_keeps
    (fun before behind (holds : before.dropHiddenApi = before ∧ before.Reencoded) planned =>
      (⟨dropHiddenApi_congr holds.1 (layout_of_unplaced planned.unplaced) (kindOf_of_unplaced planned.unplaced)
        (size_of_unplaced planned.unplaced .classDef) (readClasses_of_unplaced planned.unplaced),
        holds.2.of_unplaced planned.unplaced⟩ : behind.dropHiddenApi = behind ∧ behind.Reencoded))
    (fun before behind holds refresh =>
      have frame := refreshOffsets_frame refresh
      ⟨dropHiddenApi_congr holds.1 frame.layout frame.kindOf (frame.parts .classDef).size frame.readClasses,
        holds.2.refreshOffsets refresh⟩)
    ready ⟨dropHiddenApi_congr (dropHiddenApi_dropHiddenApi _) frame.layout frame.kindOf
      (frame.parts .classDef).size frame.readClasses, reencoded_of_refresh indexes⟩ settled
  by_cases update : options.updateChecksum = true
  · rw [if_pos update] at last
    obtain ⟨_, rfl⟩ := last
    exact ⟨written, dropHiddenApi_congr kept.1 rfl (fun entry => by cases entry <;> rfl) rfl rfl, kept.2⟩
  · rw [if_neg update] at last
    obtain ⟨_, rfl⟩ := last
    exact ⟨written, kept.1, kept.2⟩

/-- A file with the same contents at the same places that is up to date is still, too. -/
theorem Still.of_sameState (still : Still options file bytes) (current : Current options final)
    (same : file.SameState final) : Still options final bytes where
  written := {
    current
    write := by
      rw [same.write]
      exact still.written.write
    sealed := fun update => by
      rw [same.header]
      exact still.written.sealed update }
  kept := dropHiddenApi_congr still.kept same.layout (fun entry => by
    unfold kindOf
    rw [same.raws]) (same.parts .classDef).size same.readClasses
  reencoded raw inside := by
    rw [same.raws] at inside
    exact (still.reencoded raw inside).congr same.ids

/-- Another refresh succeeds and changes nothing. -/
theorem Still.refresh (still : Still options file bytes) : ∃ final,
    refresh options file = .ok () final ∧ file.SameState final ∧ Still options final bytes := by
  have current := still.written.current
  obtain ⟨mid, indexes, relocated, ready, settled⟩ := current.refreshIndexes still.reencoded
  have laidOut := current.laidOut
  rw [← relocated] at laidOut
  obtain ⟨final, run, same⟩ := laidOut.settle ready settled 14
  rw [relocated] at same
  have refreshed : DexFile.refresh options file = .ok () final := by
    refine refresh_eq_ok.2 ⟨mid, ?_, run⟩
    rw [completeLayout_eq_self current.ready.complete, still.kept]
    exact indexes
  exact ⟨final, refreshed, same, still.of_sameState
    (current_of_refresh ⟨current.ready.orderly, current.header⟩ refreshed) same⟩

/-- Writing once more gives the same bytes and changes nothing. -/
theorem Still.toBytes (still : Still options file bytes) : ∃ final,
    toBytes options file = .ok bytes final ∧ file.SameState final := by
  obtain ⟨final, run, same, again⟩ := still.refresh
  by_cases update : options.updateChecksum = true
  · obtain ⟨whole, signature, checksum⟩ := again.written.sealed update
    refine ⟨final, toBytes_eq_ok.2 ⟨final, bytes, run, again.written.write, ?_⟩, same⟩
    rw [if_pos update]
    refine ⟨whole.symm, ?_⟩
    unfold sealedBy
    rw [← signature, ← checksum]
  · refine ⟨final, toBytes_eq_ok.2 ⟨final, bytes, run, again.written.write, ?_⟩, same⟩
    rw [if_neg update]
    exact ⟨rfl, rfl⟩

end DexFile
end DexArsc.Dex
