/-
Layout passes until nothing moves: when two passes in a row report the same offsets, the file is
laid out, and neither another pass nor another refresh of the offsets changes it.
-/

import DexArsc.Proofs.Dex.File.Frame

namespace DexArsc.Dex

namespace Section

variable {α : Type} {items final : Section α}

/-- The places of the listed items are those of all items. -/
theorem offsetOf?_of_offsets (valid : items.Valid) (valid' : final.Valid)
    (order : final.order = items.order) (offsets : final.offsets = items.offsets) (id : Id α) :
    final.offsetOf? id = items.offsetOf? id := by
  have live : (final.offsetOf? id).isSome = (items.offsetOf? id).isSome := by
    rw [Bool.eq_iff_iff, isSome_offsetOf?, isSome_offsetOf?, ← valid.mem_order_iff,
      ← valid'.mem_order_iff, order]
  cases there : items.offsetOf? id with
  | none =>
      rw [there] at live
      exact Option.isNone_iff_eq_none.1 (by simpa using live)
  | some offset =>
      rw [there] at live
      obtain ⟨other, here⟩ := Option.isSome_iff_exists.1 live
      have listed : id ∈ items.order := by
        rw [valid.mem_order_iff, ← isSome_offsetOf?, there]
        rfl
      obtain ⟨place, found⟩ := Array.mem_iff_getElem?.1 listed
      have same := congrArg (fun offsets : List UInt32 => offsets[place]?) offsets
      simp only [Section.offsets, order, List.getElem?_map, Array.getElem?_toList, found, here, there,
        Option.map_some, Option.getD_some] at same
      rw [here, same]

end Section

/-- A list of runs of known lengths is known from what stands in it. -/
theorem map_of_flatMap_eq {α β γ : Type} {first : α → List γ} {second : β → List γ} {left : List α}
    {right : List β} (length : left.map (fun item => (first item).length) =
      right.map fun item => (second item).length)
    (same : left.flatMap first = right.flatMap second) : left.map first = right.map second := by
  induction left generalizing right with
  | nil =>
      cases right with
      | nil => rfl
      | cons item rest => cases length
  | cons item rest ih =>
      cases right with
      | nil => cases length
      | cons other others =>
          simp only [List.map_cons, List.cons.injEq, List.flatMap_cons] at length same ⊢
          obtain ⟨here, later⟩ := List.append_inj same length.1
          exact ⟨here, ih length.2 later⟩

theorem ClassDef.byteSize_relocated (relocator : Relocator) (item : ClassDef) :
    byteSize (item.relocated relocator) = byteSize item :=
  rfl

namespace DexFile

variable {file final : DexFile}

/-- Every reference by offset holds the place of its item, and code its operands. -/
structure OffsetsSettled (file : DexFile) : Prop where
  protos : file.protos.items.All fun item => item.withRefs file.offsetMap = item
  classData : file.classData.All fun data => data.withRefs file.offsetMap = data
  classDefs : file.classDefs.All fun item => item.withRefs file.offsetMap = item
  codes : file.codes.All fun code => CodeItem.refresh file.ids file.debugInfos code = .ok () code

theorem offsetMap_after (file : DexFile) : file.offsetMap.after file.offsetMap = file.offsetMap := by
  unfold offsetMap RefMap.after
  simp only [RefMap.mk.injEq]
  refine ⟨rfl, rfl, rfl, rfl, rfl, ?_, ?_, ?_, ?_⟩ <;>
    exact funext fun ref => OffsetRef.settled_refresh _ ref

/-- Only the places of the items count for the images of references. -/
theorem offsetMap_congr
    (same : ∀ part : Part, ∀ id, (part.items final).offsetOf? id = (part.items file).offsetOf? id) :
    final.offsetMap = file.offsetMap := by
  unfold offsetMap
  simp only [RefMap.mk.injEq, true_and]
  exact ⟨funext (OffsetRef.refresh_congr (same .typeList)),
    funext (OffsetRef.refresh_congr (same .classData)),
    funext (OffsetRef.refresh_congr (same .codeItem)),
    funext (OffsetRef.refresh_congr (same .debugInfo))⟩

theorem SameFrame.ids (same : file.SameFrame final) : file.ids.SameIndexes final.ids where
  strings id := by
    change final.strings.items.indexOf? id = _
    rw [same.strings]
    rfl
  types := (same.parts .typeId).indexOf?
  protos := (same.parts .protoId).indexOf?
  fields := (same.parts .fieldId).indexOf?
  methods := (same.parts .methodId).indexOf?

/-- After a refresh the references by offset hold the places of their items. -/
theorem offsetsSettled_of_refresh (refresh : refreshOffsets file = .ok () final) :
    final.OffsetsSettled := by
  have frame := refreshOffsets_frame refresh
  have map : final.offsetMap = file.offsetMap :=
    offsetMap_congr fun part id => (frame.parts part).offsetOf? id
  obtain ⟨whole, run⟩ := refreshOffsets_eq_ok.1 refresh
  have twice {α : Type} (withRefs : α → RefMap → α)
      (after : ∀ second first item, withRefs item (second.after first) =
        withRefs (withRefs item first) second) (item : α) :
      withRefs (withRefs item file.offsetMap) final.offsetMap = withRefs item file.offsetMap := by
    rw [map, ← after, offsetMap_after]
  refine ⟨?_, ?_, ?_, ?_⟩
  · rw [show final.protos.items = file.protos.items.map (·.withRefs file.offsetMap) by rw [whole]; rfl]
    exact Section.all_map.2 fun id item _ =>
      twice (fun item change => item.withRefs change)
        (fun second first item => ProtoItem.withRefs_after second first item) item
  · rw [show final.classData = file.classData.map (·.withRefs file.offsetMap) by rw [whole]; rfl]
    exact Section.all_map.2 fun id item _ =>
      twice (fun item change => item.withRefs change)
        (fun second first item => ClassData.withRefs_after second first item) item
  · rw [show final.classDefs = file.classDefs.map fun item =>
      (item.withRefs file.offsetMap).relocated file.relocator by rw [whole]; rfl]
    refine Section.all_map.2 fun id item _ => ?_
    exact congrArg (ClassDef.relocated file.relocator) (twice (fun item change => item.withRefs change)
      (fun second first item => ClassDef.withRefs_after second first item) item)
  · intro id code found
    obtain ⟨_, _, refreshed⟩ := Section.item?_of_onItems run id code found
    have step : CodeItem.refresh final.ids final.debugInfos =
        CodeItem.refresh file.ids file.debugInfos :=
      CodeItem.refresh_congr frame.ids fun id => (frame.parts .debugInfo).offsetOf? id
    rw [step]
    exact CodeItem.refresh_refresh refreshed

/-- The items of a file are those of a file that differs by places. -/
theorem item?_of_unplaced (same : final.unplaced = file.unplaced) (part : Part) (id : Id part.Item) :
    (part.items final).item? id = (part.items file).item? id :=
  Section.item?_of_unplaced (items_of_unplaced same part) id

theorem sameIndexes_of_unplaced (same : final.unplaced = file.unplaced) :
    file.ids.SameIndexes final.ids where
  strings id := by
    have index := Section.indexOf?_of_unplaced (strings_of_unplaced same) id
    rwa [Section.indexOf?_map, Section.indexOf?_map] at index
  types := Section.indexOf?_of_unplaced (items_of_unplaced same .typeId)
  protos := Section.indexOf?_of_unplaced (items_of_unplaced same .protoId)
  fields := Section.indexOf?_of_unplaced (items_of_unplaced same .fieldId)
  methods := Section.indexOf?_of_unplaced (items_of_unplaced same .methodId)

/-- References that are settled stay so when the items receive the same places again. -/
theorem OffsetsSettled.of_unplaced (settled : file.OffsetsSettled)
    (same : final.unplaced = file.unplaced)
    (offsets : ∀ part : Part, ∀ id, (part.items final).offsetOf? id = (part.items file).offsetOf? id) :
    final.OffsetsSettled where
  protos id item found := by
    rw [offsetMap_congr offsets]
    exact settled.protos id item ((item?_of_unplaced same .protoId id).symm.trans found)
  classData id item found := by
    rw [offsetMap_congr offsets]
    exact settled.classData id item ((item?_of_unplaced same .classData id).symm.trans found)
  classDefs id item found := by
    rw [offsetMap_congr offsets]
    exact settled.classDefs id item ((item?_of_unplaced same .classDef id).symm.trans found)
  codes id item found := by
    have step : CodeItem.refresh final.ids final.debugInfos =
        CodeItem.refresh file.ids file.debugInfos :=
      CodeItem.refresh_congr (sameIndexes_of_unplaced same) (offsets .debugInfo)
    rw [step]
    exact settled.codes id item ((item?_of_unplaced same .codeItem id).symm.trans found)

/-- The file with its offsets into sections kept as bytes relocated. -/
def withRelocated (file : DexFile) : DexFile :=
  { file with
    classDefs := file.classDefs.map (·.relocated file.relocator)
    raws := file.raws.map (·.relocate file.relocator) }

/-- Where the references by offset are settled, a refresh only relocates. -/
theorem OffsetsSettled.refreshOffsets_eq (settled : file.OffsetsSettled) :
    refreshOffsets file = .ok () file.withRelocated := by
  rw [refreshOffsets_eq_ok]
  refine ⟨?_, Section.onItems_of_still settled.codes⟩
  have classDefs : file.classDefs.map (fun item =>
      (item.withRefs file.offsetMap).relocated file.relocator) =
      file.classDefs.map (·.relocated file.relocator) := by
    have after := congrArg (·.map (ClassDef.relocated file.relocator))
      (Section.map_eq_self settled.classDefs)
    rwa [Section.map_map] at after
  unfold withOffsets
  rw [Section.map_eq_self settled.protos, Section.map_eq_self settled.classData, classDefs]
  rfl

theorem rawSections_map (file : DexFile) (change : RawSection → RawSection) :
    rawSections { file with raws := file.raws.map change } = file.rawSections.map change := by
  unfold rawSections
  rw [List.map_filterMap]
  congr 1
  funext entry
  cases entry <;> simp

theorem relocator_withRelocated (file : DexFile) : file.withRelocated.relocator = file.relocator := by
  rw [relocator_eq, relocator_eq]
  have raws : file.withRelocated.rawSections = file.rawSections.map (·.relocate file.relocator) :=
    rawSections_map _ _
  rw [raws, List.foldl_map]
  rfl

theorem withRelocated_eq_self
    (classDefs : file.classDefs.map (·.relocated file.relocator) = file.classDefs)
    (raws : file.raws.map (·.relocate file.relocator) = file.raws) : file.withRelocated = file := by
  unfold withRelocated
  rw [classDefs, raws]

/-- A file that is relocated is not changed by another refresh. -/
theorem OffsetsSettled.refreshOffsets_withRelocated (settled : file.OffsetsSettled) :
    refreshOffsets file.withRelocated = .ok () file.withRelocated := by
  have again : file.withRelocated.OffsetsSettled := by
    refine ⟨settled.protos, settled.classData, ?_, settled.codes⟩
    refine Section.all_map.2 fun id item found => ?_
    exact congrArg (ClassDef.relocated file.relocator) (settled.classDefs id item found)
  have classDefs : file.withRelocated.classDefs.map (·.relocated file.withRelocated.relocator) =
      file.withRelocated.classDefs := by
    rw [relocator_withRelocated]
    exact Section.map_map ..
  have raws : file.withRelocated.raws.map (·.relocate file.withRelocated.relocator) =
      file.withRelocated.raws := by
    rw [relocator_withRelocated]
    simp only [withRelocated, List.map_map, Function.comp_def, RawSection.relocate_relocate]
  rw [again.refreshOffsets_eq, withRelocated_eq_self classDefs raws]

/-- The numbers of items that two files have in common. -/
structure SameShape (file final : DexFile) : Prop where
  layout : final.layout = file.layout
  kinds : ∀ entry, final.kindOf entry = file.kindOf entry
  counts : ∀ entry, final.countOf entry = file.countOf entry
  raws : ∀ index : Nat, final.raws[index]?.isSome = file.raws[index]?.isSome

theorem SameShape.trans {first second third : DexFile} (before : first.SameShape second)
    (behind : second.SameShape third) : first.SameShape third where
  layout := behind.layout.trans before.layout
  kinds entry := (behind.kinds entry).trans (before.kinds entry)
  counts entry := (behind.counts entry).trans (before.counts entry)
  raws index := (behind.raws index).trans (before.raws index)

theorem SameShape.of_unplaced (same : final.unplaced = file.unplaced) : file.SameShape final where
  layout := layout_of_unplaced same
  kinds := kindOf_of_unplaced same
  counts := countOf_of_unplaced same
  raws index := by
    have raws := congrArg Option.isSome (raws_of_unplaced same index)
    rwa [Option.isSome_map, Option.isSome_map] at raws

/-- Sections kept as bytes keep their sizes through a refresh of the offsets. -/
theorem SameShape.of_refresh (refresh : refreshOffsets file = .ok () final) :
    file.SameShape final := by
  have frame := refreshOffsets_frame refresh
  have raws (index : Nat) : final.raws[index]? =
      file.raws[index]?.map (·.relocate file.relocator) := by
    rw [(refreshOffsets_eq_ok.1 refresh).1]
    exact List.getElem?_map
  refine ⟨frame.layout, frame.kindOf, fun entry => ?_, fun index => ?_⟩
  · cases entry with
    | modelled kind => exact frame.countOf kind
    | raw index =>
        have empty (raw : RawSection) :
            (raw.relocate file.relocator).bytes.isEmpty = raw.bytes.isEmpty := by
          rw [Bool.eq_iff_iff, Array.isEmpty_iff_size_eq_zero, Array.isEmpty_iff_size_eq_zero,
            RawSection.size_relocate]
        unfold countOf
        simp only [raws index, Option.any_map, empty]
  · rw [raws, Option.isSome_map]

theorem SameShape.present (same : file.SameShape final) : final.present = file.present := by
  unfold DexFile.present
  simp only [same.layout, same.counts]

/-- The number of sizes in a block. -/
theorem length_sizes_block (file : DexFile) (entries : Nat) (kind : SectionKind) :
    (file.block entries (.modelled kind)).sizes.length =
      if kind = .header ∨ kind = .mapList then 0 else file.countOf (.modelled kind) := by
  cases kind with
  | header | mapList => rfl
  | stringId => simp [block, countOf]
  | _ => first | exact Section.length_sizes .. | rfl

/-- Blocks of files with the same numbers of items. -/
theorem SameShape.length_sizes (same : file.SameShape final) (entries : Nat) (entry : LayoutEntry) :
    (final.block entries entry).sizes.length = (file.block entries entry).sizes.length := by
  cases entry with
  | raw index =>
      have raws := same.raws index
      unfold DexFile.block
      simp only
      cases here : final.raws[index]? <;> cases there : file.raws[index]? <;> simp [here, there] at raws ⊢
  | modelled kind => rw [length_sizes_block, length_sizes_block, same.counts]

theorem map_block_plan (options : WriteOptions) (position : Nat) (blocks : List Block) :
    (plan options position blocks).map Slot.block = blocks := by
  induction blocks generalizing position with
  | nil => rfl
  | cons block rest ih => rw [plan, List.map_cons, ih]

/-- The number of offsets that a layout pass reports for a block. -/
theorem Slot.length_reported (slot : Slot) : slot.reported.length =
    (if slot.block.kind = .stringId ∨ slot.block.kind.isModelled = false then 0
      else slot.block.sizes.length) + 1 := by
  unfold Slot.reported Slot.places
  split <;> simp [length_places]

/-- A section that has items has a slot. -/
theorem slot_of_present (options : WriteOptions) {index : Nat} {entry : LayoutEntry}
    (found : file.present[index]? = some entry) : ∃ slot, (file.slots options)[index]? = some slot ∧
      slot.block = file.block file.present.length entry ∧
      (entry, slot) ∈ file.present.zip (file.slots options) := by
  have block : ((file.slots options).map Slot.block)[index]? =
      some (file.block file.present.length entry) := by
    rw [slots, map_block_plan, blocks, List.getElem?_map, found]
    rfl
  rw [List.getElem?_map, Option.map_eq_some_iff] at block
  obtain ⟨slot, here, same⟩ := block
  refine ⟨slot, here, same, ?_⟩
  rw [List.mem_iff_getElem?]
  exact ⟨index, List.getElem?_zip_eq_some.2 ⟨found, here⟩⟩

/-- Two passes over files of one shape that report the same offsets assign the same places. -/
theorem offsetsAt_of_reported {options : WriteOptions} {before behind other : DexFile}
    (shape : before.SameShape file) (first : Planned options before behind)
    (second : Planned options file other)
    (same : ((file.slots options).flatMap Slot.reported).map UInt32.ofNat =
      ((before.slots options).flatMap Slot.reported).map UInt32.ofNat) (part : Part)
    (inside : .modelled part.kind ∈ file.layout) :
    (part.items other).offsets = (part.items behind).offsets := by
  have reported : (file.slots options).map (fun slot => slot.reported.map UInt32.ofNat) =
      (before.slots options).map fun slot => slot.reported.map UInt32.ofNat := by
    apply map_of_flatMap_eq
    · have count (file : DexFile) : (file.slots options).map
          (fun slot => (slot.reported.map UInt32.ofNat).length) =
          file.blocks.map fun block => (if block.kind = .stringId ∨ block.kind.isModelled = false then 0
            else block.sizes.length) + 1 := by
        simp only [List.length_map, Slot.length_reported]
        conv => rhs; rw [← map_block_plan options 0 file.blocks, List.map_map]
        rfl
      rw [count, count, blocks, blocks, shape.present, List.map_map, List.map_map]
      refine List.map_congr_left fun entry _ => ?_
      simp only [Function.comp_apply, kind_block, shape.kinds, shape.length_sizes]
    · simpa only [List.map_flatMap] using same
  by_cases listed : .modelled part.kind ∈ before.present
  · obtain ⟨index, found⟩ := List.getElem?_of_mem listed
    obtain ⟨slot, here, block, pair⟩ := slot_of_present options found
    obtain ⟨slot', here', block', pair'⟩ :=
      slot_of_present options ((congrArg (·[index]?) shape.present).trans found)
    have placed := first.placed _ pair
    have placed' := second.placed _ pair'
    rw [offsetsAt_kind] at placed placed'
    have kind : slot.block.kind = part.kind := by
      rw [block, kind_block]
      rfl
    have kind' : slot'.block.kind = part.kind := by
      rw [block', kind_block]
      rfl
    have plain : ¬(part.kind = .stringId ∨ part.kind.isModelled = false) := by
      cases part <;> simp [Part.kind, SectionKind.isModelled, defaultLayout]
    have ends := congrArg (fun found : List (List UInt32) => found[index]?) reported
    simp only [List.getElem?_map, here, here', Option.map_some, Option.some.injEq, Slot.reported, kind,
      kind', if_neg plain, List.map_append, List.map_cons, List.map_nil] at ends
    rw [placed, placed']
    exact (List.append_inj_left' ends rfl)
  · have empty (file mid : DexFile) (planned : Planned options file mid)
        (count : file.countOf (.modelled part.kind) = 0) : (part.items mid).offsets = [] := by
      rw [Part.countOf_kind, ← size_of_unplaced planned.unplaced] at count
      rw [Section.offsets, List.map_eq_nil_iff, ← List.length_eq_zero_iff, Array.length_toList]
      exact count
    have count : before.countOf (.modelled part.kind) = 0 := by
      rw [shape.layout] at inside
      unfold present at listed
      rw [List.mem_filter, not_and] at listed
      simpa using listed inside
    rw [empty _ _ first count, empty _ _ second ((shape.counts _).trans count)]

theorem raw_withRelocated {α : Type} (file : DexFile) (index : Nat) (view : RawSection → α)
    (kept : ∀ raw : RawSection, view (raw.relocate file.relocator) = view raw) :
    file.withRelocated.raws[index]?.map view = file.raws[index]?.map view := by
  simp only [withRelocated, List.getElem?_map, Option.map_map, Function.comp_def, kept]

theorem kindOf_withRelocated (file : DexFile) (entry : LayoutEntry) :
    file.withRelocated.kindOf entry = file.kindOf entry := by
  cases entry with
  | modelled kind => rfl
  | raw index =>
      exact congrArg (Option.getD · (.unknown 0xFFFF))
        (raw_withRelocated file index RawSection.kind fun _ => rfl)

theorem sizes_withRelocated (file : DexFile) (part : Part) :
    (part.items file.withRelocated).sizes byteSize = (part.items file).sizes byteSize := by
  cases part with
  | classDef =>
      have items (id : Id ClassDef) : (file.withRelocated.classDefs.item? id).map byteSize =
          (file.classDefs.item? id).map byteSize := by
        simp only [withRelocated, Section.item?_map, Option.map_map, Function.comp_def,
          ClassDef.byteSize_relocated]
      change file.withRelocated.classDefs.sizes byteSize = file.classDefs.sizes byteSize
      unfold Section.sizes
      simp only [items]
      rfl
  | _ => rfl

theorem countOf_withRelocated (file : DexFile) (entry : LayoutEntry) :
    file.withRelocated.countOf entry = file.countOf entry := by
  cases entry with
  | modelled kind => cases kind <;> rfl
  | raw index =>
      have bytes := congrArg (Option.any fun size => size != 0)
        (raw_withRelocated file index (fun raw => raw.bytes.size) fun raw => raw.size_relocate _)
      have empty (raw : RawSection) : (!raw.bytes.isEmpty) = (raw.bytes.size != 0) := by
        rw [Bool.eq_iff_iff]
        simp
      simp only [Option.any_map, ← empty] at bytes
      unfold countOf
      simp only [bytes]

theorem block_withRelocated (file : DexFile) (entries : Nat) (entry : LayoutEntry) :
    file.withRelocated.block entries entry = file.block entries entry := by
  cases entry with
  | raw index =>
      simp only [block, kindOf_withRelocated,
        raw_withRelocated file index RawSection.count fun _ => rfl,
        raw_withRelocated file index (fun raw => raw.bytes.size) fun raw => raw.size_relocate _]
  | modelled kind =>
      have sizes := sizes_withRelocated file
      have count := countOf_withRelocated file (.modelled kind)
      cases kind with
      | header | mapList | stringId | stringData => rfl
      | _ => simp only [block, count, sizes]

theorem offsetsAt_withRelocated (file : DexFile) (entry : LayoutEntry) :
    file.withRelocated.offsetsAt entry = file.offsetsAt entry := by
  cases entry with
  | raw index =>
      exact congrArg Option.toList (raw_withRelocated file index RawSection.offset fun _ => rfl)
  | modelled kind =>
      cases kind with
      | classDef => exact (Section.sameFrame_map _ _).offsets
      | _ => rfl

theorem present_withRelocated (file : DexFile) : file.withRelocated.present = file.present := by
  unfold present
  simp only [countOf_withRelocated]
  rfl

theorem blocks_withRelocated (file : DexFile) : file.withRelocated.blocks = file.blocks := by
  unfold blocks
  rw [present_withRelocated]
  exact List.map_congr_left fun entry _ => block_withRelocated file _ entry

/-- A file is laid out when its places follow the plan and its references by offset hold them. -/
structure LaidOut (options : WriteOptions) (file : DexFile) : Prop where
  planned : Planned options file file
  offsets : refreshOffsets file = .ok () file

/-- A file whose places follow the plan is laid out once it is relocated. -/
theorem Planned.laidOut {options : WriteOptions} (planned : Planned options file final)
    (settled : final.OffsetsSettled) : LaidOut options final.withRelocated where
  planned := by
    have blocks : final.withRelocated.blocks = file.blocks :=
      (blocks_withRelocated final).trans (blocks_of_unplaced planned.unplaced)
    have slots : final.withRelocated.slots options = file.slots options := by
      unfold DexFile.slots
      rw [blocks]
    have stop : final.withRelocated.stop options = file.stop options := by
      unfold DexFile.stop
      rw [blocks]
    refine ⟨?_, rfl, ?_, ?_, ?_⟩
    · rw [stop]
      exact planned.fits
    · rw [slots, present_withRelocated, present_of_unplaced planned.unplaced]
      intro pair inside
      rw [offsetsAt_withRelocated]
      exact planned.placed pair inside
    · rw [slots]
      exact planned.map
    · rw [slots, stop]
      change final.header = planHeader final.header _ _
      rw [planned.header]
      rfl
  offsets := settled.refreshOffsets_withRelocated

/-- The file is what a pass with these offsets and a refresh have left. -/
def LeftBy (options : WriteOptions) (reported : Array UInt32) (file : DexFile) : Prop :=
  ∃ before behind : DexFile, before.Orderly ∧ Planned options before behind ∧
    refreshOffsets behind = .ok () file ∧
    reported = (((before.slots options).flatMap Slot.reported).map UInt32.ofNat).toArray

/-- Two passes in a row that report the same offsets leave the file laid out. -/
theorem laidOut_of_leftBy {options : WriteOptions} {reported : Array UInt32} {mid : DexFile}
    (orderly : file.Orderly) (complete : ∀ part : Part, .modelled part.kind ∈ file.layout)
    (left : LeftBy options reported file) (planned : Planned options file mid)
    (same : reported = (((file.slots options).flatMap Slot.reported).map UInt32.ofNat).toArray)
    (refresh : refreshOffsets mid = .ok () final) : LaidOut options final := by
  obtain ⟨before, behind, orderlyBefore, plannedBefore, refreshed, rfl⟩ := left
  have frame := refreshOffsets_frame refreshed
  have shape : before.SameShape file :=
    (SameShape.of_unplaced plannedBefore.unplaced).trans (SameShape.of_refresh refreshed)
  have offsets (part : Part) (id : Id part.Item) :
      (part.items mid).offsetOf? id = (part.items file).offsetOf? id := by
    rw [(frame.parts part).offsetOf?]
    have orderlyBehind := orderlyBefore.of_unplaced plannedBefore.unplaced
    have orderlyMid := orderly.of_unplaced planned.unplaced
    apply Section.offsetOf?_of_offsets (orderlyBehind.valid part) (orderlyMid.valid part)
    · rw [Section.order_of_unplaced (items_of_unplaced planned.unplaced part), (frame.parts part).order]
    · exact offsetsAt_of_reported shape plannedBefore planned (by simpa using same.symm) part
        (complete part)
  have settled := (offsetsSettled_of_refresh refreshed).of_unplaced planned.unplaced offsets
  rw [settled.refreshOffsets_eq, EStateM.Result.ok.injEq] at refresh
  rw [← refresh.2]
  exact planned.laidOut settled

/-- What passes rely on: an orderly file with every modelled section. -/
structure Ready (file : DexFile) : Prop where
  orderly : file.Orderly
  complete : ∀ kind, kind.isModelled → .modelled kind ∈ file.layout

theorem Ready.of_unplaced (ready : file.Ready) (same : final.unplaced = file.unplaced) :
    final.Ready where
  orderly := ready.orderly.of_unplaced same
  complete kind modelled := by
    rw [layout_of_unplaced same]
    exact ready.complete kind modelled

theorem Ready.refreshOffsets (ready : file.Ready) (refresh : refreshOffsets file = .ok () final) :
    final.Ready where
  orderly := (refreshOffsets_frame refresh).orderly ready.orderly
  complete kind modelled := by
    rw [(refreshOffsets_frame refresh).layout]
    exact ready.complete kind modelled

/-- A pass over a file that is ready. -/
theorem Ready.layoutPass (ready : file.Ready) (options : WriteOptions) :
    (layoutPass options).Outcome file
      (fun result final => result =
          (((file.slots options).flatMap Slot.reported).map UInt32.ofNat).toArray ∧
        Planned options file final)
      (UInt32.size ≤ file.stop options) :=
  (layoutPass_outcome options ready.orderly fun kind counted =>
    ready.complete kind (isModelled_of_isCounted counted)).imp
    (fun _ _ ⟨same, planned, _⟩ => ⟨same, planned⟩) id

/-- A pass moves no section that has no items. -/
theorem Ready.layoutPass_others (ready : file.Ready) {options : WriteOptions} {reported : Array UInt32}
    (run : DexFile.layoutPass options file = .ok reported final) {entry : LayoutEntry}
    (outside : entry ∉ file.present) : final.offsetsAt entry = file.offsetsAt entry :=
  ((layoutPass_outcome options ready.orderly fun kind counted =>
    ready.complete kind (isModelled_of_isCounted counted)).ok run).2.2 entry outside

/-- One more pass, which is the last one when it reports what the one before has reported. -/
theorem settle_succ {options : WriteOptions} {passes : Nat} {before : Option (Array UInt32)}
    (run : settle options (passes + 1) before file = .ok () final) :
    ∃ reported mid fin, layoutPass options file = .ok reported mid ∧
      refreshOffsets mid = .ok () fin ∧ ((before = some reported ∧ fin = final) ∨
        settle options passes (some reported) fin = .ok () final) := by
  unfold settle at run
  obtain ⟨reported, mid, pass, run⟩ := Step.bind_eq_ok.1 run
  obtain ⟨_, fin, refresh, run⟩ := Step.bind_eq_ok.1 run
  refine ⟨reported, mid, fin, pass, refresh, ?_⟩
  by_cases agree : before = some reported
  · rw [if_pos agree] at run
    cases run
    exact .inl ⟨agree, rfl⟩
  · rw [if_neg agree] at run
    exact .inr run

/-- What every pass and every refresh of the offsets keeps holds of a file that has settled. -/
theorem settle_keeps {options : WriteOptions} {property : DexFile → Prop}
    (pass : ∀ file final : DexFile, property file → Planned options file final → property final)
    (offsets : ∀ file final : DexFile, property file → refreshOffsets file = .ok () final →
      property final)
    {passes : Nat} {before : Option (Array UInt32)} (ready : file.Ready) (holds : property file)
    (run : settle options passes before file = .ok () final) : property final := by
  induction passes generalizing file before with
  | zero => cases run
  | succ passes ih =>
      obtain ⟨reported, mid, fin, passRun, refresh, next⟩ := settle_succ run
      obtain ⟨_, planned⟩ := (ready.layoutPass options).ok passRun
      have settled := offsets mid fin (pass file mid holds planned) refresh
      rcases next with ⟨_, rfl⟩ | run
      · exact settled
      · exact ih ((ready.of_unplaced planned.unplaced).refreshOffsets refresh) settled run

/-- A file that has settled is laid out. -/
theorem settle_laidOut {options : WriteOptions} {passes : Nat} {before : Option (Array UInt32)}
    (ready : file.Ready) (left : ∀ reported, before = some reported → LeftBy options reported file)
    (run : settle options passes before file = .ok () final) : LaidOut options final := by
  induction passes generalizing file before with
  | zero => cases run
  | succ passes ih =>
      obtain ⟨reported, mid, fin, passRun, refresh, next⟩ := settle_succ run
      obtain ⟨same, planned⟩ := (ready.layoutPass options).ok passRun
      have readyMid := ready.of_unplaced planned.unplaced
      rcases next with ⟨agree, rfl⟩ | run
      · exact laidOut_of_leftBy ready.orderly (fun part => ready.complete _ part.isModelled_kind)
          (left reported agree) planned same refresh
      · refine ih (readyMid.refreshOffsets refresh) (fun other agree => ?_) run
        rw [Option.some.injEq] at agree
        exact ⟨file, mid, ready.orderly, planned, refresh, agree.symm.trans same⟩

end DexFile
end DexArsc.Dex
