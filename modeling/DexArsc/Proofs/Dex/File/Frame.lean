/-
What a refresh of all offsets does to a file: every reference by offset receives the current
offset of its item, and code receives its current operands.
-/

import DexArsc.Proofs.Dex.File.Indexes
import DexArsc.Proofs.Dex.File.Layout
import DexArsc.Proofs.Dex.Raw.Refresh

namespace DexArsc.Dex

namespace OperandRef

theorem refreshed_congr {ids other : IdSections} (same : ids.SameIndexes other) (ref : OperandRef) :
    ref.refreshed other = ref.refreshed ids := by
  rw [refreshed, refreshed, ItemRef.refresh_congr same]

theorem refreshAll_congr {ids other : IdSections} (same : ids.SameIndexes other)
    (refs : List OperandRef) (units : Array UInt16) :
    refreshAll other refs units = refreshAll ids refs units := by
  induction refs generalizing units with
  | nil => rfl
  | cons ref rest ih => simp only [refreshAll_cons, refreshed_congr same, ih]

end OperandRef

/-- Only the indexes and the offsets of the items count for a refresh of code. -/
theorem CodeItem.refresh_congr {ids other : IdSections} (same : ids.SameIndexes other)
    {infos others : Section DebugInfo} (offsets : ∀ id, others.offsetOf? id = infos.offsetOf? id) :
    CodeItem.refresh other others = CodeItem.refresh ids infos := by
  funext code
  simp only [refresh_apply, OperandRef.refreshAll_congr same, OffsetRef.refresh_congr offsets,
    IndexRef.refresh_congr same.types]

namespace Section

variable {α : Type}

/-- The relocator with the items of a section. -/
def addTo (relocator : Relocator) (items : Section α) : Relocator :=
  items.order.foldl (fun relocator id =>
    match items.live? id with
    | some cell => relocator.addItem cell.origin cell.offset
    | none => relocator) relocator

theorem addTo_congr {items other : Section α} (order : other.order = items.order)
    (offsets : ∀ id, other.offsetOf? id = items.offsetOf? id)
    (origins : ∀ id, other.originOf? id = items.originOf? id) (relocator : Relocator) :
    addTo relocator other = addTo relocator items := by
  have step : (fun (relocator : Relocator) id => match other.live? id with
      | some cell => relocator.addItem cell.origin cell.offset
      | none => relocator) = fun relocator id => match items.live? id with
      | some cell => relocator.addItem cell.origin cell.offset
      | none => relocator := by
    funext relocator id
    have offset := offsets id
    have origin := origins id
    unfold offsetOf? at offset
    unfold originOf? at origin
    cases here : other.live? id <;> cases there : items.live? id <;> simp_all
  unfold addTo
  rw [order, step]

theorem addTo_map (items : Section α) (change : α → α) (relocator : Relocator) :
    addTo relocator (items.map change) = addTo relocator items := by
  apply addTo_congr (order_map items change)
  · exact fun id => offsetOf?_map items id change
  · exact fun id => originOf?_map items id change

theorem SameFrame.addTo {items other : Section α} (same : items.SameFrame other)
    (relocator : Relocator) : addTo relocator other = Section.addTo relocator items :=
  addTo_congr same.order same.offsetOf? same.originOf? relocator

end Section

/-- The class with its offsets into sections that are kept as bytes relocated. -/
def ClassDef.relocated (relocator : Relocator) (item : ClassDef) : ClassDef :=
  { item with
    annotations := item.annotations.relocate relocator
    staticValues := item.staticValues.relocate relocator }

namespace DexFile

theorem relocator_eq (file : DexFile) : file.relocator =
    file.rawSections.foldl (fun relocator raw => relocator.addExtent raw.extent)
      (Section.addTo (Section.addTo (Section.addTo (Section.addTo {} file.typeLists)
        file.classData) file.codes) file.debugInfos) := rfl

/-- The images that a refresh gives to references by offset. -/
def offsetMap (file : DexFile) : RefMap where
  typeList ref := ref.refresh file.typeLists
  classData ref := ref.refresh file.classData
  code ref := ref.refresh file.codes
  debugInfo ref := ref.refresh file.debugInfos

/-- The file with its references by offset refreshed, and with the given code. -/
def withOffsets (file : DexFile) (codes : Section CodeItem) : DexFile :=
  { file with
    protos.items := file.protos.items.map (·.withRefs file.offsetMap)
    codes
    classData := file.classData.map (·.withRefs file.offsetMap)
    classDefs := file.classDefs.map fun item =>
      (item.withRefs file.offsetMap).relocated file.relocator
    raws := file.raws.map (·.relocate file.relocator) }

/-- A refresh of all offsets that succeeds. -/
theorem refreshOffsets_eq_ok {file final : DexFile} :
    refreshOffsets file = .ok () final ↔ final = file.withOffsets final.codes ∧
      Section.onItems (fun _ => CodeItem.refresh file.ids file.debugInfos) file.codes =
        .ok () final.codes := by
  have protosSame : file.ids.SameIndexes
      { file.ids with protos := file.protos.items.map (·.refreshOffsets file.typeLists) } :=
    ⟨fun _ => rfl, fun _ => rfl, fun _ => Section.indexOf?_map .., fun _ => rfl, fun _ => rfl⟩
  have codeStep := @CodeItem.refresh_congr _ _ protosSame file.debugInfos _ fun _ => rfl
  have frame (codes : Section CodeItem)
      (run : Section.onItems (fun _ => CodeItem.refresh file.ids file.debugInfos) file.codes =
        .ok () codes) : file.codes.SameFrame codes :=
    (Section.onItems_ends (Step.ends_ok run)).1
  have whole (codes : Section CodeItem) (same : file.codes.SameFrame codes) :
      { file with
        protos.items := file.protos.items.map (·.refreshOffsets file.typeLists)
        codes
        classData := file.classData.map (·.refreshOffsets codes)
        classDefs := file.classDefs.map (·.refreshOffsets file.typeLists
          (file.classData.map (·.refreshOffsets codes)) (relocator { file with
            protos.items := file.protos.items.map (·.refreshOffsets file.typeLists)
            codes
            classData := file.classData.map (·.refreshOffsets codes) }))
        raws := file.raws.map (·.relocate (relocator { file with
          protos.items := file.protos.items.map (·.refreshOffsets file.typeLists)
          codes
          classData := file.classData.map (·.refreshOffsets codes) })) } = file.withOffsets codes := by
    have data : (file.classData.map (·.refreshOffsets codes)) =
        file.classData.map (·.withRefs file.offsetMap) := by
      congr 1
      funext data
      unfold ClassData.refreshOffsets ClassData.withRefs EncodedMethod.withRefs offsetMap
      simp only [OffsetRef.refresh_congr same.offsetOf?]
      rfl
    have relocator : relocator { file with
        protos.items := file.protos.items.map (·.refreshOffsets file.typeLists)
        codes
        classData := file.classData.map (·.refreshOffsets codes) } = file.relocator := by
      rw [relocator_eq, relocator_eq]
      simp only [same.addTo, Section.addTo_map]
      rfl
    unfold withOffsets
    rw [relocator, data]
    congr 1
    congr 1
    funext item
    unfold ClassDef.refreshOffsets ClassDef.relocated ClassDef.withRefs offsetMap
    simp only [OffsetRef.refresh_congr (Section.offsetOf?_map file.classData · _)]
    rfl
  unfold refreshOffsets
  simp only [Step.bind_eq_ok, Step.get_apply, EStateM.Result.ok.injEq, onProtos_eq_ok, onCodes_eq_ok,
    onClassData_eq_ok, onClassDefs_eq_ok, onRaws_eq_ok, Step.modify_apply, true_and, exists_eq_left',
    and_assoc, exists_and_left]
  constructor
  · rintro ⟨_, _, _, ⟨codes, run, rfl⟩, _, _, rfl⟩
    have plain : Section.onItems (fun _ => CodeItem.refresh file.ids file.debugInfos) file.codes =
        .ok () codes := by
      rw [← codeStep]
      exact run
    exact ⟨whole codes (frame codes plain), plain⟩
  · rintro ⟨final_eq, run⟩
    refine ⟨(), (), _, ⟨final.codes, ?_, rfl⟩, (), (), ?_⟩
    · rw [← codeStep] at run
      exact run
    · rw [final_eq]
      exact whole final.codes (frame final.codes run)

end DexFile
end DexArsc.Dex

namespace DexArsc.Dex

namespace Section

variable {α : Type}

theorem SameFrame.refl (items : Section α) : items.SameFrame items :=
  ⟨rfl, rfl, rfl, rfl, fun _ => rfl, fun _ => rfl, fun _ => rfl⟩

theorem sameFrame_map (items : Section α) (change : α → α) : items.SameFrame (items.map change) where
  kind := rfl
  order := rfl
  byOffset := rfl
  offset := rfl
  indexOf? id := indexOf?_map items id change
  offsetOf? id := offsetOf?_map items id change
  originOf? id := originOf?_map items id change

variable {items final : Section α}

theorem SameFrame.valid (same : items.SameFrame final) (valid : items.Valid) : final.Valid :=
  valid.congr same.order same.indexOf?

theorem SameFrame.offsets (same : items.SameFrame final) : final.offsets = items.offsets := by
  unfold Section.offsets
  rw [same.order]
  simp only [same.offsetOf?]

theorem SameFrame.size (same : items.SameFrame final) : final.size = items.size :=
  congrArg Array.size same.order

end Section

namespace DexFile

/-- Two files with the same ids, orders and places of all items. -/
structure SameFrame (file final : DexFile) : Prop where
  parts : ∀ part : Part, (part.items file).SameFrame (part.items final)
  strings : final.strings = file.strings
  header : final.header = file.header
  map : final.map = file.map
  layout : final.layout = file.layout
  readClasses : final.readClasses = file.readClasses
  raws : ∀ index : Nat, final.raws[index]?.map RawSection.kind = file.raws[index]?.map RawSection.kind

variable {file final : DexFile}

theorem SameFrame.kindOf (same : file.SameFrame final) (entry : LayoutEntry) :
    final.kindOf entry = file.kindOf entry := by
  cases entry with
  | modelled kind => rfl
  | raw index => exact congrArg (Option.getD · (.unknown 0xFFFF)) (same.raws index)

theorem SameFrame.orderly (same : file.SameFrame final) (orderly : file.Orderly) : final.Orderly where
  kinds part := (same.parts part).kind.trans (orderly.kinds part)
  valid part := (same.parts part).valid (orderly.valid part)
  strings := by
    rw [same.strings]
    exact orderly.strings
  raws raw inside := by
    obtain ⟨index, found⟩ := List.getElem?_of_mem inside
    have kind := same.raws index
    rw [found, Option.map_some, eq_comm, Option.map_eq_some_iff] at kind
    obtain ⟨other, there, kind⟩ := kind
    rw [← kind]
    exact orderly.raws other (List.mem_of_getElem? there)
  distinct := by
    rw [same.layout]
    exact orderly.distinct

theorem SameFrame.countOf (same : file.SameFrame final) (kind : SectionKind) :
    final.countOf (.modelled kind) = file.countOf (.modelled kind) := by
  have strings := congrArg Pool.size same.strings
  have size (part : Part) := (same.parts part).size
  cases kind with
  | header | mapList => rfl
  | stringId | stringData => exact strings
  | typeId => exact size .typeId
  | protoId => exact size .protoId
  | fieldId => exact size .fieldId
  | methodId => exact size .methodId
  | classDef => exact size .classDef
  | typeList => exact size .typeList
  | classData => exact size .classData
  | codeItem => exact size .codeItem
  | debugInfo => exact size .debugInfo
  | _ => rfl

/-- A refresh of the indexes keeps the frame. -/
theorem sameFrame_indexed (file : DexFile) (raws : List RawSection)
    (kinds : ∀ index : Nat, raws[index]?.map RawSection.kind = file.raws[index]?.map RawSection.kind) :
    file.SameFrame { file.indexed with raws } where
  parts part := by
    cases part <;>
      first | exact Section.sameFrame_map _ _ | exact Section.SameFrame.refl _
  strings := rfl
  header := rfl
  map := rfl
  layout := rfl
  readClasses := rfl
  raws := kinds

/-- A refresh of the offsets keeps the frame. -/
theorem sameFrame_withOffsets (file : DexFile) {codes : Section CodeItem}
    (same : file.codes.SameFrame codes) : file.SameFrame (file.withOffsets codes) where
  parts part := by
    cases part <;>
      first | exact same | exact Section.sameFrame_map _ _ | exact Section.SameFrame.refl _
  strings := rfl
  header := rfl
  map := rfl
  layout := rfl
  readClasses := rfl
  raws index := by
    simp only [withOffsets, List.getElem?_map, Option.map_map]
    rfl

theorem refreshOffsets_frame (refresh : refreshOffsets file = .ok () final) :
    file.SameFrame final := by
  obtain ⟨whole, run⟩ := refreshOffsets_eq_ok.1 refresh
  rw [whole]
  exact sameFrame_withOffsets file (Section.onItems_ends (Step.ends_ok run)).1

theorem refreshIndexes_frame (refresh : refreshIndexes file = .ok () final) :
    file.SameFrame final := by
  obtain ⟨whole, _, raws⟩ := refreshIndexes_eq_ok.1 refresh
  rw [whole]
  obtain ⟨length, each⟩ := Step.onEach_eq_ok.1 raws
  apply sameFrame_indexed
  intro index
  cases here : file.raws[index]? with
  | none =>
      rw [List.getElem?_eq_none_iff] at here
      rw [List.getElem?_eq_none_iff.2 (by omega)]
  | some raw =>
      have inside := (List.getElem?_eq_some_iff.1 here).1
      have there : final.raws[index]? = some final.raws[index] :=
        List.getElem?_eq_getElem (by omega)
      have kind := (RawSection.refreshIndexes_frame (Step.ends_ok (each index raw _ here there))).1
      rw [there, Option.map_some, kind]
      rfl

end DexFile
end DexArsc.Dex
