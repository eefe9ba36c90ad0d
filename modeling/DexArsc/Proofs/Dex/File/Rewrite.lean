/-
Writing a file that was read from a written one gives the same bytes, as long as no section is
kept as bytes.
-/

import DexArsc.Proofs.Dex.File.Image
import DexArsc.Proofs.Dex.File.Still

namespace DexArsc.Dex

/-- The layout that is read from entries of modelled sections. -/
theorem readLayout_of_modelled {items : List MapItem}
    (modelled : ∀ item ∈ items, item.kind.isModelled = true) (next : Nat) :
    readLayout next items = (items.map MapItem.kind).map .modelled := by
  induction items with
  | nil => rfl
  | cons first rest ih =>
      rw [readLayout, if_pos (modelled first List.mem_cons_self),
        ih fun item inside => modelled item (List.mem_cons_of_mem _ inside)]
      rfl

namespace DexFile

variable {options : WriteOptions} {file again : DexFile} {bytes : Bytes}

theorem Relinked.countOf (relinked : Relinked file again) (stable : file.Stable)
    (kind : SectionKind) : again.countOf (.modelled kind) = file.countOf (.modelled kind) := by
  cases kind with
  | stringId => exact relinked.size_strings stable
  | stringData => exact relinked.size_strings stable
  | typeId => exact relinked.size stable .typeId
  | protoId => exact relinked.size stable .protoId
  | fieldId => exact relinked.size stable .fieldId
  | methodId => exact relinked.size stable .methodId
  | classDef => exact relinked.size stable .classDef
  | typeList => exact relinked.size stable .typeList
  | classData => exact relinked.size stable .classData
  | codeItem => exact relinked.size stable .codeItem
  | debugInfo => exact relinked.size stable .debugInfo
  | _ => rfl

/-- A section has the same extent as the written one. -/
theorem Relinked.block (relinked : Relinked file again) (stable : file.Stable) {kind : SectionKind}
    (some : 0 < file.countOf (.modelled kind)) (entries : Nat) :
    again.block entries (.modelled kind) = file.block entries (.modelled kind) := by
  have strings := relinked.size_strings stable
  rcases modelled_of_countOf some with rfl | rfl | rfl | rfl | ⟨part, rfl⟩
  · rfl
  · rfl
  · unfold DexFile.block
    rw [strings]
  · have valid : again.strings.items.Valid := relinked.valid.1
    have sizes : again.strings.items.sizes (fun item => byteSize item.value) =
        file.strings.items.sizes fun item => byteSize item.value := by
      rw [← valid.map_size_rows fun item => byteSize item.value, relinked.rows_strings,
        ← stable.orderly.strings.map_size_rows fun item => byteSize item.value]
    unfold DexFile.block
    rw [strings, sizes]
  · have valid : (part.items again).Valid := relinked.valid.2 part
    have encoded := congrArg (List.map fun row : UInt32 × List UInt8 => row.2.length)
      (relinked.encoded part)
    rw [List.map_map, List.map_map] at encoded
    have sizes : (part.items again).sizes byteSize = (part.items file).sizes byteSize := by
      rw [← valid.map_size_rows byteSize, ← (stable.orderly.valid part).map_size_rows byteSize]
      simpa only [Function.comp_def, LawfulCodec.length_encode] using encoded
    rw [block_kind, block_kind, relinked.size stable, sizes]

/-- The items of a section stand at the places of the written ones. -/
theorem Relinked.offsetsAt (relinked : Relinked file again) (stable : file.Stable)
    {kind : SectionKind} (some : 0 < file.countOf (.modelled kind)) :
    again.offsetsAt (.modelled kind) = file.offsetsAt (.modelled kind) := by
  have valid := relinked.valid
  rcases modelled_of_countOf some with rfl | rfl | rfl | rfl | ⟨part, rfl⟩
  · rfl
  · rfl
  · change again.strings.items.offsets = file.strings.items.offsets
    rw [← valid.1.map_fst_rows, relinked.rows_strings, stable.orderly.strings.map_fst_rows]
  · change again.strings.items.dataOffsets = file.strings.items.dataOffsets
    have image (items : Section StringItem) (valid : items.Valid) : items.dataOffsets =
        items.rows.map fun row => row.2.dataOffset := by
      apply List.ext_getElem?
      intro index
      unfold Section.dataOffsets
      rw [List.getElem?_map, List.getElem?_map, Array.getElem?_toList, valid.getElem?_rows]
      cases found : items.order[index]? with
      | none => rfl
      | some id =>
          obtain ⟨item, content⟩ := Option.isSome_iff_exists.1 (valid.item?_getElem found)
          rw [Option.map_some, Option.bind_some, content]
          rw [Section.item?_eq] at content
          obtain ⟨cell, live, item⟩ := Option.bind_eq_some_iff.1 content
          rw [live, Option.bind_some, item]
          rfl
    rw [image _ valid.1, image _ stable.orderly.strings, relinked.rows_strings]
  · rw [offsetsAt_kind, offsetsAt_kind, ← (valid.2 part).map_fst_rows, relinked.rows,
      ← (stable.orderly.valid part).map_fst_rows, List.map_map]
    rfl

/-- The bytes of a section are those of the written one. -/
theorem Reread.piecesAt {raws : List RawSection} (reread : Reread file raws again)
    {kind : SectionKind} (some : 0 < file.countOf (.modelled kind)) :
    again.piecesAt (.modelled kind) = file.piecesAt (.modelled kind) := by
  rcases modelled_of_countOf some with rfl | rfl | rfl | rfl | ⟨part, rfl⟩
  · rfl
  · unfold DexFile.piecesAt
    rw [reread.header, reread.map]
  · unfold DexFile.piecesAt
    rw [reread.rows_strings]
  · unfold DexFile.piecesAt
    rw [reread.rows_strings]
  · rw [piecesAt_kind, piecesAt_kind, reread.encoded]

/-- A written file has no sections that are kept as bytes. -/
def Modelled (file : DexFile) : Prop :=
  ∀ entry ∈ file.layout, ∃ kind, entry = .modelled kind

/-- The map list of a written file lists the sections with items. -/
theorem Current.kinds_map (current : Current options file) :
    file.map.items.map MapItem.kind = file.present.map file.kindOf := by
  have blocks := map_block_plan options 0 file.blocks
  rw [current.laidOut.planned.map]
  change ((file.slots options).map Slot.mapItem).map MapItem.kind = _
  rw [List.map_map]
  change (file.slots options).map (fun slot => slot.block.kind) = _
  rw [show (fun slot : Slot => slot.block.kind) = Block.kind ∘ Slot.block from rfl,
    ← List.map_map]
  change ((plan options 0 file.blocks).map Slot.block).map Block.kind = _
  rw [blocks, DexFile.blocks, List.map_map]
  exact List.map_congr_left fun entry _ => kind_block file _ entry

variable (modelled : file.Modelled)

include modelled

theorem Modelled.isModelled {entry : LayoutEntry} (inside : entry ∈ file.present) :
    entry = .modelled (file.kindOf entry) ∧ (file.kindOf entry).isModelled = true := by
  obtain ⟨listed, some⟩ := mem_present.1 inside
  obtain ⟨kind, rfl⟩ := modelled entry listed
  refine ⟨rfl, ?_⟩
  rcases modelled_of_countOf some with rfl | rfl | rfl | rfl | ⟨part, rfl⟩
  · rfl
  · rfl
  · rfl
  · rfl
  · exact part.isModelled_kind

theorem Modelled.map (current : Current options file) :
    ∀ item ∈ file.map.items, item.kind.isModelled = true := by
  intro item inside
  have listed : item.kind ∈ file.present.map file.kindOf := by
    rw [← current.kinds_map]
    exact List.mem_map_of_mem inside
  obtain ⟨entry, present, same⟩ := List.mem_map.1 listed
  rw [← same]
  exact (modelled.isModelled present).2

theorem Modelled.readLayout (current : Current options file) :
    readLayout 0 file.map.items = file.present := by
  rw [readLayout_of_modelled (modelled.map current), current.kinds_map, List.map_map]
  conv => rhs; rw [← List.map_id file.present]
  exact List.map_congr_left fun entry inside => (modelled.isModelled inside).1.symm

/-- The map list of a written file can be read. -/
theorem Modelled.mapSound (current : Current options file) : file.map.Sound where
  distinct := by
    rw [current.kinds_map]
    refine (current.ready.orderly.distinct.sublist List.filter_sublist).map_on fun one here other there same => ?_
    rw [(modelled.isModelled here).1, (modelled.isModelled there).1, same]
  canonical item inside := by
    have kind := modelled.map current item inside
    cases same : item.kind <;> rw [same] at kind <;> first | rfl | cases kind

theorem Modelled.rawsRead (current : Current options file) : RawsRead bytes file.map.items [] := by
  have kinds := modelled.map current
  generalize file.map.items = items at kinds
  induction items with
  | nil => exact .nil
  | cons item rest ih =>
      exact .modelled (kinds item List.mem_cons_self) (ih fun other inside => kinds other (List.mem_cons_of_mem _ inside))

omit modelled

/-- The layout of a file that was read names the same sections with items. -/
theorem Reread.present (reread : Reread file [] again) (current : Current options file)
    (stable : file.Stable) (modelled : file.Modelled) : again.present = file.present := by
  have layout := reread.layout
  rw [modelled.readLayout current] at layout
  have counts {entry : LayoutEntry} (inside : entry ∈ file.present) :
      again.countOf entry = file.countOf entry := by
    rw [(modelled.isModelled inside).1]
    exact reread.countOf stable _
  unfold DexFile.present at layout ⊢
  rw [layout.filter]
  · rw [List.filter_eq_self]
    intro entry inside
    rw [decide_eq_true_eq, counts inside]
    exact (mem_present.1 inside).2
  · intro entry added outside
    obtain ⟨kind, rfl, modelled⟩ : ∃ kind, entry = .modelled kind ∧ kind.isModelled = true := by
      rcases List.mem_cons.1 added with rfl | listed
      · exact ⟨.header, rfl, rfl⟩
      · obtain ⟨kind, inside, rfl⟩ := List.mem_map.1 listed
        exact ⟨kind, rfl, List.contains_iff_mem.2 inside⟩
    rw [decide_eq_false_iff_not, reread.countOf stable]
    intro some
    exact outside (mem_present.2 ⟨current.ready.complete kind modelled, some⟩)

theorem Reread.blocks (reread : Reread file [] again) (current : Current options file)
    (stable : file.Stable) (modelled : file.Modelled) : again.blocks = file.blocks := by
  unfold DexFile.blocks
  rw [reread.present current stable modelled]
  refine List.map_congr_left fun entry inside => ?_
  have some := (mem_present.1 inside).2
  rw [(modelled.isModelled inside).1] at some ⊢
  exact reread.block stable some _

/-- The file that was read stands where the written one stands. -/
theorem Reread.planned (reread : Reread file [] again) (current : Current options file)
    (stable : file.Stable) (modelled : file.Modelled) : Planned options again again := by
  have planned := current.laidOut.planned
  have present := reread.present current stable modelled
  have slots : again.slots options = file.slots options := by
    unfold DexFile.slots
    rw [reread.blocks current stable modelled]
  have stop : again.stop options = file.stop options := by
    unfold DexFile.stop
    rw [reread.blocks current stable modelled]
  refine ⟨by rw [stop]; exact planned.fits, rfl, ?_, ?_, ?_⟩
  · rw [present, slots]
    intro pair inside
    have listed := (List.of_mem_zip inside).1
    have some := (mem_present.1 listed).2
    rw [← planned.placed pair inside]
    rw [(modelled.isModelled listed).1] at some ⊢
    exact reread.offsetsAt stable some
  · rw [reread.map, slots, planned.map]
  · rw [reread.header, slots, stop]
    exact planned.header

theorem CodeItem.Stored.withRefs {code : CodeItem} (stored : code.Stored) {change : RefMap}
    (keeps : change.KeepsSlots) : (code.withRefs change).Stored := by
  intro ref inside
  obtain ⟨before, listed, rfl⟩ := List.mem_map.1 inside
  have slot := stored before listed
  obtain ⟨position, wide, target⟩ := before
  cases target with
  | string target => exact slot.trans (congrArg some (keeps.string target).symm)
  | type target => exact slot.trans (congrArg some (keeps.type target).symm)
  | proto target => exact slot.trans (congrArg some (keeps.proto target).symm)
  | field target => exact slot.trans (congrArg some (keeps.field target).symm)
  | method target => exact slot.trans (congrArg some (keeps.method target).symm)

theorem settled_offsetMap (file : DexFile) :
    (RefTest.settled file).Implies (file.offsetMap.agree {}) where
  string _ _ := rfl
  type _ _ := rfl
  proto _ _ := rfl
  field _ _ := rfl
  method _ _ := rfl
  typeList _ settled := settled
  classData _ settled := settled
  code _ settled := settled
  debugInfo _ settled := settled

theorem settled_refreshMap (file : DexFile) : (RefTest.settled file).Implies
    ((CodeItem.refreshMap file.ids file.debugInfos).agree {}) where
  string _ settled := settled
  type _ settled := settled
  proto _ settled := settled
  field _ settled := settled
  method _ settled := settled
  typeList _ _ := rfl
  classData _ _ := rfl
  code _ _ := rfl
  debugInfo _ settled := settled

/-- No class has an offset into a section kept as bytes. -/
def Unannotated (file : DexFile) : Prop :=
  file.classDefs.All fun item => item.annotations.current = 0 ∧ item.staticValues.current = 0

/-- Code that stores its indexes does so when it is read again. -/
theorem Reread.stored {raws : List RawSection} (reread : Reread file raws again)
    (stored : file.codes.All CodeItem.Stored) : again.codes.All CodeItem.Stored :=
  reread.all .codeItem fun id code found =>
    CodeItem.Stored.withRefs (stored id code found) (RefMap.keepsSlots_placed file)

section Again

variable {raws : List RawSection} (reread : Reread file raws again)
  (current : Current options file) (stable : file.Stable)

include reread current stable

theorem Reread.indexed : again.Indexed where
  refs part _ id item found := (reread.settled stable part id item found).imp {
    string := fun _ settled => settled
    type := fun _ settled => settled
    proto := fun _ settled => settled
    field := fun _ settled => settled
    method := fun _ settled => settled
    typeList := fun _ _ => trivial
    classData := fun _ _ => trivial
    code := fun _ _ => trivial
    debugInfo := fun _ _ => trivial }
  sorted := reread.all .classData fun id data found => by
    have sorted := current.indexed.sorted id data found
    refine (@ClassData.sorted_withRefs (.placed file) data (fun _ => rfl) fun _ => rfl).trans ?_
    exact congrArg (ClassData.withRefs (.placed file)) sorted
  short := {
    typeLists := reread.all .typeList fun id list found ref inside => by
      obtain ⟨before, listed, rfl⟩ := List.mem_map.1 inside
      exact current.indexed.short.typeLists id list found before listed
    fields := reread.all .fieldId current.indexed.short.fields
    methods := reread.all .methodId current.indexed.short.methods }

omit current in
theorem Reread.offsetsSettled (stored : file.codes.All CodeItem.Stored) :
    again.OffsetsSettled where
  protos id item found := Part.withRefs_eq_self .protoId
    ((reread.settled stable .protoId id item found).imp (settled_offsetMap again))
  classData id data found := Part.withRefs_eq_self .classData
    ((reread.settled stable .classData id data found).imp (settled_offsetMap again))
  classDefs id item found := Part.withRefs_eq_self .classDef
    ((reread.settled stable .classDef id item found).imp (settled_offsetMap again))
  codes id code found := CodeItem.refresh_of_stored
    (Part.withRefs_eq_self .codeItem
      ((reread.settled stable .codeItem id code found).imp (settled_refreshMap again)))
    (reread.stored stored id code found)

omit current in
/-- A refresh of the offsets of a file without sections kept as bytes changes nothing. -/
theorem Reread.refreshOffsets (stored : file.codes.All CodeItem.Stored) (none : raws = [])
    (unannotated : file.Unannotated) : refreshOffsets again = .ok () again := by
  rw [(reread.offsetsSettled stable stored).refreshOffsets_eq, withRelocated_eq_self]
  · refine Section.map_eq_self (reread.all .classDef fun id item found => ?_)
    obtain ⟨annotations, staticValues⟩ := unannotated id item found
    change { ClassDef.withRefs (.placed file) (ClassDef.plain item) with
      annotations := (RawOffset.ofOrigin item.annotations.current).relocate again.relocator
      staticValues := (RawOffset.ofOrigin item.staticValues.current).relocate again.relocator } =
        ClassDef.withRefs (.placed file) (ClassDef.plain item)
    rw [annotations, staticValues]
    unfold ClassDef.plain
    rw [annotations, staticValues]
    rfl
  · rw [reread.raws, none]
    rfl

end Again

theorem Reread.ready (reread : Reread file [] again) (current : Current options file)
    (modelled : file.Modelled) : again.Ready where
  orderly := {
    kinds := fun part => by
      obtain ⟨place, same⟩ := reread.parts part
      rw [same, Section.kind_fresh]
    valid := reread.valid.2
    strings := reread.valid.1
    raws := fun raw inside => by
      rw [reread.raws] at inside
      cases inside
    distinct := by
      apply reread.layout.distinct
      rw [modelled.readLayout current]
      exact current.ready.orderly.distinct.sublist List.filter_sublist }
  complete kind inside := reread.layout.added _
    (List.mem_cons_of_mem _ (List.mem_map_of_mem (List.contains_iff_mem.1 inside)))

/-- Writing a file that was read from a written one gives the same bytes. -/
theorem Reread.toBytes (reread : Reread file [] again) (written : Written options file bytes)
    (scanned : file.codes.All CodeItem.Scanned) (modelled : file.Modelled)
    (unannotated : file.Unannotated) :
    ∃ final, toBytes options again = .ok bytes final := by
  have current := written.current
  have stable := written.stable
  have ready := reread.ready current modelled
  have currentAgain : Current options again := {
    ready
    header := by rw [reread.header]; exact current.header
    indexed := reread.indexed current stable
    laidOut := ⟨reread.planned current stable modelled,
      reread.refreshOffsets stable (current.stored scanned) rfl unannotated⟩ }
  have pieces : again.pieces = file.pieces := by
    unfold DexFile.pieces
    rw [reread.present current stable modelled]
    simp only [List.flatMap]
    rw [List.map_congr_left]
    intro entry inside
    have some := (mem_present.1 inside).2
    rw [(modelled.isModelled inside).1] at some ⊢
    exact reread.piecesAt some
  have still : Still options again bytes := {
    written := {
      current := currentAgain
      write := by
        rw [write_eq, pieces, reread.header, ← write_eq]
        exact written.write
      sealed := by
        rw [reread.header]
        exact written.sealed }
    kept := by
      refine dropHiddenApi_eq_self.2 (.inl ?_)
      rw [reread.classes]
      exact reread.size stable .classDef
    reencoded := fun raw inside => by
      rw [reread.raws] at inside
      cases inside }
  obtain ⟨final, run, _⟩ := still.toBytes
  exact ⟨final, run⟩

end DexFile
end DexArsc.Dex
