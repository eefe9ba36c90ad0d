/-
What a layout assigns and what it depends on: a file without its places, the places of a section, and the
block of bytes that a section takes. Each section starts at the next boundary behind the one before, and a
pass succeeds exactly when all of them end within the range of offsets.
-/

import DexArsc.Proofs.Dex.File.Part

namespace DexArsc.Dex

namespace Header

/-- The header without the sizes and places that a layout assigns. -/
def unplaced (header : Header) : Header :=
  { header with
    fileSize := 0
    size := 0
    linkData := {}
    mapOffset := 0
    strings := {}
    types := {}
    protos := {}
    fields := {}
    methods := {}
    classes := {}
    data := {} }

/-- The area of an id section. -/
def areaOf (header : Header) : SectionKind → Area
  | .stringId => header.strings
  | .typeId => header.types
  | .protoId => header.protos
  | .fieldId => header.fields
  | .methodId => header.methods
  | .classDef => header.classes
  | _ => {}

end Header

/-- The kinds of section that a header counts. -/
def SectionKind.isCounted : SectionKind → Bool
  | stringId | typeId | protoId | fieldId | methodId | classDef => true
  | _ => false

/-- The area of a number of items at a place. No items have no place. -/
def Area.of (size offset : UInt32) : Area :=
  { size, offset := if size = 0 then 0 else offset }

namespace Header

@[simp] theorem unplaced_setArea (header : Header) (kind : SectionKind) (size offset : UInt32) :
    (header.setArea kind size offset).unplaced = header.unplaced := by
  cases kind <;> rfl

theorem areaOf_setArea (header : Header) (kind other : SectionKind) (size offset : UInt32) :
    (header.setArea kind size offset).areaOf other =
      if other = kind ∧ kind.isCounted then Area.of size offset else header.areaOf other := by
  cases kind <;> cases other <;> simp [areaOf, setArea, Area.of, SectionKind.isCounted]

end Header

/-- The section without its place. -/
def RawSection.unplaced (raw : RawSection) : RawSection :=
  { raw with offset := 0 }

namespace DexFile

/-- The file without the places that a layout assigns. -/
def unplaced (file : DexFile) : DexFile :=
  { file with
    header := file.header.unplaced
    map := {}
    strings.items := (file.strings.items.map StringItem.unplaced).unplaced
    types.items := file.types.items.unplaced
    protos.items := file.protos.items.unplaced
    fields.items := file.fields.items.unplaced
    methods.items := file.methods.items.unplaced
    classDefs := file.classDefs.unplaced
    typeLists := file.typeLists.unplaced
    classData := file.classData.unplaced
    codes := file.codes.unplaced
    debugInfos := file.debugInfos.unplaced
    raws := file.raws.map RawSection.unplaced }

/-- The places of the items of a section. -/
def offsetsAt (file : DexFile) : LayoutEntry → List UInt32
  | .raw index => (file.raws[index]?.map RawSection.offset).toList
  | .modelled .stringId => file.strings.items.offsets
  | .modelled .stringData => file.strings.items.dataOffsets
  | .modelled kind => ((Part.ofKind? kind).map fun part => (part.items file).offsets).getD []

end DexFile

/-- What a section takes in the file: its kind, its number of items in the map, and its items with
their alignment and sizes. A section whose items are not tracked is one run of bytes. -/
structure Block where
  kind : SectionKind
  units : UInt32
  alignment : Nat := 1
  sizes : List Nat := []
  tail : Nat := 0

namespace DexFile

/-- The block of a section, in a file whose map list has a number of entries. -/
def block (file : DexFile) (entries : Nat) : LayoutEntry → Block
  | .raw index =>
    { kind := file.kindOf (.raw index)
      units := (file.raws[index]?.map RawSection.count).getD 0
      sizes := (file.raws[index]?.map fun raw => raw.bytes.size).toList }
  | .modelled .header => { kind := .header, units := 1, tail := headerSize }
  | .modelled .mapList => { kind := .mapList, units := 1, tail := MapList.sizeOf entries }
  | .modelled .stringId =>
    { kind := .stringId
      units := UInt32.ofNat file.strings.size
      sizes := List.replicate file.strings.size 4 }
  | .modelled .stringData =>
    { kind := .stringData
      units := UInt32.ofNat file.strings.size
      sizes := file.strings.items.sizes fun item => byteSize item.value }
  | .modelled kind =>
    { kind
      units := UInt32.ofNat (file.countOf (.modelled kind))
      alignment := kind.alignment
      sizes := ((Part.ofKind? kind).map fun part => (part.items file).sizes byteSize).getD [] }

/-- The sections that have items. -/
def present (file : DexFile) : List LayoutEntry :=
  file.layout.filter fun entry => 0 < file.countOf entry

/-- The blocks of the sections that have items. -/
def blocks (file : DexFile) : List Block :=
  file.present.map (file.block file.present.length)

end DexFile

namespace DexFile

variable {file final : DexFile}

@[simp] theorem items_unplaced (file : DexFile) (part : Part) :
    part.items file.unplaced = (part.items file).unplaced := by
  cases part <;> rfl

theorem items_of_unplaced (same : final.unplaced = file.unplaced) (part : Part) :
    (part.items final).unplaced = (part.items file).unplaced := by
  rw [← items_unplaced, same, items_unplaced]

theorem strings_of_unplaced (same : final.unplaced = file.unplaced) :
    (final.strings.items.map StringItem.unplaced).unplaced =
      (file.strings.items.map StringItem.unplaced).unplaced :=
  congrArg (fun file : DexFile => file.strings.items) same

theorem raws_of_unplaced (same : final.unplaced = file.unplaced) (index : Nat) :
    final.raws[index]?.map RawSection.unplaced = file.raws[index]?.map RawSection.unplaced := by
  have raws : final.raws.map RawSection.unplaced = file.raws.map RawSection.unplaced :=
    congrArg DexFile.raws same
  rw [← List.getElem?_map, raws, List.getElem?_map]

theorem layout_of_unplaced (same : final.unplaced = file.unplaced) : final.layout = file.layout :=
  show final.unplaced.layout = file.unplaced.layout by rw [same]

theorem readClasses_of_unplaced (same : final.unplaced = file.unplaced) :
    final.readClasses = file.readClasses :=
  show final.unplaced.readClasses = file.unplaced.readClasses by rw [same]

theorem header_of_unplaced (same : final.unplaced = file.unplaced) :
    final.header.unplaced = file.header.unplaced :=
  congrArg DexFile.header same

theorem raw_of_unplaced {α : Type} (same : final.unplaced = file.unplaced) (index : Nat)
    (view : RawSection → α) (kept : ∀ raw : RawSection, view raw.unplaced = view raw) :
    final.raws[index]?.map view = file.raws[index]?.map view := by
  have raws := congrArg (Option.map view) (raws_of_unplaced same index)
  simpa only [Option.map_map, Function.comp_def, kept] using raws

theorem order_strings_of_unplaced (same : final.unplaced = file.unplaced) :
    final.strings.items.order = file.strings.items.order := by
  have order := Section.order_of_unplaced (strings_of_unplaced same)
  rwa [Section.order_map, Section.order_map] at order

/-- The strings themselves stay. -/
theorem value_of_unplaced (same : final.unplaced = file.unplaced) (id : Id StringItem) :
    (final.strings.items.item? id).map StringItem.value =
      (file.strings.items.item? id).map StringItem.value := by
  have items := congrArg (Option.map StringItem.value)
    (Section.item?_of_unplaced (strings_of_unplaced same) id)
  rw [Section.item?_map, Section.item?_map, Option.map_map, Option.map_map] at items
  exact items

theorem kindOf_of_unplaced (same : final.unplaced = file.unplaced) (entry : LayoutEntry) :
    final.kindOf entry = file.kindOf entry := by
  cases entry with
  | modelled kind => rfl
  | raw index =>
      have kind := raw_of_unplaced same index RawSection.kind fun _ => rfl
      exact congrArg (Option.getD · (.unknown 0xFFFF)) kind

theorem size_of_unplaced (same : final.unplaced = file.unplaced) (part : Part) :
    (part.items final).size = (part.items file).size :=
  congrArg Array.size (Section.order_of_unplaced (items_of_unplaced same part))

theorem size_strings_of_unplaced (same : final.unplaced = file.unplaced) :
    final.strings.size = file.strings.size :=
  congrArg Array.size (order_strings_of_unplaced same)

theorem countOf_of_unplaced (same : final.unplaced = file.unplaced) (entry : LayoutEntry) :
    final.countOf entry = file.countOf entry := by
  cases entry with
  | raw index =>
      have bytes := congrArg (Option.any fun empty => !empty)
        (raw_of_unplaced same index (fun raw => raw.bytes.isEmpty) fun _ => rfl)
      simp only [Option.any_map] at bytes
      change (if (final.raws[index]?.any fun raw => !raw.bytes.isEmpty) = true then 1 else 0) =
        if (file.raws[index]?.any fun raw => !raw.bytes.isEmpty) = true then 1 else 0
      rw [show (final.raws[index]?.any fun raw => !raw.bytes.isEmpty) =
        file.raws[index]?.any fun raw => !raw.bytes.isEmpty from bytes]
  | modelled kind =>
      have size := size_of_unplaced same
      have strings := size_strings_of_unplaced same
      cases kind with
      | header | mapList => rfl
      | stringId | stringData => exact strings
      | typeId => exact size .typeId
      | protoId => exact size .protoId
      | fieldId => exact size .fieldId
      | methodId => exact size .methodId
      | classDef => exact size .classDef
      | typeList => exact size .typeList
      | classData => exact size .classData
      | codeItem => exact size .codeItem
      | debugInfo => exact size .debugInfo
      | _ => rfl

theorem block_of_unplaced (same : final.unplaced = file.unplaced) (entries : Nat)
    (entry : LayoutEntry) : final.block entries entry = file.block entries entry := by
  have count := countOf_of_unplaced same entry
  cases entry with
  | raw index =>
      simp only [block, kindOf_of_unplaced same,
        raw_of_unplaced same index RawSection.count fun _ => rfl,
        raw_of_unplaced same index (fun raw => raw.bytes.size) fun _ => rfl]
  | modelled kind =>
      have sizes (part : Part) : (part.items final).sizes byteSize =
          (part.items file).sizes byteSize :=
        Section.sizes_unplaced (items_of_unplaced same part) byteSize
      have strings := size_strings_of_unplaced same
      have data : (final.strings.items.sizes fun item => byteSize item.value) =
          file.strings.items.sizes fun item => byteSize item.value := by
        unfold Section.sizes
        rw [order_strings_of_unplaced same]
        refine List.map_congr_left fun id _ => congrArg (Option.getD · 0) ?_
        have value := congrArg (Option.map byteSize) (value_of_unplaced same id)
        simpa only [Option.map_map, Function.comp_def] using value
      cases kind with
      | stringId => simp only [block, strings]
      | stringData => simp only [block, strings, data]
      | header | mapList => rfl
      | _ => simp only [block, count, sizes]

theorem present_of_unplaced (same : final.unplaced = file.unplaced) :
    final.present = file.present := by
  unfold present
  simp only [layout_of_unplaced same, countOf_of_unplaced same]

theorem blocks_of_unplaced (same : final.unplaced = file.unplaced) : final.blocks = file.blocks := by
  unfold blocks
  rw [present_of_unplaced same]
  exact List.map_congr_left fun entry _ => block_of_unplaced same _ entry

end DexFile

/-- A block at its place in the file. -/
structure Slot where
  block : Block
  start : Nat

namespace Slot

/-- The places of the items. -/
def places (slot : Slot) : List Nat :=
  Dex.places slot.block.alignment slot.start slot.block.sizes

/-- The position behind the section. -/
def stop (slot : Slot) : Nat :=
  placesEnd slot.block.alignment slot.start slot.block.sizes + slot.block.tail

/-- The entry of the map list. -/
def mapItem (slot : Slot) : MapItem where
  kind := slot.block.kind
  size := slot.block.units
  offset := UInt32.ofNat slot.start

/-- The area that a header counts. -/
def area (slot : Slot) : Area :=
  .of slot.block.units (UInt32.ofNat slot.start)

/-- The section is part of the data behind the ids. -/
def isData (slot : Slot) : Bool :=
  slot.block.kind != .header && !slot.block.kind.isIdSection

/-- The offsets that a layout pass reports. -/
def reported (slot : Slot) : List Nat :=
  (if slot.block.kind = .stringId ∨ slot.block.kind.isModelled = false then [] else slot.places) ++
    [slot.stop]

theorem start_le_stop (slot : Slot) : slot.start ≤ slot.stop := by
  have behind := le_placesEnd slot.block.alignment slot.start slot.block.sizes
  unfold stop
  omega

end Slot

/-- The blocks of a list, one behind the other from a position on. -/
def plan (options : WriteOptions) : (position : Nat) → List Block → List Slot
  | _, [] => []
  | position, block :: rest =>
    let slot : Slot := { block, start := DexFile.sectionStart options block.kind position }
    slot :: plan options slot.stop rest

/-- The position behind the blocks of a list. -/
def planEnd (options : WriteOptions) : (position : Nat) → List Block → Nat
  | position, [] => position
  | position, block :: rest =>
    planEnd options (Slot.stop { block, start := DexFile.sectionStart options block.kind position }) rest

theorem le_sectionStart (options : WriteOptions) (kind : SectionKind) (position : Nat) :
    position ≤ DexFile.sectionStart options kind position := by
  unfold DexFile.sectionStart
  simp only
  split <;> try split
  all_goals omega

theorem le_planEnd (options : WriteOptions) (position : Nat) (blocks : List Block) :
    position ≤ planEnd options position blocks := by
  induction blocks generalizing position with
  | nil => exact Nat.le_refl _
  | cons block rest ih =>
      have start := le_sectionStart options block.kind position
      have stop := Slot.start_le_stop { block, start := DexFile.sectionStart options block.kind position }
      have later := ih (Slot.stop { block, start := DexFile.sectionStart options block.kind position })
      rw [planEnd]
      simp only at stop
      omega

theorem length_plan (options : WriteOptions) (position : Nat) (blocks : List Block) :
    (plan options position blocks).length = blocks.length := by
  induction blocks generalizing position with
  | nil => rfl
  | cons block rest ih => simp [plan, ih]

/-- The area of a kind among placed sections. -/
def areaIn (slots : List Slot) (kind : SectionKind) : Area :=
  ((slots.find? fun slot => slot.block.kind == kind).map Slot.area).getD {}

/-- The start of the data among placed sections. -/
def dataStart? (slots : List Slot) : Option Nat :=
  (slots.find? Slot.isData).map Slot.start

namespace DexFile

/-- What a layout relies on: valid sections of their kinds, and every section once. -/
structure Orderly (file : DexFile) : Prop where
  kinds : ∀ part : Part, (part.items file).kind = part.kind
  valid : ∀ part : Part, (part.items file).Valid
  strings : file.strings.items.Valid
  raws : ∀ raw ∈ file.raws, raw.kind.isModelled = false
  distinct : file.layout.Nodup

/-- Places do not count for a layout. -/
theorem Orderly.of_unplaced {file final : DexFile} (orderly : file.Orderly)
    (same : final.unplaced = file.unplaced) : final.Orderly where
  kinds part := by
    have kind := congrArg Section.kind (items_of_unplaced same part)
    exact kind.trans (orderly.kinds part)
  valid part := (orderly.valid part).of_unplaced (items_of_unplaced same part)
  strings := by
    have order := order_strings_of_unplaced same
    refine orderly.strings.congr order fun id => ?_
    have index := Section.indexOf?_of_unplaced (strings_of_unplaced same) id
    rwa [Section.indexOf?_map, Section.indexOf?_map] at index
  raws raw inside := by
    obtain ⟨index, found⟩ := List.getElem?_of_mem inside
    have kind := raw_of_unplaced same index RawSection.kind fun _ => rfl
    rw [found, Option.map_some, eq_comm, Option.map_eq_some_iff] at kind
    obtain ⟨other, there, kind⟩ := kind
    rw [← kind]
    exact orderly.raws other (List.mem_of_getElem? there)
  distinct := by
    rw [layout_of_unplaced same]
    exact orderly.distinct

/-- The kind of a section is modelled when its place in the layout is that of a modelled one. -/
theorem Orderly.kindOf_raw {file : DexFile} (orderly : file.Orderly) (index : Nat) :
    (file.kindOf (.raw index)).isModelled = false := by
  unfold kindOf
  cases found : file.raws[index]? with
  | none => simp only [found]; rfl
  | some raw =>
      simp only [found]
      exact orderly.raws raw (List.mem_of_getElem? found)

/-- The sections that have items are modelled by their kinds. -/
theorem modelled_of_countOf {file : DexFile} {kind : SectionKind}
    (some : 0 < file.countOf (.modelled kind)) :
    kind = .header ∨ kind = .mapList ∨ kind = .stringId ∨ kind = .stringData ∨
      ∃ part : Part, kind = part.kind := by
  cases kind with
  | header => exact .inl rfl
  | mapList => exact .inr (.inl rfl)
  | stringId => exact .inr (.inr (.inl rfl))
  | stringData => exact .inr (.inr (.inr (.inl rfl)))
  | typeId => exact .inr (.inr (.inr (.inr ⟨.typeId, rfl⟩)))
  | protoId => exact .inr (.inr (.inr (.inr ⟨.protoId, rfl⟩)))
  | fieldId => exact .inr (.inr (.inr (.inr ⟨.fieldId, rfl⟩)))
  | methodId => exact .inr (.inr (.inr (.inr ⟨.methodId, rfl⟩)))
  | classDef => exact .inr (.inr (.inr (.inr ⟨.classDef, rfl⟩)))
  | typeList => exact .inr (.inr (.inr (.inr ⟨.typeList, rfl⟩)))
  | classData => exact .inr (.inr (.inr (.inr ⟨.classData, rfl⟩)))
  | codeItem => exact .inr (.inr (.inr (.inr ⟨.codeItem, rfl⟩)))
  | debugInfo => exact .inr (.inr (.inr (.inr ⟨.debugInfo, rfl⟩)))
  | _ => exact absurd some (Nat.lt_irrefl 0)

theorem offsetsAt_kind (file : DexFile) (part : Part) :
    file.offsetsAt (.modelled part.kind) = (part.items file).offsets := by
  cases part <;> rfl

/-- The block of a section whose items are written one by one. -/
theorem block_kind (file : DexFile) (entries : Nat) (part : Part) :
    file.block entries (.modelled part.kind) =
      { kind := part.kind
        units := UInt32.ofNat (part.items file).size
        alignment := part.kind.alignment
        sizes := (part.items file).sizes byteSize } := by
  cases part <;> rfl

/-- What a step does that places one section: it assigns the places of this section and leaves
everything else. -/
structure Places (entry : LayoutEntry) (found : List Nat) (file final : DexFile) : Prop where
  unplaced : final.unplaced = file.unplaced
  placed : final.offsetsAt entry = found.map UInt32.ofNat
  others : ∀ other, other ≠ entry → final.offsetsAt other = file.offsetsAt other
  header : final.header = file.header

theorem unplaced_put (file : DexFile) (part : Part) (items : Section part.Item) :
    (part.put file items).unplaced = part.put file.unplaced items.unplaced := by
  cases part <;> rfl

/-- A change of the places in one section is one of the file. -/
theorem Places.of_put {file : DexFile} {part : Part} {items : Section part.Item} {found : List Nat}
    (placed : SectionPlaced found (part.items file) items) :
    Places (.modelled part.kind) found file (part.put file items) where
  unplaced := by
    rw [unplaced_put, placed.unplaced, ← items_unplaced, Part.put_items]
  placed := by
    rw [offsetsAt_kind, Part.items_put]
    exact placed.offsets
  others other different := by
    cases other with
    | raw index => simp only [offsetsAt, Part.raws_put]
    | modelled kind =>
        unfold offsetsAt
        split
        · simp_all
        · rw [Part.strings_put]
        · rw [Part.strings_put]
        · rename_i same
          cases same
          cases here : Part.ofKind? kind with
          | none => rfl
          | some found =>
              have distinct : found ≠ part := by
                rintro rfl
                exact different (congrArg _ (Part.ofKind?_eq_some.1 here))
              simp [Part.items_put_of_ne distinct]
  header := Part.header_put part items

end DexFile
end DexArsc.Dex
