/-
Layout passes: a pass that succeeds assigns to every section the places of its plan, and it fails
only when the plan leaves the range of offsets.
-/

import DexArsc.Proofs.Dex.File.Plan

namespace DexArsc.Dex.DexFile

variable {file : DexFile}

/-- A change of the strings that assigns places is one of the file. -/
theorem unplaced_strings {items : Section StringItem}
    (same : (items.map StringItem.unplaced).unplaced =
      (file.strings.items.map StringItem.unplaced).unplaced) :
    unplaced { file with strings.items := items } = file.unplaced := by
  unfold unplaced
  simp only [same]

theorem offsetsAt_strings {items : Section StringItem} {other : LayoutEntry}
    (ids : other ≠ .modelled .stringId) (data : other ≠ .modelled .stringData) :
    offsetsAt { file with strings.items := items } other = file.offsetsAt other := by
  cases other with
  | raw index => rfl
  | modelled kind =>
      have ids : kind ≠ .stringId := fun same => ids (congrArg _ same)
      have data : kind ≠ .stringData := fun same => data (congrArg _ same)
      cases kind <;> first | rfl | contradiction

/-- The places of the string ids. -/
theorem Places.of_ids {items : Section StringItem} {found : List Nat}
    (placed : SectionPlaced found file.strings.items items) :
    Places (.modelled .stringId) found file { file with strings.items := items } where
  unplaced := by
    apply unplaced_strings
    rw [Section.unplaced_map, Section.unplaced_map, placed.unplaced]
  placed := placed.offsets
  others other different := by
    by_cases data : other = .modelled .stringData
    · subst data
      change items.dataOffsets = file.strings.items.dataOffsets
      unfold Section.dataOffsets
      rw [Section.order_of_unplaced placed.unplaced]
      simp only [Section.item?_of_unplaced placed.unplaced]
    · exact offsetsAt_strings different data
  header := rfl

/-- The places of the data of the strings. -/
theorem Places.of_data {items : Section StringItem} {found : List Nat}
    (placed : DataPlaced file.strings.items.order.toList found file.strings.items items)
    (size : found.length = file.strings.size) :
    Places (.modelled .stringData) found file { file with strings.items := items } where
  unplaced := unplaced_strings (congrArg Section.unplaced placed.unplaced)
  placed := by
    have order : items.order = file.strings.items.order := by
      simpa using congrArg Section.order placed.unplaced
    apply List.ext_getElem?
    intro place
    change items.dataOffsets[place]? = _
    rw [Section.dataOffsets, order, List.getElem?_map, List.getElem?_map]
    cases here : file.strings.items.order.toList[place]? with
    | none =>
        have none : found[place]? = none := by
          rw [List.getElem?_eq_none_iff, size]
          exact List.getElem?_eq_none_iff.1 here
        rw [none]
        rfl
    | some id =>
        have inside : place < found.length := by
          rw [size]
          exact (List.getElem?_eq_some_iff.1 here).1
        rw [Option.map_some, placed.offset place id here, List.getElem?_eq_getElem inside]
        rfl
  others other different := by
    by_cases ids : other = .modelled .stringId
    · subst ids
      change items.offsets = file.strings.items.offsets
      have order : items.order = file.strings.items.order := by
        simpa using congrArg Section.order placed.unplaced
      have offset (id : Id StringItem) : items.offsetOf? id = file.strings.items.offsetOf? id := by
        simpa using congrArg (Section.offsetOf? · id) placed.unplaced
      unfold Section.offsets
      rw [order]
      simp only [offset]
    · exact offsetsAt_strings ids different
  header := rfl

/-- The slot of a section that starts at a place. -/
def slotAt (file : DexFile) (entries : Nat) (entry : LayoutEntry) (start : Nat) : Slot :=
  { block := file.block entries entry, start }

/-- What a placement tells behind the items of a section. The places of string ids are not reported. -/
structure Reported (kind : SectionKind) (slot : Slot) (placed result : Placement) (file final : DexFile) : Prop where
  position : result.position = slot.stop
  offsets : result.offsets = placed.offsets ++
    ((if kind = .stringId then [] else slot.places).map UInt32.ofNat).toArray
  places : Places (.modelled kind) slot.places file final

/-- The header and the map list have no items with places. -/
theorem reported_tail {kind : SectionKind} {slot : Slot} {placed result : Placement}
    (sizes : slot.block.sizes = []) (none : file.offsetsAt (.modelled kind) = [])
    (stop : result = { placed with position := slot.stop }) : Reported kind slot placed result file file where
  position := by rw [stop]
  offsets := by simp [stop, Slot.places, sizes, Dex.places]
  places := {
    unplaced := rfl
    placed := by rw [none, Slot.places, sizes, Dex.places, List.map_nil]
    others := fun _ _ => rfl
    header := rfl }

theorem live_of_mem_order (orderly : file.Orderly) (id : Id StringItem)
    (inside : id ∈ file.strings.items.order.toList) : (file.strings.items.item? id).isSome :=
  orderly.strings.mem_order_iff.1 (Array.mem_toList_iff.1 inside)

theorem placeSection_outcome_stringId (orderly : file.Orderly) (entries : Nat) (placed : Placement) :
    let slot := file.slotAt entries (.modelled .stringId) placed.position
    (placeSection entries .stringId placed).Outcome file
      (fun result final => Reported .stringId slot placed result file final) (UInt32.size ≤ slot.stop) := by
  intro slot
  have size : file.strings.items.order.toList.length = file.strings.size := Array.length_toList
  have stop : slot.stop = placesEnd 1 placed.position (List.replicate file.strings.size 4) := rfl
  refine Step.Outcome.imp (Step.Outcome.onPart (?_ : Step.Outcome _ file.strings.items
    (fun result items => result = { placed with position := slot.stop } ∧
      SectionPlaced slot.places file.strings.items items) (UInt32.size ≤ slot.stop))) ?_ id
  · refine (placeStart_outcome placed.position file.strings.items).bind ?_ fun large =>
      Nat.le_trans large slot.start_le_stop
    rintro _ _ rfl
    rw [Step.Outcome, Step.bind_ok (Step.get_apply _)]
    have outcome := placeStringIds_outcome file.strings.items.order.toList placed.position
      { file.strings.items with offset := UInt32.ofNat placed.position } orderly.strings.nodup
      (live_of_mem_order orderly)
    rw [size] at outcome
    refine Step.Outcome.bind outcome ?_ id
    rintro _ final ⟨rfl, itemsPlaced⟩
    refine ⟨rfl, itemsPlaced.unplaced, @ItemsPlaced.offsets_eq _
      { file.strings.items with offset := UInt32.ofNat placed.position } _ _ itemsPlaced ?_⟩
    exact (length_places ..).trans List.length_replicate
  · rintro _ final ⟨items, rfl, rfl, sectionPlaced⟩
    exact ⟨rfl, by simp, Places.of_ids sectionPlaced⟩

theorem placeSection_outcome_stringData (orderly : file.Orderly) (entries : Nat) (placed : Placement) :
    let slot := file.slotAt entries (.modelled .stringData) placed.position
    (placeSection entries .stringData placed).Outcome file
      (fun result final => Reported .stringData slot placed result file final) (UInt32.size ≤ slot.stop) := by
  intro slot
  refine Step.Outcome.imp (Step.Outcome.onPart (?_ : Step.Outcome _ file.strings.items
    (fun result items => result.position = slot.stop ∧
      result.offsets = placed.offsets ++ (slot.places.map UInt32.ofNat).toArray ∧
      DataPlaced file.strings.items.order.toList slot.places file.strings.items items)
    (UInt32.size ≤ slot.stop))) ?_ id
  · rw [Step.Outcome, Step.bind_ok (Step.get_apply _)]
    exact placeStringData_outcome file.strings.items.order.toList placed file.strings.items
      orderly.strings.nodup (live_of_mem_order orderly)
  · rintro result final ⟨items, rfl, stop, offsets, dataPlaced⟩
    refine ⟨stop, offsets, Places.of_data dataPlaced ?_⟩
    exact (length_places ..).trans (Section.length_sizes ..)

theorem placeSection_outcome_part (orderly : file.Orderly) (part : Part) (entries : Nat) (placed : Placement) :
    let slot := file.slotAt entries (.modelled part.kind) placed.position
    (placeSection entries part.kind placed).Outcome file
      (fun result final => Reported part.kind slot placed result file final) (UInt32.size ≤ slot.stop) := by
  intro slot
  have blockEq := block_kind file entries part
  rw [Part.placeSection_kind]
  refine Step.Outcome.imp (Step.Outcome.onPart (placeWithItems_outcome placed (orderly.valid part))) ?_ ?_
  · rintro result final ⟨items, rfl, stop, offsets, sectionPlaced⟩
    rw [orderly.kinds part] at stop offsets sectionPlaced
    have found : slot.places = places part.kind.alignment placed.position ((part.items file).sizes byteSize) := by
      simp only [slot, slotAt, Slot.places, blockEq]
    refine ⟨?_, ?_, ?_⟩
    · simp only [slot, slotAt, Slot.stop, blockEq, stop, Nat.add_zero]
    · rw [if_neg (by cases part <;> simp [Part.kind]), found, offsets]
    · rw [found]
      exact Places.of_put sectionPlaced
  · intro large
    rw [orderly.kinds part] at large
    simpa only [slot, slotAt, Slot.stop, blockEq, Nat.add_zero] using large

/-- A section of a list of blocks is placed exactly when it ends within the range of offsets. -/
theorem placeSection_outcome (orderly : file.Orderly) {kind : SectionKind}
    (some : 0 < file.countOf (.modelled kind)) (entries : Nat) (placed : Placement) :
    let slot := file.slotAt entries (.modelled kind) placed.position
    (placeSection entries kind placed).Outcome file
      (fun result final => Reported kind slot placed result file final) (UInt32.size ≤ slot.stop) := by
  rcases modelled_of_countOf some with rfl | rfl | rfl | rfl | ⟨part, rfl⟩
  · exact reported_tail rfl rfl rfl
  · exact reported_tail rfl rfl rfl
  · exact placeSection_outcome_stringId orderly entries placed
  · exact placeSection_outcome_stringData orderly entries placed
  · exact placeSection_outcome_part orderly part entries placed

theorem kind_block (file : DexFile) (entries : Nat) (entry : LayoutEntry) :
    (file.block entries entry).kind = file.kindOf entry := by
  cases entry with
  | raw index => rfl
  | modelled kind => cases kind <;> rfl

/-- What a section becomes when it is placed. -/
structure EntryPlaced (entry : LayoutEntry) (slot : Slot) (file final : DexFile) : Prop where
  unplaced : final.unplaced = file.unplaced
  placed : final.offsetsAt entry = slot.places.map UInt32.ofNat
  others : ∀ other, other ≠ entry → final.offsetsAt other = file.offsetsAt other
  area : ∀ kind, kind.isCounted → final.header.areaOf kind =
    if entry = .modelled kind then slot.area else file.header.areaOf kind

theorem offsetsAt_header {header : Header} (entry : LayoutEntry) :
    offsetsAt { file with header } entry = file.offsetsAt entry := by
  cases entry with
  | raw index => rfl
  | modelled kind => cases kind <;> rfl

/-- A section kept as bytes that receives a place. -/
theorem EntryPlaced.of_raw {index : Nat} {raw : RawSection}
    (found : file.raws[index]? = some raw) (entries start : Nat) :
    EntryPlaced (.raw index) (file.slotAt entries (.raw index) start) file { file with
      raws := file.raws.modify index fun raw => { raw with offset := UInt32.ofNat start } } where
  unplaced := by
    unfold DexFile.unplaced
    simp only [DexFile.mk.injEq, true_and, and_true]
    apply List.ext_getElem?
    intro place
    simp only [List.getElem?_map, List.getElem?_modify]
    by_cases same : index = place
    · cases file.raws[place]? <;> simp [same, RawSection.unplaced]
    · simp [same]
  placed := by
    simp only [offsetsAt, List.getElem?_modify, if_pos, found, slotAt, Slot.places, block]
    simp [places, padding]
  others other different := by
    cases other with
    | modelled kind => cases kind <;> rfl
    | raw other =>
        have distinct : index ≠ other := fun same => different (congrArg _ same.symm)
        simp [offsetsAt, distinct]
  area kind counted := by simp

/-- A section with items that receives its places and an area in the header. -/
theorem EntryPlaced.of_places {kind : SectionKind} {units : UInt32} {slot : Slot} {final : DexFile}
    (places : Places (.modelled kind) slot.places file final)
    (counts : kind.isCounted → slot.block.units = units) :
    EntryPlaced (.modelled kind) slot file { final with
      header := final.header.setArea kind units (UInt32.ofNat slot.start) } where
  unplaced := by
    rw [← places.unplaced]
    unfold DexFile.unplaced
    simp only [Header.unplaced_setArea]
  placed := by
    rw [offsetsAt_header]
    exact places.placed
  others other different := by
    rw [offsetsAt_header]
    exact places.others other different
  area other counted := by
    rw [Header.areaOf_setArea, places.header]
    by_cases same : other = kind
    · subst same
      rw [if_pos ⟨rfl, counted⟩, if_pos rfl, Slot.area, counts counted]
    · rw [if_neg fun both => same both.1, if_neg fun equal => same (LayoutEntry.modelled.inj equal).symm]

theorem isModelled_of_countOf {kind : SectionKind} (some : 0 < file.countOf (.modelled kind)) :
    kind.isModelled = true := by
  rcases modelled_of_countOf some with rfl | rfl | rfl | rfl | ⟨part, rfl⟩
  case inr.inr.inr.inr => exact part.isModelled_kind
  all_goals rfl

/-- The map list counts the items of a section, but the header and the map list itself once. -/
theorem units_block {kind : SectionKind} (some : 0 < file.countOf (.modelled kind)) (entries : Nat) :
    (file.block entries (.modelled kind)).units =
      if kind = .header ∨ kind = .mapList then 1 else UInt32.ofNat (file.countOf (.modelled kind)) := by
  rcases modelled_of_countOf some with rfl | rfl | rfl | rfl | ⟨part, rfl⟩
  case inr.inr.inr.inr =>
    rw [block_kind, Part.countOf_kind, if_neg (by cases part <;> simp [Part.kind])]
  all_goals rfl

/-- What a pass tells behind a section that was placed. -/
structure Entered (slot : Slot) (pass result : LayoutPass) : Prop where
  position : result.placed.position = slot.stop
  offsets : result.placed.offsets = pass.placed.offsets ++ (slot.reported.map UInt32.ofNat).toArray
  map : result.map = pass.map ++ [slot.mapItem]
  dataStart : result.dataStart = pass.dataStart

/-- A section that was placed is entered exactly when its end is an offset. -/
theorem enter_outcome {entry : LayoutEntry} {slot : Slot} {pass : LayoutPass} {placed : Placement} {item : MapItem}
    {final : DexFile} (position : placed.position = slot.stop)
    (offsets : placed.offsets.push (UInt32.ofNat slot.stop) =
      pass.placed.offsets ++ (slot.reported.map UInt32.ofNat).toArray)
    (listed : item = slot.mapItem) (entryPlaced : EntryPlaced entry slot file final) :
    ((do
      let stop ← narrow32 "section end" placed.position
      return { pass with
        placed := { placed with offsets := placed.offsets.push stop }
        map := pass.map ++ [item] } : Step DexFile LayoutPass).Outcome final
      (fun result final => Entered slot pass result ∧ EntryPlaced entry slot file final)
      (UInt32.size ≤ slot.stop)) := by
  rw [position]
  refine (narrow32_outcome "section end" slot.stop final).bind ?_ id
  rintro word _ ⟨_, rfl, rfl⟩
  exact ⟨⟨rfl, offsets, by rw [listed], rfl⟩, entryPlaced⟩

/-- A section kept as bytes is placed exactly when it ends within the range of offsets. -/
theorem placeEntry_outcome_raw (orderly : file.Orderly) {index : Nat} (some : 0 < file.countOf (.raw index))
    (entries start : Nat) (pass : LayoutPass) :
    let slot := file.slotAt entries (.raw index) start
    (placeEntry entries (.raw index) (file.countOf (.raw index)) start pass).Outcome file
      (fun result final => Entered slot pass result ∧ EntryPlaced (.raw index) slot file final)
      (UInt32.size ≤ slot.stop) := by
  intro slot
  obtain ⟨raw, found⟩ : ∃ raw, file.raws[index]? = .some raw := by
    cases found : file.raws[index]? with
    | none => simp [countOf, found] at some
    | some raw => exact ⟨raw, rfl⟩
  have moved : (file.raws.modify index fun raw => { raw with offset := UInt32.ofNat start })[index]? =
      .some { raw with offset := UInt32.ofNat start } := by
    simp [found]
  have placed : slot.places = [start] := by
    simp [slot, slotAt, Slot.places, block, found, places, padding]
  have stop : slot.stop = start + raw.bytes.size := by
    simp [slot, slotAt, Slot.stop, block, found, placesEnd, padding]
  have change : onRaws (modify fun raws => raws.modify index fun raw =>
      { raw with offset := UInt32.ofNat start }) file = .ok () { file with
        raws := file.raws.modify index fun raw => { raw with offset := UInt32.ofNat start } } := rfl
  unfold placeEntry
  rw [Step.Outcome, Step.bind_ok (Step.get_apply _)]
  simp only [pure_bind]
  refine (narrow32_outcome "section offset" start file).bind ?_ fun large => Nat.le_trans large slot.start_le_stop
  rintro word _ ⟨_, rfl, rfl⟩
  rw [Step.Outcome, Step.bind_ok change, Step.bind_ok (Step.get_apply _)]
  simp only [moved, Option.map_some, Option.getD_some]
  have kind : slot.block.kind.isModelled = false := orderly.kindOf_raw index
  refine @enter_outcome _ _ _ _ { pass.placed with position := start + raw.bytes.size } _ _ stop.symm ?_ ?_
    (EntryPlaced.of_raw found entries start)
  · rw [Slot.reported, if_pos (.inr kind)]
    simp
  · simp only [Slot.mapItem, slot, slotAt, block, found]
    rfl

/-- A section of a modelled kind is placed exactly when it ends within the range of offsets. -/
theorem placeEntry_outcome_modelled (orderly : file.Orderly) {kind : SectionKind}
    (some : 0 < file.countOf (.modelled kind)) (entries start : Nat) (pass : LayoutPass) :
    let slot := file.slotAt entries (.modelled kind) start
    (placeEntry entries (.modelled kind) (file.countOf (.modelled kind)) start pass).Outcome file
      (fun result final => Entered slot pass result ∧ EntryPlaced (.modelled kind) slot file final)
      (UInt32.size ≤ slot.stop) := by
  intro slot
  have blockKind : slot.block.kind = kind := kind_block ..
  have units : slot.block.units = _ := units_block some entries
  unfold placeEntry
  rw [Step.Outcome, Step.bind_ok (Step.get_apply _)]
  simp only [pure_bind]
  refine (placeSection_outcome orderly some entries { pass.placed with position := start }).bind ?_ id
  rintro placed final ⟨position, offsets, places⟩
  refine (narrow32_outcome "section offset" start final).bind ?_ fun large => Nat.le_trans large slot.start_le_stop
  rintro word _ ⟨_, rfl, rfl⟩
  rw [Step.Outcome, Step.bind_ok (Step.modify_apply _ _)]
  refine enter_outcome position ?_ ?_ (.of_places places fun counted => ?_)
  · rw [offsets, Slot.reported, blockKind]
    simp [isModelled_of_countOf some, slot, slotAt]
  · rw [Slot.mapItem, blockKind, units]
    rfl
  · have plain : ¬(kind = .header ∨ kind = .mapList) := by
      rintro (rfl | rfl) <;> cases counted
    rw [units, if_neg plain]

/-- A section that has items is placed exactly when it ends within the range of offsets. -/
theorem placeEntry_outcome (orderly : file.Orderly) {entry : LayoutEntry}
    (some : 0 < file.countOf entry) (entries start : Nat) (pass : LayoutPass) :
    let slot := file.slotAt entries entry start
    (placeEntry entries entry (file.countOf entry) start pass).Outcome file
      (fun result final => Entered slot pass result ∧ EntryPlaced entry slot file final)
      (UInt32.size ≤ slot.stop) := by
  cases entry with
  | raw index => exact placeEntry_outcome_raw orderly some entries start pass
  | modelled kind => exact placeEntry_outcome_modelled orderly some entries start pass

/-- What the sections of a list become when those of them that have items are placed. -/
structure EntriesPlaced (entries found : List LayoutEntry) (slots : List Slot)
    (file final : DexFile) : Prop where
  unplaced : final.unplaced = file.unplaced
  placed : ∀ pair ∈ found.zip slots, final.offsetsAt pair.1 = pair.2.places.map UInt32.ofNat
  others : ∀ other, other ∉ found → final.offsetsAt other = file.offsetsAt other
  area : ∀ kind, kind.isCounted → final.header.areaOf kind =
    if .modelled kind ∈ entries then areaIn slots kind else file.header.areaOf kind

theorem isModelled_of_isCounted {kind : SectionKind} (counted : kind.isCounted) :
    kind.isModelled = true := by
  cases kind <;> first | rfl | cases counted

/-- A section of a modelled kind is the modelled one. -/
theorem Orderly.eq_modelled (orderly : file.Orderly) {entry : LayoutEntry} {kind : SectionKind}
    (modelled : kind.isModelled) (same : file.kindOf entry = kind) : entry = .modelled kind := by
  cases entry with
  | modelled other => exact congrArg _ same
  | raw index =>
      have raw := orderly.kindOf_raw index
      rw [same, modelled] at raw
      cases raw

theorem areaIn_cons (slot : Slot) (rest : List Slot) (kind : SectionKind) :
    areaIn (slot :: rest) kind = if slot.block.kind = kind then slot.area else areaIn rest kind := by
  unfold areaIn
  by_cases same : slot.block.kind = kind
  · simp [same]
  · have other : (slot.block.kind == kind) = false := beq_eq_false_iff_ne.2 same
    simp [other, same]

/-- A kind that no block has takes no area. -/
theorem areaIn_plan (options : WriteOptions) (position : Nat) (blocks : List Block)
    {kind : SectionKind} (none : ∀ block ∈ blocks, block.kind ≠ kind) :
    areaIn (plan options position blocks) kind = {} := by
  induction blocks generalizing position with
  | nil => rfl
  | cons block rest ih =>
      rw [plan, areaIn_cons, if_neg (none block List.mem_cons_self)]
      exact ih _ fun block inside => none block (List.mem_cons_of_mem _ inside)

namespace EntriesPlaced

variable {entry : LayoutEntry} {rest found : List LayoutEntry} {slot : Slot} {slots : List Slot}
  {between final : DexFile}

theorem nil (file : DexFile) : EntriesPlaced [] [] [] file file where
  unplaced := rfl
  placed _ inside := absurd inside List.not_mem_nil
  others _ _ := rfl
  area _ _ := (if_neg List.not_mem_nil).symm

/-- A section without items loses its area, and no other section has its kind. -/
theorem skip (orderly : file.Orderly)
    (later : EntriesPlaced rest found slots { file with header := file.header.setArea (file.kindOf entry) 0 0 } final)
    (none : ∀ kind, kind.isCounted → .modelled kind ∉ rest → areaIn slots kind = {}) :
    EntriesPlaced (entry :: rest) found slots file final where
  unplaced := by
    rw [later.unplaced]
    unfold DexFile.unplaced
    rw [Header.unplaced_setArea]
  placed := later.placed
  others other outside := by
    rw [later.others other outside, offsetsAt_header]
  area kind counted := by
    rw [later.area kind counted, Header.areaOf_setArea]
    by_cases listed : .modelled kind ∈ rest
    · rw [if_pos listed, if_pos (List.mem_cons_of_mem _ listed)]
    rw [if_neg listed]
    by_cases here : file.kindOf entry = kind
    · have equal := orderly.eq_modelled (isModelled_of_isCounted counted) here
      rw [if_pos ⟨here.symm, here ▸ counted⟩, if_pos (equal ▸ List.mem_cons_self), none kind counted listed]
      rfl
    · have outside : LayoutEntry.modelled kind ∉ entry :: rest := by
        rw [List.mem_cons, not_or]
        refine ⟨?_, listed⟩
        rintro rfl
        exact here rfl
      rw [if_neg fun both => here both.1.symm, if_neg outside]

/-- A section that is placed in front of others keeps its places. -/
theorem cons (orderly : file.Orderly) (new : entry ∉ rest) (kind : slot.block.kind = file.kindOf entry)
    (first : EntryPlaced entry slot file between) (later : EntriesPlaced rest found slots between final)
    (within : ∀ other ∈ found, other ∈ rest) :
    EntriesPlaced (entry :: rest) (entry :: found) (slot :: slots) file final where
  unplaced := later.unplaced.trans first.unplaced
  placed pair inside := by
    rw [List.zip_cons_cons, List.mem_cons] at inside
    rcases inside with rfl | inside
    · rw [later.others entry fun inside => new (within entry inside), first.placed]
    · exact later.placed pair inside
  others other outside := by
    rw [List.mem_cons, not_or] at outside
    rw [later.others other outside.2, first.others other outside.1]
  area other counted := by
    rw [later.area other counted, first.area other counted, areaIn_cons, kind]
    by_cases here : entry = .modelled other
    · subst here
      rw [if_neg new, if_pos rfl, if_pos List.mem_cons_self]
      exact (if_pos rfl).symm
    · have different : ¬LayoutEntry.modelled other = entry := fun same => here same.symm
      rw [if_neg here, if_neg fun same => here (orderly.eq_modelled (isModelled_of_isCounted counted) same)]
      simp only [List.mem_cons, different, false_or]

end EntriesPlaced

theorem dataStart?_cons (slot : Slot) (slots : List Slot) :
    dataStart? (slot :: slots) = (if slot.isData then some slot.start else none).or (dataStart? slots) := by
  unfold dataStart?
  cases data : slot.isData
  · rw [List.find?_cons_of_neg (by rw [data]; simp)]
    rfl
  · rw [List.find?_cons_of_pos data]
    rfl

/-- What a pass tells behind sections that were placed one behind the other. -/
structure Passed (slots : List Slot) (pass result : LayoutPass) : Prop where
  offsets : result.placed.offsets = pass.placed.offsets ++ ((slots.flatMap Slot.reported).map UInt32.ofNat).toArray
  map : result.map = pass.map ++ slots.map Slot.mapItem
  dataStart : result.dataStart = pass.dataStart.or (dataStart? slots)

theorem Passed.nil (pass : LayoutPass) : Passed [] pass pass where
  offsets := by simp
  map := by simp
  dataStart := by simp [dataStart?]

/-- The first section of the data starts the data. -/
theorem Passed.cons {slot : Slot} {slots : List Slot} {pass between result : LayoutPass}
    (first : Entered slot { pass with
      dataStart := pass.dataStart.or (if slot.isData then some slot.start else none) } between)
    (later : Passed slots between result) : Passed (slot :: slots) pass result where
  offsets := by
    rw [later.offsets, first.offsets]
    simp
  map := by
    rw [later.map, first.map]
    simp
  dataStart := by rw [later.dataStart, first.dataStart, dataStart?_cons, Option.or_assoc]

/-- The blocks of the sections in a list that have items. -/
def blocksOf (file : DexFile) (entries : Nat) (rest : List LayoutEntry) : List Block :=
  (rest.filter fun entry => 0 < file.countOf entry).map (file.block entries)

theorem blocksOf_of_unplaced {final : DexFile} (same : final.unplaced = file.unplaced) (entries : Nat)
    (rest : List LayoutEntry) : final.blocksOf entries rest = file.blocksOf entries rest := by
  unfold blocksOf
  simp only [countOf_of_unplaced same]
  exact List.map_congr_left fun entry _ => block_of_unplaced same entries entry

/-- No section outside of a list takes an area in its plan. -/
theorem areaIn_blocksOf (options : WriteOptions) (entries position : Nat) (orderly : file.Orderly)
    {rest : List LayoutEntry} {kind : SectionKind} (counted : kind.isCounted) (outside : .modelled kind ∉ rest) :
    areaIn (plan options position (file.blocksOf entries rest)) kind = {} := by
  refine areaIn_plan options position _ fun block inside same => ?_
  obtain ⟨other, there, rfl⟩ := List.mem_map.1 inside
  rw [kind_block] at same
  rw [orderly.eq_modelled (isModelled_of_isCounted counted) same] at there
  exact outside (List.mem_filter.1 there).1

/-- The sections of a list are placed by their plan, exactly when it ends within the range of
offsets. -/
theorem placeEntries_outcome (options : WriteOptions) (entries : Nat) (rest : List LayoutEntry)
    (distinct : rest.Nodup) (file : DexFile) (orderly : file.Orderly) (pass : LayoutPass) :
    let blocks := file.blocksOf entries rest
    let slots := plan options pass.placed.position blocks
    (placeEntries options entries rest pass).Outcome file
      (fun result final => result.placed.position = planEnd options pass.placed.position blocks ∧
        Passed slots pass result ∧
        EntriesPlaced rest (rest.filter fun entry => 0 < file.countOf entry) slots file final)
      (UInt32.size ≤ planEnd options pass.placed.position blocks) := by
  induction rest generalizing file pass with
  | nil => exact ⟨rfl, .nil pass, .nil file⟩
  | cons entry rest ih =>
      obtain ⟨new, distinct⟩ := List.nodup_cons.1 distinct
      unfold placeEntries
      rw [Step.Outcome, Step.bind_ok (Step.get_apply _)]
      by_cases empty : file.countOf entry = 0
      · have same : unplaced { file with header := file.header.setArea (file.kindOf entry) 0 0 } =
            file.unplaced := by
          unfold unplaced
          rw [Header.unplaced_setArea]
        have dropped : file.blocksOf entries (entry :: rest) = file.blocksOf entries rest := by
          simp [blocksOf, empty]
        have outcome := ih distinct _ (orderly.of_unplaced same) pass
        simp only [blocksOf_of_unplaced same, countOf_of_unplaced same] at outcome
        simp only [dropped, empty, if_true]
        rw [Step.bind_ok (Step.set_apply _ _), List.filter_cons_of_neg (by simp [empty])]
        refine outcome.imp ?_ id
        rintro result final ⟨position, passed, placed⟩
        refine ⟨position, passed, ?_⟩
        exact placed.skip orderly fun kind counted outside =>
          areaIn_blocksOf options entries _ orderly counted outside
      · have some : 0 < file.countOf entry := Nat.pos_of_ne_zero empty
        let slot := file.slotAt entries entry (sectionStart options (file.kindOf entry) pass.placed.position)
        have kind : slot.block.kind = file.kindOf entry := kind_block ..
        have kept : file.blocksOf entries (entry :: rest) = slot.block :: file.blocksOf entries rest := by
          simp [blocksOf, some, slot, slotAt]
        simp only [if_neg empty, kept, plan, planEnd, kind]
        rw [List.filter_cons_of_pos (by simp [some])]
        refine (placeEntry_outcome orderly some entries slot.start _).bind ?_ fun large =>
          Nat.le_trans large (le_planEnd ..)
        rintro between mid ⟨entered, first⟩
        have outcome := ih distinct mid (orderly.of_unplaced first.unplaced) between
        simp only [blocksOf_of_unplaced first.unplaced, countOf_of_unplaced first.unplaced,
          entered.position] at outcome
        refine outcome.imp ?_ id
        rintro result final ⟨position, passed, later⟩
        refine ⟨position, .cons ?_ passed, ?_⟩
        · rw [Slot.isData, kind]
          exact entered
        · exact .cons orderly new kind first later fun other inside => (List.mem_filter.1 inside).1

/-- The map list of placed sections. -/
def planMap (slots : List Slot) : MapList :=
  { items := slots.map Slot.mapItem }

/-- The header of a file with placed sections that ends at a position. -/
def planHeader (header : Header) (slots : List Slot) (stop : Nat) : Header :=
  let dataStart := UInt32.ofNat ((dataStart? slots).getD stop)
  { header with
    size := UInt32.ofNat headerSize
    fileSize := UInt32.ofNat stop
    linkData := {}
    mapOffset := (((planMap slots).find? .mapList).map MapItem.offset).getD 0
    strings := areaIn slots .stringId
    types := areaIn slots .typeId
    protos := areaIn slots .protoId
    fields := areaIn slots .fieldId
    methods := areaIn slots .methodId
    classes := areaIn slots .classDef
    data := { size := UInt32.ofNat stop - dataStart, offset := dataStart } }

/-- The plan of a file from the start of the file on. -/
def slots (options : WriteOptions) (file : DexFile) : List Slot :=
  plan options 0 file.blocks

/-- The end of a file's plan. -/
def stop (options : WriteOptions) (file : DexFile) : Nat :=
  planEnd options 0 file.blocks

/-- What a file becomes when a layout pass assigns the places of its plan. -/
structure Planned (options : WriteOptions) (file final : DexFile) : Prop where
  fits : file.stop options < UInt32.size
  unplaced : final.unplaced = file.unplaced
  placed : ∀ pair ∈ file.present.zip (file.slots options),
    final.offsetsAt pair.1 = pair.2.places.map UInt32.ofNat
  map : final.map = planMap (file.slots options)
  header : final.header = planHeader file.header (file.slots options) (file.stop options)

/-- A layout pass assigns the places of the plan and no others, exactly when it ends within the range of
offsets. -/
theorem layoutPass_outcome (options : WriteOptions) (orderly : file.Orderly)
    (complete : ∀ kind, kind.isCounted → .modelled kind ∈ file.layout) :
    (layoutPass options).Outcome file
      (fun result final => result =
          (((file.slots options).flatMap Slot.reported).map UInt32.ofNat).toArray ∧
        Planned options file final ∧
        ∀ entry, entry ∉ file.present → final.offsetsAt entry = file.offsetsAt entry)
      (UInt32.size ≤ file.stop options) := by
  unfold layoutPass
  rw [Step.Outcome, Step.bind_ok (Step.get_apply _)]
  refine (placeEntries_outcome options file.present.length file.layout orderly.distinct file orderly
    {}).bind ?_ fun large => large
  rintro pass between ⟨position, ⟨offsets, map, dataStart⟩, placed⟩
  change pass.placed.position = file.stop options at position
  change pass.placed.offsets = #[] ++
    (((file.slots options).flatMap Slot.reported).map UInt32.ofNat).toArray at offsets
  change pass.map = [] ++ (file.slots options).map Slot.mapItem at map
  change pass.dataStart = (none : Option Nat).or (dataStart? (file.slots options)) at dataStart
  rw [position]
  refine (narrow32_outcome "file size" (file.stop options) between).bind ?_ fun large => large
  rintro word _ ⟨fits, rfl, rfl⟩
  rw [Array.empty_append] at offsets
  rw [List.nil_append] at map
  rw [Option.none_or] at dataStart
  rw [Step.Outcome, Step.bind_ok (Step.modify_apply _ _)]
  have headed {header : Header} {map : MapList} (entry : LayoutEntry) :
      offsetsAt { between with header, map } entry = between.offsetsAt entry := by
    cases entry with
    | raw index => rfl
    | modelled kind => cases kind <;> rfl
  refine ⟨offsets, ⟨fits, ?_, ?_, ?_, ?_⟩, fun entry outside =>
    (headed entry).trans (placed.others entry outside)⟩
  · rw [← placed.unplaced]
    rfl
  · intro pair inside
    rw [← placed.placed pair inside]
    exact headed pair.1
  · exact congrArg MapList.mk map
  · have same := header_of_unplaced placed.unplaced
    have area (kind : SectionKind) (counted : kind.isCounted) :
        between.header.areaOf kind = areaIn (file.slots options) kind := by
      rw [placed.area kind counted, if_pos (complete kind counted)]
      rfl
    simp only [Header.unplaced, Header.mk.injEq, and_true, true_and] at same
    obtain ⟨magic, checksum, signature, endianTag⟩ := same
    simp only [planHeader, Header.mk.injEq, map, dataStart]
    refine ⟨magic, checksum, signature, trivial, trivial, endianTag, trivial, rfl, area .stringId rfl,
      area .typeId rfl, area .protoId rfl, area .fieldId rfl, area .methodId rfl, area .classDef rfl,
      trivial⟩

end DexArsc.Dex.DexFile
