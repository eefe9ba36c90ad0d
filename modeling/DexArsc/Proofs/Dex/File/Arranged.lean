/-
The sections of a file that is up to date: from the header on they stand apart in the order of the
layout, each with its items one behind the other, and the map list and the header tell where.
-/

import DexArsc.Proofs.Dex.File.Extent

namespace DexArsc.Dex

/-- Runs of bytes that stand at given places have the spans of these places. -/
theorem map_span_eq_zip {runs : List (UInt32 × List UInt8)} {places sizes : List Nat}
    (starts : runs.map Prod.fst = places.map UInt32.ofNat)
    (lengths : runs.map (fun run => run.2.length) = sizes)
    (fits : ∀ place ∈ places, place < UInt32.size) :
    runs.map (fun run => (run.1.toNat, run.2.length)) = places.zip sizes := by
  induction runs generalizing places sizes with
  | nil =>
      cases lengths
      exact List.zip_nil_right.symm
  | cons run rest ih =>
      cases places with
      | nil => cases starts
      | cons place others =>
          rw [List.map_cons, List.map_cons, List.cons.injEq] at starts
          rw [← lengths, List.map_cons, List.map_cons, List.zip_cons_cons, List.cons.injEq]
          refine ⟨?_, ih starts.2 rfl fun other inside => fits other (List.mem_cons_of_mem _ inside)⟩
          rw [starts.1, toNat_ofNat_of_lt (fits place List.mem_cons_self)]

namespace DexFile

variable {options : WriteOptions} {file : DexFile}

/-- Everything that stands in a section with its offset: the byte forms of its items, or all its
bytes. -/
def runsAt (file : DexFile) (entry : LayoutEntry) : List (UInt32 × List UInt8) :=
  if entry = .modelled .header then [(0, encode file.header)] else file.piecesAt entry

/-- Where a section starts: with its first item. -/
def startOf (file : DexFile) (entry : LayoutEntry) : Nat :=
  ((file.runsAt entry).head?.map fun run => run.1.toNat).getD 0

/-- Where a section stops: behind its last item. -/
def stopOf (file : DexFile) (entry : LayoutEntry) : Nat :=
  ((file.runsAt entry).getLast?.map fun run => run.1.toNat + run.2.length).getD 0

/-- The number of items that the map list has to name for a section. -/
def unitsOf (file : DexFile) : LayoutEntry → Nat
  | .raw index => ((file.raws[index]?.map RawSection.count).getD 0).toNat
  | .modelled kind => file.countOf (.modelled kind)

/-- The section is part of the data behind the header and the ids. -/
def isData (file : DexFile) (entry : LayoutEntry) : Bool :=
  file.kindOf entry != .header && !(file.kindOf entry).isIdSection

/-- The sections with items, the header first, stand apart and in the order of the layout, each with
its aligned items one behind the other. -/
structure Arranged (file : DexFile) : Prop where
  first : file.layout.head? = some (.modelled .header)
  header : file.startOf (.modelled .header) = 0 ∧ file.stopOf (.modelled .header) = headerSize
  filled : ∀ entry ∈ file.present, file.startOf entry < file.stopOf entry
  apart : file.present.Pairwise fun one other => file.stopOf one ≤ file.startOf other
  ascending : ∀ entry ∈ file.present,
    (file.runsAt entry).Pairwise fun one other => one.1.toNat + one.2.length ≤ other.1.toNat
  inside : ∀ entry ∈ file.present, ∀ run ∈ file.runsAt entry,
    file.startOf entry ≤ run.1.toNat ∧ run.1.toNat + run.2.length ≤ file.stopOf entry
  aligned : ∀ entry ∈ file.present, ∀ run ∈ file.runsAt entry,
    (file.kindOf entry).alignment ∣ run.1.toNat

/-- The map list names exactly the sections with items, each with its count and its start, and the
header agrees with it. -/
structure Listed (file : DexFile) : Prop where
  map : file.map.items.map (fun item => (item.kind, item.size.toNat, item.offset.toNat)) =
    file.present.map fun entry => (file.kindOf entry, file.unitsOf entry, file.startOf entry)
  sizes : ∀ kind, kind.isCounted →
    (file.header.areaOf kind).size.toNat = file.countOf (.modelled kind)
  offsets : ∀ kind, kind.isCounted → (file.header.areaOf kind).offset.toNat =
    if file.countOf (.modelled kind) = 0 then 0 else file.startOf (.modelled kind)
  mapOffset : file.header.mapOffset.toNat = file.startOf (.modelled .mapList)
  size : file.header.size.toNat = headerSize
  fileSize : file.present.getLast?.map file.stopOf = some file.header.fileSize.toNat
  dataOffset : file.header.data.offset.toNat =
    ((file.present.find? file.isData).map file.startOf).getD file.header.fileSize.toNat
  dataSize : file.header.data.offset.toNat + file.header.data.size.toNat =
    file.header.fileSize.toNat

/-- The slot of a section holds its block. -/
theorem block_of_pair {entry : LayoutEntry} {slot : Slot}
    (pair : (entry, slot) ∈ file.present.zip (file.slots options)) :
    slot.block = file.block file.present.length entry := by
  obtain ⟨index, found⟩ := List.getElem?_of_mem pair
  obtain ⟨here, there⟩ := List.getElem?_zip_eq_some.1 found
  obtain ⟨other, same, block, _⟩ := slot_of_present options here
  cases there.symm.trans same
  exact block

/-- Every slot is that of a section. -/
theorem exists_pair {slot : Slot} (inside : slot ∈ file.slots options) :
    ∃ entry, (entry, slot) ∈ file.present.zip (file.slots options) := by
  obtain ⟨index, found⟩ := List.getElem?_of_mem inside
  have length : (file.slots options).length = file.present.length := by
    rw [slots, length_plan, blocks, List.length_map]
  have bound : index < file.present.length := by
    rw [← length]
    exact (List.getElem?_eq_some_iff.1 found).1
  exact ⟨_, List.mem_of_getElem? (List.getElem?_zip_eq_some.2
    ⟨List.getElem?_eq_getElem bound, found⟩)⟩

/-- A section has one slot. -/
theorem eq_of_pairs (orderly : file.Orderly) {entry : LayoutEntry} {slot other : Slot}
    (pair : (entry, slot) ∈ file.present.zip (file.slots options))
    (twin : (entry, other) ∈ file.present.zip (file.slots options)) : slot = other := by
  obtain ⟨place, there⟩ := List.getElem?_of_mem pair
  obtain ⟨index, here⟩ := List.getElem?_of_mem twin
  obtain ⟨first, slotAt⟩ := List.getElem?_zip_eq_some.1 there
  obtain ⟨second, otherAt⟩ := List.getElem?_zip_eq_some.1 here
  have distinct : file.present.Nodup := orderly.distinct.sublist List.filter_sublist
  have equal : place = index :=
    (List.getElem?_inj (List.getElem?_eq_some_iff.1 first).1 distinct).1 (first.trans second.symm)
  rw [equal] at slotAt
  exact Option.some.inj (slotAt.symm.trans otherAt)

/-- A section that is modelled is found in the plan by its kind. -/
theorem Orderly.find?_slots (orderly : file.Orderly) {kind : SectionKind} {slot : Slot}
    (modelled : kind.isModelled = true)
    (pair : (.modelled kind, slot) ∈ file.present.zip (file.slots options)) :
    (file.slots options).find? (fun slot => slot.block.kind == kind) = some slot := by
  have same : slot.block.kind = kind := by
    rw [block_of_pair pair, kind_block]
    rfl
  cases found : (file.slots options).find? fun slot => slot.block.kind == kind with
  | none => exact absurd same (by simpa using List.find?_eq_none.1 found slot (List.of_mem_zip pair).2)
  | some other =>
      have named : other.block.kind = kind := by simpa using List.find?_some found
      obtain ⟨entry, twin⟩ := exists_pair (List.mem_of_find?_eq_some found)
      rw [block_of_pair twin, kind_block] at named
      rw [orderly.eq_modelled modelled named] at twin
      rw [eq_of_pairs orderly pair twin]

/-- A slot ends within the range of offsets. -/
theorem Current.stop_lt (current : Current options file) {slot : Slot}
    (inside : slot ∈ file.slots options) : slot.stop < UInt32.size :=
  Nat.lt_of_le_of_lt ((plan_apart options 0 file.blocks).2 slot inside).2
    current.laidOut.planned.fits

/-- The map list of a file that is up to date stands where its slot is. -/
theorem Current.mapOffset_eq (current : Current options file) {slot : Slot}
    (pair : (.modelled .mapList, slot) ∈ file.present.zip (file.slots options)) :
    file.header.mapOffset = UInt32.ofNat slot.start := by
  have found := current.ready.orderly.find?_slots rfl pair
  have header := congrArg Header.mapOffset current.laidOut.planned.header
  change file.header.mapOffset =
    (((planMap (file.slots options)).find? .mapList).map MapItem.offset).getD 0 at header
  rw [header]
  unfold MapList.find? planMap
  rw [List.find?_map]
  change ((((file.slots options).find? fun slot => slot.block.kind == .mapList).map
    Slot.mapItem).map MapItem.offset).getD 0 = _
  rw [found]
  rfl

/-- Runs at the offsets of a section, as long as its items, have the spans of a slot without a tail. -/
theorem Current.map_runs (current : Current options file) {entry : LayoutEntry} {slot : Slot}
    (pair : (entry, slot) ∈ file.present.zip (file.slots options)) {runs : List (UInt32 × List UInt8)}
    (tail : slot.block.tail = 0) (starts : runs.map Prod.fst = file.offsetsAt entry)
    (lengths : runs.map (fun run => run.2.length) = slot.block.sizes) :
    runs.map (fun run => (run.1.toNat, run.2.length)) = slot.spans := by
  have stop := current.stop_lt (List.of_mem_zip pair).2
  have fits : ∀ place ∈ slot.places, place < UInt32.size := fun place inside => by
    have bound := (mem_places_le inside).2
    unfold Slot.stop at stop
    omega
  unfold Slot.spans
  rw [if_pos tail, List.append_nil]
  exact map_span_eq_zip (starts.trans (current.laidOut.planned.placed _ pair)) lengths fits

theorem Current.map_runs_raw (current : Current options file) {index : Nat} {slot : Slot}
    (pair : (LayoutEntry.raw index, slot) ∈ file.present.zip (file.slots options)) :
    (file.piecesAt (.raw index)).map (fun run => (run.1.toNat, run.2.length)) = slot.spans := by
  have block := block_of_pair pair
  refine current.map_runs pair (by rw [block]; rfl) ?_ ?_
  · simp only [piecesAt, DexFile.offsetsAt]
    cases file.raws[index]? <;> rfl
  · rw [block]
    simp only [piecesAt, DexFile.block]
    cases file.raws[index]? <;> rfl

theorem Current.map_runs_header (current : Current options file) {slot : Slot}
    (pair : (LayoutEntry.modelled .header, slot) ∈ file.present.zip (file.slots options)) (start : slot.start = 0) :
    [((0 : UInt32).toNat, (encode file.header).length)] = slot.spans := by
  have block := block_of_pair pair
  have tail : slot.block.tail = headerSize := by rw [block]; rfl
  rw [Slot.spans_of_run (by rw [block]; rfl) (by rw [tail]; decide), start, tail, Header.length_encode current.header]
  rfl

theorem Current.map_runs_mapList (current : Current options file) {slot : Slot}
    (pair : (LayoutEntry.modelled .mapList, slot) ∈ file.present.zip (file.slots options)) :
    [(file.header.mapOffset.toNat, (encode file.map).length)] = slot.spans := by
  have block := block_of_pair pair
  have stop := current.stop_lt (List.of_mem_zip pair).2
  have behind := slot.start_le_stop
  have entries : file.map.items.length = file.present.length := by
    rw [current.laidOut.planned.map]
    change ((file.slots options).map Slot.mapItem).length = _
    rw [List.length_map, slots, length_plan, blocks, List.length_map]
  have tail : slot.block.tail = MapList.sizeOf file.present.length := by rw [block]; rfl
  rw [Slot.spans_of_run (by rw [block]; rfl) (by rw [tail]; unfold MapList.sizeOf; omega), tail,
    MapList.length_encode, entries, current.mapOffset_eq pair, toNat_ofNat_of_lt (by omega)]

theorem Current.map_runs_stringId (current : Current options file) {slot : Slot}
    (pair : (LayoutEntry.modelled .stringId, slot) ∈ file.present.zip (file.slots options)) :
    (file.piecesAt (.modelled .stringId)).map (fun run => (run.1.toNat, run.2.length)) = slot.spans := by
  have orderly := current.ready.orderly
  have block := block_of_pair pair
  have length : file.strings.items.rows.length = file.strings.size := orderly.strings.length_rows
  refine current.map_runs pair (by rw [block]; rfl) ?_ ?_
  · exact (List.map_map ..).trans orderly.strings.map_fst_rows
  · rw [block]
    change (file.strings.items.rows.map _).map _ = List.replicate file.strings.size 4
    rw [List.map_map, ← length, ← List.map_const']
    rfl

theorem Current.map_runs_stringData (current : Current options file) {slot : Slot}
    (pair : (LayoutEntry.modelled .stringData, slot) ∈ file.present.zip (file.slots options)) :
    (file.piecesAt (.modelled .stringData)).map (fun run => (run.1.toNat, run.2.length)) = slot.spans := by
  have strings := current.ready.orderly.strings
  have block := block_of_pair pair
  refine current.map_runs pair (by rw [block]; rfl) ?_ ?_
  · exact (List.map_map ..).trans (strings.map_snd_rows StringItem.dataOffset 0)
  · rw [block]
    refine (List.map_map ..).trans (Eq.trans (List.map_congr_left fun row _ => ?_)
      (strings.map_size_rows fun item => byteSize item.value))
    exact LawfulCodec.length_encode row.2.value

theorem Current.map_runs_part (current : Current options file) {part : Part} {slot : Slot}
    (pair : (LayoutEntry.modelled part.kind, slot) ∈ file.present.zip (file.slots options)) :
    (file.piecesAt (.modelled part.kind)).map (fun run => (run.1.toNat, run.2.length)) = slot.spans := by
  have valid := current.ready.orderly.valid part
  have block := block_of_pair pair
  rw [block_kind] at block
  rw [piecesAt_kind]
  refine current.map_runs pair (by rw [block]) ?_ ?_
  · rw [offsetsAt_kind, List.map_map]
    exact valid.map_fst_rows
  · rw [block, List.map_map]
    refine Eq.trans (List.map_congr_left fun row _ => ?_) (valid.map_size_rows byteSize)
    exact LawfulCodec.length_encode row.2

/-- What stands in a section has the spans of its slot. -/
theorem Current.map_runsAt (current : Current options file) {entry : LayoutEntry} {slot : Slot}
    (pair : (entry, slot) ∈ file.present.zip (file.slots options))
    (start : entry = .modelled .header → slot.start = 0) :
    (file.runsAt entry).map (fun run => (run.1.toNat, run.2.length)) = slot.spans := by
  have some := (mem_present.1 (List.of_mem_zip pair).1).2
  unfold runsAt
  cases entry with
  | raw index =>
      rw [if_neg (by simp)]
      exact current.map_runs_raw pair
  | modelled kind =>
      rcases modelled_of_countOf some with rfl | rfl | rfl | rfl | ⟨part, rfl⟩
      · rw [if_pos rfl]
        exact current.map_runs_header pair (start rfl)
      · rw [if_neg (by simp)]
        exact current.map_runs_mapList pair
      · rw [if_neg (by simp)]
        exact current.map_runs_stringId pair
      · rw [if_neg (by simp)]
        exact current.map_runs_stringData pair
      · rw [if_neg (by cases part <;> simp [Part.kind])]
        exact current.map_runs_part pair

theorem alignment_block (file : DexFile) (entries : Nat) (entry : LayoutEntry) :
    (file.block entries entry).alignment = 1 ∨
      (file.block entries entry).alignment = (file.kindOf entry).alignment := by
  cases entry with
  | raw index => exact .inl rfl
  | modelled kind => cases kind <;> first | exact .inl rfl | exact .inr rfl

/-- The number of items of a section is that of its slot. -/
theorem Current.toNat_units (current : Current options file) {entry : LayoutEntry} {slot : Slot}
    (pair : (entry, slot) ∈ file.present.zip (file.slots options)) :
    slot.block.units.toNat = file.unitsOf entry := by
  have some := (mem_present.1 (List.of_mem_zip pair).1).2
  rw [block_of_pair pair]
  cases entry with
  | raw index => rfl
  | modelled kind =>
      rcases modelled_of_countOf some with rfl | rfl | rfl | rfl | ⟨part, rfl⟩
      · rfl
      · rfl
      · exact toNat_ofNat_of_lt current.few_strings
      · exact toNat_ofNat_of_lt current.few_strings
      · rw [block_kind, unitsOf, Part.countOf_kind]
        exact toNat_ofNat_of_lt (current.few part)

/-- The areas that the header names are those of the plan. -/
theorem Current.areaOf_eq_areaIn (current : Current options file) {kind : SectionKind}
    (counted : kind.isCounted = true) : file.header.areaOf kind = areaIn (file.slots options) kind := by
  rw [current.laidOut.planned.header]
  cases kind <;> first | rfl | cases counted

/-- The area that the header names for a kind is that of its slot. -/
theorem Current.areaOf_of_pair (current : Current options file) {kind : SectionKind}
    (counted : kind.isCounted = true) {slot : Slot}
    (pair : (.modelled kind, slot) ∈ file.present.zip (file.slots options)) :
    file.header.areaOf kind = { size := slot.block.units, offset := UInt32.ofNat slot.start } := by
  have some := (mem_present.1 (List.of_mem_zip pair).1).2
  have units := current.toNat_units pair
  change slot.block.units.toNat = file.countOf (.modelled kind) at units
  have counts : slot.block.units ≠ 0 := by
    intro zero
    rw [zero] at units
    exact Nat.ne_of_gt some units.symm
  rw [current.areaOf_eq_areaIn counted, areaIn,
    current.ready.orderly.find?_slots (isModelled_of_isCounted counted) pair]
  change Area.of slot.block.units (UInt32.ofNat slot.start) = _
  rw [Area.of, if_neg counts]

theorem present_of_first (first : file.layout.head? = some (.modelled .header)) :
    ∃ rest, file.present = .modelled .header :: rest := by
  unfold DexFile.present
  cases layout : file.layout with
  | nil => simp [layout] at first
  | cons entry rest =>
      rw [layout, List.head?_cons, Option.some.injEq] at first
      subst first
      exact ⟨_, List.filter_cons_of_pos (decide_eq_true Nat.one_pos)⟩

section First

variable (current : Current options file) (first : file.layout.head? = some (.modelled .header))

include current first

/-- The header has the first slot. -/
theorem Current.start_header {slot : Slot}
    (pair : (.modelled .header, slot) ∈ file.present.zip (file.slots options)) : slot.start = 0 := by
  obtain ⟨rest, present⟩ := present_of_first first
  have head : ∃ slots, file.slots options =
      { block := file.block file.present.length (.modelled .header), start := 0 } :: slots := by
    rw [slots, blocks, present]
    exact ⟨_, rfl⟩
  obtain ⟨slots, here⟩ := head
  have twin : (.modelled .header, { block := file.block file.present.length (.modelled .header), start := 0 }) ∈
      file.present.zip (file.slots options) := by
    rw [here, present, List.zip_cons_cons]
    exact List.mem_cons_self
  rw [eq_of_pairs current.ready.orderly pair twin]

variable (aligned : options.Aligned)

include aligned

/-- A slot starts at a multiple of the alignment of its section. -/
theorem Current.dvd_start {entry : LayoutEntry} {slot : Slot}
    (pair : (entry, slot) ∈ file.present.zip (file.slots options)) :
    (file.kindOf entry).alignment ∣ slot.start := by
  by_cases header : file.kindOf entry = .header
  · have here := current.ready.orderly.eq_modelled rfl header
    rw [here] at pair
    rw [current.start_header first pair]
    exact Nat.dvd_zero _
  · obtain ⟨before, start⟩ := exists_sectionStart (List.of_mem_zip pair).2
    rw [start, block_of_pair pair, kind_block]
    exact dvd_sectionStart aligned header before

/-- A section starts and stops where its slot does. -/
theorem Current.span_of_pair {entry : LayoutEntry} {slot : Slot}
    (pair : (entry, slot) ∈ file.present.zip (file.slots options)) :
    file.startOf entry = slot.start ∧ file.stopOf entry = slot.stop := by
  have some := (mem_present.1 (List.of_mem_zip pair).1).2
  have block := block_of_pair pair
  have filled : slot.block.Filled := by
    rw [block]
    exact current.ready.orderly.filled entry some _
  have spans := current.map_runsAt pair fun header => current.start_header first (header ▸ pair)
  have divides : slot.block.alignment ∣ slot.start := by
    have whole := current.dvd_start first aligned pair
    rcases alignment_block file file.present.length entry with one | same
    · rw [block, one]
      exact Nat.one_dvd _
    · rw [block, same]
      exact whole
  have head := slot.head?_spans filled divides
  have last := slot.getLast?_spans filled
  rw [← spans, List.head?_map, Option.map_map] at head
  rw [← spans, List.getLast?_map, Option.map_map] at last
  exact ⟨by unfold startOf; exact congrArg (Option.getD · 0) head,
    by unfold stopOf; exact congrArg (Option.getD · 0) last⟩

/-- What the plan tells of the sections: kinds, counts, starts and stops. -/
theorem Current.map_present : file.present.map (fun entry =>
      (file.kindOf entry, file.unitsOf entry, file.startOf entry, file.stopOf entry)) =
    (file.slots options).map fun slot =>
      (slot.block.kind, slot.block.units.toNat, slot.start, slot.stop) := by
  apply List.ext_getElem?
  intro index
  rw [List.getElem?_map, List.getElem?_map]
  cases found : file.present[index]? with
  | none =>
      have length : (file.slots options).length = file.present.length := by
        rw [slots, length_plan, blocks, List.length_map]
      rw [List.getElem?_eq_none_iff, ← length, ← List.getElem?_eq_none_iff] at found
      rw [found]
      rfl
  | some entry =>
      obtain ⟨slot, here, block, pair⟩ := slot_of_present options found
      obtain ⟨start, stop⟩ := current.span_of_pair first aligned pair
      rw [here, Option.map_some, Option.map_some, start, stop, current.toNat_units pair, block, kind_block]

/-- Items stand at multiples of the alignment of their section. -/
theorem Current.dvd_run {entry : LayoutEntry} {slot : Slot}
    (pair : (entry, slot) ∈ file.present.zip (file.slots options)) :
    ∀ span ∈ slot.spans, (file.kindOf entry).alignment ∣ span.1 := by
  have some := (mem_present.1 (List.of_mem_zip pair).1).2
  have block := block_of_pair pair
  have whole := current.dvd_start first aligned pair
  have start (alone : ∀ span ∈ slot.spans, span.1 = slot.start) :
      ∀ span ∈ slot.spans, (file.kindOf entry).alignment ∣ span.1 := fun span inside => by
    rw [alone span inside]
    exact whole
  have items (tail : slot.block.tail = 0)
      (each : ∀ place ∈ slot.places, (file.kindOf entry).alignment ∣ place) :
      ∀ span ∈ slot.spans, (file.kindOf entry).alignment ∣ span.1 := fun span inside => by
    unfold Slot.spans at inside
    rw [if_pos tail, List.append_nil] at inside
    exact each span.1 (List.of_mem_zip inside).1
  cases entry with
  | raw index =>
      refine items (by rw [block]; rfl) fun place inside => ?_
      unfold Slot.places at inside
      rw [block] at inside
      change place ∈ places 1 slot.start (file.raws[index]?.map fun raw => raw.bytes.size).toList at inside
      cases found : file.raws[index]? with
      | none =>
          rw [found] at inside
          cases inside
      | some raw =>
          rw [found] at inside
          rw [List.mem_singleton.1 inside]
          exact whole
  | modelled kind =>
      rcases modelled_of_countOf some with rfl | rfl | rfl | rfl | ⟨part, rfl⟩
      · refine start fun span inside => ?_
        have tail : slot.block.tail = headerSize := by rw [block]; rfl
        rw [Slot.spans_of_run (by rw [block]; rfl) (by rw [tail]; decide)] at inside
        rw [List.mem_singleton.1 inside]
      · refine start fun span inside => ?_
        have tail : slot.block.tail = MapList.sizeOf file.present.length := by rw [block]; rfl
        rw [Slot.spans_of_run (by rw [block]; rfl) (by rw [tail]; unfold MapList.sizeOf; omega)] at inside
        rw [List.mem_singleton.1 inside]
      · refine items (by rw [block]; rfl) fun place inside => ?_
        unfold Slot.places at inside
        rw [block] at inside
        refine dvd_of_mem_places_of_dvd whole (fun size listed => ?_) inside
        rw [(List.mem_replicate.1 listed).2]
        exact Nat.dvd_refl 4
      · exact items (by rw [block]; rfl) fun place _ => Nat.one_dvd place
      · rw [block_kind] at block
        refine items (by rw [block]) fun place inside => ?_
        unfold Slot.places at inside
        rw [block] at inside
        exact dvd_of_mem_places part.kind.alignment_pos inside

/-- The area that the header names for a kind is that of its section. -/
theorem Current.areaOf_eq {kind : SectionKind} (counted : kind.isCounted = true) :
    (file.header.areaOf kind).size.toNat = file.countOf (.modelled kind) ∧
      (file.header.areaOf kind).offset.toNat =
        if file.countOf (.modelled kind) = 0 then 0 else file.startOf (.modelled kind) := by
  have modelled := isModelled_of_isCounted counted
  by_cases none : file.countOf (.modelled kind) = 0
  · have missing : (file.slots options).find? (fun slot => slot.block.kind == kind) = .none := by
      refine List.find?_eq_none.2 fun slot inside same => ?_
      obtain ⟨entry, pair⟩ := exists_pair inside
      have named : slot.block.kind = kind := by simpa using same
      rw [block_of_pair pair, kind_block] at named
      have some := (mem_present.1 (List.of_mem_zip pair).1).2
      rw [current.ready.orderly.eq_modelled modelled named, none] at some
      exact Nat.lt_irrefl 0 some
    rw [current.areaOf_eq_areaIn counted, areaIn, missing, if_pos none, none]
    exact ⟨rfl, rfl⟩
  · obtain ⟨index, found⟩ := List.getElem?_of_mem (mem_present.2
      ⟨current.ready.complete kind modelled, Nat.pos_of_ne_zero none⟩)
    obtain ⟨slot, here, _, pair⟩ := slot_of_present options found
    have start := Nat.lt_of_le_of_lt slot.start_le_stop (current.stop_lt (List.mem_of_getElem? here))
    rw [current.areaOf_of_pair counted pair, if_neg none, (current.span_of_pair first aligned pair).1]
    exact ⟨current.toNat_units pair, toNat_ofNat_of_lt start⟩

/-- The map list and the header of a file that is up to date tell where its sections are. -/
theorem Current.listed : file.Listed := by
  have whole := current.map_present first aligned
  have fits := current.laidOut.planned.fits
  have start_lt {slot : Slot} (inside : slot ∈ file.slots options) : slot.start < UInt32.size :=
    Nat.lt_of_le_of_lt slot.start_le_stop (current.stop_lt inside)
  obtain ⟨rest, present⟩ := present_of_first first
  have some : file.blocks ≠ [] := by
    rw [blocks, present]
    exact List.cons_ne_nil _ _
  have fileSize : file.header.fileSize.toNat = file.stop options := by
    rw [current.laidOut.planned.header]
    exact toNat_ofNat_of_lt fits
  have dataStart : ((file.present.find? file.isData).map file.startOf) =
      dataStart? (file.slots options) := by
    have found := congrArg (fun rows => (rows.find? fun row : SectionKind × Nat × Nat × Nat =>
      row.1 != .header && !row.1.isIdSection).map fun row => row.2.2.1) whole
    simp only [List.find?_map, Option.map_map] at found
    exact found
  have data : (dataStart? (file.slots options)).getD (file.stop options) ≤ file.stop options := by
    unfold dataStart?
    cases found : (file.slots options).find? Slot.isData with
    | none => exact Nat.le_refl _
    | some slot =>
        have bound := ((plan_apart options 0 file.blocks).2 slot (List.mem_of_find?_eq_some found)).2
        exact Nat.le_trans slot.start_le_stop bound
  have area : file.header.data = {
      size := UInt32.ofNat (file.stop options) -
        UInt32.ofNat ((dataStart? (file.slots options)).getD (file.stop options)),
      offset := UInt32.ofNat ((dataStart? (file.slots options)).getD (file.stop options)) } := by
    conv => lhs; rw [current.laidOut.planned.header]
    rfl
  refine ⟨?_, fun kind counted => (current.areaOf_eq first aligned counted).1,
    fun kind counted => (current.areaOf_eq first aligned counted).2, rfl, ?_, ?_, ?_, ?_⟩
  · have rows := congrArg (List.map fun row : SectionKind × Nat × Nat × Nat =>
      (row.1, row.2.1, row.2.2.1)) whole
    rw [List.map_map, List.map_map] at rows
    rw [current.laidOut.planned.map]
    refine Eq.trans ?_ rows.symm
    change ((file.slots options).map Slot.mapItem).map _ = _
    rw [List.map_map]
    refine List.map_congr_left fun slot inside => ?_
    change (slot.block.kind, slot.block.units.toNat, (UInt32.ofNat slot.start).toNat) =
      (slot.block.kind, slot.block.units.toNat, slot.start)
    rw [toNat_ofNat_of_lt (start_lt inside)]
  · rw [current.laidOut.planned.header]
    rfl
  · have last := congrArg (List.getLast? ∘ List.map fun row : SectionKind × Nat × Nat × Nat =>
      row.2.2.2) whole
    simp only [Function.comp_apply, List.map_map, List.getLast?_map] at last
    rw [fileSize]
    exact last.trans (getLast?_plan options 0 some)
  · rw [dataStart, fileSize, area]
    exact toNat_ofNat_of_lt (Nat.lt_of_le_of_lt data fits)
  · rw [fileSize, area, UInt32.toNat_sub_of_le, toNat_ofNat_of_lt fits,
      toNat_ofNat_of_lt (Nat.lt_of_le_of_lt data fits)]
    · omega
    · rw [UInt32.le_iff_toNat_le, toNat_ofNat_of_lt fits,
        toNat_ofNat_of_lt (Nat.lt_of_le_of_lt data fits)]
      exact data

/-- The sections of a file that is up to date are arranged. -/
theorem Current.arranged : file.Arranged := by
  have whole := current.map_present first aligned
  have pairs {entry : LayoutEntry} (inside : entry ∈ file.present) :
      ∃ slot, (entry, slot) ∈ file.present.zip (file.slots options) := by
    obtain ⟨index, found⟩ := List.getElem?_of_mem inside
    obtain ⟨slot, _, _, pair⟩ := slot_of_present options found
    exact ⟨slot, pair⟩
  have spans {entry : LayoutEntry} {slot : Slot}
      (pair : (entry, slot) ∈ file.present.zip (file.slots options)) :=
    current.map_runsAt pair fun header => current.start_header first (header ▸ pair)
  refine ⟨first, ?_, ?_, ?_, ?_, ?_, ?_⟩
  · refine ⟨rfl, ?_⟩
    change (0 : UInt32).toNat + (encode file.header).length = headerSize
    rw [Header.length_encode current.header]
    rfl
  · intro entry inside
    obtain ⟨slot, pair⟩ := pairs inside
    obtain ⟨start, stop⟩ := current.span_of_pair first aligned pair
    rw [start, stop]
    apply Slot.start_lt_stop
    rw [block_of_pair pair]
    exact current.ready.orderly.filled entry (mem_present.1 inside).2 _
  · have apart := (plan_apart options 0 file.blocks).1
    have shifted : (file.present.map fun entry => (file.startOf entry, file.stopOf entry)) =
        (file.slots options).map fun slot => (slot.start, slot.stop) := by
      have last := congrArg (List.map fun row : SectionKind × Nat × Nat × Nat => row.2.2) whole
      rwa [List.map_map, List.map_map] at last
    have along : (file.present.map fun entry => (file.startOf entry, file.stopOf entry)).Pairwise
        fun one other => one.2 ≤ other.1 := by
      rw [shifted, List.pairwise_map]
      exact apart
    exact List.pairwise_map.1 along
  · intro entry inside
    obtain ⟨slot, pair⟩ := pairs inside
    have ascending := slot.spans_ascending
    rw [← spans pair, List.pairwise_map] at ascending
    exact ascending
  · intro entry inside run listed
    obtain ⟨slot, pair⟩ := pairs inside
    obtain ⟨start, stop⟩ := current.span_of_pair first aligned pair
    rw [start, stop]
    exact slot.spans_within _ (by
      rw [← spans pair]
      exact List.mem_map_of_mem listed)
  · intro entry inside run listed
    obtain ⟨slot, pair⟩ := pairs inside
    exact current.dvd_run first aligned pair _ (by
      rw [← spans pair]
      exact List.mem_map_of_mem listed)

end First

end DexFile
end DexArsc.Dex
