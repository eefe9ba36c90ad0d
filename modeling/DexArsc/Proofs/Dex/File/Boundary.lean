/-
The boundaries that write options ask for. A section of a word-aligned kind is named at a multiple of
the larger of four and the alignment asked for, while its items stand at multiples of four. Both
agree exactly where the place that is named is a multiple of four itself.
-/

import DexArsc.Proofs.Dex.File.Built

namespace DexArsc.Dex

/-- The first item stands at the next boundary of the items behind the start of the section. -/
theorem Slot.head?_spans_padded {slot : Slot} (filled : slot.block.Filled) :
    slot.spans.head?.map Prod.fst = some (slot.start +
      if slot.block.sizes = [] then 0 else padding slot.block.alignment slot.start) := by
  unfold spans places
  cases sizes : slot.block.sizes with
  | nil =>
      have tail := filled.some.resolve_left (fun content => content sizes)
      rw [if_neg (by omega)]
      rfl
  | cons size rest => rfl

/-- A section of a word-aligned kind starts at a multiple of the larger of four and the alignment
asked for. -/
theorem dvd_sectionStart_of_word {options : WriteOptions} {kind : SectionKind}
    (word : kind.alignment = 4) (other : kind ≠ .header) (position : Nat) :
    max 4 options.alignment ∣ DexFile.sectionStart options kind position := by
  unfold DexFile.sectionStart
  simp only [other, if_false]
  rw [word, if_pos (by decide)]
  exact dvd_add_padding (by omega) position

namespace DexFile

variable {options : WriteOptions} {file final : DexFile}

/-- What the map list and the header tell of a section of a word-aligned kind, and where the section
starts. -/
structure Named (options : WriteOptions) (file : DexFile) (entry : LayoutEntry) (item : MapItem) :
    Prop where
  kind : item.kind = file.kindOf entry
  units : item.size.toNat = file.unitsOf entry
  area : ∀ kind, entry = .modelled kind → kind.isCounted →
    (file.header.areaOf kind).offset = item.offset
  mapOffset : entry = .modelled .mapList → file.header.mapOffset = item.offset
  boundary : max 4 options.alignment ∣ item.offset.toNat
  /-- Items that are placed one by one stand at the next multiple of four. -/
  padded : ∀ part : Part, entry = .modelled part.kind →
    file.startOf entry = item.offset.toNat + padding 4 item.offset.toNat
  unpadded : (∀ part : Part, entry ≠ .modelled part.kind) → file.startOf entry = item.offset.toNat

/-- The place that is named is that of the first item, on a multiple of four, exactly when it is a
multiple of four. -/
theorem Named.dvd_iff {entry : LayoutEntry} {item : MapItem} (named : Named options file entry item) :
    4 ∣ item.offset.toNat ↔
      file.startOf entry = item.offset.toNat ∧ 4 ∣ file.startOf entry := by
  refine ⟨fun whole => ?_, fun ⟨same, whole⟩ => same ▸ whole⟩
  have start : file.startOf entry = item.offset.toNat := by
    by_cases part : ∃ part : Part, entry = .modelled part.kind
    · obtain ⟨part, here⟩ := part
      rw [named.padded part here, padding_of_dvd whole, Nat.add_zero]
    · exact named.unpadded fun other here => part ⟨other, here⟩
  exact ⟨start, start ▸ whole⟩

/-- A multiple of the alignment asked for is one of four when this alignment is at most four or a
multiple of it. -/
theorem Named.dvd_of_aligned {entry : LayoutEntry} {item : MapItem}
    (named : Named options file entry item) (aligned : options.Aligned) : 4 ∣ item.offset.toNat := by
  refine Nat.dvd_trans ?_ named.boundary
  rcases aligned with small | ⟨count, same⟩
  · exact ⟨1, by omega⟩
  · exact ⟨max 1 count, by omega⟩

/-- A section other than the header starts with its first item, at the next boundary of its items. -/
theorem Current.startOf_of_pair (current : Current options file) {entry : LayoutEntry} {slot : Slot}
    (pair : (entry, slot) ∈ file.present.zip (file.slots options))
    (other : entry ≠ .modelled .header) :
    file.startOf entry = slot.start +
      if slot.block.sizes = [] then 0 else padding slot.block.alignment slot.start := by
  have some := (mem_present.1 (List.of_mem_zip pair).1).2
  have filled : slot.block.Filled := by
    rw [block_of_pair pair]
    exact current.ready.orderly.filled entry some _
  have head := slot.head?_spans_padded filled
  rw [← current.map_runsAt pair fun header => absurd header other, List.head?_map,
    Option.map_map] at head
  unfold startOf
  exact congrArg (Option.getD · 0) head

/-- The map list has the sections with items in their order. -/
theorem Current.slot_of_mapItem (current : Current options file) {entry : LayoutEntry}
    {item : MapItem} (listed : (entry, item) ∈ file.present.zip file.map.items) :
    ∃ slot, (entry, slot) ∈ file.present.zip (file.slots options) ∧ item = slot.mapItem := by
  rw [current.laidOut.planned.map] at listed
  change (entry, item) ∈ file.present.zip ((file.slots options).map Slot.mapItem) at listed
  rw [List.zip_map_right, List.mem_map] at listed
  obtain ⟨⟨one, slot⟩, pair, same⟩ := listed
  cases same
  exact ⟨slot, pair, rfl⟩

/-- The sections of a file that is up to date are named by the map list and the header. -/
theorem Current.named (current : Current options file) {entry : LayoutEntry} {item : MapItem}
    (listed : (entry, item) ∈ file.present.zip file.map.items)
    (other : file.kindOf entry ≠ .header) (word : (file.kindOf entry).alignment = 4) :
    Named options file entry item := by
  obtain ⟨slot, pair, rfl⟩ := current.slot_of_mapItem listed
  have block := block_of_pair pair
  have offset : (UInt32.ofNat slot.start).toNat = slot.start :=
    toNat_ofNat_of_lt (Nat.lt_of_le_of_lt slot.start_le_stop
      (current.stop_lt (List.of_mem_zip pair).2))
  have start := current.startOf_of_pair pair fun header => other (by rw [header]; rfl)
  have kind : slot.block.kind = file.kindOf entry := by rw [block, kind_block]
  refine ⟨kind, current.toNat_units pair, fun kind here counted => ?_, fun here => ?_, ?_,
    fun part here => ?_, fun none => ?_⟩
  · subst here
    exact congrArg Area.offset (current.areaOf_of_pair counted pair)
  · subst here
    exact current.mapOffset_eq pair
  · obtain ⟨before, boundary⟩ := exists_sectionStart (List.of_mem_zip pair).2
    change _ ∣ (UInt32.ofNat slot.start).toNat
    rw [offset, boundary, kind]
    exact dvd_sectionStart_of_word word other before
  · subst here
    change _ = (UInt32.ofNat slot.start).toNat + padding 4 (UInt32.ofNat slot.start).toNat
    have alignment : part.kind.alignment = 4 := word
    have items := (current.ready.orderly.filled _
      (mem_present.1 (List.of_mem_zip pair).1).2 file.present.length).some
    rw [block_kind] at block items
    rw [offset, start, block, alignment, if_neg (items.resolve_right (Nat.lt_irrefl 0))]
  · change _ = (UInt32.ofNat slot.start).toNat
    have one : slot.block.alignment = 1 := by
      rw [block]
      cases entry with
      | raw index => rfl
      | modelled kind =>
          rcases modelled_of_countOf (mem_present.1 (List.of_mem_zip pair).1).2 with
            rfl | rfl | rfl | rfl | ⟨part, rfl⟩
          · rfl
          · rfl
          · rfl
          · rfl
          · exact absurd rfl (none part)
    rw [offset, start, one]
    change slot.start + (if slot.block.sizes = [] then 0 else 0) = slot.start
    rw [ite_self, Nat.add_zero]

/-- In a file that was written, whatever alignment is asked for, the map list has one entry for each
section with items. For a section of a word-aligned kind it names, with the header, a multiple of the
larger of four and the alignment. It is the place of the first item, on a multiple of four, exactly
when it is a multiple of four, as it is when the alignment is at most four or a multiple of four. -/
theorem named_of_built_written {bytes : Bytes} (built : file.Built)
    (run : toBytes options file = .ok bytes final) :
    final.map.items.length = final.present.length ∧
    ∀ entry item, (entry, item) ∈ final.present.zip final.map.items →
      final.kindOf entry ≠ .header → (final.kindOf entry).alignment = 4 →
        Named options final entry item ∧
        (4 ∣ item.offset.toNat ↔
          final.startOf entry = item.offset.toNat ∧ 4 ∣ final.startOf entry) ∧
        (options.Aligned → 4 ∣ item.offset.toNat) := by
  have current := (written_of_toBytes built.regular run).current
  refine ⟨?_, fun entry item listed other word => ?_⟩
  · rw [current.laidOut.planned.map]
    change ((final.slots options).map Slot.mapItem).length = _
    rw [List.length_map, slots, length_plan, blocks, List.length_map]
  · have named := current.named listed other word
    exact ⟨named, named.dvd_iff, named.dvd_of_aligned⟩

/-- Under an alignment of seven the map list names the place 133 for a section of type lists whose first
item stands at 136. -/
theorem named_of_built_written_seven :
    let file := Edit.run [.addCode { units := #[0x000e] }, .internTypeList []]
    let options : WriteOptions := { updateChecksum := false, alignment := 7 }
    ∃ bytes final item, toBytes options file = .ok bytes final ∧
      (.modelled .typeList, item) ∈ final.present.zip final.map.items ∧
      item.offset = 133 ∧ final.startOf (.modelled .typeList) = 136 := by
  intro file options
  have built : file.Built := .edit (.edit .new (.addCode { units := #[0x000e] })) (.internTypeList [])
  have runs : (match toBytes options file with
      | .ok _ final => (final.present.zip final.map.items).find? fun pair =>
          pair.1 == .modelled .typeList
      | .error _ _ => none) = some (.modelled .typeList, ⟨.typeList, 1, 133⟩) := by
    decide +kernel
  cases run : toBytes options file with
  | error fault stop =>
      rw [run] at runs
      cases runs
  | ok bytes final =>
      rw [run] at runs
      have listed := List.mem_of_find?_eq_some runs
      obtain ⟨named, _⟩ := (named_of_built_written built run).2 _ _ listed (by simp [kindOf]) rfl
      exact ⟨bytes, final, _, rfl, listed, rfl, named.padded .typeList rfl⟩

end DexFile
end DexArsc.Dex
