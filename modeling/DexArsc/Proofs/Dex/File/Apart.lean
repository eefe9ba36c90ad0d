/-
The places in a written file: sections and items ascend, and all stand behind the header.
-/

import DexArsc.Proofs.Dex.File.Items

namespace DexArsc.Dex

/-- Items that all take bytes are at ascending places. -/
theorem places_ascending (alignment position : Nat) {sizes : List Nat}
    (positive : ∀ size ∈ sizes, 0 < size) : (places alignment position sizes).Pairwise (· < ·) := by
  induction sizes generalizing position with
  | nil => exact List.Pairwise.nil
  | cons size rest ih =>
      have first := positive size List.mem_cons_self
      refine List.Pairwise.cons (fun place inside => ?_)
        (ih _ fun other inside => positive other (List.mem_cons_of_mem _ inside))
      have bound := (mem_places_le inside).1
      omega

theorem length_le_placesEnd (alignment position : Nat) {sizes : List Nat}
    (positive : ∀ size ∈ sizes, 0 < size) :
    position + sizes.length ≤ placesEnd alignment position sizes := by
  induction sizes generalizing position with
  | nil => exact Nat.le_refl _
  | cons size rest ih =>
      have first := positive size List.mem_cons_self
      have later := ih (position + padding alignment position + size)
        fun other inside => positive other (List.mem_cons_of_mem _ inside)
      rw [List.length_cons, placesEnd]
      omega

/-- A block takes bytes, and so does each of its items. -/
structure Block.Filled (block : Block) : Prop where
  sizes : ∀ size ∈ block.sizes, 0 < size
  some : block.sizes ≠ [] ∨ 0 < block.tail

theorem Slot.start_lt_stop (slot : Slot) (filled : slot.block.Filled) : slot.start < slot.stop := by
  have bound := length_le_placesEnd slot.block.alignment slot.start filled.sizes
  unfold stop
  rcases filled.some with content | tail
  · have length := List.length_pos_iff.2 content
    omega
  · omega

/-- Blocks that take bytes stand one behind the other. -/
theorem plan_ascending (options : WriteOptions) (position : Nat) {blocks : List Block}
    (filled : ∀ block ∈ blocks, block.Filled) :
    (∀ slot ∈ plan options position blocks,
      position ≤ slot.start ∧ slot.stop ≤ planEnd options position blocks) ∧
    (plan options position blocks).Pairwise fun a b => a.start < b.start := by
  induction blocks generalizing position with
  | nil => exact ⟨fun _ inside => (by cases inside), List.Pairwise.nil⟩
  | cons block rest ih =>
      have start := le_sectionStart options block.kind position
      have content := Slot.start_lt_stop
        { block, start := DexFile.sectionStart options block.kind position }
        (filled block List.mem_cons_self)
      obtain ⟨later, ascending⟩ := ih
        (Slot.stop { block, start := DexFile.sectionStart options block.kind position })
        fun other inside => filled other (List.mem_cons_of_mem _ inside)
      have behind := le_planEnd options
        (Slot.stop { block, start := DexFile.sectionStart options block.kind position }) rest
      constructor
      · intro slot inside
        rcases List.mem_cons.1 inside with rfl | inside
        · exact ⟨start, behind⟩
        · have bounds := later slot inside
          simp only at content
          exact ⟨by omega, bounds.2⟩
      · refine List.Pairwise.cons (fun slot inside => ?_) ascending
        have bounds := later slot inside
        simp only at content ⊢
        omega

namespace DexFile

/-- The offsets in a file tell its items apart, and no item is at offset zero. -/
structure Apart (file : DexFile) : Prop where
  strings : file.strings.size < UInt32.size
  few : ∀ part : Part, (part.items file).size < UInt32.size
  distinct : ∀ part : Part, ((part.items file).rows.map Prod.fst).Nodup
  positive : ∀ part : Part, 0 ∉ (part.items file).rows.map Prod.fst

variable {options : WriteOptions} {file : DexFile} {bytes : Bytes}

/-- A section with items takes bytes. -/
theorem Orderly.filled (orderly : file.Orderly) (entry : LayoutEntry) (some : 0 < file.countOf entry)
    (entries : Nat) : (file.block entries entry).Filled := by
  cases entry with
  | raw index =>
      obtain ⟨raw, found, content⟩ : ∃ raw, file.raws[index]? = .some raw ∧ 0 < raw.bytes.size := by
        cases found : file.raws[index]? with
        | none => simp [countOf, found] at some
        | some raw =>
            refine ⟨raw, rfl, ?_⟩
            simp only [countOf, found, Option.any_some] at some
            by_cases empty : raw.bytes.isEmpty = true
            · simp [empty] at some
            · exact Array.size_pos_iff.2 fun none => empty (by simp [none])
      constructor
      · simp [block, found, content]
      · simp [block, found]
  | modelled kind =>
      rcases modelled_of_countOf some with rfl | rfl | rfl | rfl | ⟨part, rfl⟩
      · exact ⟨fun size inside => (by cases inside), .inr (by change 0 < headerSize; decide)⟩
      · refine ⟨fun size inside => (by cases inside), .inr ?_⟩
        change 0 < 4 + _
        omega
      · change 0 < file.strings.size at some
        constructor
        · intro size inside
          rw [(List.mem_replicate.1 inside).2]
          decide
        · refine .inl fun none => ?_
          have length := congrArg List.length none
          rw [show (file.block entries (.modelled .stringId)).sizes =
            List.replicate file.strings.size 4 from rfl, List.length_replicate] at length
          change file.strings.size = 0 at length
          omega
      · change 0 < file.strings.size at some
        constructor
        · intro size inside
          obtain ⟨id, listed, rfl⟩ := List.mem_map.1 inside
          obtain ⟨item, found⟩ := Option.isSome_iff_exists.1
            (orderly.strings.mem_order_iff.1 (Array.mem_toList_iff.1 listed))
          simp only [found, Option.map_some, Option.getD_some]
          exact Nat.succ_pos _
        · refine .inl fun none => ?_
          have length := congrArg List.length none
          rw [show (file.block entries (.modelled .stringData)).sizes =
            file.strings.items.sizes fun item => byteSize item.value from rfl,
            Section.length_sizes] at length
          change file.strings.size = 0 at length
          omega
      · rw [Part.countOf_kind] at some
        rw [block_kind]
        constructor
        · intro size inside
          obtain ⟨id, listed, rfl⟩ := List.mem_map.1 inside
          obtain ⟨item, found⟩ := Option.isSome_iff_exists.1
            ((orderly.valid part).mem_order_iff.1 (Array.mem_toList_iff.1 listed))
          simp only [found, Option.map_some, Option.getD_some]
          exact LawfulCodec.length_encode item ▸ List.length_pos_iff.2 (part.encode_ne_nil item)
        · refine .inl fun none => ?_
          have length := congrArg List.length none
          simp only [Section.length_sizes, List.length_nil] at length
          omega

theorem Orderly.filled_blocks (orderly : file.Orderly) : ∀ block ∈ file.blocks, block.Filled := by
  intro block inside
  obtain ⟨entry, listed, rfl⟩ := List.mem_map.1 inside
  exact orderly.filled entry (by simpa using (List.mem_filter.1 listed).2) _

theorem mem_present {entry : LayoutEntry} :
    entry ∈ file.present ↔ entry ∈ file.layout ∧ 0 < file.countOf entry := by
  rw [present, List.mem_filter, decide_eq_true_eq]

/-- A section with items has a slot in the plan. -/
theorem Current.slot (current : Current options file) (entry : LayoutEntry)
    (inside : entry ∈ file.present) : ∃ slot ∈ file.slots options,
      slot.block = file.block file.present.length entry ∧
      file.offsetsAt entry = slot.places.map UInt32.ofNat ∧ slot.start < slot.stop ∧
      slot.stop < UInt32.size := by
  obtain ⟨index, found⟩ := List.getElem?_of_mem inside
  obtain ⟨slot, here, block, pair⟩ := slot_of_present options found
  have member := List.mem_of_getElem? here
  have bounds := (plan_ascending options 0 current.ready.orderly.filled_blocks).1 slot member
  have fits := current.laidOut.planned.fits
  unfold DexFile.stop at fits
  refine ⟨slot, member, block, current.laidOut.planned.placed _ pair, ?_, by omega⟩
  apply Slot.start_lt_stop
  rw [block]
  exact current.ready.orderly.filled entry (mem_present.1 inside).2 _

theorem Current.slot_kind (current : Current options file) {part : Part}
    (some : 0 < (part.items file).size) : ∃ slot ∈ file.slots options,
      slot.block = file.block file.present.length (.modelled part.kind) ∧
      (part.items file).offsets = slot.places.map UInt32.ofNat ∧ slot.start < slot.stop ∧
      slot.stop < UInt32.size := by
  have found := current.slot (.modelled part.kind) (mem_present.2
    ⟨current.ready.complete _ part.isModelled_kind, by rwa [Part.countOf_kind]⟩)
  rwa [offsetsAt_kind] at found

/-- The items of each section are few, as each takes a byte of the file. -/
theorem Current.few (current : Current options file) (part : Part) :
    (part.items file).size < UInt32.size := by
  rcases Nat.eq_zero_or_pos (part.items file).size with none | some
  · rw [none]
    decide
  · obtain ⟨slot, _, block, _, _, stop⟩ := current.slot_kind some
    have filled := current.ready.orderly.filled (.modelled part.kind)
      (by rwa [Part.countOf_kind]) file.present.length
    have count := length_le_placesEnd slot.block.alignment slot.start
      (block ▸ filled).sizes
    unfold Slot.stop at stop
    have length : slot.block.sizes.length = (part.items file).size := by
      rw [block, block_kind, Section.length_sizes]
    omega

theorem Current.few_strings (current : Current options file) : file.strings.size < UInt32.size := by
  rcases Nat.eq_zero_or_pos file.strings.size with none | some
  · rw [none]
    decide
  · obtain ⟨slot, _, block, _, _, stop⟩ := current.slot (.modelled .stringId)
      (mem_present.2 ⟨current.ready.complete _ rfl, some⟩)
    have filled := current.ready.orderly.filled (.modelled .stringId) some file.present.length
    have count := length_le_placesEnd slot.block.alignment slot.start
      (block ▸ filled).sizes
    unfold Slot.stop at stop
    have length : slot.block.sizes.length = file.strings.size := by
      rw [block]
      exact List.length_replicate
    omega

/-- In a written file the offsets tell the items apart. -/
theorem Written.apart (written : Written options file bytes) : file.Apart := by
  have orderly := written.current.ready.orderly
  refine ⟨written.current.few_strings, written.current.few, fun part => ?_, fun part => ?_⟩
  · rw [(orderly.valid part).map_fst_rows]
    rcases Nat.eq_zero_or_pos (part.items file).size with none | some
    · have empty : (part.items file).order = #[] := Array.size_eq_zero_iff.1 none
      simp [Section.offsets, empty]
    · obtain ⟨slot, _, block, offsets, _, stop⟩ := written.current.slot_kind some
      have filled := orderly.filled (.modelled part.kind)
        (by rwa [Part.countOf_kind]) file.present.length
      have ascending := places_ascending slot.block.alignment slot.start
        (block ▸ filled).sizes
      rw [offsets, List.Nodup, List.pairwise_map]
      refine (ascending.imp_of_mem fun {first second} inside there before same => ?_)
      have first_le := (mem_places_le inside).2
      have second_le := (mem_places_le there).2
      unfold Slot.stop at stop
      have equal := congrArg UInt32.toNat same
      rw [toNat_ofNat_of_lt (by omega), toNat_ofNat_of_lt (by omega)] at equal
      omega
  · intro zero
    obtain ⟨row, inside, start⟩ := List.mem_map.1 zero
    have some : 0 < (part.items file).size := by
      rw [← (orderly.valid part).length_rows]
      exact List.length_pos_of_mem inside
    have piece : (row.1, encode row.2) ∈ file.pieces := by
      refine List.mem_flatMap.2 ⟨.modelled part.kind, mem_present.2
        ⟨written.current.ready.complete _ part.isModelled_kind, by rwa [Part.countOf_kind]⟩, ?_⟩
      rw [piecesAt_kind]
      exact List.mem_map.2 ⟨row, inside, rfl⟩
    have behind := ((stands_of_write written.write).2.2 _ piece).1
    rw [Header.length_encode written.current.header, start] at behind
    exact absurd behind (by decide)

end DexFile
end DexArsc.Dex
