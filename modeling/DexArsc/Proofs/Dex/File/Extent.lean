/-
The extents that a plan gives to the items of each section: they ascend, none overlaps another one,
and all are aligned.
-/

import DexArsc.Proofs.Dex.File.Apart

namespace DexArsc

/-- Options that keep sections at multiples of four. -/
def WriteOptions.Aligned (options : WriteOptions) : Prop :=
  options.alignment ≤ 4 ∨ 4 ∣ options.alignment

namespace Dex

/-- The next boundary is a multiple of the alignment. -/
theorem dvd_add_padding {alignment : Nat} (positive : 0 < alignment) (position : Nat) :
    alignment ∣ position + padding alignment position := by
  unfold padding
  by_cases one : alignment ≤ 1
  · obtain rfl : alignment = 1 := by omega
    exact Nat.one_dvd _
  · rw [if_neg one]
    have small := Nat.mod_lt position positive
    have whole := Nat.div_add_mod position alignment
    rcases Nat.eq_zero_or_pos (position % alignment) with zero | some
    · rw [zero, Nat.sub_zero, Nat.mod_self]
      exact Nat.dvd_of_mod_eq_zero zero
    · rw [Nat.mod_eq_of_lt (by omega)]
      refine ⟨position / alignment + 1, ?_⟩
      rw [Nat.mul_add, Nat.mul_one]
      omega

/-- A boundary needs no padding. -/
theorem padding_of_dvd {alignment position : Nat} (divides : alignment ∣ position) :
    padding alignment position = 0 := by
  unfold padding
  by_cases one : alignment ≤ 1
  · rw [if_pos one]
  · rw [if_neg one, Nat.mod_eq_zero_of_dvd divides, Nat.sub_zero, Nat.mod_self]

/-- The kinds of section are aligned to one byte or to four. -/
theorem SectionKind.alignment_cases (kind : SectionKind) : kind.alignment = 1 ∨ kind.alignment = 4 := by
  cases kind <;> first | exact .inl rfl | exact .inr rfl

theorem SectionKind.alignment_pos (kind : SectionKind) : 0 < kind.alignment := by
  rcases kind.alignment_cases with one | four <;> omega

/-- Sections start at a multiple of their alignment. -/
theorem dvd_sectionStart {options : WriteOptions} (aligned : options.Aligned)
    {kind : SectionKind} (other : kind ≠ .header) (position : Nat) :
    kind.alignment ∣ DexFile.sectionStart options kind position := by
  unfold DexFile.sectionStart
  simp only [other, if_false]
  rcases kind.alignment_cases with one | four
  · rw [one]
    exact Nat.one_dvd _
  · have divides : 4 ∣ max 4 options.alignment := by
      rcases aligned with small | ⟨count, same⟩
      · exact ⟨1, by omega⟩
      · exact ⟨max 1 count, by omega⟩
    rw [four, if_pos (by decide)]
    exact Nat.dvd_trans divides (dvd_add_padding (by omega) position)

/-- Items are placed at multiples of the alignment. -/
theorem dvd_of_mem_places {alignment position place : Nat} (positive : 0 < alignment)
    {sizes : List Nat} (inside : place ∈ places alignment position sizes) : alignment ∣ place := by
  induction sizes generalizing position with
  | nil => cases inside
  | cons size rest ih =>
      rcases List.mem_cons.1 inside with rfl | later
      · exact dvd_add_padding positive position
      · exact ih later

/-- Items of aligned sizes are placed at multiples of the alignment without any padding. -/
theorem dvd_of_mem_places_of_dvd {divisor position place : Nat} {sizes : List Nat}
    (start : divisor ∣ position) (each : ∀ size ∈ sizes, divisor ∣ size)
    (inside : place ∈ places 1 position sizes) : divisor ∣ place := by
  induction sizes generalizing position with
  | nil => cases inside
  | cons size rest ih =>
      have unpadded : position + padding 1 position = position := rfl
      rw [places, unpadded] at inside
      rcases List.mem_cons.1 inside with rfl | later
      · exact start
      · exact ih (Nat.dvd_add start (each size List.mem_cons_self))
          (fun other listed => each other (List.mem_cons_of_mem _ listed)) later

/-- No item reaches beyond the start of a later one, and none leaves the run. -/
theorem zip_places (alignment position : Nat) (sizes : List Nat) :
    ((places alignment position sizes).zip sizes).Pairwise (fun a b => a.1 + a.2 ≤ b.1) ∧
      ∀ span ∈ (places alignment position sizes).zip sizes,
        position ≤ span.1 ∧ span.1 + span.2 ≤ placesEnd alignment position sizes := by
  induction sizes generalizing position with
  | nil => exact ⟨List.Pairwise.nil, fun _ inside => by cases inside⟩
  | cons size rest ih =>
      obtain ⟨ascending, within⟩ := ih (position + padding alignment position + size)
      have later := le_placesEnd alignment (position + padding alignment position + size) rest
      rw [places, List.zip_cons_cons, placesEnd]
      refine ⟨List.pairwise_cons.2 ⟨fun span inside => (within span inside).1, ascending⟩, ?_⟩
      intro span inside
      rcases List.mem_cons.1 inside with rfl | inside
      · exact ⟨by simp only; omega, later⟩
      · have bounds := within span inside
        exact ⟨by omega, bounds.2⟩

/-- The last item ends where the run ends. -/
theorem getLast?_zip_places (alignment position : Nat) {sizes : List Nat} (some : sizes ≠ []) :
    ((places alignment position sizes).zip sizes).getLast?.map (fun span => span.1 + span.2) =
      Option.some (placesEnd alignment position sizes) := by
  induction sizes generalizing position with
  | nil => exact absurd rfl some
  | cons size rest ih =>
      rw [places, List.zip_cons_cons, placesEnd]
      cases rest with
      | nil => rfl
      | cons next others =>
          rw [← ih (position + padding alignment position + size) (List.cons_ne_nil _ _), places,
            List.zip_cons_cons, List.getLast?_cons_cons]

/-- The starts and the lengths of all that stands in a section. A section whose items are not tracked
is one run of bytes. -/
def Slot.spans (slot : Slot) : List (Nat × Nat) :=
  slot.places.zip slot.block.sizes ++
    if slot.block.tail = 0 then []
    else [(placesEnd slot.block.alignment slot.start slot.block.sizes, slot.block.tail)]

namespace Slot

variable (slot : Slot)

/-- A section whose items are not tracked is one run from its start on. -/
theorem spans_of_run {slot : Slot} (sizes : slot.block.sizes = []) (tail : 0 < slot.block.tail) :
    slot.spans = [(slot.start, slot.block.tail)] := by
  unfold spans places
  rw [sizes, if_neg (by omega)]
  rfl

theorem spans_within : ∀ span ∈ slot.spans, slot.start ≤ span.1 ∧ span.1 + span.2 ≤ slot.stop := by
  intro span inside
  have within := (zip_places slot.block.alignment slot.start slot.block.sizes).2
  have behind := le_placesEnd slot.block.alignment slot.start slot.block.sizes
  unfold spans at inside
  unfold stop
  rcases List.mem_append.1 inside with item | tail
  · have bounds := within span item
    omega
  · split at tail
    · cases tail
    · rw [List.mem_singleton.1 tail]
      exact ⟨behind, Nat.le_refl _⟩

theorem spans_ascending : slot.spans.Pairwise fun a b => a.1 + a.2 ≤ b.1 := by
  obtain ⟨ascending, within⟩ := zip_places slot.block.alignment slot.start slot.block.sizes
  unfold spans
  refine List.pairwise_append.2 ⟨ascending, ?_, fun span item last tail => ?_⟩
  · split
    · exact List.Pairwise.nil
    · exact List.pairwise_singleton ..
  · split at tail
    · cases tail
    · rw [List.mem_singleton.1 tail]
      exact (within span item).2

variable {slot}

/-- The first item stands at the start of the section. -/
theorem head?_spans (filled : slot.block.Filled) (aligned : slot.block.alignment ∣ slot.start) :
    slot.spans.head?.map Prod.fst = some slot.start := by
  unfold spans places
  cases sizes : slot.block.sizes with
  | nil =>
      have tail := filled.some.resolve_left (fun content => content sizes)
      rw [if_neg (by omega)]
      rfl
  | cons size rest =>
      simp only [Dex.places, padding_of_dvd aligned]
      rfl

/-- The last item ends where the section stops. -/
theorem getLast?_spans (filled : slot.block.Filled) :
    slot.spans.getLast?.map (fun span => span.1 + span.2) = some slot.stop := by
  unfold spans stop
  by_cases none : slot.block.tail = 0
  · have content := filled.some.resolve_right (by omega)
    rw [if_pos none, List.append_nil, none, Nat.add_zero]
    exact getLast?_zip_places _ _ content
  · rw [if_neg none, List.getLast?_append]
    rfl

end Slot

/-- No section reaches beyond the start of a later one, and none leaves the plan. -/
theorem plan_apart (options : WriteOptions) (position : Nat) (blocks : List Block) :
    (plan options position blocks).Pairwise (fun a b => a.stop ≤ b.start) ∧
      ∀ slot ∈ plan options position blocks,
        position ≤ slot.start ∧ slot.stop ≤ planEnd options position blocks := by
  induction blocks generalizing position with
  | nil => exact ⟨List.Pairwise.nil, fun _ inside => by cases inside⟩
  | cons block rest ih =>
      have start := le_sectionStart options block.kind position
      have content := Slot.start_le_stop
        { block, start := DexFile.sectionStart options block.kind position }
      obtain ⟨apart, within⟩ := ih
        (Slot.stop { block, start := DexFile.sectionStart options block.kind position })
      have behind := le_planEnd options
        (Slot.stop { block, start := DexFile.sectionStart options block.kind position }) rest
      refine ⟨List.pairwise_cons.2 ⟨fun slot inside => (within slot inside).1, apart⟩, ?_⟩
      intro slot inside
      rcases List.mem_cons.1 inside with rfl | inside
      · exact ⟨start, behind⟩
      · have bounds := within slot inside
        simp only at content
        exact ⟨by omega, bounds.2⟩

/-- The plan ends with its last section. -/
theorem getLast?_plan (options : WriteOptions) (position : Nat) {blocks : List Block}
    (some : blocks ≠ []) : (plan options position blocks).getLast?.map Slot.stop =
      Option.some (planEnd options position blocks) := by
  induction blocks generalizing position with
  | nil => exact absurd rfl some
  | cons block rest ih =>
      rw [plan, planEnd]
      cases rest with
      | nil => rfl
      | cons next others =>
          rw [← ih _ (List.cons_ne_nil _ _), plan, List.getLast?_cons_cons]

/-- Every section starts where its kind may start. -/
theorem exists_sectionStart {options : WriteOptions} {position : Nat} {blocks : List Block} {slot : Slot}
    (inside : slot ∈ plan options position blocks) :
    ∃ before, slot.start = DexFile.sectionStart options slot.block.kind before := by
  induction blocks generalizing position with
  | nil => cases inside
  | cons block rest ih =>
      rcases List.mem_cons.1 inside with rfl | later
      · exact ⟨position, rfl⟩
      · exact ih later

end Dex
end DexArsc
