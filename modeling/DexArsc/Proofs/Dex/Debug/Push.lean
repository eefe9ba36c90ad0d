/-
Elements that are refused at the end of a debug sequence. The sequence is made ready for the edit before the element is
compared with the last one, so a refusal leaves an edited sequence as it was, and of any other one only what shows.
-/

import DexArsc.Proofs.Dex.Debug.Positions

namespace DexArsc.Dex

open Reader

/-- The bytes of an element are those of its slots. -/
theorem ElementData.bytes_bare (data : ElementData) : data.bare.bytes = data.bytes := by
  cases data with
  | startLocal register name type signature => cases signature <;> rfl
  | _ => rfl

/-- Contents with the same bytes have the same slots. -/
theorem bare_eq_of_bytes_eq {first second : List ElementData} (opcodes : ∀ data ∈ first, data.HasOpcode)
    (others : ∀ data ∈ second, data.HasOpcode)
    (same : first.flatMap ElementData.bytes ++ [0x00] = second.flatMap ElementData.bytes ++ [0x00]) :
    first.map ElementData.bare = second.map ElementData.bare := by
  have stands : Bytes.Stands (first.flatMap ElementData.bytes ++ [0x00]).toArray 0
      (first.flatMap ElementData.bytes ++ [0x00]) := List.prefix_refl _
  have here := reads_readElements first opcodes (first.length + second.length + 1) (by omega) 0 0 _ 0 stands
  rw [same] at here stands
  have there := reads_readElements second others (first.length + second.length + 1) (by omega) 0 0 _ 0 stands
  rw [here] at there
  have run := (EStateM.Result.ok.inj there).1
  rw [← map_data_replay (first.map ElementData.bare) 0 0, run, map_data_replay]

namespace DebugSequence

variable {sequence other final : DebugSequence} {element : DebugElement} {fault : Fault}

/-- Sequences are written alike exactly when their contents have the same slots. -/
theorem bytes_eq_iff (opcodes : ∀ data ∈ sequence.contents, data.HasOpcode)
    (others : ∀ data ∈ other.contents, data.HasOpcode) : sequence.bytes = other.bytes ↔
      sequence.contents.map ElementData.bare = other.contents.map ElementData.bare := by
  rw [bytes_eq, bytes_eq]
  constructor
  · exact bare_eq_of_bytes_eq opcodes others
  · intro same
    have bytes (contents : List ElementData) :
        contents.flatMap ElementData.bytes = (contents.map ElementData.bare).flatMap ElementData.bytes := by
      simp only [List.flatMap_map, ElementData.bytes_bare]
    rw [bytes, same, ← bytes]

/-- What becomes of a sequence that is made ready for an edit: what shows stays, and everything stays where the sequence
was edited before. Of any other one, the steps of the machine are gone, the first line is the one at the start, and the
steps are written that the visible elements take. They say the same where these are in the order of their addresses. -/
structure Readied (sequence final : DebugSequence) : Prop where
  dirty : final.dirty = true
  visible : final.visible = sequence.visible
  positions : final.positions = sequence.positions
  same : final = sequence ↔ sequence.dirty = true
  elements : final.elements = sequence.elements ↔ sequence.dirty = true ∨ ∀ e ∈ sequence.elements, e.isVisible
  lineStart : final.lineStart = sequence.lineStart ↔
    ∀ first, sequence.lineEntries.head? = some first → first.line = sequence.lineStart
  bytes : (∀ data ∈ sequence.contents, data.HasOpcode) → (final.bytes = sequence.bytes ↔
    (visibleSteps 0 final.lineStart sequence.visible).map ElementData.bare = sequence.contents.map ElementData.bare)
  reads : Ascending 0 sequence.visible → ∃ back, Reads (DebugSequence.read final.lineStart) final.bytes back ∧
    back.positions = sequence.positions ∧
    back.visible.map DebugElement.event = sequence.unlinked.visible.map DebugElement.event

theorem edited_eq_iff : sequence.edited = sequence ↔ sequence.dirty = true := by
  constructor
  · intro same
    rw [← same]
    exact sequence.dirty_edited
  · exact edited_of_dirty

theorem elements_edited_eq_iff : sequence.edited.elements = sequence.elements ↔
    sequence.dirty = true ∨ ∀ e ∈ sequence.elements, e.isVisible := by
  by_cases dirty : sequence.dirty = true
  · simp [edited_of_dirty dirty, dirty]
  · rw [edited, if_neg dirty]
    change sequence.elements.filter DebugElement.isVisible = _ ↔ _
    rw [List.filter_eq_self]
    simp [dirty]

/-- The first line is the one at the start of an edited sequence. -/
theorem lineStart_edited_eq_iff : sequence.edited.lineStart = sequence.lineStart ↔
    ∀ first, sequence.lineEntries.head? = some first → first.line = sequence.lineStart := by
  cases leads : sequence.lineEntries.head? with
  | none =>
      have none : sequence.lineEntries = [] := List.head?_eq_none_iff.1 leads
      have edited : sequence.edited.start = sequence.start := by
        unfold DebugSequence.edited
        split <;> rfl
      have start : sequence.lineStart = sequence.start := by simp [DebugSequence.lineStart, none]
      rw [lineStart_of_dirty sequence.dirty_edited, lineEntries_edited, none, start]
      simpa using edited
  | some first =>
      rw [DebugSequence.lineStart_edited leads]
      simp

theorem contents_edited (sequence : DebugSequence) :
    sequence.edited.contents = visibleSteps 0 sequence.edited.lineStart sequence.visible := by
  rw [contents, if_pos sequence.dirty_edited, visible_edited]

theorem readied_edited (sequence : DebugSequence) : sequence.Readied sequence.edited where
  dirty := sequence.dirty_edited
  visible := sequence.visible_edited
  positions := by rw [DebugSequence.positions, lineEntries_edited, DebugSequence.positions]
  same := edited_eq_iff
  elements := elements_edited_eq_iff
  lineStart := lineStart_edited_eq_iff
  bytes opcodes := by
    have steps : ∀ data ∈ sequence.edited.contents, data.HasOpcode := by
      rw [contents_edited]
      exact hasOpcode_visibleSteps _ (fun e inside => (List.mem_filter.1 inside).2) _ _
    rw [bytes_eq_iff steps opcodes, contents_edited]
  reads ascending := by
    have sound : sequence.edited.Sound := .of_dirty sequence.dirty_edited (sequence.visible_edited ▸ ascending)
    have events : sequence.edited.bare.visible.map DebugElement.event =
        sequence.unlinked.visible.map DebugElement.event := by
      rw [event_bare sound, unlinked, visible_mapRefs, visible_edited, ← visible_mapRefs, ← unlinked]
    exact ⟨sequence.edited.bare, DebugSequence.reads sound,
      (positions_of_event_eq events).trans (positions_mapRefs ..), events⟩

/-- A push fails in front of the last element of the sequence that is ready for it, and leaves this sequence behind. -/
theorem push_eq_error_iff : DebugSequence.push element sequence = .error fault final ↔
    final = sequence.edited ∧ ∃ last, sequence.edited.elements.getLast? = some last ∧
      element.address < last.address ∧
      fault = { cause := .dex (.elementPrecedes element.address.toNat last.address.toNat) } := by
  unfold DebugSequence.push
  cases last? : sequence.edited.elements.getLast? with
  | none => simp [Step.bind_apply, last?]
  | some last =>
      by_cases before : element.address < last.address
      · simp [Step.bind_apply, last?, before, eq_comm, and_comm]
      · simp [Step.bind_apply, last?, before]

/-- A push that is refused in front of the last element still makes the sequence ready for an edit. So it leaves
everything as it was exactly when the sequence was edited before. -/
theorem rejected_push (rejected : DebugSequence.push element sequence = .error fault final) :
    (∃ last, sequence.edited.elements.getLast? = some last ∧ element.address < last.address ∧
      fault = { cause := .dex (.elementPrecedes element.address.toNat last.address.toNat) }) ∧
      sequence.Readied final := by
  obtain ⟨rfl, precedes⟩ := push_eq_error_iff.1 rejected
  exact ⟨precedes, sequence.readied_edited⟩

/-- A sequence that was read with two steps of the machine loses both to a push that fails, and starts at another
line. -/
theorem rejected_push_prologueEnd : ∃ sequence after final fault,
    DebugSequence.read 1 { data := #[0x02, 0x05, 0x01, 0x04, 0x0e, 0x00] } = .ok sequence after ∧
      DebugSequence.push ⟨0, 0, .prologueEnd⟩ sequence = .error fault final ∧ sequence.Readied final ∧
      final.elements ≠ sequence.elements ∧ sequence.dirty = false ∧ final.dirty = true ∧
      sequence.lineStart = 1 ∧ final.lineStart = 6 ∧ final.bytes ≠ sequence.bytes := by
  obtain ⟨sequence, same⟩ : ∃ sequence : DebugSequence, sequence = { start := 1, elements := [⟨0, 6, .advanceLine 5⟩,
    ⟨4, 6, .advanceAddress 4⟩, ⟨4, 6, .lineEntry 4⟩] } := ⟨_, rfl⟩
  have run : DebugSequence.read 1 { data := #[0x02, 0x05, 0x01, 0x04, 0x0e, 0x00] } =
      .ok sequence { data := #[0x02, 0x05, 0x01, 0x04, 0x0e, 0x00], position := 6 } := by rw [same]; rfl
  obtain ⟨fault, rejected⟩ : ∃ fault, DebugSequence.push ⟨0, 0, .prologueEnd⟩ sequence =
      .error fault sequence.edited := ⟨_, by rw [same]; rfl⟩
  obtain ⟨_, readied⟩ := rejected_push rejected
  refine ⟨sequence, _, _, fault, run, rejected, readied, ?_, by rw [same], readied.dirty, by rw [same]; rfl,
    by rw [same]; rfl, ?_⟩
  · rw [same]
    decide
  · have opcodes : ∀ data ∈ sequence.contents, data.HasOpcode := by
      rw [same]
      change ∀ data ∈ [ElementData.advanceLine 5, .advanceAddress 4, .lineEntry 4], data.HasOpcode
      simp [ElementData.HasOpcode]
    rw [Ne, readied.bytes opcodes, same]
    decide

end DebugSequence
end DexArsc.Dex
