/-
Debug sequences that are written from their visible elements. What is read back has the same positions and
the same events, for steps of any size in any direction.
-/

import DexArsc.Proofs.Dex.Debug.Edit
import Mathlib.Algebra.Ring.Nat

namespace DexArsc.Dex

open Reader

/-- The addresses that an element steps over. -/
def ElementData.addressStep : ElementData → Nat
  | advanceAddress step => step.toNat
  | lineEntry special => (Special.addresses special).toNat
  | _ => 0

theorem ElementData.toNat_address_step (data : ElementData) (address line : UInt32)
    (near : address.toNat + data.addressStep < UInt32.size) :
    (data.step address line).address.toNat = address.toNat + data.addressStep := by
  cases data <;> first
    | rfl
    | exact (UInt32.toNat_add ..).trans (Nat.mod_eq_of_lt near)

theorem ascending_iff {start : UInt32} {elements : List DebugElement} :
    Ascending start elements ↔ (start :: elements.map DebugElement.address).Pairwise (· ≤ ·) := by
  induction elements generalizing start with
  | nil => simp [Ascending]
  | cons element rest ih =>
      rw [Ascending, ih, List.map_cons, List.pairwise_cons (a := start)]
      refine and_congr_left fun ordered => ?_
      have behind := (List.pairwise_cons.1 ordered).1
      exact ⟨fun ahead => List.forall_mem_cons.2 ⟨ahead, fun address inside =>
        UInt32.le_trans ahead (behind address inside)⟩, fun all => all _ List.mem_cons_self⟩

/-- The machine never goes back as long as its address stays below the word size. -/
theorem ascending_replay (contents : List ElementData) (start address line : UInt32)
    (before : start ≤ address)
    (near : address.toNat + (contents.map ElementData.addressStep).sum < UInt32.size) :
    Ascending start (replay address line contents) := by
  induction contents generalizing start address line with
  | nil => trivial
  | cons data rest ih =>
      rw [List.map_cons, List.sum_cons] at near
      have reached := data.toNat_address_step address line (by omega)
      have ahead : start ≤ (data.step address line).address := by
        rw [UInt32.le_iff_toNat_le] at before ⊢
        omega
      exact ⟨ahead, ih _ _ _ (UInt32.le_refl _) (by omega)⟩

/-- Reading yields the element that the machine reaches. -/
theorem step_of_readElement {address line : UInt32} {opcode : UInt8} {cursor final : Cursor}
    {element : DebugElement} (run : readElement address line opcode cursor = .ok element final) :
    element = element.data.step address line := by
  obtain ⟨reader, same⟩ : ∃ reader, reader = readElement address line opcode := ⟨_, rfl⟩
  rw [← same] at run
  unfold readElement at same
  split at same
  all_goals
    subst same
    repeat obtain ⟨_, _, _, run⟩ := Step.bind_eq_ok.1 run
    cases run
    rfl

/-- Reading yields a run of the machine. -/
theorem replay_of_readElements {fuel : Nat} {address line : UInt32} {cursor final : Cursor}
    {elements : List DebugElement} (run : readElements fuel address line cursor = .ok elements final) :
    elements = replay address line (elements.map DebugElement.data) := by
  induction fuel generalizing address line cursor elements with
  | zero =>
      cases run
      rfl
  | succ fuel ih =>
      obtain ⟨opcode, between, _, run⟩ := Step.bind_eq_ok.1 run
      split at run
      · cases run
        rfl
      · obtain ⟨element, behind, first, run⟩ := Step.bind_eq_ok.1 run
        obtain ⟨later, _, rest, run⟩ := Step.bind_eq_ok.1 run
        cases run
        rw [List.map_cons, replay, ← step_of_readElement first, ← ih rest]

theorem sameTarget_refl {α : Type} (ref : IndexRef α) : sameTarget ref ref = true := by
  unfold sameTarget
  cases ref.item <;> simp

namespace DebugElement

@[simp] theorem kind_event (element : DebugElement) : element.event.kind = element.kind := by
  obtain ⟨address, line, data⟩ := element
  cases data <;> rfl

@[simp] theorem address_event (element : DebugElement) : element.event.address = element.address := by
  obtain ⟨address, line, data⟩ := element
  cases data <;> rfl

theorem line_event {element : DebugElement} (entry : element.kind = .lineEntry) :
    element.event.line = element.line := by
  obtain ⟨address, line, data⟩ := element
  cases data <;> first | rfl | cases entry

/-- Elements that show the same are the same event. -/
theorem sameEvent_of_event_eq {a b : DebugElement} (same : a.event = b.event) : a.sameEvent b = true := by
  obtain ⟨addressA, lineA, dataA⟩ := a
  obtain ⟨addressB, lineB, dataB⟩ := b
  unfold sameEvent
  cases dataA <;> cases dataB <;> simp_all [event, sameTarget_refl]
  case startLocal.startLocal signature =>
    cases signature <;> simp [sameTarget_refl]

end DebugElement

theorem opensWith_of_event_eq {as bs : List DebugElement}
    (same : as.map DebugElement.event = bs.map DebugElement.event) : opensWith as bs = true := by
  induction as generalizing bs with
  | nil =>
      rw [List.map_nil, eq_comm, List.map_eq_nil_iff] at same
      rw [same, opensWith]
  | cons a as ih =>
      obtain ⟨b, bs, rfl⟩ : ∃ b rest, bs = b :: rest := by
        cases bs with
        | nil => cases same
        | cons b rest => exact ⟨b, rest, rfl⟩
      obtain ⟨first, rest⟩ := List.cons.inj same
      rw [opensWith, DebugElement.sameEvent_of_event_eq first, ih rest, Bool.and_self]

namespace DebugSequence

variable {sequence other final : DebugSequence}

/-- Sequences that show the same events have the same events. -/
theorem sameEvents_of_event_eq
    (same : sequence.visible.map DebugElement.event = other.visible.map DebugElement.event) :
    sequence.sameEvents other = true := by
  have length := congrArg List.length same
  rw [List.length_map, List.length_map] at length
  rw [sameEvents, opensWith_of_event_eq same, length, beq_self_eq_true, Bool.and_self]

/-- Sequences that show the same events have the same positions. -/
theorem positions_of_event_eq
    (same : sequence.visible.map DebugElement.event = other.visible.map DebugElement.event) :
    sequence.positions = other.positions := by
  have shown (sequence : DebugSequence) : sequence.positions =
      ((sequence.visible.map DebugElement.event).filter (·.kind == .lineEntry)).map
        fun element => (element.address, element.line) := by
    have kinds : (fun element : DebugElement => element.kind == .lineEntry) ∘ DebugElement.event =
        fun element => element.kind == .lineEntry := by
      funext element
      simp
    rw [positions, lineEntries_eq, List.filter_map, kinds, List.map_map]
    refine List.map_congr_left fun element inside => ?_
    have entry : element.kind = .lineEntry := by simpa using (List.mem_filter.1 inside).2
    simp [DebugElement.line_event entry]
  rw [shown, shown, same]

/-- A sequence that is read has its elements in the order of their addresses, as long as these do not
wrap. -/
theorem ascending_elements_of_read {start : UInt32} {cursor after : Cursor}
    (run : DebugSequence.read start cursor = .ok sequence after)
    (near : (sequence.elements.map fun element => element.data.addressStep).sum < UInt32.size) :
    Ascending 0 sequence.elements := by
  obtain ⟨_, _, _, run⟩ := Step.bind_eq_ok.1 run
  obtain ⟨elements, _, reads, run⟩ := Step.bind_eq_ok.1 run
  cases run
  have replays := replay_of_readElements reads
  rw [replays]
  exact ascending_replay _ _ _ _ (UInt32.le_refl 0) (by simpa [List.map_map, Function.comp_def] using near)

/-- The sequence without the items that its references are linked to. -/
def unlinked (sequence : DebugSequence) : DebugSequence :=
  sequence.mapRefs IndexRef.bare IndexRef.bare

/-- What is read back shows the events of the sequence without its links. -/
theorem event_bare (sound : sequence.Sound) :
    sequence.bare.visible.map DebugElement.event = sequence.unlinked.visible.map DebugElement.event := by
  have plain : sequence.unlinked.plain = sequence.bare := by
    unfold DebugSequence.plain bare unlinked
    rw [lineStart_mapRefs, contents_mapRefs]
    rfl
  have same := congrArg elements (said_plain (sound.mapRefs IndexRef.bare IndexRef.bare))
  rw [← plain]
  exact same

/-- References that are replaced alike keep what sequences show alike. -/
theorem event_mapRefs_congr (string : IndexRef StringItem → IndexRef StringItem)
    (type : IndexRef TypeItem → IndexRef TypeItem)
    (same : sequence.visible.map DebugElement.event = other.visible.map DebugElement.event) :
    (sequence.mapRefs string type).visible.map DebugElement.event =
      (other.mapRefs string type).visible.map DebugElement.event := by
  have images (sequence : DebugSequence) : (sequence.mapRefs string type).visible.map DebugElement.event =
      (sequence.visible.map DebugElement.event).map (DebugElement.mapRefs string type) := by
    rw [visible_mapRefs, List.map_map, List.map_map]
    exact List.map_congr_left fun element _ => DebugElement.event_mapRefs string type element
  rw [images, images, same]

theorem Sound.of_dirty (dirty : sequence.dirty = true) (ascending : Ascending 0 sequence.visible) :
    sequence.Sound where
  ascending _ := ascending
  replays clean := by
    rw [dirty] at clean
    cases clean
  opcodes clean := by
    rw [dirty] at clean
    cases clean

/-- A sequence with its visible elements in the order of their addresses keeps its meaning. Edits that
spare the visible elements keep its positions and events, and a dirty sequence is read back from exactly
its bytes with the same positions and, up to links, the same events. Where its links are those of the
slots, the sequence that is read back has the same events as soon as it is linked. -/
theorem reencoded_of_ascending (sequence : DebugSequence) (ascending : Ascending 0 sequence.visible) :
    (∀ (edit : Edit) (final : DebugSequence), edit.step.Ends sequence final →
      final.dirty = true ∧ (final.visible = sequence.visible ↔ edit.Spares sequence) ∧
        (edit.Spares sequence → final.positions = sequence.positions ∧ final.sameEvents sequence = true)) ∧
    (sequence.dirty = true → ∃ back, Reads (DebugSequence.read sequence.lineStart) sequence.bytes back ∧
      back.positions = sequence.positions ∧ back.sameEvents sequence.unlinked = true ∧
      (sequence.unlinked = sequence → back.sameEvents sequence = true) ∧
      ∀ (strings : Section StringItem) (types : Section TypeItem),
        sequence.unlinked.mapRefs (·.link strings) (·.link types) = sequence →
          (back.mapRefs (·.link strings) (·.link types)).sameEvents sequence = true) := by
  refine ⟨fun edit final ends => ?_, fun dirty => ?_⟩
  · obtain ⟨dirty, shown⟩ := Edit.visible_eq_iff edit ends
    refine ⟨dirty, shown, fun spares => ?_⟩
    have same := congrArg (List.map DebugElement.event) (shown.2 spares)
    exact ⟨positions_of_event_eq same, sameEvents_of_event_eq same⟩
  · have sound := Sound.of_dirty dirty ascending
    have same := event_bare sound
    refine ⟨sequence.bare, reads sound, (positions_of_event_eq same).trans (positions_mapRefs ..),
      sameEvents_of_event_eq same, fun unlinked => ?_, fun strings types linked => ?_⟩
    · rw [unlinked] at same
      exact sameEvents_of_event_eq same
    · have images := event_mapRefs_congr (·.link strings) (·.link types) same
      rw [linked] at images
      exact sameEvents_of_event_eq images

/-- A jump to the greatest line and back over addresses that no special step takes. -/
theorem reencoded_jump :
    let sequence : DebugSequence := {
      dirty := true
      elements := [⟨0, 7, .lineEntry 0⟩, ⟨2, 0, .prologueEnd⟩, ⟨400, 0xFFFFFFFF, .lineEntry 0⟩,
        ⟨400, 3, .lineEntry 0⟩] }
    Ascending 0 sequence.visible ∧ sequence.dirty = true ∧
      ∃ back, Reads (DebugSequence.read 7) sequence.bytes back ∧
        back.positions = [(0, 7), (400, 0xFFFFFFFF), (400, 3)] ∧ back.sameEvents sequence = true := by
  intro sequence
  have ascending : Ascending 0 sequence.visible := by
    change _ ∧ _ ∧ _ ∧ _ ∧ True
    decide
  obtain ⟨back, reads, positions, _, same, _⟩ := (reencoded_of_ascending sequence ascending).2 rfl
  exact ⟨ascending, rfl, back, reads, positions, same rfl⟩

/-- A linked reference is no slot: what is read back from the bytes of a sequence with a link names the same
index, and is another event until it is linked. -/
theorem linked_not_sameEvents :
    let sequence : DebugSequence := {
      start := 1
      dirty := true
      elements := [⟨0, 1, .setFile { raw := 0, item := some ⟨0⟩ }⟩] }
    Ascending 0 sequence.visible ∧ sequence.dirty = true ∧ ∃ back,
      Reads (DebugSequence.read sequence.lineStart) sequence.bytes back ∧
        back.sameEvents sequence = false := by
  intro sequence
  have ascending : Ascending 0 sequence.visible := by
    change _ ∧ True
    decide
  exact ⟨ascending, rfl, sequence.bare, reads (.of_dirty rfl ascending), by decide⟩

end DebugSequence
end DexArsc.Dex

namespace DexArsc.Dex

/-- The reference without the index in the slot of a linked one. -/
def IndexRef.target {α : Type} (ref : IndexRef α) : IndexRef α :=
  match ref.item with
  | some id => .ofId id
  | none => .ofRaw ref.raw

theorem sameTarget_iff {α : Type} {a b : IndexRef α} : sameTarget a b = true ↔ a.target = b.target := by
  obtain ⟨rawA, itemA⟩ := a
  obtain ⟨rawB, itemB⟩ := b
  cases itemA <;> cases itemB <;>
    simp [sameTarget, IndexRef.target, IndexRef.ofId, IndexRef.ofRaw]

/-- What an element tells: its event with the targets of its references. -/
def DebugElement.told (element : DebugElement) : DebugElement :=
  (element.mapRefs IndexRef.target IndexRef.target).event

/-- Elements are the same event exactly when they tell the same. -/
theorem DebugElement.sameEvent_iff {a b : DebugElement} : a.sameEvent b = true ↔ a.told = b.told := by
  obtain ⟨addressA, lineA, dataA⟩ := a
  obtain ⟨addressB, lineB, dataB⟩ := b
  rw [sameEvent, Bool.and_eq_true, beq_iff_eq]
  cases dataA <;> cases dataB <;>
    simp [told, event, DebugElement.mapRefs, ElementData.mapRefs, sameTarget_iff, and_assoc]
  case startLocal.startLocal signatureA _ _ _ signatureB =>
    cases signatureA <;> cases signatureB <;> simp [sameTarget_iff]

/-- A list with as many elements that opens with another one tells the same. -/
theorem opensWith_iff {as bs : List DebugElement} (length : as.length = bs.length) :
    opensWith as bs = true ↔ as.map DebugElement.told = bs.map DebugElement.told := by
  induction as generalizing bs with
  | nil =>
      rw [List.length_nil, eq_comm, List.length_eq_zero_iff] at length
      simp [length, opensWith]
  | cons a as ih =>
      obtain ⟨b, bs, rfl⟩ := List.exists_cons_of_length_eq_add_one length.symm
      rw [List.length_cons, List.length_cons, Nat.add_right_cancel_iff] at length
      rw [opensWith, Bool.and_eq_true, DebugElement.sameEvent_iff, ih length, List.map_cons, List.map_cons,
        List.cons.injEq]

namespace DebugSequence

variable {a b : DebugSequence}

/-- Sequences have the same events exactly when their visible elements tell the same. -/
theorem sameEvents_iff :
    a.sameEvents b = true ↔ a.visible.map DebugElement.told = b.visible.map DebugElement.told := by
  rw [sameEvents, Bool.and_eq_true, beq_iff_eq]
  constructor
  · rintro ⟨length, opens⟩
    exact (opensWith_iff length).1 opens
  · intro same
    have length : a.visible.length = b.visible.length := by simpa using congrArg List.length same
    exact ⟨length, (opensWith_iff length).2 same⟩

/-- Sequences that tell the same have the same positions. -/
theorem positions_of_told_eq (same : a.visible.map DebugElement.told = b.visible.map DebugElement.told) :
    a.positions = b.positions := by
  have shown (sequence : DebugSequence) : sequence.visible.map DebugElement.told =
      (sequence.mapRefs IndexRef.target IndexRef.target).visible.map DebugElement.event := by
    rw [visible_mapRefs, List.map_map]
    rfl
  rw [shown, shown] at same
  simpa using positions_of_event_eq same

end DebugSequence

namespace DebugInfo

variable {a b c : DebugInfo}

theorem sameNames_iff {as bs : List (IndexRef StringItem)} :
    sameNames as bs = true ↔ as.map IndexRef.target = bs.map IndexRef.target := by
  induction as generalizing bs with
  | nil => cases bs <;> simp [sameNames]
  | cons a as ih => cases bs <;> simp [sameNames, sameTarget_iff, ih]

/-- Debug information that tells the same: the starting line, the targets of the parameters' names, the
visible events and the line table. -/
structure Alike (a b : DebugInfo) : Prop where
  start : a.sequence.lineStart = b.sequence.lineStart
  names : a.parameterNames.map IndexRef.target = b.parameterNames.map IndexRef.target
  events : a.sequence.visible.map DebugElement.told = b.sequence.visible.map DebugElement.told
  positions : a.sequence.positions = b.sequence.positions

theorem sameAs_iff : a.sameAs b = true ↔ a.Alike b := by
  rw [sameAs, Bool.and_eq_true, Bool.and_eq_true, beq_iff_eq, sameNames_iff, DebugSequence.sameEvents_iff]
  constructor
  · rintro ⟨⟨start, names⟩, events⟩
    exact ⟨start, names, events, DebugSequence.positions_of_told_eq events⟩
  · intro alike
    exact ⟨⟨alike.start, alike.names⟩, alike.events⟩

/-- Debug information that tells the same is found in one bucket. -/
theorem Alike.bucket_eq (alike : a.Alike b) : a.bucket = b.bucket := by
  have events : a.sequence.visible.length = b.sequence.visible.length := by
    simpa using congrArg List.length alike.events
  have names : a.parameterNames.length = b.parameterNames.length := by
    simpa using congrArg List.length alike.names
  rw [bucket, bucket, alike.start, events, names]

/-- The search in a bucket accepts what tells the same. -/
theorem alike_iff : (a.bucket == b.bucket && a.sameAs b) = true ↔ a.Alike b := by
  rw [Bool.and_eq_true, beq_iff_eq, sameAs_iff]
  exact ⟨And.right, fun alike => ⟨alike.bucket_eq, alike⟩⟩

theorem Alike.refl (a : DebugInfo) : a.Alike a :=
  ⟨rfl, rfl, rfl, rfl⟩

theorem Alike.symm (alike : a.Alike b) : b.Alike a :=
  ⟨alike.start.symm, alike.names.symm, alike.events.symm, alike.positions.symm⟩

theorem Alike.trans (first : a.Alike b) (second : b.Alike c) : a.Alike c where
  start := first.start.trans second.start
  names := first.names.trans second.names
  events := first.events.trans second.events
  positions := first.positions.trans second.positions

/-- The comparison that decides on sharing is an equivalence relation. -/
theorem equivalence_sameAs : Equivalence fun a b : DebugInfo => a.sameAs b = true where
  refl a := sameAs_iff.2 (.refl a)
  symm same := sameAs_iff.2 (sameAs_iff.1 same).symm
  trans first second := sameAs_iff.2 ((sameAs_iff.1 first).trans (sameAs_iff.1 second))

end DebugInfo
end DexArsc.Dex
