/-
Debug information is read back from its bytes. What is read back says the same: the names of the
parameters, the starting line and the visible events.
-/

import DexArsc.Proofs.Dex.Debug.Sequence

namespace DexArsc.Dex

open Reader

/-- The element with its references replaced by their images. -/
def DebugElement.mapRefs (string : IndexRef StringItem → IndexRef StringItem)
    (type : IndexRef TypeItem → IndexRef TypeItem) (element : DebugElement) : DebugElement :=
  { element with data := element.data.mapRefs string type }

section MapRefs

variable (string : IndexRef StringItem → IndexRef StringItem)
  (type : IndexRef TypeItem → IndexRef TypeItem)

@[simp] theorem ElementData.kind_mapRefs (data : ElementData) :
    (data.mapRefs string type).kind = data.kind := by
  cases data <;> rfl

@[simp] theorem DebugElement.kind_mapRefs (element : DebugElement) :
    (element.mapRefs string type).kind = element.kind :=
  ElementData.kind_mapRefs ..

@[simp] theorem DebugElement.isVisible_mapRefs (element : DebugElement) :
    (element.mapRefs string type).isVisible = element.isVisible := by
  simp [DebugElement.isVisible]

theorem DebugElement.event_mapRefs (element : DebugElement) :
    (element.mapRefs string type).event = element.event.mapRefs string type := by
  obtain ⟨address, line, data⟩ := element
  cases data <;> rfl

theorem map_mapRefs_lineSteps (addresses : UInt32) (lines : Int) :
    (lineSteps addresses lines).map (ElementData.mapRefs string type) =
      lineSteps addresses lines := by
  unfold lineSteps
  by_cases near : Special.hasLineStep lines = true
  · by_cases small : Special.number addresses lines ≤ Special.greatest <;>
      simp [near, small, ElementData.mapRefs]
  · by_cases small : Special.number addresses 0 ≤ Special.greatest <;>
      simp [near, small, ElementData.mapRefs]

theorem visibleSteps_mapRefs (elements : List DebugElement) (address line : UInt32) :
    visibleSteps address line (elements.map (DebugElement.mapRefs string type)) =
      (visibleSteps address line elements).map (ElementData.mapRefs string type) := by
  induction elements generalizing address line with
  | nil => rfl
  | cons element rest ih =>
      by_cases entry : element.kind = .lineEntry
      · obtain ⟨special, content⟩ : ∃ special, element.data = .lineEntry special := by
          unfold DebugElement.kind at entry
          cases content : element.data <;> simp_all [ElementData.kind]
        simp only [List.map_cons, visibleSteps, DebugElement.mapRefs, content, ElementData.mapRefs,
          List.map_append, map_mapRefs_lineSteps]
        rw [← ih]
      · rw [List.map_cons, visibleSteps_cons entry, visibleSteps_cons (by simpa using entry)]
        simp only [DebugElement.mapRefs, List.map_append, List.map_cons, List.map_nil]
        rw [← ih]
        by_cases ahead : address < element.address <;> simp [ahead, ElementData.mapRefs]

theorem ascending_mapRefs (elements : List DebugElement) (address : UInt32) :
    Ascending address (elements.map (DebugElement.mapRefs string type)) ↔
      Ascending address elements := by
  induction elements generalizing address with
  | nil => rfl
  | cons element rest ih => simp [Ascending, ih, DebugElement.mapRefs]

end MapRefs

namespace DebugSequence

/-- The contents whose bytes are written. -/
def contents (sequence : DebugSequence) : List ElementData :=
  if sequence.dirty then visibleSteps 0 sequence.lineStart sequence.visible
  else sequence.elements.map DebugElement.data

theorem bytes_eq (sequence : DebugSequence) :
    sequence.bytes = sequence.contents.flatMap ElementData.bytes ++ [0x00] := by
  unfold bytes contents
  by_cases edited : sequence.dirty = true
  · simp only [edited, if_true, visibleBytes_eq]
  · simp only [edited, if_false, List.flatMap_map, Bool.false_eq_true]

/-- A sequence that can be written: an edited one has its events in the order of their addresses,
and any other one is a run of the machine. -/
structure Sound (sequence : DebugSequence) : Prop where
  ascending : sequence.dirty = true → Ascending 0 sequence.visible
  replays : sequence.dirty = false → replay 0 sequence.start
    (sequence.elements.map DebugElement.data) = sequence.elements
  opcodes : sequence.dirty = false → ∀ element ∈ sequence.elements, element.data.HasOpcode

/-- The sequence as it is read. -/
def bare (sequence : DebugSequence) : DebugSequence where
  start := sequence.lineStart
  elements := replay 0 sequence.lineStart (sequence.contents.map ElementData.bare)

/-- What a sequence says: the line at its start and its visible events. -/
def said (sequence : DebugSequence) : DebugSequence where
  start := sequence.lineStart
  elements := sequence.visible.map DebugElement.event
  dirty := true

theorem hasOpcode_visibleSteps (elements : List DebugElement) (visible : ∀ e ∈ elements, e.isVisible)
    (address line : UInt32) : ∀ data ∈ visibleSteps address line elements, data.HasOpcode := by
  induction elements generalizing address line with
  | nil => simp [visibleSteps]
  | cons element rest ih =>
      have tail := ih (fun e inside => visible e (List.mem_cons_of_mem _ inside))
      intro data inside
      by_cases entry : element.kind = .lineEntry
      · obtain ⟨special, content⟩ : ∃ special, element.data = .lineEntry special := by
          unfold DebugElement.kind at entry
          cases content : element.data <;> simp_all [ElementData.kind]
        simp only [visibleSteps, content, List.mem_append] at inside
        rcases inside with step | later
        · exact hasOpcode_lineSteps _ _ data step
        · exact tail _ _ data later
      · rw [visibleSteps_cons entry] at inside
        simp only [List.mem_append, List.mem_singleton] at inside
        rcases inside with (advance | rfl) | later
        · split at advance
          · rw [List.mem_singleton.1 advance]
            trivial
          · simp at advance
        · unfold DebugElement.kind at entry
          cases content : element.data <;> simp_all [ElementData.kind, ElementData.HasOpcode]
        · exact tail _ _ data later

theorem Sound.hasOpcode {sequence : DebugSequence} (sound : sequence.Sound) :
    ∀ data ∈ sequence.contents, data.HasOpcode := by
  unfold contents
  by_cases edited : sequence.dirty = true
  · rw [if_pos edited]
    exact hasOpcode_visibleSteps _ (fun e inside => (List.mem_filter.1 inside).2) _ _
  · rw [if_neg edited]
    intro data inside
    obtain ⟨element, listed, rfl⟩ := List.mem_map.1 inside
    exact sound.opcodes (by simpa using edited) element listed

theorem reads {sequence : DebugSequence} (sound : sequence.Sound) :
    Reads (DebugSequence.read sequence.lineStart) sequence.bytes sequence.bare := by
  intro data position stands
  rw [bytes_eq] at stands ⊢
  have bound := stands.length_le (by simp)
  have few := length_le_flatMap_bytes sequence.contents
  simp only [List.length_append, List.length_singleton] at bound
  have elements := reads_readElements sequence.contents sound.hasOpcode
    (data.size - position + 1) (by omega) 0 sequence.lineStart data position stands
  rw [DebugSequence.read, Step.bind_ok (show Reader.remaining { data, position } =
    .ok (data.size - position) { data, position } from rfl), Step.bind_ok elements]
  rfl

section MapRefs

variable (string : IndexRef StringItem → IndexRef StringItem)
  (type : IndexRef TypeItem → IndexRef TypeItem) (sequence : DebugSequence)

theorem elements_mapRefs : (sequence.mapRefs string type).elements =
    sequence.elements.map (DebugElement.mapRefs string type) := rfl

theorem filter_mapRefs (test : DebugElement → Bool)
    (same : ∀ element, test (element.mapRefs string type) = test element)
    (elements : List DebugElement) :
    (elements.map (DebugElement.mapRefs string type)).filter test =
      (elements.filter test).map (DebugElement.mapRefs string type) := by
  rw [List.filter_map]
  congr 2
  funext element
  exact same element

@[simp] theorem visible_mapRefs : (sequence.mapRefs string type).visible =
    sequence.visible.map (DebugElement.mapRefs string type) :=
  filter_mapRefs string type _ (DebugElement.isVisible_mapRefs string type) _

@[simp] theorem lineEntries_mapRefs : (sequence.mapRefs string type).lineEntries =
    sequence.lineEntries.map (DebugElement.mapRefs string type) :=
  filter_mapRefs string type _ (fun element => by simp) _

@[simp] theorem lineStart_mapRefs :
    (sequence.mapRefs string type).lineStart = sequence.lineStart := by
  unfold lineStart
  rw [lineEntries_mapRefs]
  cases sequence.lineEntries <;> rfl

@[simp] theorem positions_mapRefs :
    (sequence.mapRefs string type).positions = sequence.positions := by
  unfold positions
  rw [lineEntries_mapRefs, List.map_map]
  rfl

theorem contents_mapRefs : (sequence.mapRefs string type).contents =
    sequence.contents.map (ElementData.mapRefs string type) := by
  unfold contents
  rw [lineStart_mapRefs, visible_mapRefs, visibleSteps_mapRefs, elements_mapRefs]
  change (if sequence.dirty then _ else _) = _
  by_cases edited : sequence.dirty = true
  · rw [if_pos edited, if_pos edited]
  · rw [if_neg edited, if_neg edited, List.map_map, List.map_map]
    rfl

theorem said_mapRefs : (sequence.mapRefs string type).said =
    sequence.said.mapRefs string type := by
  unfold said
  rw [lineStart_mapRefs, visible_mapRefs]
  simp only [mapRefs, List.map_map, DebugSequence.mk.injEq, true_and, and_true]
  exact List.map_congr_left fun element _ => DebugElement.event_mapRefs string type element

theorem replay_mapRefs (contents : List ElementData) (address line : UInt32) :
    replay address line (contents.map (ElementData.mapRefs string type)) =
      (replay address line contents).map (DebugElement.mapRefs string type) := by
  induction contents generalizing address line with
  | nil => rfl
  | cons data rest ih =>
      have step : (data.mapRefs string type).step address line =
          (data.step address line).mapRefs string type := by
        cases data <;> rfl
      simp only [List.map_cons, replay, step, ih]
      rfl

theorem Sound.mapRefs {sequence : DebugSequence} (sound : sequence.Sound) :
    (sequence.mapRefs string type).Sound where
  ascending edited := by
    rw [visible_mapRefs, ascending_mapRefs]
    exact sound.ascending edited
  replays clean := by
    have same : (sequence.mapRefs string type).elements.map DebugElement.data =
        (sequence.elements.map DebugElement.data).map (ElementData.mapRefs string type) := by
      rw [elements_mapRefs, List.map_map, List.map_map]
      rfl
    rw [same, replay_mapRefs, elements_mapRefs]
    exact congrArg _ (sound.replays clean)
  opcodes clean element inside := by
    rw [elements_mapRefs] at inside
    obtain ⟨element, listed, rfl⟩ := List.mem_map.1 inside
    have opcode := sound.opcodes clean element listed
    unfold DebugElement.mapRefs
    cases content : element.data <;> simp_all [ElementData.mapRefs, ElementData.HasOpcode]

end MapRefs

/-- The sequence as it is read back, with the items of its references. -/
def plain (sequence : DebugSequence) : DebugSequence where
  start := sequence.lineStart
  elements := replay 0 sequence.lineStart sequence.contents

/-- What is read back says the same. -/
theorem said_plain {sequence : DebugSequence} (sound : sequence.Sound) :
    sequence.plain.said = sequence.said := by
  have start : sequence.plain.lineStart = sequence.lineStart := rfl
  unfold said
  rw [start]
  congr 1
  by_cases edited : sequence.dirty = true
  · have elements : sequence.plain.elements = replay 0 sequence.lineStart
        (visibleSteps 0 sequence.lineStart sequence.visible) := by
      unfold plain contents
      rw [if_pos edited]
    unfold visible at elements ⊢
    rw [elements]
    exact visible_replay _ (fun element inside => (List.mem_filter.1 inside).2) _ _
      (sound.ascending edited)
  · have clean : sequence.dirty = false := by simpa using edited
    have elements : sequence.plain.elements = sequence.elements := by
      have first : sequence.lineStart = sequence.start := by
        unfold lineStart
        rw [if_neg edited]
      unfold plain contents
      rw [if_neg edited, first]
      exact sound.replays clean
    unfold visible
    rw [elements]

end DebugSequence

namespace DebugInfo

/-- The information as it is read. -/
def bare (info : DebugInfo) : DebugInfo where
  parameterNames := info.parameterNames.map IndexRef.bare
  sequence := info.sequence.bare

/-- The information as it is read back, with the items of its references. -/
def plain (info : DebugInfo) : DebugInfo := { info with sequence := info.sequence.plain }

/-- What the information says. -/
def said (info : DebugInfo) : DebugInfo := { info with sequence := info.sequence.said }

theorem reads_of_length (info : DebugInfo) (sound : info.sequence.Sound)
    (few : info.parameterNames.length < UInt32.size) : Reads Codec.read (encode info) info.bare := by
  change Reads _ (Leb.encode info.sequence.lineStart ++
    Leb.encode (UInt32.ofNat info.parameterNames.length) ++
    info.parameterNames.flatMap IndexRef.optionalBytes ++ info.sequence.bytes) _
  have count : (UInt32.ofNat info.parameterNames.length).toNat = info.parameterNames.length :=
    toNat_ofNat_of_lt few
  simp only [List.append_assoc]
  refine Reads.bind (reads_leb _) ?_
  refine Reads.bind (reads_leb _) ?_
  rw [count]
  refine Reads.bind (Reads.replicate fun name _ => reads_readOptionalIndex name) ?_
  exact (DebugSequence.reads sound).bind_pure (DebugInfo.mk _)

/-- Each name of a parameter takes a byte. -/
theorem length_parameterNames_le (info : DebugInfo) : info.parameterNames.length ≤ (encode info).length := by
  have few : info.parameterNames.length ≤
      (info.parameterNames.flatMap IndexRef.optionalBytes).length := by
    induction info.parameterNames with
    | nil => exact Nat.le_refl 0
    | cons name rest ih =>
        have some := Leb.length_encode_pos (name.raw + 1)
        simp only [List.flatMap_cons, List.length_append, List.length_cons,
          IndexRef.optionalBytes] at ih ⊢
        omega
  have length : (encode info).length = (((Leb.encode info.sequence.lineStart ++
    Leb.encode (UInt32.ofNat info.parameterNames.length)) ++
    info.parameterNames.flatMap IndexRef.optionalBytes) ++ info.sequence.bytes).length := rfl
  simp only [List.length_append] at length
  omega

theorem reads (info : DebugInfo) (sound : info.sequence.Sound)
    (fits : (encode info).length < UInt32.size) : Reads Codec.read (encode info) info.bare :=
  info.reads_of_length sound (Nat.lt_of_le_of_lt info.length_parameterNames_le fits)

end DebugInfo
end DexArsc.Dex
