/-
The machine of debug sequences. A run of element contents determines the states that the machine
reaches, and reading the bytes of the contents yields them with these states.
-/

import DexArsc.Dex.Debug.Info
import DexArsc.Dex.Debug.Sequence
import DexArsc.Proofs.Dex.Item

namespace DexArsc.Dex

open Reader

namespace ElementData

/-- The contents as they are read: references are only slots. -/
def bare : ElementData → ElementData :=
  mapRefs IndexRef.bare IndexRef.bare

/-- A special step has an opcode when it is not above the greatest one. -/
def HasOpcode : ElementData → Prop
  | lineEntry special => special.toNat ≤ 245
  | _ => True

/-- The element that the machine reaches from a state. -/
def step (address line : UInt32) : ElementData → DebugElement
  | advanceAddress step => { address := address + step, line, data := advanceAddress step }
  | advanceLine step => { address, line := stepLine line step.toInt, data := advanceLine step }
  | lineEntry special => {
      address := address + Special.addresses special
      line := stepLine line (Special.lines special)
      data := lineEntry special }
  | data => { address, line, data }

@[simp] theorem data_step (address line : UInt32) (data : ElementData) :
    (data.step address line).data = data := by
  cases data <;> rfl

end ElementData

/-- The elements that the machine reaches one after the other. -/
def replay : (address line : UInt32) → List ElementData → List DebugElement
  | _, _, [] => []
  | address, line, data :: rest =>
    let element := data.step address line
    element :: replay element.address element.line rest

theorem map_data_replay (contents : List ElementData) (address line : UInt32) :
    (replay address line contents).map DebugElement.data = contents := by
  induction contents generalizing address line with
  | nil => rfl
  | cons data rest ih => simp [replay, ih]

/-- The address and the line that the machine reaches at the end of a run. -/
def reach : (address line : UInt32) → List ElementData → UInt32 × UInt32
  | address, line, [] => (address, line)
  | address, line, data :: rest =>
    let element := data.step address line
    reach element.address element.line rest

/-- The machine goes on where the elements before have led it. -/
theorem replay_append (first second : List ElementData) (address line : UInt32) :
    replay address line (first ++ second) = replay address line first ++
      replay (reach address line first).1 (reach address line first).2 second := by
  induction first generalizing address line with
  | nil => rfl
  | cons data rest ih => simp only [List.cons_append, replay, reach, ih]

/-- A reference that is stored plus one. -/
theorem reads_readOptionalIndex {α : Type} (ref : IndexRef α) :
    Reads readOptionalIndex ref.optionalBytes ref.bare := by
  have reads := (reads_leb (ref.raw + 1)).bind_pure
    (fun word => (IndexRef.ofRaw (word - 1) : IndexRef α))
  rwa [UInt32.add_sub_cancel] at reads

/-- An element is read from its bytes behind its opcode. -/
theorem reads_readElement (data : ElementData) (opcode : data.HasOpcode) (address line : UInt32) :
    ∃ first payload, data.bytes = first :: payload ∧ first ≠ 0 ∧
      Reads (readElement address line first) payload (data.bare.step address line) := by
  cases data with
  | advanceAddress step =>
      exact ⟨0x01, Leb.encode step, rfl, by decide, (reads_leb step).bind_pure fun step =>
        (⟨address + step, line, .advanceAddress step⟩ : DebugElement)⟩
  | advanceLine step =>
      exact ⟨0x02, Leb.encodeSigned step, rfl, by decide, (reads_signedLeb step).bind_pure
        fun (step : Int32) => (⟨address, stepLine line step.toInt, .advanceLine step⟩ : DebugElement)⟩
  | startLocal register name type signature =>
      cases signature with
      | none =>
          refine ⟨0x03, _, rfl, by decide, ?_⟩
          simp only [List.append_assoc]
          refine Reads.bind (reads_leb register) ?_
          refine Reads.bind (reads_readOptionalIndex name) ?_
          exact (reads_readOptionalIndex type).bind_pure fun type =>
            (⟨address, line, .startLocal register name.bare type none⟩ : DebugElement)
      | some signature =>
          refine ⟨0x04, _, rfl, by decide, ?_⟩
          simp only [List.append_assoc]
          refine Reads.bind (reads_leb register) ?_
          refine Reads.bind (reads_readOptionalIndex name) ?_
          refine Reads.bind (reads_readOptionalIndex type) ?_
          exact (reads_readOptionalIndex signature).bind_pure fun signature =>
            (⟨address, line, .startLocal register name.bare type.bare (some signature)⟩ : DebugElement)
  | endLocal register =>
      exact ⟨0x05, Leb.encode register, rfl, by decide, (reads_leb register).bind_pure
        fun register => (⟨address, line, .endLocal register⟩ : DebugElement)⟩
  | restartLocal register =>
      exact ⟨0x06, Leb.encode register, rfl, by decide, (reads_leb register).bind_pure
        fun register => (⟨address, line, .restartLocal register⟩ : DebugElement)⟩
  | prologueEnd => exact ⟨0x07, [], rfl, by decide, Reads.pure _⟩
  | epilogueBegin => exact ⟨0x08, [], rfl, by decide, Reads.pure _⟩
  | setFile name =>
      exact ⟨0x09, name.optionalBytes, rfl, by decide, (reads_readOptionalIndex name).bind_pure
        fun name => (⟨address, line, .setFile name⟩ : DebugElement)⟩
  | lineEntry special =>
      have bound : special.toNat ≤ 245 := opcode
      have number : (Special.firstOpcode + special).toNat = special.toNat + 10 := by
        rw [UInt8.toNat_add]
        change (10 + special.toNat) % 256 = _
        omega
      have back : Special.firstOpcode + special - Special.firstOpcode = special := by
        rw [UInt8.add_comm, UInt8.add_sub_cancel]
      refine ⟨Special.firstOpcode + special, [], rfl, ?_, ?_⟩
      · intro zero
        rw [zero] at number
        simp at number
      · unfold readElement
        split <;> rename_i code <;> first
          | (rw [number] at code; omega)
          | skip
        rw [back]
        exact Reads.pure _

theorem length_le_flatMap_bytes (contents : List ElementData) :
    contents.length ≤ (contents.flatMap ElementData.bytes).length := by
  induction contents with
  | nil => exact Nat.le_refl 0
  | cons data rest ih =>
      have some : 0 < data.bytes.length := by
        cases data with
        | startLocal _ _ _ signature => cases signature <;> simp [ElementData.bytes]
        | _ => simp [ElementData.bytes]
      simp only [List.flatMap_cons, List.length_append, List.length_cons]
      omega

/-- Elements are read from their bytes in front of what is read from the state behind them. -/
theorem reads_readElements_append (contents : List ElementData)
    (opcodes : ∀ data ∈ contents, data.HasOpcode) (address line : UInt32) {fuel : Nat}
    {rest : List UInt8} {later : List DebugElement}
    (reads : Reads (readElements fuel (reach address line (contents.map ElementData.bare)).1
      (reach address line (contents.map ElementData.bare)).2) rest later) :
    Reads (readElements (contents.length + fuel) address line)
      (contents.flatMap ElementData.bytes ++ rest)
      (replay address line (contents.map ElementData.bare) ++ later) := by
  induction contents generalizing address line with
  | nil =>
      rw [List.length_nil, Nat.zero_add]
      exact reads
  | cons data others ih =>
      obtain ⟨first, payload, bytes, some, here⟩ :=
        reads_readElement data (opcodes data List.mem_cons_self) address line
      have tail := ih (fun data inside => opcodes data (List.mem_cons_of_mem _ inside)) _ _ reads
      rw [List.length_cons, Nat.add_right_comm, List.flatMap_cons, bytes, List.append_assoc,
        List.cons_append, ← List.singleton_append]
      refine Reads.bind (reads_byte first) ?_
      rw [if_neg some]
      refine Reads.bind here ?_
      exact tail.bind_pure ((data.bare.step address line) :: ·)

/-- Elements are read from their bytes up to the end opcode. -/
theorem reads_readElements (contents : List ElementData) (opcodes : ∀ data ∈ contents, data.HasOpcode)
    (fuel : Nat) (enough : contents.length < fuel) (address line : UInt32) :
    Reads (readElements fuel address line) (contents.flatMap ElementData.bytes ++ [0x00])
      (replay address line (contents.map ElementData.bare)) := by
  obtain ⟨more, rfl⟩ : ∃ more, fuel = contents.length + (more + 1) :=
    ⟨fuel - contents.length - 1, by omega⟩
  have ending (address line : UInt32) : Reads (readElements (more + 1) address line) [0x00] [] :=
    Reads.bind (reads_byte 0) (Reads.pure [])
  have whole := reads_readElements_append contents opcodes address line (ending _ _)
  rwa [List.append_nil] at whole

end DexArsc.Dex

namespace DexArsc.Dex

open Reader

/-- The element without what no event shows: the special step of an entry of the line table, and
the line of any other element. -/
def DebugElement.event (element : DebugElement) : DebugElement :=
  match element.data with
  | .lineEntry _ => { element with data := .lineEntry 0 }
  | _ => { element with line := 0 }

/-- The contents whose bytes take an address step and a line step. -/
def lineSteps (addresses : UInt32) (lines : Int) : List ElementData :=
  let (lineAdvance, lines) :=
    if Special.hasLineStep lines then ([], lines)
    else ([.advanceLine (Int32.ofInt lines)], 0)
  let (addressAdvance, addresses) :=
    if Special.number addresses lines ≤ Special.greatest then ([], addresses)
    else ([.advanceAddress addresses], 0)
  lineAdvance ++ addressAdvance ++
    [.lineEntry (UInt8.ofNat (Special.number addresses lines).toNat)]

theorem lineStepBytes_eq (addresses : UInt32) (lines : Int) :
    lineStepBytes addresses lines = (lineSteps addresses lines).flatMap ElementData.bytes := by
  unfold lineStepBytes lineSteps
  by_cases near : Special.hasLineStep lines = true
  · by_cases small : Special.number addresses lines ≤ Special.greatest <;> simp [near, small]
  · by_cases small : Special.number addresses 0 ≤ Special.greatest <;> simp [near, small]

/-- The contents whose bytes are those of visible elements. -/
def visibleSteps : (address line : UInt32) → List DebugElement → List ElementData
  | _, _, [] => []
  | address, line, element :: rest =>
    match element.data with
    | .lineEntry _ =>
      let lines : Int := element.line.toNat - line.toNat
      let addresses := if address ≤ element.address then element.address - address else 0
      lineSteps addresses lines ++ visibleSteps (max address element.address) element.line rest
    | data =>
      let advance :=
        if address < element.address then [.advanceAddress (element.address - address)] else []
      advance ++ [data] ++ visibleSteps (max address element.address) line rest

theorem visibleBytes_eq (elements : List DebugElement) (address line : UInt32) :
    visibleBytes address line elements =
      (visibleSteps address line elements).flatMap ElementData.bytes := by
  induction elements generalizing address line with
  | nil => rfl
  | cons element rest ih =>
      unfold visibleBytes visibleSteps
      cases element.data <;> simp only [lineStepBytes_eq, ih, List.flatMap_append] <;>
        by_cases before : address < element.address <;> simp [before]

/-- The machine takes a line step modulo the word size. -/
theorem stepLine_ofInt (line : UInt32) (step : Int) :
    stepLine line (Int32.ofInt step).toInt = stepLine line step := by
  apply UInt32.toNat_inj.1
  rw [Int32.toInt_ofInt, Int.bmod_def]
  simp only [stepLine, UInt32.toNat_ofNat', UInt32.size, Int32.size]
  split <;> omega

/-- The machine takes a line step that stays in range. -/
theorem stepLine_sub (line target : UInt32) :
    stepLine line ((target.toNat : Int) - line.toNat) = target := by
  have lineBound := line.toNat_lt
  have targetBound := target.toNat_lt
  apply UInt32.toNat_inj.1
  rw [stepLine]
  simp only [UInt32.toNat_ofNat', UInt32.size]
  omega

theorem stepLine_zero (line : UInt32) : stepLine line 0 = line := by
  have bound := line.toNat_lt
  apply UInt32.toNat_inj.1
  rw [stepLine]
  simp only [UInt32.toNat_ofNat', UInt32.size]
  omega

theorem hasLineStep_iff {lines : Int} :
    Special.hasLineStep lines = true ↔ -4 ≤ lines ∧ lines < 11 := by
  rw [Special.hasLineStep, Bool.and_eq_true, decide_eq_true_eq, decide_eq_true_eq]
  rfl

/-- A special step that fits into a byte takes its address step and its line step. -/
theorem special_steps (addresses : UInt32) (lines : Int) (near : Special.hasLineStep lines)
    (small : Special.number addresses lines ≤ Special.greatest) :
    let special := UInt8.ofNat (Special.number addresses lines).toNat
    special.toNat ≤ 245 ∧ Special.addresses special = addresses ∧ Special.lines special = lines := by
  have range := hasLineStep_iff.1 near
  have number : Special.number addresses lines = addresses.toNat * 15 + (lines + 4) := by
    simp [Special.number, Special.lineBase, Special.lineRange]
  rw [number] at small ⊢
  have bound : addresses.toNat * 15 + (lines + 4) ≤ 245 := small
  have stored : (UInt8.ofNat (addresses.toNat * 15 + (lines + 4)).toNat).toNat =
      (addresses.toNat * 15 + (lines + 4)).toNat := by
    rw [UInt8.toNat_ofNat']
    omega
  refine ⟨by omega, ?_, ?_⟩
  · apply UInt32.toNat_inj.1
    rw [Special.addresses, UInt32.toNat_div, UInt8.toNat_toUInt32, stored]
    change (addresses.toNat * 15 + (lines + 4)).toNat / 15 = addresses.toNat
    omega
  · rw [Special.lines, stored]
    simp only [Special.lineBase, Special.lineRange]
    omega

/-- A near line step alone fits into a special step. -/
theorem number_zero_le {lines : Int} (near : Special.hasLineStep lines) :
    Special.number 0 lines ≤ Special.greatest := by
  have range := hasLineStep_iff.1 near
  simp only [Special.number, Special.greatest, Special.lineBase, Special.lineRange]
  change (0 : Int) * 15 + _ ≤ _
  omega

/-- At most one advance of the line, then at most one of the address, then an entry of the line
table. -/
def lineStep (lineAdvance : Option Int32) (addressAdvance : Option UInt32) (special : UInt8) :
    List ElementData :=
  (lineAdvance.map ElementData.advanceLine).toList ++
    (addressAdvance.map ElementData.advanceAddress).toList ++ [.lineEntry special]

/-- The parts of a line step: the special step takes the lines and the addresses that have not been
advanced before it. -/
structure Splits (addresses : UInt32) (lines : Int) (lineAdvance : Option Int32)
    (addressAdvance : Option UInt32) (special : UInt8) : Prop where
  opcode : special.toNat ≤ 245
  line : lineAdvance = none ∧ Special.lines special = lines ∨
    lineAdvance = some (Int32.ofInt lines) ∧ Special.lines special = 0
  address : addressAdvance = none ∧ Special.addresses special = addresses ∨
    addressAdvance = some addresses ∧ Special.addresses special = 0

theorem exists_splits_of_near (addresses : UInt32) {lines : Int}
    (near : Special.hasLineStep lines) :
    ∃ addressAdvance special, Splits addresses lines none addressAdvance special ∧
      lineSteps addresses lines = lineStep none addressAdvance special := by
  by_cases small : Special.number addresses lines ≤ Special.greatest
  · obtain ⟨opcode, address, line⟩ := special_steps addresses lines near small
    refine ⟨none, _, ⟨opcode, .inl ⟨rfl, line⟩, .inl ⟨rfl, address⟩⟩, ?_⟩
    simp [lineSteps, lineStep, near, small]
  · obtain ⟨opcode, address, line⟩ := special_steps 0 lines near (number_zero_le near)
    refine ⟨some addresses, _, ⟨opcode, .inl ⟨rfl, line⟩, .inr ⟨rfl, address⟩⟩, ?_⟩
    simp [lineSteps, lineStep, near, small]

/-- A line step first advances the line and the address, where a special step cannot take it
whole, and then adds an entry to the line table. -/
theorem exists_splits (addresses : UInt32) (lines : Int) :
    ∃ lineAdvance addressAdvance special,
      Splits addresses lines lineAdvance addressAdvance special ∧
      lineSteps addresses lines = lineStep lineAdvance addressAdvance special := by
  by_cases near : Special.hasLineStep lines = true
  · exact ⟨none, exists_splits_of_near addresses near⟩
  · have none : Special.hasLineStep 0 = true := rfl
    obtain ⟨addressAdvance, special, ⟨opcode, line, address⟩, same⟩ :=
      exists_splits_of_near addresses none
    have steps : lineSteps addresses lines =
        .advanceLine (Int32.ofInt lines) :: lineSteps addresses 0 := by
      simp [lineSteps, near, none]
    refine ⟨some (Int32.ofInt lines), addressAdvance, special, ⟨opcode, ?_, address⟩, ?_⟩
    · exact .inr ⟨rfl, by simpa using line⟩
    · rw [steps, same]
      rfl

/-- The machine takes a line step as a whole, however it is split. -/
theorem Splits.reach_lineStep {addresses : UInt32} {lines : Int} {lineAdvance : Option Int32}
    {addressAdvance : Option UInt32} {special : UInt8}
    (splits : Splits addresses lines lineAdvance addressAdvance special) (address line : UInt32) :
    reach address line (lineStep lineAdvance addressAdvance special) =
      (address + addresses, stepLine line lines) := by
  obtain ⟨_, ⟨rfl, left⟩ | ⟨rfl, left⟩, ⟨rfl, near⟩ | ⟨rfl, near⟩⟩ := splits <;>
    simp only [lineStep, Option.map_none, Option.map_some, Option.toList_none, Option.toList_some,
      List.nil_append, List.cons_append, reach, ElementData.step, left, near, stepLine_ofInt,
      stepLine_zero, UInt32.add_zero]

/-- Nothing of a line step is visible but its entry of the line table. -/
theorem replay_lineStep (lineAdvance : Option Int32) (addressAdvance : Option UInt32)
    (special : UInt8) (address line : UInt32) :
    ∃ advance : List DebugElement, (∀ passed ∈ advance, passed.isVisible = false) ∧
      replay address line (lineStep lineAdvance addressAdvance special) = advance ++
        [⟨(reach address line (lineStep lineAdvance addressAdvance special)).1,
          (reach address line (lineStep lineAdvance addressAdvance special)).2,
          .lineEntry special⟩] := by
  cases lineAdvance <;> cases addressAdvance
  · exact ⟨[], by simp, rfl⟩
  · exact ⟨[_], by simp [DebugElement.isVisible, DebugElement.kind, ElementData.kind], rfl⟩
  · exact ⟨[_], by simp [DebugElement.isVisible, DebugElement.kind, ElementData.kind], rfl⟩
  · exact ⟨[_, _], by simp [DebugElement.isVisible, DebugElement.kind, ElementData.kind], rfl⟩

/-- The line step to an element shows the entry of the line table at it, and the machine goes on
from there. -/
theorem replay_lineSteps (address line : UInt32) (element : DebugElement)
    (rest : List ElementData) :
    ∃ advance special, special.toNat ≤ 245 ∧ (∀ passed ∈ advance, passed.isVisible = false) ∧
      replay address line (lineSteps (element.address - address)
        (element.line.toNat - line.toNat) ++ rest) =
      advance ++ ⟨element.address, element.line, .lineEntry special⟩ ::
        replay element.address element.line rest := by
  obtain ⟨lineAdvance, addressAdvance, special, splits, same⟩ :=
    exists_splits (element.address - address) (element.line.toNat - line.toNat)
  obtain ⟨advance, hidden, replayed⟩ :=
    replay_lineStep lineAdvance addressAdvance special address line
  have reached := splits.reach_lineStep address line
  rw [add_distance, stepLine_sub] at reached
  refine ⟨advance, special, splits.opcode, hidden, ?_⟩
  rw [same, replay_append, replayed, reached, List.append_assoc]
  rfl

/-- Every element lies at or behind an address, and each one at or behind the one before it. -/
def Ascending : (address : UInt32) → List DebugElement → Prop
  | _, [] => True
  | address, element :: rest => address ≤ element.address ∧ Ascending element.address rest

/-- The machine passes an event that is no entry of the line table in place. -/
theorem step_of_isVisible {element : DebugElement} (visible : element.isVisible)
    (other : element.kind ≠ .lineEntry) (address line : UInt32) :
    element.data.step address line = ⟨address, line, element.data⟩ := by
  unfold DebugElement.isVisible DebugElement.kind at visible
  unfold DebugElement.kind at other
  cases content : element.data <;>
    simp_all [ElementData.kind, ElementData.step]

/-- An event that is no entry of the line table is written behind a step to its address. -/
theorem visibleSteps_cons {element : DebugElement} (other : element.kind ≠ .lineEntry)
    (rest : List DebugElement) (address line : UInt32) :
    visibleSteps address line (element :: rest) =
      (if address < element.address then [.advanceAddress (element.address - address)] else []) ++
        [element.data] ++ visibleSteps (max address element.address) line rest := by
  rw [visibleSteps]
  unfold DebugElement.kind at other
  cases content : element.data <;> simp_all [ElementData.kind]

theorem max_eq_of_le {first second : UInt32} (before : first ≤ second) :
    max first second = second := if_pos before

/-- Visible elements in the order of their addresses are the visible elements of the run that is
written for them. -/
theorem visible_replay (elements : List DebugElement) (visible : ∀ e ∈ elements, e.isVisible)
    (address line : UInt32) (ascending : Ascending address elements) :
    ((replay address line (visibleSteps address line elements)).filter
      DebugElement.isVisible).map DebugElement.event = elements.map DebugElement.event := by
  induction elements generalizing address line with
  | nil => rfl
  | cons element rest ih =>
      obtain ⟨before, later⟩ := ascending
      have tail (line : UInt32) := ih (fun e inside => visible e (List.mem_cons_of_mem _ inside))
        element.address line later
      by_cases entry : element.kind = .lineEntry
      · obtain ⟨special, content⟩ : ∃ special, element.data = .lineEntry special := by
          unfold DebugElement.kind at entry
          cases content : element.data <;> simp_all [ElementData.kind]
        obtain ⟨advance, special', _, hidden, replayed⟩ := replay_lineSteps address line element
          (visibleSteps element.address element.line rest)
        have none : advance.filter DebugElement.isVisible = [] := by
          simpa [List.filter_eq_nil_iff] using hidden
        simp only [visibleSteps, content, if_pos before, max_eq_of_le before]
        rw [replayed, List.filter_append, none, List.nil_append, List.filter_cons_of_pos rfl]
        simp [tail, DebugElement.event, content]
      · have shown := visible element List.mem_cons_self
        have passed := step_of_isVisible shown entry
        have same (line : UInt32) :
            DebugElement.event ⟨element.address, line, element.data⟩ = element.event := by
          unfold DebugElement.kind at entry
          unfold DebugElement.event
          cases content : element.data <;> simp_all [ElementData.kind]
        have seen (line : UInt32) :
            DebugElement.isVisible ⟨element.address, line, element.data⟩ = true := shown
        rw [visibleSteps_cons entry, max_eq_of_le before]
        by_cases ahead : address < element.address
        · rw [if_pos ahead]
          have advance : (ElementData.advanceAddress (element.address - address)).step address line =
              ⟨element.address, line, .advanceAddress (element.address - address)⟩ := by
            rw [ElementData.step, add_distance]
          simp only [List.cons_append, List.nil_append, replay, advance, passed]
          rw [List.filter_cons_of_neg (fun shown => by cases shown),
            List.filter_cons_of_pos (seen line)]
          simp [tail, same]
        · obtain rfl : address = element.address := UInt32.le_antisymm before (UInt32.not_lt.1 ahead)
          rw [if_neg ahead]
          simp only [List.singleton_append, List.nil_append, replay, passed]
          rw [List.filter_cons_of_pos (seen line)]
          simp [tail, same]

/-- Every step that is written has an opcode. -/
theorem hasOpcode_lineSteps (addresses : UInt32) (lines : Int) :
    ∀ data ∈ lineSteps addresses lines, data.HasOpcode := by
  obtain ⟨lineAdvance, addressAdvance, special, splits, same⟩ := exists_splits addresses lines
  rw [same]
  cases lineAdvance <;> cases addressAdvance <;>
    simpa [lineStep, ElementData.HasOpcode] using splits.opcode

end DexArsc.Dex
