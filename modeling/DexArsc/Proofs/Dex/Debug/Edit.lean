/-
Edits of debug sequences. The first edit drops the steps of the machine, which no edit needs: what shows
afterwards is what the edit makes of the visible elements.
-/

import DexArsc.Proofs.Dex.Debug.Info
import DexArsc.Proofs.Leads

namespace DexArsc

theorem bisectFrom_lt (passes : Nat → Bool) (base size : Nat) (some : 0 < size) :
    bisectFrom passes base size < base + size := by
  fun_induction bisectFrom passes base size with
  | case1 base size small => omega
  | case2 base size large half ih =>
      have halved : half = size / 2 := rfl
      refine Nat.lt_of_lt_of_le (ih (by omega)) ?_
      split <;> omega

/-- Bisection stays within the positions. -/
theorem bisect_le (passes : Nat → Bool) (size : Nat) : bisect passes size ≤ size := by
  unfold bisect
  by_cases empty : size = 0
  · rw [if_pos empty]
    exact Nat.zero_le size
  · have bound := bisectFrom_lt passes 0 size (by omega)
    rw [if_neg empty]
    change (if passes (bisectFrom passes 0 size) then bisectFrom passes 0 size + 1
      else bisectFrom passes 0 size) ≤ size
    split <;> omega

/-- Where the positions that pass come first, bisection keeps the end of their run in sight. -/
theorem bisectFrom_bounds {passes : Nat → Bool} {count : Nat} (base size : Nat)
    (first : ∀ place < base + size, passes place = true ↔ place < count) (lower : base ≤ count)
    (upper : count ≤ base + size) :
    bisectFrom passes base size ≤ count ∧ count ≤ bisectFrom passes base size + 1 := by
  fun_induction bisectFrom passes base size with
  | case1 base size small => omega
  | case2 base size large half ih =>
      have halved : half = size / 2 := rfl
      have middle := first (base + half) (by omega)
      by_cases passed : passes (base + half) = true
      · rw [dif_pos passed] at ih
        rw [if_pos passed]
        exact ih (fun place below => first place (by omega)) (Nat.le_of_lt (middle.1 passed)) (by omega)
      · rw [dif_neg passed] at ih
        rw [if_neg passed]
        have behind := mt middle.2 passed
        exact ih (fun place below => first place (by omega)) lower (by omega)

/-- Where the positions that pass come first, bisection counts them. -/
theorem bisect_eq {passes : Nat → Bool} {size count : Nat} (within : count ≤ size)
    (first : ∀ place < size, passes place = true ↔ place < count) : bisect passes size = count := by
  unfold bisect
  by_cases empty : size = 0
  · rw [if_pos empty]
    omega
  · obtain ⟨lower, upper⟩ := bisectFrom_bounds 0 size (by simpa using first) (Nat.zero_le _) (by omega)
    have last := first _ (by simpa using bisectFrom_lt passes 0 size (by omega))
    rw [if_neg empty]
    change (if passes (bisectFrom passes 0 size) then bisectFrom passes 0 size + 1
      else bisectFrom passes 0 size) = count
    split <;> rename_i passed
    · have below := last.1 passed
      omega
    · have behind := mt last.2 passed
      omega

namespace Dex

open Reader

namespace DebugSequence

variable {sequence final : DebugSequence}

theorem lineEntries_eq (sequence : DebugSequence) :
    sequence.lineEntries = sequence.visible.filter (·.kind == .lineEntry) := by
  unfold lineEntries visible
  rw [List.filter_filter]
  refine List.filter_congr fun element _ => ?_
  by_cases entry : element.kind = .lineEntry <;> simp [entry, DebugElement.isVisible]

@[simp] theorem dirty_edited (sequence : DebugSequence) : sequence.edited.dirty = true := by
  unfold edited
  by_cases dirty : sequence.dirty = true <;> simp [dirty]

@[simp] theorem visible_edited (sequence : DebugSequence) :
    sequence.edited.visible = sequence.visible := by
  unfold edited
  by_cases dirty : sequence.dirty = true <;> simp [dirty, visible, List.filter_filter]

@[simp] theorem lineEntries_edited (sequence : DebugSequence) :
    sequence.edited.lineEntries = sequence.lineEntries := by
  rw [lineEntries_eq, lineEntries_eq, visible_edited]

theorem edited_of_dirty (dirty : sequence.dirty = true) : sequence.edited = sequence :=
  if_pos dirty

/-- The line that a shift makes of a line: it stays within 32 bits. -/
def shiftLine (shift : Int) (line : UInt32) : UInt32 :=
  UInt32.ofNat (max 0 (min (line.toNat + shift) 0xFFFFFFFF)).toNat

theorem visible_setLineStart (sequence : DebugSequence) (line : UInt32) :
    (sequence.setLineStart line).visible = sequence.visible.map fun element =>
      { element with line := shiftLine ((line.toNat : Int) - sequence.edited.lineStart.toNat) element.line } := by
  rw [← sequence.visible_edited]
  exact List.filter_map

/-- What can be done with a debug sequence. -/
inductive Edit
  | setLineStart (line : UInt32)
  | findOrInsert (kind : ElementKind) (address : UInt32)
  | setLineAt (address line : UInt32)
  | modifyElement (index : Nat) (change : DebugElement → DebugElement)
  | push (element : DebugElement)
  | removeIf (test : DebugElement → Bool)
  | clear

namespace Edit

/-- The step of an edit, without its result. -/
def step : Edit → Step DebugSequence Unit
  | setLineStart line => modify (·.setLineStart line)
  | findOrInsert kind address => modify fun sequence => (sequence.findOrInsert kind address).2
  | setLineAt address line => modify fun sequence => (sequence.setLineAt address line).2
  | modifyElement index change => modify (·.modifyElement index change)
  | push element => DebugSequence.push element
  | removeIf test => modify fun sequence => (sequence.removeIf test).2
  | clear => modify (·.clear)

/-- An edit spares the visible elements of a sequence: it finds what it looks for, changes nothing that
shows and removes nothing that shows. -/
def Spares (sequence : DebugSequence) : Edit → Prop
  | setLineStart line =>
    line = sequence.edited.lineStart ∨
      (sequence.edited.lineStart < line ∧ ∀ element ∈ sequence.visible, element.line.toNat = 0xFFFFFFFF) ∨
      (line < sequence.edited.lineStart ∧ ∀ element ∈ sequence.visible, element.line = 0)
  | findOrInsert kind address =>
    (kind = .advanceAddress ∨ kind = .advanceLine) ∨
      ∃ element ∈ sequence.visible, element.address = address ∧ element.kind = kind
  | setLineAt address line =>
    ∃ element, sequence.lineEntries.find? (·.address == address) = some element ∧ element.line = line
  | modifyElement index change =>
    ∀ element, sequence.edited.elements[index]? = some element →
      (element.isVisible = false ∧ (change element).isVisible = false) ∨ change element = element
  | push element =>
    element.isVisible = false ∨
      ∃ last, sequence.edited.elements.getLast? = some last ∧ element.address < last.address
  | removeIf test => ∀ element ∈ sequence.visible, test element = false
  | clear => sequence.visible = []

end Edit

namespace Edit

/-- An element that shows nothing can stand anywhere between the visible ones. -/
theorem filter_insertIdx_of_hidden {element : DebugElement} (hidden : element.isVisible = false)
    (index : Nat) (elements : List DebugElement) :
    (elements.insertIdx index element).filter DebugElement.isVisible =
      elements.filter DebugElement.isVisible := by
  induction index generalizing elements with
  | zero => simp [hidden]
  | succ index ih =>
      cases elements with
      | nil => rfl
      | cons first rest => simp [List.insertIdx_succ_cons, List.filter_cons, ih]

/-- A further visible element shows. -/
theorem length_filter_insertIdx {element : DebugElement} (shown : element.isVisible = true) {index : Nat}
    {elements : List DebugElement} (within : index ≤ elements.length) :
    ((elements.insertIdx index element).filter DebugElement.isVisible).length =
      (elements.filter DebugElement.isVisible).length + 1 := by
  have same := ((List.perm_insertIdx element elements within).filter DebugElement.isVisible).length_eq
  rwa [List.filter_cons_of_pos shown, List.length_cons] at same

/-- Another element in the place of one changes what shows unless neither shows. -/
theorem filter_modify_eq_iff {change : DebugElement → DebugElement} (index : Nat)
    (elements : List DebugElement) :
    (elements.modify index change).filter DebugElement.isVisible =
        elements.filter DebugElement.isVisible ↔
      ∀ element, elements[index]? = some element →
        (element.isVisible = false ∧ (change element).isVisible = false) ∨ change element = element := by
  induction index generalizing elements with
  | zero =>
      cases elements with
      | nil => simp
      | cons first rest =>
          by_cases before : first.isVisible = true <;>
            by_cases behind : (change first).isVisible = true
          · simp [before, behind]
          · have other : change first ≠ first := fun same => behind (same.symm ▸ before)
            simp [before, behind, other]
          · have other : change first ≠ first := fun same => before (same ▸ behind)
            simp [before, behind, other]
          · simp [before, behind]
  | succ index ih =>
      cases elements with
      | nil => simp
      | cons first rest =>
          rw [List.modify_succ_cons, List.getElem?_cons_succ, ← ih rest, List.filter_cons, List.filter_cons]
          split <;> simp

/-- A line stays where it is when it does not move, or cannot. -/
theorem shiftLine_eq_iff (shift : Int) (line : UInt32) :
    shiftLine shift line = line ↔
      shift = 0 ∨ (0 < shift ∧ line.toNat = 0xFFFFFFFF) ∨ (shift < 0 ∧ line = 0) := by
  have bound := line.toNat_lt
  rw [shiftLine, ← UInt32.toNat_inj, ← UInt32.toNat_inj, UInt32.toNat_ofNat']
  change _ ↔ _ ∨ _ ∨ (_ ∧ line.toNat = 0)
  omega

theorem setLineStart_spares (line : UInt32) :
    (sequence.setLineStart line).visible = sequence.visible ↔ (setLineStart line).Spares sequence := by
  have ahead : sequence.edited.lineStart < line ↔
      0 < (line.toNat : Int) - sequence.edited.lineStart.toNat := by
    rw [UInt32.lt_iff_toNat_lt]
    omega
  have behind : line < sequence.edited.lineStart ↔
      (line.toNat : Int) - sequence.edited.lineStart.toNat < 0 := by
    rw [UInt32.lt_iff_toNat_lt]
    omega
  have there : line = sequence.edited.lineStart ↔
      (line.toNat : Int) - sequence.edited.lineStart.toNat = 0 := by
    rw [← UInt32.toNat_inj]
    omega
  have stays (element : DebugElement) (line : UInt32) :
      ({ element with line } : DebugElement) = element ↔ line = element.line := by
    obtain ⟨address, old, data⟩ := element
    simp
  rw [visible_setLineStart, show (_ = sequence.visible) = (_ = sequence.visible.map id) by rw [List.map_id],
    List.map_inj_left]
  simp only [Spares, id, stays, shiftLine_eq_iff, ahead, behind, there]
  generalize (line.toNat : Int) - sequence.edited.lineStart.toNat = shift
  constructor
  · intro all
    rcases Int.lt_trichotomy shift 0 with less | same | more
    · exact .inr (.inr ⟨less, fun element inside => by have := all element inside; grind⟩)
    · exact .inl same
    · exact .inr (.inl ⟨more, fun element inside => by have := all element inside; grind⟩)
  · grind

@[simp] theorem kind_plain (kind : ElementKind) : (ElementData.plain kind).kind = kind := by
  cases kind <;> rfl

/-- The element that is looked for is found, or a plain one is put between the others. -/
theorem findOrInsert_cases (sequence : DebugSequence) (kind : ElementKind) (address : UInt32) :
    ∃ index found, sequence.findOrInsert kind address = (index, found) ∧ found.dirty = true ∧
      ((found.elements = sequence.edited.elements ∧ ∃ element, found.elements[index]? = some element ∧
          found.elements.find? (fun e => e.address == address && e.kind == kind) = some element) ∨
        ((∀ element ∈ sequence.edited.elements, ¬(element.address = address ∧ element.kind = kind)) ∧
          index ≤ sequence.edited.elements.length ∧ ∃ line, found.elements =
            sequence.edited.elements.insertIdx index ⟨address, line, .plain kind⟩)) := by
  unfold DebugSequence.findOrInsert
  cases place : sequence.edited.elements.findIdx? fun e => e.address == address && e.kind == kind with
  | some index =>
      simp only [place]
      obtain ⟨within, passes, first⟩ := List.findIdx?_eq_some_iff_getElem.1 place
      have listed := List.getElem?_eq_getElem within
      have found : sequence.edited.elements.find? (fun e => e.address == address && e.kind == kind) =
          some sequence.edited.elements[index] :=
        List.find?_eq_some_iff_getElem.2
          ⟨passes, index, within, rfl, fun place before => by
            simpa only [Bool.not_eq_true, Bool.not_eq_true'] using first place before⟩
      exact ⟨_, _, rfl, sequence.dirty_edited, .inl ⟨rfl, _, listed, found⟩⟩
  | none =>
      simp only [place]
      have absent : ∀ element ∈ sequence.edited.elements,
          ¬(element.address = address ∧ element.kind = kind) := by
        intro element inside same
        have fails := List.findIdx?_eq_none_iff.1 place element inside
        simp [same] at fails
      have within := bisect_le (fun i => (sequence.edited.elements.map DebugElement.address).toArray[i]?.any
        (· ≤ address)) sequence.edited.elements.length
      exact ⟨_, _, rfl, sequence.dirty_edited, .inr ⟨absent, by simpa using within, _, rfl⟩⟩

theorem isVisible_eq_false_iff {element : DebugElement} : element.isVisible = false ↔
    element.kind = .advanceAddress ∨ element.kind = .advanceLine := by
  unfold DebugElement.isVisible
  cases element.kind <;> simp

theorem mem_visible {element : DebugElement} :
    element ∈ sequence.visible ↔ element ∈ sequence.edited.elements ∧ element.isVisible = true := by
  rw [← sequence.visible_edited]
  exact List.mem_filter

theorem findOrInsert_spares (kind : ElementKind) (address : UInt32) :
    (sequence.findOrInsert kind address).2.visible = sequence.visible ↔
      (findOrInsert kind address).Spares sequence := by
  have kept : sequence.visible = sequence.edited.elements.filter DebugElement.isVisible :=
    sequence.visible_edited.symm
  obtain ⟨index, found, run, _, ⟨elements, element, listed, finds⟩ | ⟨absent, within, line, elements⟩⟩ :=
    findOrInsert_cases sequence kind address
  · have same : element.address = address ∧ element.kind = kind := by simpa using List.find?_some finds
    rw [run, visible, elements, ← kept]
    simp only [Spares, true_iff]
    by_cases hidden : kind = .advanceAddress ∨ kind = .advanceLine
    · exact .inl hidden
    · rw [← same.2, ← isVisible_eq_false_iff, Bool.not_eq_false] at hidden
      exact .inr ⟨element, mem_visible.2 ⟨elements ▸ List.mem_of_getElem? listed, hidden⟩, same⟩
  · rw [run, visible, elements]
    by_cases hidden : (⟨address, line, .plain kind⟩ : DebugElement).isVisible = false
    · rw [filter_insertIdx_of_hidden hidden, ← kept]
      rw [isVisible_eq_false_iff, DebugElement.kind, kind_plain] at hidden
      simp only [Spares, true_iff]
      exact .inl hidden
    · refine iff_of_false (fun same => ?_) ?_
      · have longer := length_filter_insertIdx (by simpa using hidden) within
        rw [same, kept] at longer
        omega
      · rw [isVisible_eq_false_iff, DebugElement.kind, kind_plain] at hidden
        rintro (steps | ⟨element, shown, same⟩)
        · exact hidden steps
        · exact absent element (mem_visible.1 shown).1 same

theorem modifyElement_spares (index : Nat) (change : DebugElement → DebugElement) :
    (sequence.modifyElement index change).visible = sequence.visible ↔
      (modifyElement index change).Spares sequence := by
  rw [← sequence.visible_edited]
  exact filter_modify_eq_iff index sequence.edited.elements

/-- A change that no element shows or hides leaves the number of visible elements. -/
theorem length_filter_modify {change : DebugElement → DebugElement}
    (same : ∀ element, (change element).isVisible = element.isVisible) (index : Nat)
    (elements : List DebugElement) :
    ((elements.modify index change).filter DebugElement.isVisible).length =
      (elements.filter DebugElement.isVisible).length := by
  induction index generalizing elements with
  | zero => cases elements <;> simp [List.filter_cons, same, apply_ite List.length]
  | succ index ih =>
      cases elements with
      | nil => rfl
      | cons first rest =>
          simp only [List.modify_succ_cons, List.filter_cons, apply_ite List.length, List.length_cons, ih]

theorem setLineAt_spares (address line : UInt32) :
    (sequence.setLineAt address line).2.visible = sequence.visible ↔
      (setLineAt address line).Spares sequence := by
  have kept : sequence.visible = sequence.edited.elements.filter DebugElement.isVisible :=
    sequence.visible_edited.symm
  have entries : sequence.lineEntries.find? (·.address == address) =
      sequence.edited.elements.find? (fun e => e.address == address && e.kind == .lineEntry) := by
    rw [lineEntries_eq, ← sequence.visible_edited, ← lineEntries_eq, lineEntries, List.find?_filter]
    refine congrArg (List.find? · sequence.edited.elements) (funext fun element => ?_)
    rw [Bool.decide_and, Bool.decide_eq_true, Bool.decide_eq_true, Bool.and_comm]
  have shown : ∀ element : DebugElement, DebugElement.isVisible { element with line } =
      element.isVisible := fun _ => rfl
  obtain ⟨index, found, run, dirty, cases⟩ := findOrInsert_cases sequence .lineEntry address
  have result : (sequence.setLineAt address line).2.visible =
      (found.elements.modify index fun element => { element with line }).filter
        DebugElement.isVisible := by
    unfold DebugSequence.setLineAt
    rw [run]
    change (List.filter _ (List.modify found.edited.elements _ _)) = _
    rw [edited, if_pos dirty]
  rw [result]
  simp only [Spares, entries]
  rcases cases with ⟨elements, element, listed, finds⟩ | ⟨absent, within, before, elements⟩
  · have entry : element.kind = .lineEntry := by
      have same : element.address = address ∧ element.kind = .lineEntry := by
        simpa using List.find?_some finds
      exact same.2
    have visible : element.isVisible = true := by
      unfold DebugElement.isVisible
      rw [entry]
      rfl
    rw [kept, ← elements, filter_modify_eq_iff, listed, finds]
    constructor
    · intro spares
      rcases spares element rfl with ⟨hidden, _⟩ | same
      · rw [visible] at hidden
        cases hidden
      · exact ⟨element, rfl, (congrArg DebugElement.line same).symm⟩
    · rintro ⟨_, ⟨⟩, rfl⟩ _ ⟨⟩
      exact .inr rfl
  · have none : sequence.edited.elements.find?
        (fun e => e.address == address && e.kind == .lineEntry) = none := by
      simpa using absent
    rw [none]
    refine iff_of_false (fun same => ?_) (by simp)
    have entry : (⟨address, before, .plain .lineEntry⟩ : DebugElement).isVisible = true := rfl
    have longer := length_filter_insertIdx entry within
    rw [← elements, ← length_filter_modify shown index, same, kept] at longer
    omega

theorem removeIf_spares (test : DebugElement → Bool) :
    (sequence.removeIf test).2.visible = sequence.visible ↔ (removeIf test).Spares sequence := by
  have left : (sequence.removeIf test).2.visible = sequence.visible.filter fun element => !test element := by
    rw [← sequence.visible_edited]
    change List.filter _ (List.filter _ _) = List.filter _ (List.filter _ _)
    rw [List.filter_filter, List.filter_filter]
    exact List.filter_congr fun element _ => Bool.and_comm ..
  rw [left, List.filter_eq_self]
  simp [Spares]

/-- An element is refused in front of the last one, and else becomes the last one. -/
theorem ends_push {element : DebugElement} (ends : (DebugSequence.push element).Ends sequence final) :
    final = sequence.edited ∧ (∃ last, sequence.edited.elements.getLast? = some last ∧
        element.address < last.address) ∨
      final.dirty = true ∧ final.elements = sequence.edited.elements ++ [element] ∧
        ¬∃ last, sequence.edited.elements.getLast? = some last ∧ element.address < last.address := by
  unfold Step.Ends DebugSequence.push at ends
  cases final? : sequence.edited.elements.getLast? with
  | none =>
      simp only [Step.bind_apply, Step.modify_apply, Step.get_apply, final?] at ends
      rcases ends with ⟨_, run⟩ | ⟨_, run⟩ <;> cases run
      exact .inr ⟨sequence.dirty_edited, rfl, by simp⟩
  | some last =>
      by_cases before : element.address < last.address
      · simp only [Step.bind_apply, Step.modify_apply, Step.get_apply, final?, if_pos before,
          Step.fail_apply] at ends
        rcases ends with ⟨_, run⟩ | ⟨_, run⟩ <;> cases run
        exact .inl ⟨rfl, last, rfl, before⟩
      · simp only [Step.bind_apply, Step.modify_apply, Step.get_apply, final?, if_neg before] at ends
        rcases ends with ⟨_, run⟩ | ⟨_, run⟩ <;> cases run
        exact .inr ⟨sequence.dirty_edited, rfl, by simpa using before⟩

theorem push_spares (element : DebugElement) (ends : (DebugSequence.push element).Ends sequence final) :
    final.dirty = true ∧ (final.visible = sequence.visible ↔ (push element).Spares sequence) := by
  rcases ends_push ends with ⟨rfl, before⟩ | ⟨dirty, elements, behind⟩
  · rw [visible_edited]
    simp only [Spares, true_iff]
    exact ⟨sequence.dirty_edited, .inr before⟩
  · refine ⟨dirty, ?_⟩
    rw [← sequence.visible_edited, visible, visible, elements, List.filter_append, List.append_right_eq_self]
    simp [Spares, behind]

theorem ends_modify {change : DebugSequence → DebugSequence}
    (ends : (modify change : Step DebugSequence Unit).Ends sequence final) : final = change sequence := by
  rcases ends with ⟨_, run⟩ | ⟨_, run⟩ <;> cases run
  rfl

/-- Wherever an edit ends, the sequence is written from its visible elements, and these are the ones that
it had when the edit spares them. -/
theorem visible_eq_iff (edit : Edit) (ends : edit.step.Ends sequence final) :
    final.dirty = true ∧ (final.visible = sequence.visible ↔ edit.Spares sequence) := by
  cases edit with
  | setLineStart line =>
      cases ends_modify ends
      exact ⟨sequence.dirty_edited, setLineStart_spares line⟩
  | findOrInsert kind address =>
      cases ends_modify ends
      obtain ⟨_, _, run, dirty, _⟩ := findOrInsert_cases sequence kind address
      exact ⟨by rw [run]; exact dirty, findOrInsert_spares kind address⟩
  | setLineAt address line =>
      cases ends_modify ends
      exact ⟨dirty_edited _, setLineAt_spares address line⟩
  | modifyElement index change =>
      cases ends_modify ends
      exact ⟨sequence.dirty_edited, modifyElement_spares index change⟩
  | push element => exact push_spares element ends
  | removeIf test =>
      cases ends_modify ends
      exact ⟨sequence.dirty_edited, removeIf_spares test⟩
  | clear =>
      cases ends_modify ends
      exact ⟨rfl, eq_comm⟩

end Edit

end DebugSequence
end Dex
end DexArsc
