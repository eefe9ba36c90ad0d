/-
The line table of debug sequences. Another starting line moves all lines, which stay within 32 bits. New elements are
put in the order of the addresses, which every edit keeps.
-/

import DexArsc.Proofs.Dex.Debug.Reencoded

namespace DexArsc.Dex

open Reader

/-- The elements with the addresses at which they are written: none lies before the one in front of it. -/
def raise : (address : UInt32) → List DebugElement → List DebugElement
  | _, [] => []
  | address, element :: rest =>
    { element with address := max address element.address } :: raise (max address element.address) rest

theorem max_eq_of_not_le {first second : UInt32} (behind : ¬first ≤ second) : max first second = first :=
  if_neg behind

theorem le_max_left (first second : UInt32) : first ≤ max first second := by
  by_cases before : first ≤ second
  · rwa [max_eq_of_le before]
  · rw [max_eq_of_not_le before]
    exact UInt32.le_refl first

theorem ascending_raise (elements : List DebugElement) (address : UInt32) :
    Ascending address (raise address elements) := by
  induction elements generalizing address with
  | nil => trivial
  | cons element rest ih => exact ⟨le_max_left address element.address, ih _⟩

theorem raise_eq_self {elements : List DebugElement} {address : UInt32} (ascending : Ascending address elements) :
    raise address elements = elements := by
  induction elements generalizing address with
  | nil => rfl
  | cons element rest ih => rw [raise, max_eq_of_le ascending.1, ih ascending.2]

theorem map_line_raise (elements : List DebugElement) (address : UInt32) :
    ((raise address elements).filter (·.kind == .lineEntry)).map DebugElement.line =
      (elements.filter (·.kind == .lineEntry)).map DebugElement.line := by
  induction elements generalizing address with
  | nil => rfl
  | cons element rest ih =>
      have kind : ({ element with address := max address element.address } : DebugElement).kind = element.kind := rfl
      by_cases entry : element.kind = .lineEntry <;> simp [raise, kind, entry, ih]

theorem isVisible_of_mem_raise {elements : List DebugElement} (visible : ∀ e ∈ elements, e.isVisible)
    (address : UInt32) : ∀ e ∈ raise address elements, e.isVisible := by
  induction elements generalizing address with
  | nil => exact visible
  | cons element rest ih =>
      obtain ⟨first, later⟩ := List.forall_mem_cons.1 visible
      exact List.forall_mem_cons.2 ⟨first, ih later _⟩

/-- The steps to an element are those to the address at which it is written. -/
theorem visibleSteps_raise (elements : List DebugElement) (address line : UInt32) :
    visibleSteps address line (raise address elements) = visibleSteps address line elements := by
  induction elements generalizing address line with
  | nil => rfl
  | cons element rest ih =>
      obtain ⟨place, old, data⟩ := element
      by_cases before : address ≤ place
      · simp only [raise, max_eq_of_le before]
        cases data <;> simp only [visibleSteps, max_eq_of_le before, ih]
      · have stays : ¬address < place := fun ahead => before (UInt32.le_of_lt ahead)
        simp only [raise, max_eq_of_not_le before]
        cases data <;> simp [visibleSteps, max_eq_of_not_le before, max_eq_of_le (UInt32.le_refl address), ih, before,
          stays]

namespace DebugSequence

variable {sequence final : DebugSequence}

theorem lineStart_of_dirty (dirty : sequence.dirty = true) :
    sequence.lineStart = ((sequence.lineEntries.map DebugElement.line).head?).getD sequence.start := by
  rw [lineStart, if_pos dirty]
  cases sequence.lineEntries <;> rfl

theorem map_snd_positions (sequence : DebugSequence) :
    sequence.positions.map Prod.snd = sequence.lineEntries.map DebugElement.line := by
  rw [positions, List.map_map]
  rfl

/-- A dirty sequence is read back from its bytes with the same lines, and with the same positions where its visible
elements are in the order of their addresses. -/
theorem reads_of_dirty (dirty : sequence.dirty = true) :
    ∃ back, Reads (DebugSequence.read sequence.lineStart) sequence.bytes back ∧ back.lineStart = sequence.lineStart ∧
      back.positions.map Prod.snd = sequence.positions.map Prod.snd ∧
      (Ascending 0 sequence.visible → back.positions = sequence.positions) := by
  -- Every element is written at the greatest address so far, so the sequence is read back from the bytes of the one
  -- whose elements stand there.
  obtain ⟨raised, same⟩ : ∃ raised : DebugSequence, raised = { sequence with elements := raise 0 sequence.visible } :=
    ⟨_, rfl⟩
  have visible : raised.visible = raise 0 sequence.visible := by
    rw [same]
    exact List.filter_eq_self.2 (isVisible_of_mem_raise (fun e inside => (List.mem_filter.1 inside).2) 0)
  have dirtyRaised : raised.dirty = true := by rw [same]; exact dirty
  have lines : raised.lineEntries.map DebugElement.line = sequence.lineEntries.map DebugElement.line := by
    rw [lineEntries_eq, visible, map_line_raise, ← lineEntries_eq]
  have lineStart : raised.lineStart = sequence.lineStart := by
    rw [lineStart_of_dirty dirtyRaised, lineStart_of_dirty dirty, lines, same]
  have bytes : raised.bytes = sequence.bytes := by
    rw [bytes_eq, bytes_eq, contents, contents, if_pos dirtyRaised, if_pos dirty, visible, lineStart,
      visibleSteps_raise]
  have sound := Sound.of_dirty dirtyRaised (visible ▸ ascending_raise sequence.visible 0)
  have positions : raised.bare.positions = raised.positions :=
    (positions_of_event_eq (event_bare sound)).trans (positions_mapRefs ..)
  refine ⟨raised.bare, ?_, lineStart, ?_, fun ascending => ?_⟩
  · rw [← lineStart, ← bytes]
    exact reads sound
  · rw [positions, map_snd_positions, map_snd_positions, lines]
  · rw [positions, DebugSequence.positions, lineEntries_eq, visible, raise_eq_self ascending, ← lineEntries_eq,
      DebugSequence.positions]

/-- A line moves by the whole shift exactly when it stays within 32 bits. -/
theorem toNat_shiftLine_iff (shift : Int) (line : UInt32) :
    ((shiftLine shift line).toNat : Int) = line.toNat + shift ↔
      0 ≤ line.toNat + shift ∧ line.toNat + shift < UInt32.size := by
  have bound := line.toNat_lt
  rw [shiftLine, UInt32.toNat_ofNat']
  change _ ↔ _ ∧ _ < (4294967296 : Int)
  omega

theorem shiftLine_sub (line other : UInt32) : shiftLine ((line.toNat : Int) - other.toNat) other = line := by
  have moved := (toNat_shiftLine_iff (line.toNat - other.toNat) other).2
  have there : (other.toNat : Int) + (line.toNat - other.toNat) = line.toNat := by omega
  rw [there] at moved
  exact UInt32.toNat_inj.1 (Int.ofNat_inj.1 (moved ⟨Int.natCast_nonneg _, Int.ofNat_lt.2 line.toNat_lt⟩))

theorem lineEntries_setLineStart (sequence : DebugSequence) (line : UInt32) :
    (sequence.setLineStart line).lineEntries = sequence.lineEntries.map fun element =>
      { element with line := shiftLine ((line.toNat : Int) - sequence.edited.lineStart.toNat) element.line } := by
  rw [lineEntries_eq, lineEntries_eq, visible_setLineStart]
  exact List.filter_map

/-- A sequence ready for an edit starts at its first line. -/
theorem lineStart_edited {first : DebugElement} (leads : sequence.lineEntries.head? = some first) :
    sequence.edited.lineStart = first.line := by
  rw [lineStart_of_dirty sequence.dirty_edited, lineEntries_edited, List.head?_map, leads]
  rfl

theorem lineStart_setLineStart (sequence : DebugSequence) (line : UInt32) :
    (sequence.setLineStart line).lineStart = line := by
  have dirty : (sequence.setLineStart line).dirty = true := sequence.dirty_edited
  rw [lineStart_of_dirty dirty, lineEntries_setLineStart, List.head?_map, List.head?_map]
  cases leads : sequence.lineEntries.head? with
  | none => rfl
  | some first =>
      rw [lineStart_edited leads]
      exact shiftLine_sub line first.line

/-- Where all differences of lines are kept, all lines move by the whole shift. -/
theorem moves_of_differences {line : UInt32} {shift : Int}
    (distance : shift = line.toNat - sequence.edited.lineStart.toNat)
    (kept : ∀ one ∈ sequence.positions, ∀ other ∈ sequence.positions,
      ((shiftLine shift one.2).toNat : Int) - (shiftLine shift other.2).toNat = one.2.toNat - other.2.toNat) :
    ∀ position ∈ sequence.positions, ((shiftLine shift position.2).toNat : Int) = position.2.toNat + shift := by
  intro position inside
  obtain ⟨element, listed, rfl⟩ := List.mem_map.1 inside
  obtain ⟨first, rest, entries⟩ := List.exists_cons_of_ne_nil (List.ne_nil_of_mem listed)
  have leads : sequence.lineEntries.head? = some first := congrArg List.head? entries
  rw [lineStart_edited leads] at distance
  have moves : shiftLine shift first.line = line := distance ▸ shiftLine_sub line first.line
  have difference := kept _ inside _ (List.mem_map_of_mem (List.mem_of_head? leads))
  dsimp only at difference ⊢
  rw [moves] at difference
  omega

/-- Another starting line moves every line by the same shift as far as it stays within 32 bits. All lines move by the
whole shift, and all their differences are kept, exactly when none of them leaves this range. The lines are those that
are read back. -/
theorem positions_setLineStart (sequence : DebugSequence) (line : UInt32) :
    let shift : Int := line.toNat - sequence.edited.lineStart.toNat
    let moved := sequence.setLineStart line
    let Within := ∀ position ∈ sequence.positions,
      0 ≤ position.2.toNat + shift ∧ position.2.toNat + shift < UInt32.size
    moved.lineStart = line ∧ moved.positions = sequence.positions.map (Prod.map id (shiftLine shift)) ∧
      ((∀ position ∈ sequence.positions, ((shiftLine shift position.2).toNat : Int) = position.2.toNat + shift) ↔
        Within) ∧
      ((∀ one ∈ sequence.positions, ∀ other ∈ sequence.positions,
          ((shiftLine shift one.2).toNat : Int) - (shiftLine shift other.2).toNat = one.2.toNat - other.2.toNat) ↔
        Within) ∧
      ∃ back, Reads (DebugSequence.read line) moved.bytes back ∧ back.lineStart = line ∧
        back.positions.map Prod.snd = moved.positions.map Prod.snd ∧
        (Ascending 0 sequence.visible → back.positions = moved.positions) := by
  intro shift moved Within
  have dirty : moved.dirty = true := sequence.dirty_edited
  have lineStart : moved.lineStart = line := lineStart_setLineStart sequence line
  have positions : moved.positions = sequence.positions.map (Prod.map id (shiftLine shift)) := by
    rw [DebugSequence.positions, lineEntries_setLineStart, DebugSequence.positions, List.map_map, List.map_map]
    rfl
  have exact : (∀ position ∈ sequence.positions,
      ((shiftLine shift position.2).toNat : Int) = position.2.toNat + shift) ↔ Within :=
    forall₂_congr fun position _ => toNat_shiftLine_iff shift position.2
  refine ⟨lineStart, positions, exact, ⟨fun kept => exact.1 (moves_of_differences rfl kept), fun within => ?_⟩, ?_⟩
  · intro one inside other inside'
    have here := exact.2 within one inside
    have there := exact.2 within other inside'
    omega
  · obtain ⟨back, reads, start, lines, same⟩ := reads_of_dirty dirty
    rw [lineStart] at reads start
    refine ⟨back, reads, start, lines, fun ascending => same (ascending_iff.2 ?_)⟩
    rw [visible_setLineStart, List.map_map]
    exact ascending_iff.1 ascending

/-- The line below the first one would leave the range, and stops at zero. -/
example : (DebugSequence.setLineStart
    { dirty := true, elements := [⟨0, 10, .lineEntry 0⟩, ⟨1, 3, .lineEntry 0⟩] } 5).positions = [(0, 5), (1, 0)] := by
  decide

/-- The elements are in the order of their addresses. -/
def Ordered (sequence : DebugSequence) : Prop :=
  (sequence.elements.map DebugElement.address).Pairwise (· ≤ ·)

theorem Ordered.of_sublist (ordered : sequence.Ordered) (fewer : (final.elements.map DebugElement.address).Sublist
    (sequence.elements.map DebugElement.address)) : final.Ordered :=
  List.Pairwise.sublist fewer ordered

theorem Ordered.of_address_eq (ordered : sequence.Ordered) (same : final.elements.map DebugElement.address =
    sequence.elements.map DebugElement.address) : final.Ordered :=
  ordered.of_sublist (same ▸ List.Sublist.refl _)

theorem elements_edited_sublist (sequence : DebugSequence) : sequence.edited.elements.Sublist sequence.elements := by
  unfold edited
  split
  · exact List.Sublist.refl _
  · exact List.filter_sublist

theorem Ordered.edited (ordered : sequence.Ordered) : sequence.edited.Ordered :=
  ordered.of_sublist (sequence.elements_edited_sublist.map DebugElement.address)

/-- Ordered elements are those up to an address, and those behind it. -/
theorem exists_split_of_ordered {elements : List DebugElement}
    (ordered : (elements.map DebugElement.address).Pairwise (· ≤ ·)) (address : UInt32) :
    ∃ before after, elements = before ++ after ∧ (∀ element ∈ before, element.address ≤ address) ∧
      ∀ element ∈ after, address < element.address := by
  induction elements with
  | nil => exact ⟨[], [], rfl, nofun, nofun⟩
  | cons first rest ih =>
      obtain ⟨ahead, ordered⟩ := List.pairwise_cons.1 ordered
      by_cases near : first.address ≤ address
      · obtain ⟨before, after, rfl, up, behind⟩ := ih ordered
        exact ⟨first :: before, after, rfl, List.forall_mem_cons.2 ⟨near, up⟩, behind⟩
      · have far := UInt32.not_le.1 near
        exact ⟨[], first :: rest, rfl, nofun, List.forall_mem_cons.2 ⟨far, fun element inside =>
          UInt32.lt_of_lt_of_le far (ahead _ (List.mem_map_of_mem inside))⟩⟩

/-- In front of the elements behind an address, bisection counts those up to it. -/
theorem bisect_address {before after : List DebugElement} {address : UInt32}
    (up : ∀ element ∈ before, element.address ≤ address) (behind : ∀ element ∈ after, address < element.address) :
    bisect (fun i => ((before ++ after).map DebugElement.address).toArray[i]?.any (· ≤ address))
      ((before ++ after).map DebugElement.address).toArray.size = before.length := by
  refine bisect_eq (by simp) fun place below => ?_
  have within : place < (before ++ after).length := by simpa using below
  have passes : ((before ++ after).map DebugElement.address).toArray[place]?.any (· ≤ address) = true ↔
      (before ++ after)[place].address ≤ address := by
    rw [List.getElem?_toArray, List.getElem?_map, List.getElem?_eq_getElem within]
    exact decide_eq_true_iff
  rw [passes]
  by_cases front : place < before.length
  · rw [List.getElem_append_left front]
    exact iff_of_true (up _ (List.getElem_mem front)) front
  · rw [List.getElem_append_right (Nat.not_lt.1 front)]
    exact iff_of_false (UInt32.not_le.2 (behind _ (List.getElem_mem _))) front

theorem insertIdx_length_append {α : Type} (before after : List α) (value : α) :
    (before ++ after).insertIdx before.length value = before ++ value :: after := by
  induction before with
  | nil => rfl
  | cons first rest ih => rw [List.cons_append, List.length_cons, List.insertIdx_succ_cons, ih, List.cons_append]

theorem modify_length_append {α : Type} (before after : List α) (value : α) (change : α → α) :
    (before ++ value :: after).modify before.length change = before ++ change value :: after := by
  induction before with
  | nil => rfl
  | cons first rest ih => rw [List.cons_append, List.length_cons, List.modify_succ_cons, ih, List.cons_append]

@[simp] theorem edited_withElements (sequence : DebugSequence) (elements : List DebugElement) :
    ({ sequence.edited with elements } : DebugSequence).edited = { sequence.edited with elements } :=
  edited_of_dirty sequence.dirty_edited

/-- An element is found where the first one of its kind stands at its address. -/
theorem findOrInsert_of_found {kind : ElementKind} {address : UInt32} {before after : List DebugElement}
    {element : DebugElement} (elements : sequence.edited.elements = before ++ element :: after)
    (same : element.address = address ∧ element.kind = kind)
    (first : ∀ e ∈ before, ¬(e.address = address ∧ e.kind = kind)) :
    sequence.findOrInsert kind address = (before.length, sequence.edited) := by
  have found : sequence.edited.elements.findIdx? (fun e => e.address == address && e.kind == kind) =
      some before.length := by
    rw [elements, List.findIdx?_append, List.findIdx?_eq_none_iff.2 (by simpa using first), List.findIdx?_cons]
    simp [same]
  rw [findOrInsert]
  simp only [found]

/-- In ordered elements, the first element of a kind at an address is found, or else a new one is put behind all those
up to the address. -/
theorem findOrInsert_split (ordered : sequence.edited.Ordered) (kind : ElementKind) (address : UInt32) :
    ∃ before element after,
      sequence.findOrInsert kind address =
        (before.length, { sequence.edited with elements := before ++ element :: after }) ∧
      (element.address = address ∧ element.kind = kind) ∧
      (∀ e ∈ before, ¬(e.address = address ∧ e.kind = kind)) ∧
      (sequence.edited.elements = before ++ element :: after ∨
        sequence.edited.elements = before ++ after ∧ (∀ e ∈ before, e.address ≤ address) ∧
          ∀ e ∈ after, address < e.address) := by
  cases place : sequence.edited.elements.findIdx? fun e => e.address == address && e.kind == kind with
  | some index =>
      obtain ⟨within, passes, first⟩ := List.findIdx?_eq_some_iff_getElem.1 place
      have same : sequence.edited.elements[index].address = address ∧
          sequence.edited.elements[index].kind = kind := by simpa using passes
      have elements : sequence.edited.elements = sequence.edited.elements.take index ++
          sequence.edited.elements[index] :: sequence.edited.elements.drop (index + 1) := by
        rw [List.getElem_cons_drop, List.take_append_drop]
      have others : ∀ e ∈ sequence.edited.elements.take index, ¬(e.address = address ∧ e.kind = kind) := by
        intro e inside there
        obtain ⟨place, below, rfl⟩ := List.mem_take_iff_getElem.1 inside
        exact first place (by omega) (by simpa using there)
      refine ⟨_, _, _, ?_, same, others, .inl elements⟩
      rw [← elements]
      exact findOrInsert_of_found elements same others
  | none =>
      have absent : ∀ e ∈ sequence.edited.elements, ¬(e.address = address ∧ e.kind = kind) := by
        simpa using List.findIdx?_eq_none_iff.1 place
      obtain ⟨before, after, elements, up, behind⟩ := exists_split_of_ordered ordered address
      refine ⟨before, ⟨address, sequence.edited.lineBefore before.length, .plain kind⟩, after, ?_,
        ⟨rfl, Edit.kind_plain kind⟩, fun e inside => absent e ?_, .inr ⟨elements, up, behind⟩⟩
      · rw [findOrInsert]
        simp only [place]
        rw [elements, bisect_address up behind, insertIdx_length_append]
      · rw [elements]
        exact List.mem_append_left _ inside

/-- What looking for an element of a kind at an address yields: such an element, which is found again. Nothing changes
where there was one, and else one is put behind all elements up to the address. -/
structure Placed (sequence : DebugSequence) (kind : ElementKind) (address : UInt32) (index : Nat)
    (found : DebugSequence) : Prop where
  there : ∃ element, found.elements[index]? = some element ∧ element.address = address ∧ element.kind = kind
  again : found.findOrInsert kind address = (index, found)
  kept : (∃ e ∈ sequence.visible, e.address = address ∧ e.kind = kind) → found = sequence.edited
  inserted : (∀ e ∈ sequence.visible, ¬(e.address = address ∧ e.kind = kind)) → ∃ before element after,
    index = before.length ∧ sequence.edited.elements = before ++ after ∧
      found = { sequence.edited with elements := before ++ element :: after } ∧
      (∀ e ∈ before, e.address ≤ address) ∧ (∀ e ∈ after, address < e.address) ∧
      sequence.visible = before.filter DebugElement.isVisible ++ after.filter DebugElement.isVisible ∧
      found.visible = before.filter DebugElement.isVisible ++ element :: after.filter DebugElement.isVisible

/-- A visible element is found, or put in its place. -/
theorem placed_findOrInsert (ordered : sequence.edited.Ordered) {kind : ElementKind}
    (shown : kind ≠ .advanceAddress ∧ kind ≠ .advanceLine) (address : UInt32) :
    sequence.Placed kind address (sequence.findOrInsert kind address).1 (sequence.findOrInsert kind address).2 := by
  obtain ⟨before, element, after, run, same, first, elements⟩ := findOrInsert_split ordered kind address
  have visible : element.isVisible = true := by
    rw [← Bool.not_eq_false, Edit.isVisible_eq_false_iff, same.2]
    exact not_or.2 shown
  have kept : sequence.visible = sequence.edited.elements.filter DebugElement.isVisible :=
    sequence.visible_edited.symm
  rw [run]
  refine ⟨⟨element, by simp, same⟩, ?_, ?_, ?_⟩
  · rw [findOrInsert_of_found (by rw [edited_withElements]) same first, edited_withElements]
  · rintro ⟨e, inside, here⟩
    rcases elements with found | ⟨split, up, behind⟩
    · rw [← found]
    · obtain ⟨inside, _⟩ := Edit.mem_visible.1 inside
      rw [split, List.mem_append] at inside
      rcases inside with front | back
      · exact absurd here (first e front)
      · exact absurd here.1 (UInt32.ne_of_lt (behind e back)).symm
  · intro absent
    rcases elements with found | ⟨split, up, behind⟩
    · refine absurd same (absent element (Edit.mem_visible.2 ⟨?_, visible⟩))
      rw [found]
      exact List.mem_append_right _ List.mem_cons_self
    · refine ⟨before, element, after, rfl, split, rfl, up, behind, ?_, ?_⟩
      · rw [kept, split, List.filter_append]
      · rw [DebugSequence.visible, List.filter_append, List.filter_cons_of_pos visible]

/-- The addresses and lines of the entries among elements. -/
def lineTable (elements : List DebugElement) : List (UInt32 × UInt32) :=
  (elements.filter (·.kind == .lineEntry)).map fun element => (element.address, element.line)

theorem positions_eq_lineTable (sequence : DebugSequence) :
    sequence.positions = lineTable sequence.edited.elements := by
  rw [positions, ← lineEntries_edited]
  rfl

theorem lineTable_append (front back : List DebugElement) :
    lineTable (front ++ back) = lineTable front ++ lineTable back := by
  simp [lineTable]

theorem lineTable_cons {element : DebugElement} (entry : element.kind = .lineEntry) (rest : List DebugElement) :
    lineTable (element :: rest) = (element.address, element.line) :: lineTable rest := by
  simp [lineTable, entry]

theorem exists_of_mem_lineTable {elements : List DebugElement} {position : UInt32 × UInt32}
    (inside : position ∈ lineTable elements) :
    ∃ element ∈ elements, element.kind = .lineEntry ∧ element.address = position.1 := by
  obtain ⟨element, listed, rfl⟩ := List.mem_map.1 inside
  obtain ⟨listed, entry⟩ := List.mem_filter.1 listed
  exact ⟨element, listed, by simpa using entry, rfl⟩

/-- A line table with a line at an address: the first entry at the address receives the line, or else a new entry stands
in the order of the addresses. -/
def Enters (address line : UInt32) (old new : List (UInt32 × UInt32)) : Prop :=
  ∃ before after, new = before ++ (address, line) :: after ∧ (∀ position ∈ before, position.1 ≠ address) ∧
    ((∃ former, old = before ++ (address, former) :: after) ∨
      old = before ++ after ∧ (∀ position ∈ before, position.1 < address) ∧
        ∀ position ∈ after, address < position.1)

/-- The entry that is found, or put in its place, receives the line. -/
theorem setLineAt_eq {address line : UInt32} {before after : List DebugElement} {element : DebugElement}
    (run : sequence.findOrInsert .lineEntry address =
      (before.length, { sequence.edited with elements := before ++ element :: after })) :
    sequence.setLineAt address line =
      (before.length, { sequence.edited with elements := before ++ { element with line } :: after }) := by
  rw [setLineAt, run]
  simp only [modifyElement, edited_withElements, modify_length_append]

theorem enters_setLineAt (ordered : sequence.edited.Ordered) (address line : UInt32) :
    Enters address line sequence.positions (sequence.setLineAt address line).2.positions := by
  obtain ⟨before, element, after, run, ⟨here, entry⟩, first, elements⟩ :=
    findOrInsert_split ordered .lineEntry address
  have apart : ∀ position ∈ lineTable before, position.1 ≠ address := by
    intro position inside same
    obtain ⟨e, listed, entry, there⟩ := exists_of_mem_lineTable inside
    exact first e listed ⟨there.trans same, entry⟩
  have new : (sequence.setLineAt address line).2.positions =
      lineTable before ++ (address, line) :: lineTable after := by
    rw [setLineAt_eq run]
    change lineTable (before ++ { element with line } :: after) = _
    rw [lineTable_append, lineTable_cons (by exact entry)]
    rw [here]
  refine ⟨_, _, new, apart, elements.imp (fun found => ⟨element.line, ?_⟩) fun ⟨split, up, behind⟩ => ⟨?_, ?_, ?_⟩⟩
  · rw [positions_eq_lineTable, found, lineTable_append, lineTable_cons entry, here]
  · rw [positions_eq_lineTable, split, lineTable_append]
  · intro position inside
    obtain ⟨e, listed, _, there⟩ := exists_of_mem_lineTable inside
    exact UInt32.lt_of_le_of_ne (there ▸ up e listed) (apart position inside)
  · intro position inside
    obtain ⟨e, listed, _, there⟩ := exists_of_mem_lineTable inside
    exact there ▸ behind e listed

/-- The edit gives no element another address. -/
def Edit.Orderly : Edit → Prop
  | modifyElement _ _ => False
  | _ => True

theorem ordered_split {before after : List DebugElement} {element : DebugElement}
    (ordered : ((before ++ after).map DebugElement.address).Pairwise (· ≤ ·))
    (up : ∀ e ∈ before, e.address ≤ element.address) (behind : ∀ e ∈ after, element.address < e.address) :
    ((before ++ element :: after).map DebugElement.address).Pairwise (· ≤ ·) := by
  rw [List.map_append, List.pairwise_append] at ordered
  obtain ⟨front, back, across⟩ := ordered
  rw [List.map_append, List.map_cons, List.pairwise_append, List.pairwise_cons]
  refine ⟨front, ⟨?_, back⟩, ?_⟩
  · simpa using fun e inside => UInt32.le_of_lt (behind e inside)
  · intro address inside other listed
    rcases List.mem_cons.1 listed with rfl | listed
    · obtain ⟨e, front, rfl⟩ := List.mem_map.1 inside
      exact up e front
    · exact across address inside other listed

theorem ordered_findOrInsert (ordered : sequence.edited.Ordered) (kind : ElementKind) (address : UInt32) :
    (sequence.findOrInsert kind address).2.Ordered := by
  obtain ⟨before, element, after, run, ⟨here, _⟩, _, found | ⟨split, up, behind⟩⟩ :=
    findOrInsert_split ordered kind address
  · rw [run, ← found]
    exact ordered
  · rw [run]
    rw [Ordered, split] at ordered
    exact ordered_split ordered (here ▸ up) (here ▸ behind)

/-- An element that does not precede the last one precedes none. -/
theorem ordered_push {elements : List DebugElement} {element : DebugElement}
    (ordered : (elements.map DebugElement.address).Pairwise (· ≤ ·))
    (behind : ¬∃ last, elements.getLast? = some last ∧ element.address < last.address) :
    ((elements ++ [element]).map DebugElement.address).Pairwise (· ≤ ·) := by
  refine ordered_split (by rwa [List.append_nil]) (fun e inside => ?_) nofun
  obtain ⟨front, last, rfl⟩ := (List.eq_nil_or_concat elements).resolve_left (List.ne_nil_of_mem inside)
  have near : last.address ≤ element.address :=
    UInt32.not_lt.1 fun ahead => behind ⟨last, by simp, ahead⟩
  refine UInt32.le_trans ?_ near
  rw [List.concat_eq_append] at ordered inside
  rw [List.map_append, List.pairwise_append] at ordered
  rcases List.mem_append.1 inside with early | here
  · exact ordered.2.2 _ (List.mem_map_of_mem early) _ List.mem_cons_self
  · rw [List.mem_singleton.1 here]
    exact UInt32.le_refl last.address

theorem Ordered.of_edit (ordered : sequence.Ordered) (edit : Edit) (orderly : edit.Orderly)
    (ends : edit.step.Ends sequence final) : final.Ordered := by
  have ready := ordered.edited
  cases edit with
  | setLineStart line =>
      cases Edit.ends_modify ends
      exact ready.of_address_eq List.map_map
  | findOrInsert kind address =>
      cases Edit.ends_modify ends
      exact ordered_findOrInsert ready kind address
  | setLineAt address line =>
      cases Edit.ends_modify ends
      obtain ⟨before, element, after, run, _⟩ := findOrInsert_split ready .lineEntry address
      have found := ordered_findOrInsert ready .lineEntry address
      rw [run] at found
      refine found.of_address_eq ?_
      rw [setLineAt_eq run]
      simp
  | modifyElement index change => exact orderly.elim
  | push element =>
      rcases Edit.ends_push ends with ⟨rfl, _⟩ | ⟨_, elements, behind⟩
      · exact ready
      · rw [Ordered, elements]
        exact ordered_push ready behind
  | removeIf test =>
      cases Edit.ends_modify ends
      exact ready.of_sublist (List.filter_sublist.map DebugElement.address)
  | clear =>
      cases Edit.ends_modify ends
      exact List.Pairwise.nil

/-- The sequences that edits make of new ones, and of those that are read from bytes whose addresses do not wrap. A
removal may go by a test that remembers what it has seen. -/
inductive Reached : DebugSequence → Prop
  | make (start : UInt32) : Reached (DebugSequence.make start)
  | read {start : UInt32} {cursor after : Cursor} {sequence : DebugSequence}
      (run : DebugSequence.read start cursor = .ok sequence after)
      (near : (sequence.elements.map fun element => element.data.addressStep).sum < UInt32.size) : Reached sequence
  | edit {sequence final : DebugSequence} (reached : Reached sequence) (edit : Edit) (orderly : edit.Orderly)
      (ends : edit.step.Ends sequence final) : Reached final
  | remove {sequence : DebugSequence} (reached : Reached sequence) {left : List DebugElement}
      (fewer : left.Sublist sequence.edited.elements) : Reached { sequence.edited with elements := left }

theorem Reached.ordered (reached : Reached sequence) : sequence.Ordered := by
  induction reached with
  | make start => exact List.Pairwise.nil
  | read run near => exact (List.pairwise_cons.1 (ascending_iff.1 (ascending_elements_of_read run near))).2
  | edit _ edit orderly ends ordered => exact ordered.of_edit edit orderly ends
  | remove _ fewer ordered => exact ordered.edited.of_sublist (fewer.map DebugElement.address)

/-- Edits keep the elements in the order of their addresses. So a visible element that is looked for is found or put in
its place, and a line that is set is that of the first entry at its address or of a new one in order. -/
theorem Reached.sorted (reached : Reached sequence) :
    (sequence.elements.map DebugElement.address).Pairwise (· ≤ ·) ∧
      (∀ kind address, kind ≠ .advanceAddress ∧ kind ≠ .advanceLine → sequence.Placed kind address
        (sequence.findOrInsert kind address).1 (sequence.findOrInsert kind address).2) ∧
      ∀ address line, Enters address line sequence.positions (sequence.setLineAt address line).2.positions :=
  ⟨reached.ordered, fun _ address shown => placed_findOrInsert reached.ordered.edited shown address,
    enters_setLineAt reached.ordered.edited⟩

/-- The end of the prologue goes between two lines of a sequence that is read from bytes with steps of the machine. -/
theorem Reached.sorted_prologueEnd : ∃ sequence after,
    DebugSequence.read 5 { data := #[0x0e, 0x01, 0x0a, 0x02, 0x03, 0x0e, 0x00] } = .ok sequence after ∧
      sequence.Reached ∧ sequence.positions = [(0, 5), (10, 8)] ∧
      (sequence.elements.map DebugElement.address).Pairwise (· ≤ ·) ∧
      sequence.Placed .prologueEnd 4 1 (sequence.findOrInsert .prologueEnd 4).2 ∧
      (sequence.setLineAt 4 7).2.positions = [(0, 5), (4, 7), (10, 8)] ∧
      Enters 4 7 [(0, 5), (10, 8)] [(0, 5), (4, 7), (10, 8)] := by
  obtain ⟨sequence, same⟩ : ∃ sequence : DebugSequence, sequence = { start := 5, elements := [⟨0, 5, .lineEntry 4⟩,
    ⟨10, 5, .advanceAddress 10⟩, ⟨10, 8, .advanceLine 3⟩, ⟨10, 8, .lineEntry 4⟩] } := ⟨_, rfl⟩
  have run : DebugSequence.read 5 { data := #[0x0e, 0x01, 0x0a, 0x02, 0x03, 0x0e, 0x00] } =
      .ok sequence { data := #[0x0e, 0x01, 0x0a, 0x02, 0x03, 0x0e, 0x00], position := 7 } := by rw [same]; rfl
  have old : sequence.positions = [(0, 5), (10, 8)] := by rw [same]; rfl
  have second : (sequence.findOrInsert .prologueEnd 4).1 = 1 := by rw [same]; decide +kernel
  have new : (sequence.setLineAt 4 7).2.positions = [(0, 5), (4, 7), (10, 8)] := by rw [same]; decide +kernel
  have reached := Reached.read run (by rw [same]; decide)
  obtain ⟨ordered, placed, enters⟩ := Reached.sorted reached
  have here := placed .prologueEnd 4 (by decide)
  have entered := enters 4 7
  rw [second] at here
  rw [old, new] at entered
  exact ⟨sequence, _, run, reached, old, ordered, here, new, entered⟩

end DebugSequence
end DexArsc.Dex
