/-
Steps on all items of a section: where they succeed they are maps, and wherever they end the ids,
the order and the offsets are the same.
-/

import DexArsc.Proofs.Dex.Section.Basic
import DexArsc.Proofs.Step

namespace DexArsc

namespace Step

variable {state α β : Type}

/-- A step ends in a state, with a result or with a failure. -/
def Ends (step : Step state α) (initial final : state) : Prop :=
  (∃ value, step initial = .ok value final) ∨ ∃ fault, step initial = .error fault final

theorem ends_ok {step : Step state α} {initial final : state} {value : α}
    (run : step initial = .ok value final) : step.Ends initial final := .inl ⟨value, run⟩

theorem ends_error {step : Step state α} {initial final : state} {fault : Fault}
    (run : step initial = .error fault final) : step.Ends initial final := .inr ⟨fault, run⟩

theorem onEachFrom_eq_ok {step : Step α Unit} {items done final : List α} :
    onEachFrom step done items = .ok () final ↔ ∃ images : List α, final = done.reverse ++ images ∧
      images.length = items.length ∧ ∀ (place : Nat) (item image : α), items[place]? = some item →
        images[place]? = some image → step item = .ok () image := by
  induction items generalizing done with
  | nil =>
      unfold onEachFrom
      simp only [EStateM.Result.ok.injEq, true_and, List.length_nil, List.length_eq_zero_iff]
      constructor
      · rintro rfl
        exact ⟨[], by simp, rfl, by simp⟩
      · rintro ⟨images, rfl, rfl, _⟩
        simp
  | cons item rest ih =>
      unfold onEachFrom
      cases run : step item with
      | error fault partway =>
          simp only [reduceCtorEq, false_iff]
          rintro ⟨images, _, length, each⟩
          cases images with
          | nil => cases length
          | cons image images =>
              have first := each 0 item image rfl rfl
              rw [run] at first
              cases first
      | ok nothing image =>
          simp only
          rw [ih]
          constructor
          · rintro ⟨images, rfl, length, each⟩
            refine ⟨image :: images, by simp, by simp [length], fun place => ?_⟩
            cases place with
            | zero =>
                rintro _ _ ⟨⟩ ⟨⟩
                exact run
            | succ place => exact each place
          · rintro ⟨images, rfl, length, each⟩
            cases images with
            | nil => cases length
            | cons first images =>
                have same := each 0 item first rfl rfl
                rw [run] at same
                cases same
                exact ⟨images, by simp, by simpa using length, fun place => each (place + 1)⟩

/-- A step on each element succeeds when it succeeds on every element. -/
theorem onEach_eq_ok {step : Step α Unit} {items final : List α} :
    onEach step items = .ok () final ↔ final.length = items.length ∧
      ∀ (place : Nat) (item image : α), items[place]? = some item → final[place]? = some image →
        step item = .ok () image := by
  unfold onEach
  rw [onEachFrom_eq_ok]
  constructor
  · rintro ⟨images, rfl, rest⟩
    simpa using rest
  · intro rest
    exact ⟨final, by simp, rest⟩

theorem onEachFrom_ends {step : Step α Unit} {items done final : List α}
    (ends : (onEachFrom step done).Ends items final) : ∃ images : List α, final = done.reverse ++ images ∧
      images.length = items.length ∧ ∀ (place : Nat) (item image : α), items[place]? = some item →
        images[place]? = some image → image = item ∨ step.Ends item image := by
  induction items generalizing done with
  | nil =>
      rcases ends with ⟨_, run⟩ | ⟨_, run⟩
      · cases run
        exact ⟨[], by simp, rfl, by simp⟩
      · cases run
  | cons item rest ih =>
      unfold Ends onEachFrom at ends
      cases run : step item with
      | error fault partway =>
          simp only [run, reduceCtorEq, exists_false, false_or, EStateM.Result.error.injEq] at ends
          obtain ⟨_, _, rfl⟩ := ends
          refine ⟨partway :: rest, rfl, rfl, fun place => ?_⟩
          cases place with
          | zero =>
              rintro _ _ ⟨⟩ ⟨⟩
              exact .inr (ends_error run)
          | succ place =>
              intro item image here there
              rw [List.getElem?_cons_succ] at here there
              rw [here, Option.some.injEq] at there
              exact .inl there.symm
      | ok nothing image =>
          simp only [run] at ends
          obtain ⟨images, rfl, length, each⟩ := ih ends
          refine ⟨image :: images, by simp, by simp [length], fun place => ?_⟩
          cases place with
          | zero =>
              rintro _ _ ⟨⟩ ⟨⟩
              exact .inr (ends_ok run)
          | succ place => exact each place

/-- Wherever a step on each element ends, every element is as it was or where the step on it
ends. -/
theorem onEach_ends {step : Step α Unit} {items final : List α} (ends : (onEach step).Ends items final) :
    final.length = items.length ∧ ∀ (place : Nat) (item image : α), items[place]? = some item →
      final[place]? = some image → image = item ∨ step.Ends item image := by
  obtain ⟨images, rfl, rest⟩ := onEachFrom_ends ends
  simpa using rest

end Step

namespace Dex.Section

variable {α : Type} {step : UInt32 → Step α Unit} {items final : Section α}

/-- The step on a cell. -/
def onCell (step : UInt32 → Step α Unit) : Step (Cell α) Unit := fun cell =>
  match cell.item with
  | none => .ok () cell
  | some item =>
    match step cell.offset item with
    | .ok () item => .ok () { cell with item := some item }
    | .error fault item => .error fault { cell with item := some item }

theorem onItems_apply (step : UInt32 → Step α Unit) (items : Section α) : onItems step items =
    match Step.onEach (onCell step) items.cells.toList with
    | .ok () cells => .ok () { items with cells := cells.toArray }
    | .error fault cells => .error fault { items with cells := cells.toArray } := rfl

/-- A step on all items that succeeds is a map. -/
theorem onItems_eq_ok {image : α → α}
    (runs : ∀ offset item result, step offset item = .ok () result → result = image item)
    (run : onItems step items = .ok () final) : final = items.map image ∧
      ∀ id item, items.item? id = some item → ∃ offset, step offset item = .ok () (image item) := by
  rw [onItems_apply] at run
  cases each : Step.onEach (onCell step) items.cells.toList with
  | error fault cells =>
      rw [each] at run
      cases run
  | ok nothing cells =>
      rw [each] at run
      cases run
      obtain ⟨length, each⟩ := Step.onEach_eq_ok.1 each
      have cellRuns (place : Nat) (cell result : Cell α) (here : items.cells.toList[place]? = some cell)
          (there : cells[place]? = some result) : result = { cell with item := cell.item.map image } ∧
            ∀ item, cell.item = some item → step cell.offset item = .ok () (image item) := by
        have run := each place cell result here there
        unfold onCell at run
        cases content : cell.item with
        | none =>
            rw [content] at run
            cases run
            obtain ⟨content', position, offset, origin⟩ := cell
            cases content
            simp
        | some item =>
            rw [content] at run
            cases inner : step cell.offset item with
            | error fault partway => simp [inner] at run
            | ok nothing value =>
                obtain rfl := runs _ _ _ inner
                simp only [inner, EStateM.Result.ok.injEq, true_and] at run
                subst run
                simp [inner]
      constructor
      · unfold map
        congr 1
        apply Array.ext_getElem?
        intro place
        rw [List.getElem?_toArray, Array.getElem?_map, ← Array.getElem?_toList]
        cases here : items.cells.toList[place]? with
        | none =>
            rw [List.getElem?_eq_none_iff] at here
            rw [Option.map_none, List.getElem?_eq_none_iff]
            omega
        | some cell =>
            have inside := (List.getElem?_eq_some_iff.1 here).1
            have there : cells[place]? = some cells[place] := List.getElem?_eq_getElem (by omega)
            rw [there, (cellRuns place cell _ here there).1]
            rfl
      · intro id item found
        unfold item? at found
        obtain ⟨cell, here, content⟩ := Option.bind_eq_some_iff.1 found
        rw [← Array.getElem?_toList] at here
        have inside := (List.getElem?_eq_some_iff.1 here).1
        have there : cells[id.slot]? = some cells[id.slot] := List.getElem?_eq_getElem (by omega)
        exact ⟨cell.offset, (cellRuns id.slot cell _ here there).2 item content⟩

/-- A step that succeeds on every item succeeds on all of them. -/
theorem onItems_of_ok {image : α → α}
    (runs : ∀ id item offset, items.item? id = some item → step offset item = .ok () (image item)) :
    onItems step items = .ok () (items.map image) := by
  have each : Step.onEach (onCell step) items.cells.toList =
      .ok () (items.cells.toList.map fun cell => { cell with item := cell.item.map image }) := by
    rw [Step.onEach_eq_ok]
    refine ⟨List.length_map _, fun place cell result here there => ?_⟩
    rw [List.getElem?_map, here, Option.map_some, Option.some.injEq] at there
    subst there
    unfold onCell
    cases content : cell.item with
    | none =>
        obtain ⟨content', position, offset, origin⟩ := cell
        cases content
        rfl
    | some item =>
        have found : items.item? ⟨place⟩ = some item := by
          unfold item?
          rw [← Array.getElem?_toList, here]
          exact content
        simp [runs ⟨place⟩ item cell.offset found]
  rw [onItems_apply, each, ← Array.toList_map]
  simp only [Array.toArray_toList]
  rfl

/-- Every live item has a property. -/
def All (property : α → Prop) (items : Section α) : Prop :=
  ∀ id item, items.item? id = some item → property item

theorem all_empty {property : α → Prop} (kind : SectionKind) : All property ({ kind } : Section α) := by
  intro id item found
  simp [item?] at found

theorem all_map {property : α → Prop} {change : α → α} {items : Section α} :
    (items.map change).All property ↔ items.All fun item => property (change item) := by
  unfold All
  simp only [item?_map, Option.map_eq_some_iff]
  constructor
  · intro all id item found
    exact all id _ ⟨item, found, rfl⟩
  · rintro all id _ ⟨item, found, rfl⟩
    exact all id item found

theorem All.imp {first second : α → Prop} {items : Section α} (all : items.All first)
    (implies : ∀ item, first item → second item) : items.All second :=
  fun id item found => implies item (all id item found)

theorem All.push {property : α → Prop} {items : Section α} (all : items.All property) {item : α}
    (holds : property item) : (items.push item).2.All property := by
  intro id found content
  rw [item?_eq, live?_push] at content
  split at content
  · cases content
    exact holds
  · rw [← item?_eq] at content
    exact all id found content

theorem map_map (first second : α → α) (items : Section α) :
    (items.map first).map second = items.map fun item => second (first item) := by
  unfold map
  simp only [Array.map_map, Function.comp_def, Option.map_map]

/-- A map that changes no live item changes nothing. -/
theorem map_eq_self {change : α → α} {items : Section α} (same : items.All fun item => change item = item) :
    items.map change = items := by
  unfold map
  obtain ⟨kind, cells, order, byOffset, offset⟩ := items
  congr 1
  apply Array.ext_getElem?
  intro slot
  rw [Array.getElem?_map]
  cases found : cells[slot]? with
  | none => rfl
  | some cell =>
      obtain ⟨content, position, offset, origin⟩ := cell
      cases content with
      | none => rfl
      | some item =>
          have kept : change item = item := same ⟨slot⟩ item (by simp [item?, found])
          simp [kept]

/-- A step that yields an image and checks it, on all items. -/
theorem onItems_guarded {image : α → α} {guard : α → Prop}
    (runs : ∀ offset item result, step offset item = .ok () result ↔
      result = image item ∧ guard result) :
    onItems step items = .ok () final ↔ final = items.map image ∧ final.All guard := by
  constructor
  · intro run
    obtain ⟨rfl, each⟩ := onItems_eq_ok (fun offset item result run =>
      ((runs offset item result).1 run).1) run
    refine ⟨rfl, all_map.2 fun id item found => ?_⟩
    obtain ⟨offset, run⟩ := each id item found
    exact ((runs offset item _).1 run).2
  · rintro ⟨rfl, guarded⟩
    exact onItems_of_ok fun id item offset found =>
      (runs offset item _).2 ⟨rfl, all_map.1 guarded id item found⟩

/-- Where the same step succeeds on all items, every item is the result of the step. -/
theorem item?_of_onItems {one : Step α Unit} (run : onItems (fun _ => one) items = .ok () final)
    (id : Id α) (image : α) (found : final.item? id = some image) :
    ∃ item, items.item? id = some item ∧ one item = .ok () image := by
  let result (item : α) : α := match one item with
    | .ok () item => item
    | .error _ item => item
  have runs (offset : UInt32) (item final : α) (run : (fun _ : UInt32 => one) offset item = .ok () final) :
      final = result item := by
    simp only at run
    simp only [result, run]
  obtain ⟨rfl, each⟩ := onItems_eq_ok runs run
  rw [item?_map, Option.map_eq_some_iff] at found
  obtain ⟨item, here, rfl⟩ := found
  obtain ⟨_, run⟩ := each id item here
  exact ⟨item, here, run⟩

/-- A step that leaves every item as it is leaves the section as it is. -/
theorem onItems_of_still {one : Step α Unit} (still : items.All fun item => one item = .ok () item) :
    onItems (fun _ => one) items = .ok () items := by
  have run : onItems (fun _ => one) items = .ok () (items.map fun item => item) :=
    onItems_of_ok fun id item offset found => still id item found
  rwa [map_eq_self fun _ _ _ => rfl] at run

/-- Two sections with the same ids, places and offsets. -/
structure SameFrame (items final : Section α) : Prop where
  kind : final.kind = items.kind
  order : final.order = items.order
  byOffset : final.byOffset = items.byOffset
  offset : final.offset = items.offset
  indexOf? : ∀ id, final.indexOf? id = items.indexOf? id
  offsetOf? : ∀ id, final.offsetOf? id = items.offsetOf? id
  originOf? : ∀ id, final.originOf? id = items.originOf? id

/-- What a step on the item of a cell makes of the cell. -/
structure CellLed (step : UInt32 → Step α Unit) (before behind : Cell α) : Prop where
  position : behind.position = before.position
  offset : behind.offset = before.offset
  origin : behind.origin = before.origin
  live : behind.item.isSome = before.item.isSome
  item : ∀ image, behind.item = some image → ∃ item, before.item = some item ∧
    (image = item ∨ (step before.offset).Ends item image)

theorem CellLed.refl (cell : Cell α) : CellLed step cell cell :=
  ⟨rfl, rfl, rfl, rfl, fun image content => ⟨image, content, .inl rfl⟩⟩

theorem CellLed.of_ends {cell : Cell α} {item image : α} (content : cell.item = some item)
    (ends : (step cell.offset).Ends item image) : CellLed step cell { cell with item := some image } where
  position := rfl
  offset := rfl
  origin := rfl
  live := by rw [content]; rfl
  item := by
    rintro _ ⟨⟩
    exact ⟨item, content, .inr ends⟩

theorem onCell_ends {before behind : Cell α} (ends : (onCell step).Ends before behind) :
    CellLed step before behind := by
  unfold Step.Ends onCell at ends
  cases content : before.item with
  | none =>
      simp only [content, EStateM.Result.ok.injEq, reduceCtorEq, exists_false, or_false] at ends
      obtain ⟨_, _, rfl⟩ := ends
      exact .refl before
  | some item =>
      cases run : step before.offset item with
      | ok nothing value =>
          simp only [content, run, EStateM.Result.ok.injEq, reduceCtorEq, exists_false, or_false] at ends
          obtain ⟨_, _, rfl⟩ := ends
          exact .of_ends content (Step.ends_ok run)
      | error fault value =>
          simp only [content, run, EStateM.Result.error.injEq, reduceCtorEq, exists_false, false_or] at ends
          obtain ⟨_, _, rfl⟩ := ends
          exact .of_ends content (Step.ends_error run)

theorem exists_cells_of_ends (ends : (onItems step).Ends items final) : ∃ cells : List (Cell α),
    final = { items with cells := cells.toArray } ∧ (Step.onEach (onCell step)).Ends items.cells.toList cells := by
  unfold Step.Ends at ends
  rw [onItems_apply] at ends
  cases run : Step.onEach (onCell step) items.cells.toList with
  | ok nothing cells =>
      simp only [run, EStateM.Result.ok.injEq, reduceCtorEq, exists_false, or_false] at ends
      obtain ⟨_, _, rfl⟩ := ends
      exact ⟨cells, rfl, Step.ends_ok run⟩
  | error fault cells =>
      simp only [run, EStateM.Result.error.injEq, reduceCtorEq, exists_false, false_or] at ends
      obtain ⟨_, _, rfl⟩ := ends
      exact ⟨cells, rfl, Step.ends_error run⟩

/-- A step on all items keeps the cells at their slots. -/
theorem cells_of_ends {cells : List (Cell α)} (ends : (Step.onEach (onCell step)).Ends items.cells.toList cells)
    (slot : Nat) : (cells.toArray[slot]? = none ∧ items.cells[slot]? = none) ∨
      ∃ before behind, cells.toArray[slot]? = some behind ∧ items.cells[slot]? = some before ∧
        CellLed step before behind := by
  obtain ⟨length, each⟩ := Step.onEach_ends ends
  rw [List.getElem?_toArray, ← Array.getElem?_toList]
  cases here : items.cells.toList[slot]? with
  | none =>
      rw [List.getElem?_eq_none_iff] at here
      left
      rw [List.getElem?_eq_none_iff]
      exact ⟨by omega, rfl⟩
  | some before =>
      have inside := (List.getElem?_eq_some_iff.1 here).1
      have there : cells[slot]? = some cells[slot] := List.getElem?_eq_getElem (by omega)
      refine .inr ⟨before, _, there, rfl, ?_⟩
      rcases each slot before _ here there with same | ends
      · rw [same]
        exact .refl before
      · exact onCell_ends ends

/-- Wherever a step on all items ends, each item is as it was or where the step on it ends. -/
theorem onItems_ends (ends : (onItems step).Ends items final) : SameFrame items final ∧
    ∀ id image, final.item? id = some image → ∃ item offset, items.item? id = some item ∧
      (image = item ∨ (step offset).Ends item image) := by
  obtain ⟨cells, rfl, partway⟩ := exists_cells_of_ends ends
  have view {β : Type} (part : Cell α → β) (id : Id α)
      (same : ∀ before behind : Cell α, CellLed step before behind → part behind = part before) :
      (live? { items with cells := cells.toArray } id).map part = (items.live? id).map part := by
    unfold live?
    rcases cells_of_ends partway id.slot with ⟨gone, gone'⟩ | ⟨before, behind, there, here, led⟩
    · simp only [gone, gone']
    · simp only [there, here, Option.filter_some, led.live]
      split
      · simp [same before behind led]
      · rfl
  refine ⟨⟨rfl, rfl, rfl, rfl, fun id => view _ id fun _ _ led => led.position,
    fun id => view _ id fun _ _ led => led.offset, fun id => view _ id fun _ _ led => led.origin⟩,
    fun id image found => ?_⟩
  unfold item? at found ⊢
  rcases cells_of_ends partway id.slot with ⟨gone, _⟩ | ⟨before, behind, there, here, led⟩
  · rw [gone] at found
    cases found
  · rw [there] at found
    obtain ⟨item, content, outcome⟩ := led.item image found
    exact ⟨item, before.offset, by rw [here]; exact content, outcome⟩

end Dex.Section
end DexArsc
