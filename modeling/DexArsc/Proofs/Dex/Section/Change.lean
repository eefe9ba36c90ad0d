/-
Items read, inserted, moved and put in a new order. Each keeps the invariant of sections, and each
is refused exactly when its index or its order names nothing.
-/

import DexArsc.Dex.Key
import DexArsc.Proofs.Dex.Section.Valid
import Mathlib.Data.List.InsertIdx
import Mathlib.Data.List.Perm.Subperm

namespace DexArsc.Dex.Section

variable {α : Type} {items : Section α}

theorem contains_eq (items : Section α) (id : Id α) : items.contains id = (items.item? id).isSome := by
  rw [← isSome_indexOf?, indexOf?, Option.isSome_map]
  rfl

/-- A live item has a slot. -/
theorem slot_lt {id : Id α} (live : items.contains id = true) : id.slot < items.cells.size := by
  by_contra beyond
  rw [contains, live?, Array.getElem?_eq_none (Nat.not_lt.1 beyond)] at live
  cases live

theorem size_renumber (ids : List (Id α)) (cells : Array (Cell α)) (start : UInt32) :
    (ids.foldl (fun (cells, index) id =>
      (cells.modify id.slot fun cell => { cell with position := index }, index + 1))
      (cells, start)).1.size = cells.size := by
  induction ids generalizing cells start with
  | nil => rfl
  | cons id rest ih =>
      rw [List.foldl_cons, ih, Array.size_modify]

@[simp] theorem size_cells_withOrder (items : Section α) (order : Array (Id α)) :
    (items.withOrder order).cells.size = items.cells.size := by
  unfold withOrder renumber
  simp only [← Array.foldl_toList]
  exact size_renumber order.toList items.cells 0

@[simp] theorem size_cells_remove (items : Section α) (id : Id α) :
    (items.remove id).2.cells.size = items.cells.size := by
  unfold remove
  cases items.live? id with
  | none => rfl
  | some cell => simp

@[simp] theorem size_cells_setItemOffset (items : Section α) (id : Id α) (offset : UInt32) :
    (items.setItemOffset id offset).cells.size = items.cells.size := by
  unfold setItemOffset
  cases items.offsetOf? id with
  | none => rfl
  | some old => simp

/-- The origin of an item is recorded. -/
def setOrigin (items : Section α) (id : Id α) (origin : UInt32) : Section α :=
  { items with cells := items.cells.modify id.slot fun cell => { cell with origin } }

theorem pushRead_eq_setItemOffset (items : Section α) (item : α) (origin : UInt32) :
    (items.pushRead item origin).2 =
      ((items.push item).2.setOrigin (items.push item).1 origin).setItemOffset
        (items.push item).1 origin := rfl

@[simp] theorem live?_setOrigin (items : Section α) (id other : Id α) (origin : UInt32) :
    (items.setOrigin id origin).live? other = (items.live? other).map fun cell =>
      if other = id then { cell with origin } else cell := by
  unfold live? setOrigin
  rw [Array.getElem?_modify]
  by_cases same : id.slot = other.slot
  · have equal : other = id := Id.eq_iff.2 same.symm
    rw [if_pos same]
    cases items.cells[other.slot]? with
    | none => rfl
    | some cell => cases item : cell.item <;> simp [Option.filter, equal, item]
  · have different : other ≠ id := fun equal => same (Id.eq_iff.1 equal).symm
    rw [if_neg same]
    simp [different]

@[simp] theorem indexOf?_setOrigin (items : Section α) (id other : Id α) (origin : UInt32) :
    (items.setOrigin id origin).indexOf? other = items.indexOf? other := by
  rw [indexOf?, indexOf?, live?_setOrigin, Option.map_map]
  congr 1
  funext cell
  by_cases same : other = id <;> simp [same]

@[simp] theorem item?_setOrigin (items : Section α) (id other : Id α) (origin : UInt32) :
    (items.setOrigin id origin).item? other = items.item? other := by
  rw [item?_eq, item?_eq, live?_setOrigin]
  cases items.live? other <;> by_cases same : other = id <;> simp [same]

theorem item?_pushRead (items : Section α) (item : α) (origin : UInt32) (id : Id α) :
    (items.pushRead item origin).2.item? id = (items.push item).2.item? id := by
  rw [pushRead_eq_setItemOffset, item?_setItemOffset, item?_setOrigin]

@[simp] theorem size_cells_pushRead (items : Section α) (item : α) (origin : UInt32) :
    (items.pushRead item origin).2.cells.size = items.cells.size + 1 := by
  rw [pushRead_eq_setItemOffset, size_cells_setItemOffset]
  simp [setOrigin, push]

theorem Valid.pushRead (valid : items.Valid) (item : α) (origin : UInt32) :
    (items.pushRead item origin).2.Valid := by
  rw [pushRead_eq_setItemOffset]
  apply Valid.setItemOffset
  exact (valid.push item).congr rfl fun id => indexOf?_setOrigin ..

@[simp] theorem item?_allocate (items : Section α) (item : α) (id : Id α) :
    (items.allocate item).2.item? id =
      if id = ⟨items.cells.size⟩ then some item else items.item? id := by
  unfold item? allocate
  rw [Array.getElem?_push]
  by_cases new : id.slot = items.cells.size
  · have equal : id = ⟨items.cells.size⟩ := Id.eq_iff.2 new
    rw [if_pos new, if_pos equal]
    rfl
  · have different : id ≠ ⟨items.cells.size⟩ := fun same => new (Id.eq_iff.1 same)
    rw [if_neg new, if_neg different]

/-- An item is inserted at every index up to the number of items. -/
theorem insert_eq (items : Section α) (index : Nat) (item : α) :
    items.insert index item =
      if inside : index ≤ items.order.size then
        .ok (⟨items.cells.size⟩, (items.allocate item).2.withOrder
          (items.order.insertIdx index ⟨items.cells.size⟩ inside))
      else fail (.dex (.insertBeyond index items.size items.kind)) := rfl

theorem perm_insertIdx (order : Array (Id α)) (index : Nat) (id : Id α)
    (inside : index ≤ order.size) :
    (order.insertIdx index id inside).toList.Perm (id :: order.toList) := by
  rw [Array.toList_insertIdx]
  exact List.perm_insertIdx id order.toList (by simpa using inside)

/-- The order with a new id lists every id once. -/
theorem Valid.nodup_insertIdx (valid : items.Valid) (index : Nat)
    (inside : index ≤ items.order.size) :
    (items.order.insertIdx index ⟨items.cells.size⟩ inside).toList.Nodup := by
  rw [(perm_insertIdx items.order index _ inside).nodup_iff, List.nodup_cons, Array.mem_toList_iff]
  exact ⟨valid.fresh, valid.nodup⟩

theorem Valid.item?_insert (valid : items.Valid) (index : Nat) (inside : index ≤ items.order.size)
    (item : α) (id : Id α) :
    ((items.allocate item).2.withOrder
      (items.order.insertIdx index ⟨items.cells.size⟩ inside)).item? id =
      if id = ⟨items.cells.size⟩ then some item else items.item? id := by
  rw [item?_withOrder _ _ (valid.nodup_insertIdx index inside), item?_allocate]

theorem Valid.insert (valid : items.Valid) (index : Nat) (inside : index ≤ items.order.size)
    (item : α) : ((items.allocate item).2.withOrder
      (items.order.insertIdx index ⟨items.cells.size⟩ inside)).Valid := by
  apply valid_withOrder _ _ (valid.nodup_insertIdx index inside)
  intro id
  rw [← Array.mem_toList_iff, (perm_insertIdx items.order index _ inside).mem_iff, List.mem_cons,
    Array.mem_toList_iff, valid.mem_order_iff, item?_allocate]
  by_cases new : id = ⟨items.cells.size⟩
  · simp [new]
  · simp [new]

/-- A live item is moved to every index of an item. -/
theorem move_eq (items : Section α) (id : Id α) (index : Nat) :
    items.move id index =
      if items.contains id = false then fail (.dex (.notInSection id.slot items.kind))
      else if items.size ≤ index then fail (.dex (.moveBeyond index items.size items.kind))
      else .ok (items.withOrder
        ((items.order.toList.filter (· ≠ id)).insertIdx index id).toArray) := by
  unfold move
  cases items.contains id with
  | false => rfl
  | true => by_cases beyond : items.size ≤ index <;> simp [beyond, fail, bind, Except.bind] <;> rfl

/-- A moved item only leaves its place for another one. -/
theorem Valid.perm_move (valid : items.Valid) {id : Id α} (live : items.contains id = true)
    {index : Nat} (inside : index < items.size) :
    ((items.order.toList.filter (· ≠ id)).insertIdx index id).Perm items.order.toList := by
  have listed : id ∈ items.order.toList := by
    rw [Array.mem_toList_iff]
    apply valid.listed
    simpa [contains, indexOf?] using live
  have others : items.order.toList.filter (· ≠ id) = items.order.toList.erase id := by
    rw [valid.nodup.erase_eq_filter]
    congr 1
    funext other
    by_cases same : other = id <;> simp [same]
  have length := List.length_erase_of_mem listed
  rw [others]
  have inside' : index ≤ (items.order.toList.erase id).length := by
    rw [length, Array.length_toList]
    exact Nat.le_sub_one_of_lt inside
  calc List.Perm ((items.order.toList.erase id).insertIdx index id)
        (id :: items.order.toList.erase id) := List.perm_insertIdx id _ inside'
    List.Perm _ items.order.toList := (List.perm_cons_erase listed).symm

/-- No id of a list repeats when each is live and none occurs before. -/
theorem repeated?_eq_none {ids : List (Id α)} {seen : Std.HashSet (Id α)} :
    items.repeated? ids seen = none ↔
      ids.Nodup ∧ ∀ id ∈ ids, items.contains id = true ∧ id ∉ seen := by
  induction ids generalizing seen with
  | nil => simp [repeated?]
  | cons id rest ih =>
      unfold repeated?
      by_cases bad : (!items.contains id || seen.contains id) = true
      · rw [if_pos bad]
        simp only [reduceCtorEq, List.mem_cons, forall_eq_or_imp, false_iff]
        rintro ⟨_, ⟨live, new⟩, _⟩
        rw [live, Bool.not_true, Bool.false_or] at bad
        exact new (Std.HashSet.mem_iff_contains.2 bad)
      · rw [if_neg bad, ih]
        simp only [Bool.or_eq_true, Bool.not_eq_true', not_or, Bool.not_eq_false,
          Bool.not_eq_true] at bad
        simp only [List.nodup_cons, List.mem_cons, forall_eq_or_imp, Std.HashSet.mem_insert,
          beq_iff_eq, not_or]
        constructor
        · rintro ⟨distinct, each⟩
          refine ⟨⟨fun inside => (each id inside).2.1 rfl, distinct⟩, ⟨bad.1, ?_⟩, fun other inside =>
            ⟨(each other inside).1, (each other inside).2.2⟩⟩
          rw [Std.HashSet.mem_iff_contains, bad.2]
          decide
        · rintro ⟨⟨absent, distinct⟩, _, each⟩
          refine ⟨distinct, fun other inside => ⟨(each other inside).1, ?_, (each other inside).2⟩⟩
          rintro rfl
          exact absent inside

/-- A new order is taken when it lists the items, each once. -/
theorem Valid.reorder_eq (valid : items.Valid) {order : List (Id α)}
    (same : order.Perm items.order.toList) :
    items.reorder order = .ok (items.withOrder order.toArray) := by
  have once : items.repeated? order {} = none := by
    rw [repeated?_eq_none]
    refine ⟨same.nodup_iff.2 valid.nodup, fun id inside => ⟨?_, by simp⟩⟩
    have live := valid.mem_order_iff.1 (Array.mem_toList_iff.1 (same.mem_iff.1 inside))
    simpa [contains, ← isSome_indexOf?, indexOf?] using live
  have length : order.length = items.size := by rw [same.length_eq, Array.length_toList]; rfl
  unfold reorder
  simp [once, length]
  rfl

/-- Every other order is refused. -/
theorem Valid.perm_of_reorder (valid : items.Valid) {order : List (Id α)} {final : Section α}
    (run : items.reorder order = .ok final) : order.Perm items.order.toList := by
  unfold reorder at run
  cases repeats : items.repeated? order {} with
  | some id => simp [repeats, fail, bind, Except.bind] at run
  | none =>
      by_cases length : order.length = items.size
      · obtain ⟨distinct, live⟩ := repeated?_eq_none.1 repeats
        have inside : order ⊆ items.order.toList := by
          intro id listed
          rw [Array.mem_toList_iff]
          apply valid.listed
          simpa [contains, indexOf?] using (live id listed).1
        exact (List.subperm_of_subset distinct inside).perm_of_length_le (by
          rw [length, Array.length_toList]
          exact Nat.le_refl _)
      · simp [repeats, length, fail, bind, Except.bind] at run

end DexArsc.Dex.Section

namespace DexArsc.Dex

variable {α υ : Type} [LT υ] [DecidableLT υ] [DecidableEq υ] [LE υ] [Std.IsLinearOrder υ]
  [Std.LawfulOrderLT υ]

/-- Numbers compare as greater when the order says so. -/
theorem compareNumbers_eq_gt (first second : υ) :
    compareOfLessAndEq first second = .gt ↔ second < first :=
  compareOfLessAndEq_eq_gt Std.le_antisymm (fun _ _ => Std.le_total) Std.not_le first second

omit [Std.IsLinearOrder υ] in
/-- Numbers compare as equal only when they are. -/
theorem compareNumbers_eq_eq {first second : υ} :
    compareOfLessAndEq first second = .eq ↔ first = second := by
  unfold compareOfLessAndEq
  by_cases below : first < second
  · have different : first ≠ second := fun same => Std.lt_irrefl (same ▸ below)
    simp [below, different]
  · by_cases same : first = second
    · have irrefl : ¬second < second := Std.lt_irrefl
      simp [same, irrefl]
    · simp [below, same]

/-- The order of lists by their first difference is the lexicographic one. -/
theorem compareLists_eq_gt {first second : List υ} :
    compareLists (compareOfLessAndEq · ·) first second = .gt ↔ second < first := by
  induction first generalizing second with
  | nil => cases second <;> simp [compareLists]
  | cons head rest ih =>
      cases second with
      | nil => simp [compareLists]
      | cons other others =>
          unfold compareLists
          rw [Ordering.then_eq_gt, ih, List.cons_lt_cons_iff, compareNumbers_eq_gt,
            compareNumbers_eq_eq, eq_comm]

omit [DecidableLT υ] [DecidableEq υ] in
theorem lt_of_le_of_ne_list {first second : List υ} (below : first ≤ second)
    (different : first ≠ second) : first < second := by
  rw [← List.not_le]
  exact fun above => different (List.le_antisymm below above)

namespace Section

variable {items : Section α} {compare : α → α → Ordering} {rank : α → List υ}

/-- The items of a section ascend strictly by their ranks. -/
def Ascends (rank : α → List υ) (items : Section α) : Prop :=
  items.entries.Pairwise fun first second => rank first.2 < rank second.2

/-- Live items compare as their ranks do. -/
def ComparesBy (compare : α → α → Ordering) (rank : α → List υ) (items : Section α) : Prop :=
  ∀ first second item other, items.item? first = some item → items.item? second = some other →
    compare item other = compareLists (compareOfLessAndEq · ·) (rank item) (rank other)

/-- Different live items have different ranks. -/
def RanksApart (rank : α → List υ) (items : Section α) : Prop :=
  ∀ first second item other, items.item? first = some item → items.item? second = some other →
    rank item = rank other → first = second

/-- The comparison that sorts ids. -/
def le (items : Section α) (compare : α → α → Ordering) (first second : Id α) : Bool :=
  match items.item? first, items.item? second with
  | some item, some other => compare item other != .gt
  | _, _ => true

theorem sortBy_eq (items : Section α) (compare : α → α → Ordering) :
    items.sortBy compare =
      items.withOrder (items.order.toList.mergeSort (items.le compare)).toArray := rfl

theorem le_iff (compares : items.ComparesBy compare rank) {first second : Id α} {item other : α}
    (here : items.item? first = some item) (there : items.item? second = some other) :
    items.le compare first second = true ↔ rank item ≤ rank other := by
  unfold le
  rw [here, there]
  simp only [bne_iff_ne]
  rw [compares first second item other here there, Ne, compareLists_eq_gt, List.not_lt]

/-- The ranks of the sorted items do not descend. -/
theorem Valid.pairwise_mergeSort (valid : items.Valid) (compares : items.ComparesBy compare rank) :
    (items.order.toList.mergeSort (items.le compare)).Pairwise fun first second =>
      ∀ item other, items.item? first = some item → items.item? second = some other →
        rank item ≤ rank other := by
  -- An id without an item compares as equal to all, which is no order, so the ranks are sorted.
  let rankOf (id : Id α) : List υ := ((items.item? id).map rank).getD []
  have ranked {id : Id α} {item : α} (found : items.item? id = some item) : rankOf id = rank item := by
    simp only [rankOf, found, Option.map_some, Option.getD_some]
  have sorted : (items.order.toList.mergeSort (items.le compare)).map rankOf =
      (items.order.toList.map rankOf).mergeSort fun first second => decide (first ≤ second) := by
    apply List.map_mergeSort
    intro first inside second inside'
    obtain ⟨item, here⟩ := Option.isSome_iff_exists.1
      (valid.mem_order_iff.1 (Array.mem_toList_iff.1 inside))
    obtain ⟨other, there⟩ := Option.isSome_iff_exists.1
      (valid.mem_order_iff.1 (Array.mem_toList_iff.1 inside'))
    rw [ranked here, ranked there, Bool.eq_iff_iff, decide_eq_true_iff]
    exact le_iff compares here there
  have ascending : ((items.order.toList.map rankOf).mergeSort fun first second =>
      decide (first ≤ second)).Pairwise fun first second => decide (first ≤ second) = true := by
    apply List.pairwise_mergeSort
    · intro first second third below above
      rw [decide_eq_true_eq] at below above ⊢
      exact List.le_trans below above
    · intro first second
      rw [Bool.or_eq_true, decide_eq_true_eq, decide_eq_true_eq]
      exact List.le_total first second
  rw [← sorted, List.pairwise_map] at ascending
  apply ascending.imp
  intro first second below item other here there
  rw [ranked here, ranked there] at below
  exact of_decide_eq_true below

/-- Items with a rank each ascend strictly once they are sorted. -/
theorem Valid.ascends_sortBy (valid : items.Valid) (compares : items.ComparesBy compare rank)
    (apart : (items.sortBy compare).RanksApart rank) : (items.sortBy compare).Ascends rank := by
  have distinct : (items.order.toList.mergeSort (items.le compare)).Nodup :=
    (List.mergeSort_perm ..).nodup_iff.2 valid.nodup
  unfold Ascends entries
  rw [List.pairwise_filterMap]
  apply ((valid.pairwise_mergeSort compares).and distinct).imp
  rintro first second ⟨below, different⟩ entry here entry' there
  obtain ⟨item, live, rfl⟩ := Option.map_eq_some_iff.1 here
  obtain ⟨other, live', rfl⟩ := Option.map_eq_some_iff.1 there
  have apart := apart first second item other live live'
  rw [valid.item?_sortBy] at live live'
  exact lt_of_le_of_ne_list (below item other live live') fun same => different (apart same)

/-- A section in ascending order stays as it is. -/
theorem Valid.sortBy_of_ascends (valid : items.Valid) (compares : items.ComparesBy compare rank)
    (ascends : items.Ascends rank) : items.sortBy compare = items := by
  have sorted : items.order.toList.mergeSort (items.le compare) = items.order.toList := by
    apply List.mergeSort_of_pairwise
    unfold Ascends entries at ascends
    rw [List.pairwise_filterMap] at ascends
    apply ascends.imp_of_mem
    intro first second inside inside' below
    obtain ⟨item, here⟩ := Option.isSome_iff_exists.1
      (valid.mem_order_iff.1 (Array.mem_toList_iff.1 inside))
    obtain ⟨other, there⟩ := Option.isSome_iff_exists.1
      (valid.mem_order_iff.1 (Array.mem_toList_iff.1 inside'))
    rw [le_iff compares here there]
    have strict := below (first, item) (by rw [here]; rfl) (second, other) (by rw [there]; rfl)
    exact List.le_of_lt strict
  rw [sortBy_eq, sorted, Array.toArray_toList, valid.withOrder_order]

end Section
end DexArsc.Dex
