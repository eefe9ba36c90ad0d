/-
Sections that hold exactly what was read: their ids are the places of the items, and an offset
finds the item that was read there.
-/

import DexArsc.Dex.File.Reading
import DexArsc.Proofs.Dex.Section.Place
import DexArsc.Proofs.Dex.Section.Steps
import DexArsc.Proofs.Dex.Section.Valid

namespace DexArsc.Dex.Section

variable {α : Type}

/-- The section at a place in the file that holds the items that were read at the given offsets. -/
def fresh (kind : SectionKind) (place : UInt32) (read : List (UInt32 × α)) : Section α :=
  withRead { kind } { kind, size := 0, offset := place } read

/-- A change of the last cell. -/
theorem modify_push (cells : Array (Cell α)) (cell : Cell α) (change : Cell α → Cell α) :
    (cells.push cell).modify cells.size change = cells.push (change cell) := by
  apply Array.ext_getElem?
  intro place
  rw [Array.getElem?_modify, Array.getElem?_push, Array.getElem?_push]
  by_cases last : cells.size = place
  · simp [last]
  · simp [last, Ne.symm last]

/-- An item read behind others, none of which has its slot. -/
theorem pushRead_eq (items : Section α) (item : α) (origin : UInt32)
    (below : ∀ (offset : UInt32) (id : Id α), items.byOffset[offset]? = some id →
      id.slot < items.cells.size) :
    (items.pushRead item origin).2 = { items with
      cells := items.cells.push
        { item := some item, position := UInt32.ofNat items.order.size, offset := origin, origin }
      order := items.order.push ⟨items.cells.size⟩
      byOffset := items.byOffset.insert origin ⟨items.cells.size⟩ } := by
  have new (offset : UInt32) : items.byOffset[offset]? ≠ some (⟨items.cells.size⟩ : Id α) :=
    fun found => Nat.lt_irrefl _ (below offset _ found)
  unfold pushRead push
  simp only [modify_push]
  unfold setItemOffset offsetOf? live?
  simp only [Array.getElem?_push_size, Option.filter_some, Option.isSome_some, if_true,
    Option.map_some, new, if_false, modify_push]

/-- The cell of an item that was read at a place. -/
def readCell (place : Nat) (read : UInt32 × α) : Cell α :=
  { item := some read.2, position := UInt32.ofNat place, offset := read.1, origin := read.1 }

/-- The cells, the order and the offsets after items were read one behind the other. -/
theorem foldl_pushRead (read : List (UInt32 × α)) (items : Section α) (start : Nat)
    (cells : items.cells.size = start) (order : items.order.size = start)
    (below : ∀ (offset : UInt32) (id : Id α), items.byOffset[offset]? = some id →
      id.slot < start) :
    read.foldl (fun items (origin, item) => (items.pushRead item origin).2) items = { items with
      cells := items.cells ++ (read.mapIdx fun place => readCell (start + place)).toArray
      order := items.order ++ (read.mapIdx fun place _ => (⟨start + place⟩ : Id α)).toArray
      byOffset := (read.mapIdx fun place cell => (cell.1, (⟨start + place⟩ : Id α))).foldl
        (fun found (offset, id) => found.insert offset id) items.byOffset } := by
  induction read generalizing items start with
  | nil => simp
  | cons first rest ih =>
      obtain ⟨origin, item⟩ := first
      simp only [List.foldl_cons]
      rw [pushRead_eq items item origin (by rwa [cells]), ih _ (start + 1) (by simp [cells])
        (by simp [order])]
      · simp [List.mapIdx_cons, readCell, cells, order, Nat.add_assoc, Nat.add_comm 1]
      · intro offset id found
        rw [Std.HashMap.getElem?_insert] at found
        split at found
        · cases found
          simp [cells]
        · exact Nat.lt_succ_of_lt (below offset id found)

variable {kind : SectionKind} {place : UInt32} {read : List (UInt32 × α)}

theorem fresh_eq : fresh kind place read = {
    kind
    cells := (read.mapIdx readCell).toArray
    order := (read.mapIdx fun place _ => (⟨place⟩ : Id α)).toArray
    byOffset := (read.mapIdx fun place cell => (cell.1, (⟨place⟩ : Id α))).foldl
      (fun found (offset, id) => found.insert offset id) {}
    offset := place } := by
  unfold fresh withRead
  rw [foldl_pushRead read _ 0 rfl rfl (by simp)]
  simp

@[simp] theorem kind_fresh : (fresh kind place read).kind = kind := by rw [fresh_eq]

@[simp] theorem size_fresh : (fresh kind place read).size = read.length := by
  rw [fresh_eq]
  simp [size]

@[simp] theorem order_fresh :
    (fresh kind place read).order = (read.mapIdx fun place _ => (⟨place⟩ : Id α)).toArray := by
  rw [fresh_eq]

@[simp] theorem live?_fresh (id : Id α) :
    (fresh kind place read).live? id = read[id.slot]?.map (readCell id.slot) := by
  rw [fresh_eq]
  unfold live?
  simp only [List.getElem?_toArray, List.getElem?_mapIdx]
  cases read[id.slot]? <;> simp [Option.filter, readCell]

@[simp] theorem item?_fresh (id : Id α) :
    (fresh kind place read).item? id = read[id.slot]?.map Prod.snd := by
  rw [item?_eq, live?_fresh]
  cases read[id.slot]? <;> rfl

@[simp] theorem indexOf?_fresh (id : Id α) :
    (fresh kind place read).indexOf? id =
      read[id.slot]?.map fun _ => UInt32.ofNat id.slot := by
  rw [indexOf?, live?_fresh, Option.map_map]
  rfl

@[simp] theorem offsetOf?_fresh (id : Id α) :
    (fresh kind place read).offsetOf? id = read[id.slot]?.map Prod.fst := by
  rw [offsetOf?, live?_fresh, Option.map_map]
  rfl

/-- What was read makes a valid section. -/
theorem valid_fresh : (fresh kind place read).Valid where
  nodup := by
    rw [order_fresh]
    apply List.pairwise_iff_getElem.2
    intro first second _ _ before same
    simp at same
    omega
  index place id found := by
    rw [order_fresh, List.getElem?_toArray, List.getElem?_mapIdx, Option.map_eq_some_iff] at found
    obtain ⟨cell, at_place, rfl⟩ := found
    rw [indexOf?_fresh, at_place]
    rfl
  listed id live := by
    rw [indexOf?_fresh, Option.isSome_map] at live
    obtain ⟨cell, at_place⟩ := Option.isSome_iff_exists.1 live
    rw [order_fresh, Array.mem_iff_getElem?]
    exact ⟨id.slot, by simp [at_place]⟩

/-- Offsets of a list without repetitions find the ids beside them. -/
theorem getElem?_insertAll (pairs : List (UInt32 × Id α)) (distinct : (pairs.map Prod.fst).Nodup)
    (found : Std.HashMap UInt32 (Id α)) (offset : UInt32) (id : Id α) :
    (pairs.foldl (fun found (offset, id) => found.insert offset id) found)[offset]? = some id ↔
      (offset, id) ∈ pairs ∨ offset ∉ pairs.map Prod.fst ∧ found[offset]? = some id := by
  induction pairs generalizing found with
  | nil => simp
  | cons first rest ih =>
      obtain ⟨start, other⟩ := first
      simp only [List.map_cons, List.nodup_cons] at distinct
      rw [List.foldl_cons, ih distinct.2, Std.HashMap.getElem?_insert]
      by_cases same : start = offset
      · subst same
        have absent (other : Id α) : (start, other) ∉ rest := fun inside =>
          distinct.1 (List.mem_map_of_mem inside)
        simp [absent, distinct.1, eq_comm]
      · have different : ¬offset = start := fun equal => same equal.symm
        simp [same, different]

/-- An offset finds the item that was read there. -/
theorem getAt?_fresh (distinct : (read.map Prod.fst).Nodup) (offset : UInt32) (id : Id α) :
    (fresh kind place read).getAt? offset = some id ↔
      read[id.slot]?.map Prod.fst = some offset := by
  have pairs : (read.mapIdx fun place cell => (cell.1, (⟨place⟩ : Id α))).map Prod.fst =
      read.map Prod.fst := by
    refine List.ext_getElem? fun place => ?_
    rw [List.getElem?_map, List.getElem?_mapIdx, List.getElem?_map, Option.map_map]
    rfl
  unfold getAt?
  rw [fresh_eq]
  simp only
  rw [getElem?_insertAll _ (by rwa [pairs]), List.mem_mapIdx]
  simp only [Std.HashMap.getElem?_empty, reduceCtorEq, and_false, or_false, Prod.mk.injEq,
    Option.map_eq_some_iff]
  constructor
  · rintro ⟨place, inside, start, rfl⟩
    exact ⟨read[place], List.getElem?_eq_getElem inside, start⟩
  · rintro ⟨cell, at_place, start⟩
    obtain ⟨inside, rfl⟩ := List.getElem?_eq_some_iff.1 at_place
    exact ⟨id.slot, inside, start, rfl⟩

/-- The images of the items that were read. -/
theorem map_fresh (change : α → α) : (fresh kind place read).map change =
    fresh kind place (read.map fun (offset, item) => (offset, change item)) := by
  rw [fresh_eq, fresh_eq]
  unfold map
  congr 1
  · apply Array.ext_getElem?
    intro slot
    simp only [Array.getElem?_map, List.getElem?_toArray, List.getElem?_mapIdx, List.getElem?_map,
      Option.map_map]
    rfl
  · apply Array.ext_getElem?
    intro slot
    simp only [List.getElem?_toArray, List.getElem?_mapIdx, List.getElem?_map, Option.map_map]
    rfl
  · refine congrArg (List.foldl _ _) (List.ext_getElem? fun slot => ?_)
    simp only [List.getElem?_mapIdx, List.getElem?_map, Option.map_map]
    rfl

/-- The index of a place finds the item there. -/
@[simp] theorem get?_fresh (index : UInt32) : (fresh kind place read).get? index =
    if index = noIndex then none else read[index.toNat]?.map fun _ => ⟨index.toNat⟩ := by
  rw [get?, order_fresh, List.getElem?_toArray, List.getElem?_mapIdx]

end DexArsc.Dex.Section

namespace DexArsc.Dex

variable {α : Type}

namespace Section

/-- The items of a section with their offsets, in wire order. -/
def rows (items : Section α) : List (UInt32 × α) :=
  items.order.toList.filterMap fun id =>
    (items.live? id).bind fun cell => cell.item.map fun item => (cell.offset, item)

/-- A list without a missing image keeps its places. -/
theorem getElem?_filterMap {β : Type} {values : List β} {image : β → Option α}
    (whole : ∀ value ∈ values, (image value).isSome) (place : Nat) :
    (values.filterMap image)[place]? = values[place]?.bind image := by
  induction values generalizing place with
  | nil => rfl
  | cons value rest ih =>
      obtain ⟨first, found⟩ := Option.isSome_iff_exists.1 (whole value List.mem_cons_self)
      rw [List.filterMap_cons_some found]
      cases place with
      | zero => simp [found]
      | succ place =>
          simpa using ih (fun value inside => whole value (List.mem_cons_of_mem _ inside)) place

variable {items : Section α}

/-- The row at a place is that of the id at this place. -/
theorem Valid.getElem?_rows (valid : items.Valid) (place : Nat) : items.rows[place]? =
    items.order[place]?.bind fun id =>
      (items.live? id).bind fun cell => cell.item.map fun item => (cell.offset, item) := by
  rw [rows, getElem?_filterMap, Array.getElem?_toList]
  intro id listed
  have live := valid.mem_order_iff.1 (Array.mem_toList_iff.1 listed)
  rw [item?_eq] at live
  cases cell : items.live? id with
  | none => simp [cell] at live
  | some cell => simpa [cell] using (live?_eq_some.1 cell).2

theorem Valid.getElem?_rows_eq_some (valid : items.Valid) {place : Nat} {row : UInt32 × α} :
    items.rows[place]? = some row ↔ ∃ id, items.order[place]? = some id ∧
      items.offsetOf? id = some row.1 ∧ items.item? id = some row.2 := by
  rw [valid.getElem?_rows, Option.bind_eq_some_iff]
  obtain ⟨offset, item⟩ := row
  refine exists_congr fun id => and_congr_right fun _ => ?_
  rw [item?_eq, offsetOf?]
  cases items.live? id with
  | none => simp
  | some cell => cases content : cell.item <;> simp [content]

theorem mem_rows {items : Section α} {row : UInt32 × α} (inside : row ∈ items.rows) :
    ∃ id, items.offsetOf? id = some row.1 ∧ items.item? id = some row.2 := by
  obtain ⟨id, _, found⟩ := List.mem_filterMap.1 inside
  obtain ⟨cell, live, content⟩ := Option.bind_eq_some_iff.1 found
  obtain ⟨item, here, rfl⟩ := Option.map_eq_some_iff.1 content
  refine ⟨id, ?_, ?_⟩
  · rw [offsetOf?, live]
    rfl
  · rw [item?_eq, live]
    exact here

theorem All.of_mem_rows {property : α → Prop} {items : Section α} (all : items.All property)
    {row : UInt32 × α} (inside : row ∈ items.rows) : property row.2 := by
  obtain ⟨id, _, found⟩ := mem_rows inside
  exact all id row.2 found

theorem Valid.length_rows {items : Section α} (valid : items.Valid) :
    items.rows.length = items.size := by
  have each (place : Nat) : items.rows[place]?.isSome = items.order[place]?.isSome := by
    rw [valid.getElem?_rows]
    cases listed : items.order[place]? with
    | none => rfl
    | some id =>
        obtain ⟨item, found⟩ := Option.isSome_iff_exists.1 (valid.item?_getElem listed)
        rw [item?_eq] at found
        obtain ⟨cell, live, content⟩ := Option.bind_eq_some_iff.1 found
        simp [live, content]
  have last := each items.order.size
  have first := each items.rows.length
  simp at first last
  exact Nat.le_antisymm last first

theorem Valid.map_fst_rows {items : Section α} (valid : items.Valid) :
    items.rows.map Prod.fst = items.offsets := by
  apply List.ext_getElem?
  intro place
  rw [List.getElem?_map, valid.getElem?_rows, offsets, List.getElem?_map, Array.getElem?_toList]
  cases listed : items.order[place]? with
  | none => rfl
  | some id =>
      obtain ⟨item, found⟩ := Option.isSome_iff_exists.1 (valid.item?_getElem listed)
      rw [item?_eq] at found
      obtain ⟨cell, live, content⟩ := Option.bind_eq_some_iff.1 found
      simp [offsetOf?, live, content]

/-- A view of the items is that of the rows. No item is missing, so the default does not count. -/
theorem Valid.map_snd_rows {β : Type} {items : Section α} (valid : items.Valid) (view : α → β)
    (default : β) : (items.rows.map fun row => view row.2) =
      items.order.toList.map fun id => ((items.item? id).map view).getD default := by
  apply List.ext_getElem?
  intro place
  rw [List.getElem?_map, valid.getElem?_rows, List.getElem?_map, Array.getElem?_toList]
  cases listed : items.order[place]? with
  | none => rfl
  | some id =>
      obtain ⟨item, found⟩ := Option.isSome_iff_exists.1 (valid.item?_getElem listed)
      have live := found
      rw [item?_eq] at live
      obtain ⟨cell, live, content⟩ := Option.bind_eq_some_iff.1 live
      simp [found, live, content]

theorem Valid.map_size_rows {items : Section α} (valid : items.Valid) (size : α → Nat) :
    (items.rows.map fun row => size row.2) = items.sizes size :=
  valid.map_snd_rows size 0

/-- A step on the items of a section that was read. -/
theorem onItems_fresh {β : Type} {kind : SectionKind} {place : UInt32} {step : UInt32 → Step α Unit}
    {rows : List (UInt32 × β)} {before behind : β → α}
    (runs : ∀ row ∈ rows, step row.1 (before row.2) = .ok () (behind row.2)) :
    onItems step (fresh kind place (rows.map fun row => (row.1, before row.2))) =
      .ok () (fresh kind place (rows.map fun row => (row.1, behind row.2))) := by
  have cells : Step.onEach (onCell step)
      ((rows.map fun row => (row.1, before row.2)).mapIdx readCell) =
      .ok () ((rows.map fun row => (row.1, behind row.2)).mapIdx readCell) := by
    rw [Step.onEach_eq_ok]
    refine ⟨by simp, fun slot cell result here there => ?_⟩
    simp only [List.getElem?_mapIdx, List.getElem?_map, Option.map_map, Option.map_eq_some_iff]
      at here there
    obtain ⟨row, inside, rfl⟩ := here
    obtain ⟨other, same, rfl⟩ := there
    rw [inside, Option.some.injEq] at same
    subst same
    have run := runs row (List.mem_of_getElem? inside)
    simp only [onCell, readCell, Function.comp, run]
  have order : ((rows.map fun row => (row.1, behind row.2)).mapIdx fun place _ => (⟨place⟩ : Id α)) =
      (rows.map fun row => (row.1, before row.2)).mapIdx fun place _ => (⟨place⟩ : Id α) := by
    apply List.ext_getElem?
    intro slot
    simp [List.getElem?_mapIdx, List.getElem?_map, Option.map_map, Function.comp_def]
  have found : ((rows.map fun row => (row.1, behind row.2)).mapIdx
        fun place cell => (cell.1, (⟨place⟩ : Id α))) =
      (rows.map fun row => (row.1, before row.2)).mapIdx
        fun place cell => (cell.1, (⟨place⟩ : Id α)) := by
    apply List.ext_getElem?
    intro slot
    simp [List.getElem?_mapIdx, List.getElem?_map, Option.map_map, Function.comp_def]
  rw [onItems_apply, fresh_eq, fresh_eq, order, found]
  simp only [cells]

end Section
end DexArsc.Dex
