/-
Sections through their views: the order of the items, and for each id its cell. Each change of a
section is described by what it does to these two.
-/

import DexArsc.Dex.Section

namespace DexArsc.Dex

variable {α : Type}

/-- Ids are equal when they name the same slot. -/
theorem Id.eq_iff {first second : Id α} : first = second ↔ first.slot = second.slot := by
  cases first
  cases second
  simp

namespace Section

/-- A cell is live when it holds an item. -/
theorem live?_eq_some {items : Section α} {id : Id α} {cell : Cell α} :
    items.live? id = some cell ↔ items.cells[id.slot]? = some cell ∧ cell.item.isSome := by
  simp [live?, Option.filter_eq_some_iff]

theorem item?_eq (items : Section α) (id : Id α) :
    items.item? id = (items.live? id).bind Cell.item := by
  unfold item? live?
  cases items.cells[id.slot]? with
  | none => rfl
  | some cell => cases item : cell.item <;> simp [Option.filter, item]

/-- An id with an index is an id with an item. -/
theorem isSome_indexOf? (items : Section α) (id : Id α) :
    (items.indexOf? id).isSome = (items.item? id).isSome := by
  rw [item?_eq, indexOf?, Option.isSome_map]
  cases found : items.live? id with
  | none => rfl
  | some cell => simpa using (live?_eq_some.1 found).2.symm

theorem isSome_offsetOf? (items : Section α) (id : Id α) :
    (items.offsetOf? id).isSome = (items.item? id).isSome := by
  rw [← isSome_indexOf?, offsetOf?, indexOf?, Option.isSome_map, Option.isSome_map]

@[simp] theorem live?_modify (items : Section α) (id other : Id α) (change : α → α) :
    (items.modify id change).live? other = (items.live? other).map fun cell =>
      if other = id then { cell with item := cell.item.map change } else cell := by
  unfold live? modify
  rw [Array.getElem?_modify]
  by_cases same : id.slot = other.slot
  · rw [if_pos same]
    have equal : other = id := Id.eq_iff.2 same.symm
    cases items.cells[other.slot]? with
    | none => rfl
    | some cell => cases item : cell.item <;> simp [Option.filter, equal, item]
  · have different : other ≠ id := fun equal => same (Id.eq_iff.1 equal).symm
    rw [if_neg same]
    simp [different]

@[simp] theorem order_map (items : Section α) (change : α → α) :
    (items.map change).order = items.order := rfl

@[simp] theorem live?_map (items : Section α) (id : Id α) (change : α → α) :
    (items.map change).live? id =
      (items.live? id).map fun cell => { cell with item := cell.item.map change } := by
  unfold live? map
  rw [Array.getElem?_map]
  cases items.cells[id.slot]? with
  | none => rfl
  | some cell => cases item : cell.item <;> simp [Option.filter, item]

@[simp] theorem order_setItemOffset (items : Section α) (id : Id α) (offset : UInt32) :
    (items.setItemOffset id offset).order = items.order := by
  unfold setItemOffset
  split <;> rfl

@[simp] theorem kind_setItemOffset (items : Section α) (id : Id α) (offset : UInt32) :
    (items.setItemOffset id offset).kind = items.kind := by
  unfold setItemOffset
  split <;> rfl

@[simp] theorem live?_setItemOffset (items : Section α) (id other : Id α) (offset : UInt32) :
    (items.setItemOffset id offset).live? other = (items.live? other).map fun cell =>
      if other = id then { cell with offset } else cell := by
  unfold setItemOffset
  cases found : items.offsetOf? id with
  | none =>
      have dead : items.live? id = none := by simpa [offsetOf?] using found
      by_cases same : other = id
      · simp [same, dead]
      · simp [same]
  | some old =>
      unfold live?
      simp only [Array.getElem?_modify]
      by_cases same : id.slot = other.slot
      · have equal : other = id := Id.eq_iff.2 same.symm
        rw [if_pos same]
        cases items.cells[other.slot]? with
        | none => rfl
        | some cell => cases item : cell.item <;> simp [Option.filter, equal, item]
      · have different : other ≠ id := fun equal => same (Id.eq_iff.1 equal).symm
        rw [if_neg same]
        simp [different]

@[simp] theorem item?_modify (items : Section α) (id other : Id α) (change : α → α) :
    (items.modify id change).item? other =
      if other = id then (items.item? other).map change else items.item? other := by
  rw [item?_eq, item?_eq, live?_modify]
  cases items.live? other <;> by_cases same : other = id <;> simp [same]

@[simp] theorem indexOf?_modify (items : Section α) (id other : Id α) (change : α → α) :
    (items.modify id change).indexOf? other = items.indexOf? other := by
  rw [indexOf?, indexOf?, live?_modify, Option.map_map]
  congr 1
  funext cell
  by_cases same : other = id <;> simp [same]

@[simp] theorem offsetOf?_modify (items : Section α) (id other : Id α) (change : α → α) :
    (items.modify id change).offsetOf? other = items.offsetOf? other := by
  rw [offsetOf?, offsetOf?, live?_modify, Option.map_map]
  congr 1
  funext cell
  by_cases same : other = id <;> simp [same]

@[simp] theorem item?_map (items : Section α) (id : Id α) (change : α → α) :
    (items.map change).item? id = (items.item? id).map change := by
  rw [item?_eq, item?_eq, live?_map]
  cases items.live? id <;> simp

@[simp] theorem indexOf?_map (items : Section α) (id : Id α) (change : α → α) :
    (items.map change).indexOf? id = items.indexOf? id := by
  rw [indexOf?, indexOf?, live?_map, Option.map_map]
  rfl

@[simp] theorem offsetOf?_map (items : Section α) (id : Id α) (change : α → α) :
    (items.map change).offsetOf? id = items.offsetOf? id := by
  rw [offsetOf?, offsetOf?, live?_map, Option.map_map]
  rfl

@[simp] theorem originOf?_map (items : Section α) (id : Id α) (change : α → α) :
    (items.map change).originOf? id = items.originOf? id := by
  rw [originOf?, originOf?, live?_map, Option.map_map]
  rfl

@[simp] theorem item?_setItemOffset (items : Section α) (id other : Id α) (offset : UInt32) :
    (items.setItemOffset id offset).item? other = items.item? other := by
  rw [item?_eq, item?_eq, live?_setItemOffset]
  cases items.live? other <;> by_cases same : other = id <;> simp [same]

@[simp] theorem indexOf?_setItemOffset (items : Section α) (id other : Id α) (offset : UInt32) :
    (items.setItemOffset id offset).indexOf? other = items.indexOf? other := by
  rw [indexOf?, indexOf?, live?_setItemOffset, Option.map_map]
  congr 1
  funext cell
  by_cases same : other = id <;> simp [same]

@[simp] theorem offsetOf?_setItemOffset (items : Section α) (id other : Id α) (offset : UInt32) :
    (items.setItemOffset id offset).offsetOf? other =
      if other = id then (items.offsetOf? other).map fun _ => offset
      else items.offsetOf? other := by
  rw [offsetOf?, offsetOf?, live?_setItemOffset, Option.map_map]
  cases items.live? other <;> by_cases same : other = id <;> simp [same]

@[simp] theorem order_push (items : Section α) (item : α) :
    (items.push item).2.order = items.order.push ⟨items.cells.size⟩ := rfl

@[simp] theorem id_push (items : Section α) (item : α) :
    (items.push item).1 = ⟨items.cells.size⟩ := rfl

theorem live?_push (items : Section α) (item : α) (id : Id α) :
    (items.push item).2.live? id =
      if id.slot = items.cells.size then
        some { item := some item, position := UInt32.ofNat items.order.size }
      else items.live? id := by
  unfold live? push
  simp only [Array.getElem?_push]
  split <;> simp [Option.filter]

/-- A new item is found behind the other ones, which stay. -/
theorem item?_push (items : Section α) (item : α) (id : Id α) : (items.push item).2.item? id =
    if id = (items.push item).1 then some item else items.item? id := by
  rw [item?_eq, item?_eq, live?_push, id_push]
  by_cases new : id.slot = items.cells.size
  · have same : id = ⟨items.cells.size⟩ := Id.eq_iff.2 new
    simp [same]
  · have different : id ≠ ⟨items.cells.size⟩ := fun same => new (Id.eq_iff.1 same)
    simp [new, different]

/-- The id of a new item names no other item. -/
theorem item?_id_push (items : Section α) (item : α) : items.item? (items.push item).1 = none := by
  unfold item?
  rw [id_push, Array.getElem?_eq_none (Nat.le_refl _)]
  rfl

end Section
end DexArsc.Dex
