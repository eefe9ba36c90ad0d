/-
The invariant of sections: the order lists every live item once and no other, and the index of
an item is its place in the order. Every change of a section keeps it.
-/

import DexArsc.Proofs.Dex.Section.Basic

namespace DexArsc.Dex.Section

variable {α : Type} {items : Section α}

/-- The order lists the live items, each once and with its place as its index. -/
structure Valid (items : Section α) : Prop where
  nodup : items.order.toList.Nodup
  index : ∀ (place : Nat) (id : Id α), items.order[place]? = some id →
    items.indexOf? id = some (UInt32.ofNat place)
  listed : ∀ id : Id α, (items.indexOf? id).isSome → id ∈ items.order

/-- A section without items. -/
theorem valid_empty (kind : SectionKind) : Valid ({ kind } : Section α) where
  nodup := List.nodup_nil
  index := by simp
  listed := by simp [indexOf?, live?]

/-- Only the order and the indexes count. -/
theorem Valid.congr {other : Section α} (valid : items.Valid) (order : other.order = items.order)
    (index : ∀ id, other.indexOf? id = items.indexOf? id) : other.Valid where
  nodup := by rw [order]; exact valid.nodup
  index place id found := by
    rw [index]
    exact valid.index place id (by rwa [order] at found)
  listed id live := by
    rw [order]
    exact valid.listed id (by rwa [index] at live)

namespace Valid

theorem modify (valid : items.Valid) (id : Id α) (change : α → α) :
    (items.modify id change).Valid :=
  valid.congr rfl fun _ => indexOf?_modify ..

theorem map (valid : items.Valid) (change : α → α) : (items.map change).Valid :=
  valid.congr rfl fun _ => indexOf?_map ..

theorem setItemOffset (valid : items.Valid) (id : Id α) (offset : UInt32) :
    (items.setItemOffset id offset).Valid :=
  valid.congr (order_setItemOffset ..) fun _ => indexOf?_setItemOffset ..

/-- The listed items are the live ones. -/
theorem mem_order_iff (valid : items.Valid) {id : Id α} :
    id ∈ items.order ↔ (items.item? id).isSome := by
  rw [← isSome_indexOf?]
  refine ⟨fun inside => ?_, valid.listed id⟩
  obtain ⟨place, found⟩ := Array.mem_iff_getElem?.1 inside
  rw [valid.index place id found]
  rfl

theorem mem_entries (valid : items.Valid) {id : Id α} {item : α} :
    (id, item) ∈ items.entries ↔ items.item? id = some item := by
  unfold entries
  simp only [List.mem_filterMap, Option.map_eq_some_iff, Prod.mk.injEq]
  constructor
  · rintro ⟨other, _, _, found, rfl, rfl⟩
    exact found
  · intro found
    exact ⟨id, Array.mem_toList_iff.2 (valid.mem_order_iff.2 (by rw [found]; rfl)), item, found, rfl, rfl⟩

/-- The entries have the listed ids. -/
theorem map_fst_entries (valid : items.Valid) : items.entries.map Prod.fst = items.order.toList := by
  have guard : (fun id => ((items.item? id).map fun item => (id, item)).map Prod.fst) =
      Option.guard fun id => (items.item? id).isSome := by
    funext id
    cases found : items.item? id <;> simp [Option.guard, found]
  unfold entries
  rw [List.map_filterMap, guard, List.filterMap_eq_filter, List.filter_eq_self]
  exact fun id inside => valid.mem_order_iff.1 (Array.mem_toList_iff.1 inside)

/-- An id beyond the cells is not listed. -/
theorem fresh (valid : items.Valid) : (⟨items.cells.size⟩ : Id α) ∉ items.order := by
  rw [valid.mem_order_iff]
  simp [item?]

theorem push (valid : items.Valid) (item : α) : (items.push item).2.Valid where
  nodup := by
    rw [order_push, Array.toList_push, List.nodup_append]
    refine ⟨valid.nodup, by simp, ?_⟩
    rintro id inside other outside rfl
    rw [List.mem_singleton.1 outside] at inside
    exact valid.fresh (Array.mem_toList_iff.1 inside)
  index place id found := by
    rw [order_push, Array.getElem?_push] at found
    rw [indexOf?, live?_push]
    split at found
    · rename_i last
      cases found
      simp [last]
    · have inside := Array.mem_of_getElem? found
      have old : id.slot ≠ items.cells.size := fun same =>
        valid.fresh (by rwa [show (⟨items.cells.size⟩ : Id α) = id from Id.eq_iff.2 same.symm])
      rw [if_neg old]
      exact valid.index place id found
  listed id live := by
    rw [indexOf?, live?_push] at live
    rw [order_push, Array.mem_push]
    split at live
    · rename_i same
      exact .inr (Id.eq_iff.2 same)
    · exact .inl (valid.listed id live)

end Valid

/-- The cells after a renumbering that starts at an index. -/
theorem getElem?_renumber (ids : List (Id α)) (distinct : ids.Nodup) (cells : Array (Cell α))
    (start slot : Nat) :
    (ids.foldl (fun (cells, index) id =>
      (cells.modify id.slot fun cell => { cell with position := index }, index + 1))
      (cells, UInt32.ofNat start)).1[slot]? =
    cells[slot]?.map fun cell =>
      match ids.idxOf? ⟨slot⟩ with
      | some place => { cell with position := UInt32.ofNat (start + place) }
      | none => cell := by
  induction ids generalizing cells start with
  | nil => simp
  | cons id rest ih =>
      have next : UInt32.ofNat start + 1 = UInt32.ofNat (start + 1) := by
        rw [UInt32.ofNat_add]
        rfl
      simp only [List.foldl_cons]
      rw [next, ih (List.nodup_cons.1 distinct).2, Array.getElem?_modify, List.idxOf?_cons]
      by_cases same : id.slot = slot
      · have equal : id = (⟨slot⟩ : Id α) := Id.eq_iff.2 same
        subst equal
        have absent : rest.idxOf? (⟨slot⟩ : Id α) = none := by
          rw [List.idxOf?_eq_none_iff]
          exact (List.nodup_cons.1 distinct).1
        simp [absent, Function.comp_def]
      · have different : ¬id = (⟨slot⟩ : Id α) := fun equal => same (Id.eq_iff.1 equal)
        simp only [if_neg same, beq_eq_false_iff_ne.2 different]
        cases rest.idxOf? (⟨slot⟩ : Id α) with
        | none => simp
        | some place => simp [Nat.add_assoc, Nat.add_comm 1]

@[simp] theorem order_withOrder (items : Section α) (order : Array (Id α)) :
    (items.withOrder order).order = order := rfl

/-- A new order replaces the index of every id that it lists. -/
theorem live?_withOrder (items : Section α) (order : Array (Id α)) (distinct : order.toList.Nodup)
    (id : Id α) :
    (items.withOrder order).live? id = (items.live? id).map fun cell =>
      match order.toList.idxOf? id with
      | some place => { cell with position := UInt32.ofNat place }
      | none => cell := by
  unfold live? withOrder renumber
  simp only [← Array.foldl_toList]
  have cells := getElem?_renumber order.toList distinct items.cells 0 id.slot
  simp only [Nat.zero_add] at cells
  rw [show UInt32.ofNat 0 = 0 from rfl] at cells
  rw [cells]
  cases items.cells[id.slot]? with
  | none => rfl
  | some cell =>
      cases order.toList.idxOf? id <;> cases item : cell.item <;> simp [Option.filter, item]

@[simp] theorem item?_withOrder (items : Section α) (order : Array (Id α))
    (distinct : order.toList.Nodup) (id : Id α) :
    (items.withOrder order).item? id = items.item? id := by
  rw [item?_eq, item?_eq, live?_withOrder items order distinct]
  cases items.live? id <;> cases order.toList.idxOf? id <;> rfl

@[simp] theorem offsetOf?_withOrder (items : Section α) (order : Array (Id α))
    (distinct : order.toList.Nodup) (id : Id α) :
    (items.withOrder order).offsetOf? id = items.offsetOf? id := by
  rw [offsetOf?, offsetOf?, live?_withOrder items order distinct]
  cases items.live? id <;> cases order.toList.idxOf? id <;> rfl

/-- An order that lists the live items makes a section valid. -/
theorem valid_withOrder (items : Section α) (order : Array (Id α)) (distinct : order.toList.Nodup)
    (listed : ∀ id, id ∈ order ↔ (items.item? id).isSome) : (items.withOrder order).Valid where
  nodup := distinct
  index place id found := by
    have place? : order.toList.idxOf? id = some place := by
      rw [order_withOrder, ← Array.getElem?_toList] at found
      obtain ⟨inside, rfl⟩ := List.getElem?_eq_some_iff.1 found
      rw [List.idxOf?_eq_some_iff]
      refine ⟨inside, rfl, fun earlier before same => ?_⟩
      have equal := (List.getElem_inj distinct).1 same
      omega
    have live : (items.item? id).isSome := by
      rw [← listed]
      exact Array.mem_of_getElem? found
    rw [← isSome_indexOf?, indexOf?, Option.isSome_map] at live
    obtain ⟨cell, found⟩ := Option.isSome_iff_exists.1 live
    rw [indexOf?, live?_withOrder items order distinct, found, place?]
    rfl
  listed id live := by
    rw [isSome_indexOf?, item?_withOrder items order distinct] at live
    exact (listed id).2 live

/-- Reordering the listed items keeps a section valid. -/
theorem Valid.withOrder (valid : items.Valid) {order : Array (Id α)}
    (same : order.toList.Perm items.order.toList) : (items.withOrder order).Valid :=
  valid_withOrder items order (same.nodup_iff.2 valid.nodup) fun id => by
    rw [← valid.mem_order_iff, ← Array.mem_toList_iff, same.mem_iff, Array.mem_toList_iff]

/-- A valid section whose order stays receives the indexes that it has. -/
theorem Valid.withOrder_order (valid : items.Valid) : items.withOrder items.order = items := by
  have cells : (items.withOrder items.order).cells = items.cells := by
    unfold Section.withOrder renumber
    simp only [← Array.foldl_toList]
    apply Array.ext_getElem?
    intro slot
    rw [show (0 : UInt32) = UInt32.ofNat 0 from rfl,
      getElem?_renumber items.order.toList valid.nodup items.cells 0 slot]
    cases place? : items.order.toList.idxOf? ⟨slot⟩ with
    | none => exact Option.map_id'
    | some place =>
        obtain ⟨inside, same, _⟩ := List.idxOf?_eq_some_iff.1 place?
        have listed : items.order[place]? = some ⟨slot⟩ := by
          rw [← Array.getElem?_toList, List.getElem?_eq_getElem inside, same]
        have index := valid.index place ⟨slot⟩ listed
        rw [indexOf?, Option.map_eq_some_iff] at index
        obtain ⟨cell, found, position⟩ := index
        simp only [Nat.zero_add, ← position, (live?_eq_some.1 found).1, Option.map_some]
  exact congrArg (fun cells => { items with cells }) cells

/-- Sorting only reorders the items. -/
theorem perm_sortBy (items : Section α) (compare : α → α → Ordering) :
    (items.sortBy compare).order.toList.Perm items.order.toList := by
  unfold sortBy
  exact List.mergeSort_perm ..

theorem size_sortBy (items : Section α) (compare : α → α → Ordering) :
    (items.sortBy compare).size = items.size := by
  have lengths := (perm_sortBy items compare).length_eq
  rwa [Array.length_toList, Array.length_toList] at lengths

theorem Valid.sortBy (valid : items.Valid) (compare : α → α → Ordering) :
    (items.sortBy compare).Valid :=
  valid.withOrder (List.mergeSort_perm ..)

theorem Valid.item?_sortBy (valid : items.Valid) (compare : α → α → Ordering) (id : Id α) :
    (items.sortBy compare).item? id = items.item? id :=
  item?_withOrder items _ ((perm_sortBy items compare).nodup_iff.2 valid.nodup) id

/-- A removed item is gone and the others stay. -/
theorem Valid.item?_remove (valid : items.Valid) (id other : Id α) :
    (items.remove id).2.item? other = if other = id then none else items.item? other := by
  unfold remove
  cases found : items.live? id with
  | none =>
      have dead : items.item? id = none := by rw [item?_eq, found]; rfl
      by_cases same : other = id <;> simp [same, dead]
  | some cell =>
      have distinct : (items.order.filter (· ≠ id)).toList.Nodup := by
        rw [Array.toList_filter]
        exact valid.nodup.filter _
      simp only
      rw [item?_withOrder _ _ distinct]
      unfold item?
      rw [Array.getElem?_modify]
      by_cases same : id.slot = other.slot
      · have equal : other = id := Id.eq_iff.2 same.symm
        subst equal
        simp
      · have different : other ≠ id := fun equal => same (Id.eq_iff.1 equal).symm
        simp [same, different]

theorem Valid.remove (valid : items.Valid) (id : Id α) : (items.remove id).2.Valid := by
  have gone := valid.item?_remove id
  unfold Section.remove at gone ⊢
  cases found : items.live? id with
  | none => exact valid
  | some cell =>
      rw [found] at gone
      have distinct : (items.order.filter (· ≠ id)).toList.Nodup := by
        rw [Array.toList_filter]
        exact valid.nodup.filter _
      refine valid_withOrder _ _ distinct fun other => ?_
      have view := gone other
      simp only at view
      rw [item?_withOrder _ _ distinct] at view
      rw [view, Array.mem_filter]
      by_cases same : other = id
      · simp [same]
      · simp [same, valid.mem_order_iff]

/-- Two listed ids with one index are one id, as long as an index holds every place. -/
theorem Valid.getElem?_indexOf? (valid : items.Valid) (fits : items.order.size ≤ UInt32.size)
    {id : Id α} {index : UInt32} (found : items.indexOf? id = some index) :
    items.order[index.toNat]? = some id := by
  obtain ⟨place, at_place⟩ := Array.mem_iff_getElem?.1 (valid.listed id (by rw [found]; rfl))
  have same := valid.index place id at_place
  rw [found, Option.some.injEq] at same
  have bound : place < items.order.size := (Array.getElem?_eq_some_iff.1 at_place).1
  rw [same, UInt32.toNat_ofNat', Nat.mod_eq_of_lt (by
    change place < UInt32.size
    omega)]
  exact at_place

/-- The index of an item is below the number of items. -/
theorem Valid.indexOf?_lt (valid : items.Valid) (fits : items.order.size ≤ UInt32.size)
    {id : Id α} {index : UInt32} (found : items.indexOf? id = some index) :
    index.toNat < items.order.size :=
  (Array.getElem?_eq_some_iff.1 (valid.getElem?_indexOf? fits found)).1

/-- The item at a place in the order is live. -/
theorem Valid.item?_getElem (valid : items.Valid) {place : Nat} {id : Id α}
    (found : items.order[place]? = some id) : (items.item? id).isSome :=
  valid.mem_order_iff.1 (Array.mem_of_getElem? found)

end DexArsc.Dex.Section
