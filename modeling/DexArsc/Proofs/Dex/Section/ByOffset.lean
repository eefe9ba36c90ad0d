/-
Items by their offsets. What is found at an offset lies there, however the section was built, and once
every item has been laid out at an offset of its own, each is found at its own again. While a layout is
under way, an item may take the offset that another one still has.
-/

import DexArsc.Proofs.Dex.Section.Identity
import DexArsc.Proofs.Dex.Section.Steps

namespace DexArsc.Dex.Section

variable {α : Type} {items final : Section α}

/-- The sections that a caller can build: from an empty one by edits, by steps on all items that may
fail on the way, and by placing the section in the file. -/
inductive Reached : Section α → Prop
  | empty (kind : SectionKind) : Reached { kind }
  | edit {items : Section α} (reached : Reached items) (edit : Edit α) : Reached (edit.after items)
  | onItems {items final : Section α} (reached : Reached items) {step : UInt32 → Step α Unit}
      (ends : (onItems step).Ends items final) : Reached final
  | place {items : Section α} (reached : Reached items) (offset : UInt32) : Reached { items with offset }

theorem Reached.valid (reached : items.Reached) : items.Valid := by
  induction reached with
  | empty kind => exact valid_empty kind
  | edit _ edit ih => exact (Edit.makes ih edit).valid
  | onItems _ ends ih => exact ih.congr (onItems_ends ends).1.order (onItems_ends ends).1.indexOf?
  | place _ offset ih => exact ih.congr rfl fun _ => rfl

/-- An item that is found at an offset lies there. -/
def Found (items : Section α) : Prop :=
  ∀ offset id, items.getAt? offset = some id → items.offsetOf? id = some offset

theorem contains_of_offsetOf? {id : Id α} {offset : UInt32} (lies : items.offsetOf? id = some offset) :
    items.contains id = true := by
  rw [contains_eq, ← isSome_offsetOf?, lies]
  rfl

theorem exists_offsetOf? {id : Id α} (live : items.contains id = true) :
    ∃ offset, items.offsetOf? id = some offset := by
  rwa [contains_eq, ← isSome_offsetOf?, Option.isSome_iff_exists] at live

@[simp] theorem contains_setItemOffset (items : Section α) (id other : Id α) (offset : UInt32) :
    (items.setItemOffset id offset).contains other = items.contains other := by
  rw [contains_eq, contains_eq, item?_setItemOffset]

theorem offsetOf?_push (items : Section α) (item : α) (id : Id α) :
    (items.push item).2.offsetOf? id =
      if id.slot = items.cells.size then some 0 else items.offsetOf? id := by
  rw [offsetOf?, offsetOf?, live?_push]
  split <;> rfl

theorem offsetOf?_allocate (items : Section α) (item : α) (id : Id α) :
    (items.allocate item).2.offsetOf? id =
      if id.slot = items.cells.size then some 0 else items.offsetOf? id := by
  unfold offsetOf? live? allocate
  simp only [Array.getElem?_push]
  split <;> simp [Option.filter]

@[simp] theorem offsetOf?_setOrigin (items : Section α) (id other : Id α) (origin : UInt32) :
    (items.setOrigin id origin).offsetOf? other = items.offsetOf? other := by
  rw [offsetOf?, offsetOf?, live?_setOrigin, Option.map_map]
  congr 1
  funext cell
  by_cases same : other = id <;> simp [same]

namespace Found

/-- Only what is found counts, and the offsets of the live items. -/
theorem congr (found : items.Found) (same : ∀ offset, final.getAt? offset = items.getAt? offset)
    (kept : ∀ id, items.contains id = true → final.offsetOf? id = items.offsetOf? id) : final.Found := by
  intro offset id here
  rw [same] at here
  have lies := found offset id here
  rw [kept id (contains_of_offsetOf? lies), lies]

theorem withOrder (found : items.Found) {order : Array (Id α)} (distinct : order.toList.Nodup) :
    (items.withOrder order).Found :=
  found.congr (fun _ => rfl) fun id _ => offsetOf?_withOrder items order distinct id

theorem push (found : items.Found) (item : α) : (items.push item).2.Found :=
  found.congr (fun _ => rfl) fun id live => by
    rw [offsetOf?_push, if_neg (Nat.ne_of_lt (slot_lt live))]

theorem allocate (found : items.Found) (item : α) : (items.allocate item).2.Found :=
  found.congr (fun _ => rfl) fun id live => by
    rw [offsetOf?_allocate, if_neg (Nat.ne_of_lt (slot_lt live))]

/-- Without the entry at its offset, an item is not found anywhere, and all others are. -/
theorem getElem?_erase (found : items.Found) {id : Id α} {old : UInt32}
    (lies : items.offsetOf? id = some old) {place : UInt32} {other : Id α} :
    (if items.byOffset[old]? = some id then items.byOffset.erase old else items.byOffset)[place]? = some other ↔
      items.getAt? place = some other ∧ other ≠ id := by
  have only : items.getAt? place = some id → old = place := fun here =>
    Option.some.inj (lies.symm.trans (found place id here))
  unfold getAt? at *
  by_cases own : items.byOffset[old]? = some id
  · rw [if_pos own, Std.HashMap.getElem?_erase]
    by_cases same : old = place
    · subst same
      simp [own, eq_comm]
    · have elsewhere : items.byOffset[place]? ≠ some id := fun here => same (only here)
      rw [if_neg (by simpa using same)]
      refine ⟨fun here => ⟨here, ?_⟩, And.left⟩
      rintro rfl
      exact elsewhere here
  · rw [if_neg own]
    refine ⟨fun here => ⟨here, ?_⟩, And.left⟩
    rintro rfl
    rw [← only here] at here
    exact own here

/-- A new offset brings its item there, where another one may have been, and takes the item away from
where it was. -/
theorem getAt?_setItemOffset (found : items.Found) {id : Id α} (live : items.contains id = true)
    {offset place : UInt32} {other : Id α} :
    (items.setItemOffset id offset).getAt? place = some other ↔
      if place = offset then other = id else items.getAt? place = some other ∧ other ≠ id := by
  obtain ⟨old, lies⟩ := exists_offsetOf? live
  rw [← found.getElem?_erase lies]
  unfold setItemOffset
  rw [lies]
  unfold getAt?
  rw [Std.HashMap.getElem?_insert]
  by_cases same : place = offset
  · simp [same, eq_comm]
  · rw [if_neg (by simpa using Ne.symm same), if_neg same]

theorem setItemOffset (found : items.Found) (id : Id α) (offset : UInt32) :
    (items.setItemOffset id offset).Found := by
  by_cases live : items.contains id = true
  · intro place other here
    rw [found.getAt?_setItemOffset live] at here
    rw [offsetOf?_setItemOffset]
    split at here
    · rename_i same
      obtain ⟨old, lies⟩ := exists_offsetOf? live
      rw [if_pos here, here, lies, same, Option.map_some]
    · rw [if_neg here.2, found place other here.1]
  · have dead : items.offsetOf? id = none := by
      rw [contains_eq, ← isSome_offsetOf?] at live
      simpa using live
    have same : items.setItemOffset id offset = items := by
      unfold Section.setItemOffset
      rw [dead]
    rwa [same]

theorem pushRead (found : items.Found) (item : α) (origin : UInt32) :
    (items.pushRead item origin).2.Found := by
  rw [pushRead_eq_setItemOffset]
  apply setItemOffset
  exact (found.push item).congr (fun _ => rfl) fun id _ => offsetOf?_setOrigin ..

theorem getAt?_remove (found : items.Found) {id : Id α} (live : items.contains id = true)
    {place : UInt32} {other : Id α} :
    (items.remove id).2.getAt? place = some other ↔ items.getAt? place = some other ∧ other ≠ id := by
  obtain ⟨cell, here⟩ := Option.isSome_iff_exists.1 live
  have lies : items.offsetOf? id = some cell.offset := by rw [offsetOf?, here, Option.map_some]
  rw [← found.getElem?_erase lies]
  unfold Section.remove
  rw [here]
  rfl

end Found

/-- A removal leaves the offsets of all other items. -/
theorem Valid.offsetOf?_remove (valid : items.Valid) {id other : Id α} (different : other ≠ id) :
    (items.remove id).2.offsetOf? other = items.offsetOf? other := by
  unfold Section.remove
  cases here : items.live? id with
  | none => rfl
  | some cell =>
      have distinct : (items.order.filter (· ≠ id)).toList.Nodup := by
        rw [Array.toList_filter]
        exact valid.nodup.filter _
      have slot : id.slot ≠ other.slot := fun same => different (Id.eq_iff.2 same.symm)
      rw [offsetOf?_withOrder _ _ distinct]
      unfold offsetOf? live?
      rw [Array.getElem?_modify, if_neg slot]

namespace Found

theorem remove (found : items.Found) (valid : items.Valid) (id : Id α) : (items.remove id).2.Found := by
  by_cases live : items.contains id = true
  · intro place other here
    obtain ⟨here, different⟩ := (found.getAt?_remove live).1 here
    rw [valid.offsetOf?_remove different, found place other here]
  · have same : items.remove id = (none, items) := by
      unfold Section.remove
      rw [Option.not_isSome_iff_eq_none.1 live]
    rwa [same]

/-- Every edit leaves each item at the offset where it is found. -/
theorem after (found : items.Found) (valid : items.Valid) (edit : Edit α) :
    (edit.after items).Found := by
  by_cases refused : edit.Refused items
  · rwa [refused.after valid]
  cases edit with
  | push item => exact found.push item
  | pushRead item origin => exact found.pushRead item origin
  | insert index item =>
      have inside : index ≤ items.order.size := Nat.not_lt.1 refused
      unfold Edit.after
      rw [Edit.step, insert_eq, dif_pos inside]
      exact (found.allocate item).withOrder (valid.nodup_insertIdx index inside)
  | remove id => exact found.remove valid id
  | move id index =>
      obtain ⟨live, inside⟩ := not_or.1 refused
      have same := valid.perm_move (by simpa using live) (Nat.not_le.1 inside)
      unfold Edit.after
      rw [Edit.step, move_eq, if_neg live, if_neg inside]
      exact found.withOrder (same.nodup_iff.2 valid.nodup)
  | sortBy compare =>
      exact found.withOrder ((perm_sortBy items compare).nodup_iff.2 valid.nodup)
  | reorder order =>
      have same : order.Perm items.order.toList := not_not.1 refused
      unfold Edit.after
      rw [Edit.step, valid.reorder_eq same]
      exact found.withOrder (same.nodup_iff.2 valid.nodup)
  | modify id change => exact found.congr (fun _ => rfl) fun other _ => offsetOf?_modify ..
  | setItemOffset id offset => exact found.setItemOffset id offset

end Found

theorem Reached.found (reached : items.Reached) : items.Found := by
  induction reached with
  | empty kind =>
      intro offset id here
      simp [getAt?] at here
  | edit before edit ih => exact ih.after before.valid edit
  | onItems _ ends ih =>
      have frame := (onItems_ends ends).1
      refine ih.congr (fun offset => ?_) fun id _ => frame.offsetOf? id
      unfold getAt?
      rw [frame.byOffset]
  | place _ offset ih => exact ih

theorem Reached.run (reached : items.Reached) (edits : List (Edit α)) : (Edit.run items edits).Reached := by
  induction edits generalizing items with
  | nil => exact reached
  | cons edit rest ih => exact ih (reached.edit edit)

/-- The items of a row are laid out one after the other. -/
def layOut (items : Section α) (row : List (Id α × UInt32)) : Section α :=
  row.foldl (fun items place => items.setItemOffset place.1 place.2) items

/-- A row has each live item once, at an offset of its own. -/
structure LaysOut (items : Section α) (row : List (Id α × UInt32)) : Prop where
  once : (row.map Prod.fst).Nodup
  live : ∀ id, id ∈ row.map Prod.fst ↔ items.contains id = true
  apart : (row.map Prod.snd).Nodup

theorem contains_layOut (items : Section α) (row : List (Id α × UInt32)) (id : Id α) :
    (items.layOut row).contains id = items.contains id := by
  induction row generalizing items with
  | nil => rfl
  | cons place rest ih => exact (ih _).trans (contains_setItemOffset ..)

theorem Found.layOut (found : items.Found) (row : List (Id α × UInt32)) : (items.layOut row).Found := by
  induction row generalizing items with
  | nil => exact found
  | cons place rest ih => exact ih (found.setItemOffset place.1 place.2)

/-- While a layout is under way, the items of the row so far are found where they have been laid out. Any
other one is found where it was, if none of them has come there. -/
theorem Found.getAt?_layOut (found : items.Found) {row : List (Id α × UInt32)}
    (once : (row.map Prod.fst).Nodup) (live : ∀ id ∈ row.map Prod.fst, items.contains id = true)
    (apart : (row.map Prod.snd).Nodup) {id : Id α} {offset : UInt32} :
    (items.layOut row).getAt? offset = some id ↔ (id, offset) ∈ row ∨
      (id ∉ row.map Prod.fst ∧ offset ∉ row.map Prod.snd) ∧ items.getAt? offset = some id := by
  induction row generalizing items with
  | nil => simp [Section.layOut]
  | cons place rest ih =>
      obtain ⟨other, start⟩ := place
      simp only [List.map_cons, List.nodup_cons] at once apart
      simp only [List.map_cons, List.forall_mem_cons] at live
      have later : ∀ id ∈ rest.map Prod.fst, (items.setItemOffset other start).contains id = true := by
        simpa only [contains_setItemOffset] using live.2
      refine (ih (found.setItemOffset other start) once.2 later apart.2).trans ?_
      rw [found.getAt?_setItemOffset live.1, List.map_cons, List.map_cons]
      simp only [List.mem_cons, Prod.mk.injEq, not_or]
      by_cases here : offset = start
      · subst here
        by_cases same : id = other
        · subst same
          simp [once.1, apart.1]
        · simp [same]
      · rw [if_neg here]
        simp only [here, and_false, false_or, not_false_eq_true, true_and]
        tauto

namespace LaysOut

variable {row : List (Id α × UInt32)}

/-- Once every item has been laid out, the items of the row are found and nothing else is. -/
theorem getAt?_eq_some_iff (laysOut : items.LaysOut row) (found : items.Found) {id : Id α}
    {offset : UInt32} : (items.layOut row).getAt? offset = some id ↔ (id, offset) ∈ row := by
  rw [found.getAt?_layOut laysOut.once (fun id => (laysOut.live id).1) laysOut.apart, or_iff_left]
  rintro ⟨⟨absent, _⟩, here⟩
  exact absent ((laysOut.live id).2 (contains_of_offsetOf? (found offset id here)))

theorem offsetOf?_eq_some_iff (laysOut : items.LaysOut row) (found : items.Found) {id : Id α}
    {offset : UInt32} : (items.layOut row).offsetOf? id = some offset ↔ (id, offset) ∈ row := by
  have lies {offset : UInt32} (placed : (id, offset) ∈ row) :
      (items.layOut row).offsetOf? id = some offset :=
    found.layOut row offset id ((laysOut.getAt?_eq_some_iff found).2 placed)
  refine ⟨fun there => ?_, lies⟩
  have live := contains_of_offsetOf? there
  rw [contains_layOut, ← laysOut.live, List.mem_map] at live
  obtain ⟨⟨_, start⟩, placed, rfl⟩ := live
  rwa [Option.some.inj (there.symm.trans (lies placed))]

end LaysOut

/-- What is found at an offset lies there, in every section that a caller can build. Once each live item
has been laid out at an offset of its own, it is found there and nothing else is, and so a reference to it
leads back to it from the offset alone, unless this is zero, which names no item. -/
theorem offsets_exact (reached : items.Reached) :
    (∀ offset id, items.getAt? offset = some id →
      items.contains id = true ∧ items.offsetOf? id = some offset) ∧
    ∀ row, items.LaysOut row →
      (∀ id, (items.layOut row).contains id = items.contains id) ∧
      (∀ id offset, (items.layOut row).offsetOf? id = some offset ↔ (id, offset) ∈ row) ∧
      (∀ offset id, (items.layOut row).getAt? offset = some id ↔
        (items.layOut row).contains id = true ∧ (items.layOut row).offsetOf? id = some offset) ∧
      ∀ (ref : OffsetRef α) id, ref.item = some id → (items.layOut row).contains id = true →
        ((OffsetRef.ofRaw (ref.refresh (items.layOut row)).raw).link (items.layOut row)).item =
          if (ref.refresh (items.layOut row)).raw = 0 then none else some id := by
  have found := reached.found
  refine ⟨fun offset id here => ?_, fun row laysOut => ?_⟩
  · have lies := found offset id here
    exact ⟨contains_of_offsetOf? lies, lies⟩
  have lies (id : Id α) (offset : UInt32) : (items.layOut row).offsetOf? id = some offset ↔
      (id, offset) ∈ row := laysOut.offsetOf?_eq_some_iff found
  have lookup (id : Id α) (offset : UInt32) : (items.layOut row).getAt? offset = some id ↔
      (items.layOut row).offsetOf? id = some offset := by
    rw [lies, laysOut.getAt?_eq_some_iff found]
  refine ⟨contains_layOut items row, lies, fun offset id => ?_, fun ref id names live => ?_⟩
  · rw [lookup, iff_and_self]
    exact contains_of_offsetOf?
  · obtain ⟨offset, there⟩ := exists_offsetOf? live
    have refreshed : (ref.refresh (items.layOut row)).raw = offset := by
      simp only [OffsetRef.refresh, names, there]
    rw [refreshed]
    simp only [OffsetRef.ofRaw, OffsetRef.link, Option.none_or, (lookup id offset).2 there]

/-- Three items, of which the last one has come to the offset of the second and was removed there. -/
def collided : Section String :=
  Edit.run { kind := .typeList }
    [.pushRead "first" 256, .pushRead "second" 264, .pushRead "third" 264, .remove ⟨2⟩]

theorem laysOut_collided : collided.LaysOut [(⟨0⟩, 264), (⟨1⟩, 256)] where
  once := by decide
  live := by
    have cells : collided.cells = #[⟨some "first", 0, 256, 256⟩, ⟨some "second", 1, 264, 264⟩,
      ⟨none, noIndex, 264, 264⟩] := rfl
    rintro ⟨_ | _ | _ | slot⟩ <;> simp [contains, live?, cells]
  apart := by decide

/-- The two items that are left are found after they have exchanged their offsets. -/
theorem offsets_exact_exchanged : collided.Reached ∧ collided.LaysOut [(⟨0⟩, 264), (⟨1⟩, 256)] ∧
    (collided.layOut [(⟨0⟩, 264), (⟨1⟩, 256)]).getAt? 264 = some ⟨0⟩ ∧
    (collided.layOut [(⟨0⟩, 264), (⟨1⟩, 256)]).getAt? 256 = some ⟨1⟩ := by
  have reached : collided.Reached := (Reached.empty _).run _
  obtain ⟨live, lies, found, _⟩ := (offsets_exact reached).2 _ laysOut_collided
  refine ⟨reached, laysOut_collided, (found 264 ⟨0⟩).2 ⟨?_, ?_⟩, (found 256 ⟨1⟩).2 ⟨?_, ?_⟩⟩
  · exact (live _).trans ((laysOut_collided.live ⟨0⟩).1 (by decide))
  · exact (lies _ _).2 (by decide)
  · exact (live _).trans ((laysOut_collided.live ⟨1⟩).1 (by decide))
  · exact (lies _ _).2 (by decide)

/-- An item at the offset zero is found there, but no reference leads back to it from there. -/
theorem unresolved_at_zero :
    let items : Section String := Edit.run { kind := .codeItem } [.pushRead "code" 256]
    let final := items.layOut [(⟨0⟩, 0)]
    items.Reached ∧ items.LaysOut [(⟨0⟩, 0)] ∧ final.getAt? 0 = some ⟨0⟩ ∧
      ((OffsetRef.ofRaw ((OffsetRef.ofId ⟨0⟩).refresh final).raw).link final).item ≠ some ⟨0⟩ := by
  intro items final
  have reached : items.Reached := (Reached.empty _).run _
  have laysOut : items.LaysOut [(⟨0⟩, 0)] := {
    once := by decide
    live := by
      have cells : items.cells = #[⟨some "code", 0, 256, 256⟩] := rfl
      rintro ⟨_ | slot⟩ <;> simp [contains, live?, cells]
    apart := by decide }
  have lies : final.offsetOf? ⟨0⟩ = some 0 :=
    (laysOut.offsetOf?_eq_some_iff reached.found).2 (by decide)
  refine ⟨reached, laysOut, (laysOut.getAt?_eq_some_iff reached.found).2 (by decide), ?_⟩
  simp [OffsetRef.ofId, OffsetRef.refresh, OffsetRef.ofRaw, OffsetRef.link, lies]

end DexArsc.Dex.Section
