/-
References by identity. A section goes through edits one after the other, failing ones included, and a
reference to an item of it has the item's new index after the next refresh, as long as the item is
there.
-/

import DexArsc.Dex.Reference
import DexArsc.Proofs.Dex.Section.Change

namespace DexArsc.Dex

variable {α : Type}

namespace Section

/-- An edit of a section. -/
inductive Edit (α : Type)
  | push (item : α)
  | pushRead (item : α) (origin : UInt32)
  | insert (index : Nat) (item : α)
  | remove (id : Id α)
  | move (id : Id α) (index : Nat)
  | sortBy (compare : α → α → Ordering)
  | reorder (order : List (Id α))
  | modify (id : Id α) (change : α → α)
  | setItemOffset (id : Id α) (offset : UInt32)

namespace Edit

/-- The id that an edit issues, if it does, and the section behind it. -/
def step (items : Section α) : Edit α → Except Fault (Option (Id α) × Section α)
  | push item => .ok ((items.push item).map some id)
  | pushRead item origin => .ok ((items.pushRead item origin).map some id)
  | insert index item => (items.insert index item).map (Prod.map some id)
  | remove id => .ok (none, (items.remove id).2)
  | move id index => (items.move id index).map (none, ·)
  | sortBy compare => .ok (none, items.sortBy compare)
  | reorder order => (items.reorder order).map (none, ·)
  | modify id change => .ok (none, items.modify id change)
  | setItemOffset id offset => .ok (none, items.setItemOffset id offset)

/-- The id that an edit issues. -/
def issued? (edit : Edit α) (items : Section α) : Option (Id α) :=
  match edit.step items with
  | .ok (id?, _) => id?
  | .error _ => none

/-- The section behind an edit that succeeds or fails. -/
def after (edit : Edit α) (items : Section α) : Section α :=
  match edit.step items with
  | .ok (_, final) => final
  | .error _ => items

/-- The section behind the edits of a list, one after the other. -/
def run (items : Section α) (edits : List (Edit α)) : Section α :=
  edits.foldl (fun items edit => edit.after items) items

/-- The ids that the edits of a list issue. -/
def issued : Section α → List (Edit α) → List (Id α)
  | _, [] => []
  | items, edit :: rest => (edit.issued? items).toList ++ issued (edit.after items) rest

/-- An insertion or a move beyond the items, a move of no item, and an order that is none of the
items. -/
def Refused (items : Section α) : Edit α → Prop
  | insert index _ => items.size < index
  | move id index => items.contains id = false ∨ items.size ≤ index
  | reorder order => ¬order.Perm items.order.toList
  | _ => False

/-- What an edit leaves of an item that was there before. -/
def image (edit : Edit α) (id : Id α) (item? : Option α) : Option α :=
  match edit with
  | remove other => if id = other then none else item?
  | modify other change => if id = other then item?.map change else item?
  | _ => item?

/-- What an edit does: a new item takes the next slot, and the others are where they were. -/
structure Makes (edit : Edit α) (items : Section α) (id? : Option (Id α)) (final : Section α) :
    Prop where
  valid : final.Valid
  size : final.cells.size = items.cells.size + id?.toList.length
  new : ∀ id, id? = some id → id.slot = items.cells.size
  old : ∀ id : Id α, id.slot < items.cells.size → final.item? id = edit.image id (items.item? id)

variable {items final : Section α} {edit : Edit α}

theorem makes_of_ok {id? : Option (Id α)} (run : edit.step items = .ok (id?, final))
    (makes : edit.Makes items id? final) :
    edit.Makes items (edit.issued? items) (edit.after items) := by
  unfold issued? after
  rw [run]
  exact makes

/-- An edit that keeps the slots and the items. -/
theorem makes_of_same (valid : final.Valid) (size : final.cells.size = items.cells.size)
    (same : ∀ id, final.item? id = edit.image id (items.item? id)) : edit.Makes items none final where
  valid := valid
  size := size
  new id issued := by cases issued
  old id _ := same id

/-- An edit with a new item in the next slot. -/
theorem makes_of_new (item : α) (valid : final.Valid)
    (size : final.cells.size = items.cells.size + 1)
    (same : ∀ id : Id α, final.item? id =
      if id = ⟨items.cells.size⟩ then some item else items.item? id)
    (keeps : ∀ id item?, edit.image id item? = item?) :
    edit.Makes items (some ⟨items.cells.size⟩) final where
  valid := valid
  size := size
  new id issued := by
    cases issued
    rfl
  old id before := by
    rw [same, if_neg, keeps]
    rintro rfl
    exact Nat.lt_irrefl _ before

/-- An edit that only puts the items in another order. -/
theorem makes_withOrder (valid : items.Valid) {order : List (Id α)}
    (same : order.Perm items.order.toList) (keeps : ∀ id item?, edit.image id item? = item?) :
    edit.Makes items none (items.withOrder order.toArray) := by
  apply makes_of_same (valid.withOrder same) (size_cells_withOrder ..)
  intro id
  rw [item?_withOrder _ _ (same.nodup_iff.2 valid.nodup), keeps]

/-- A valid section refuses an edit by a failure. -/
theorem Refused.step (refused : edit.Refused items) (valid : items.Valid) :
    ∃ fault, edit.step items = .error fault := by
  cases edit with
  | insert index item =>
      have beyond : ¬index ≤ items.order.size := Nat.not_le.2 refused
      rw [Edit.step, insert_eq, dif_neg beyond]
      exact ⟨_, rfl⟩
  | move id index =>
      rw [Edit.step, move_eq]
      by_cases live : items.contains id = false
      · rw [if_pos live]
        exact ⟨_, rfl⟩
      · rw [if_neg live, if_pos (refused.resolve_left live)]
        exact ⟨_, rfl⟩
  | reorder order =>
      cases run : items.reorder order with
      | ok final => exact absurd (valid.perm_of_reorder run) refused
      | error fault =>
          rw [Edit.step, run]
          exact ⟨fault, rfl⟩
  | push | pushRead | remove | sortBy | modify | setItemOffset => cases refused

/-- A refused edit changes nothing. -/
theorem Refused.after (refused : edit.Refused items) (valid : items.Valid) :
    edit.after items = items := by
  obtain ⟨fault, run⟩ := refused.step valid
  unfold Edit.after
  rw [run]

theorem Refused.makes (refused : edit.Refused items) (valid : items.Valid) :
    edit.Makes items (edit.issued? items) (edit.after items) := by
  obtain ⟨fault, run⟩ := refused.step valid
  unfold issued?
  rw [refused.after valid, run]
  apply makes_of_same valid rfl
  intro id
  cases edit with
  | push | pushRead | insert | move | sortBy | reorder | setItemOffset => rfl
  | remove | modify => cases refused

/-- Every edit of a valid section leaves a valid one, whether it succeeds or fails. -/
theorem makes (valid : items.Valid) (edit : Edit α) :
    edit.Makes items (edit.issued? items) (edit.after items) := by
  by_cases refused : edit.Refused items
  · exact refused.makes valid
  cases edit with
  | push item =>
      apply makes_of_ok rfl
      apply makes_of_new item (valid.push item) (Array.size_push ..)
      · exact item?_push items item
      · exact fun _ _ => rfl
  | pushRead item origin =>
      apply makes_of_ok rfl
      apply makes_of_new item (valid.pushRead item origin) (size_cells_pushRead ..)
      · intro id
        rw [item?_pushRead]
        exact item?_push items item id
      · exact fun _ _ => rfl
  | insert index item =>
      have inside : index ≤ items.order.size := Nat.not_lt.1 refused
      apply makes_of_ok (by rw [step, insert_eq, dif_pos inside]; rfl)
      apply makes_of_new item (valid.insert index inside item)
      · rw [size_cells_withOrder]
        exact Array.size_push ..
      · exact valid.item?_insert index inside item
      · exact fun _ _ => rfl
  | remove id =>
      apply makes_of_ok rfl
      exact makes_of_same (valid.remove id) (size_cells_remove ..) fun other =>
        valid.item?_remove id other
  | move id index =>
      obtain ⟨live, inside⟩ := not_or.1 refused
      apply makes_of_ok (by rw [step, move_eq, if_neg live, if_neg inside]; rfl)
      exact makes_withOrder valid
        (valid.perm_move (by simpa using live) (Nat.not_le.1 inside)) fun _ _ => rfl
  | sortBy compare =>
      apply makes_of_ok rfl
      exact makes_withOrder valid (List.mergeSort_perm ..) fun _ _ => rfl
  | reorder order =>
      have same : order.Perm items.order.toList := not_not.1 refused
      apply makes_of_ok (by rw [step, valid.reorder_eq same]; rfl)
      exact makes_withOrder valid same fun _ _ => rfl
  | modify id change =>
      apply makes_of_ok rfl
      exact makes_of_same (valid.modify id change) (Array.size_modify ..) fun other =>
        item?_modify ..
  | setItemOffset id offset =>
      apply makes_of_ok rfl
      exact makes_of_same (valid.setItemOffset id offset) (size_cells_setItemOffset ..) fun other =>
        item?_setItemOffset ..

theorem run_append (items : Section α) (earlier later : List (Edit α)) :
    run items (earlier ++ later) = run (run items earlier) later :=
  List.foldl_append ..

/-- Every section on the way of a run is valid. -/
theorem valid_run (valid : items.Valid) (edits : List (Edit α)) : (run items edits).Valid := by
  induction edits generalizing items with
  | nil => exact valid
  | cons edit rest ih => exact ih (makes valid edit).valid

/-- The ids that a run issues are those of the slots that it adds, one after the other. -/
theorem slots_issued (valid : items.Valid) (edits : List (Edit α)) :
    (run items edits).cells.size = items.cells.size + (issued items edits).length ∧
      (issued items edits).map Id.slot =
        List.range' items.cells.size (issued items edits).length := by
  induction edits generalizing items with
  | nil => exact ⟨rfl, rfl⟩
  | cons edit rest ih =>
      have makes := makes valid edit
      obtain ⟨size, slots⟩ := ih makes.valid
      rw [makes.size] at size slots
      unfold issued
      rw [List.length_append, List.map_append, slots, ← List.range'_append_1]
      constructor
      · exact size.trans (Nat.add_assoc ..)
      · congr 1
        cases new : edit.issued? items with
        | none => rfl
        | some id => simp [makes.new id new]

/-- No id is issued twice. -/
theorem nodup_issued (valid : items.Valid) (edits : List (Edit α)) : (issued items edits).Nodup := by
  have slots : ((issued items edits).map Id.slot).Nodup := by
    rw [(slots_issued valid edits).2]
    exact List.nodup_range'
  exact List.Pairwise.of_map Id.slot (fun _ _ different same => different (congrArg Id.slot same)) slots

/-- A run from a new section has issued the id of every item. -/
theorem mem_issued (kind : SectionKind) (edits : List (Edit α)) {id : Id α}
    (live : (run { kind } edits).contains id = true) : id ∈ issued { kind } edits := by
  obtain ⟨size, slots⟩ := slots_issued (valid_empty kind) edits
  have inside := slot_lt live
  rw [size] at inside
  have listed : id.slot ∈ (issued { kind } edits).map Id.slot := by
    rw [slots, List.mem_range'_1]
    exact ⟨Nat.zero_le _, inside⟩
  obtain ⟨other, there, same⟩ := List.mem_map.1 listed
  rwa [← Id.eq_iff.2 same]

/-- A removed item stays away. -/
theorem item?_run_of_none (valid : items.Valid) {id : Id α} (before : id.slot < items.cells.size)
    (gone : items.item? id = none) (edits : List (Edit α)) : (run items edits).item? id = none := by
  induction edits generalizing items with
  | nil => exact gone
  | cons edit rest ih =>
      have makes := makes valid edit
      apply ih makes.valid
      · rw [makes.size]
        exact Nat.lt_add_right _ before
      · rw [makes.old id before, gone]
        cases edit <;> simp [image]

/-- An item stays until it is removed. -/
theorem contains_run_iff (valid : items.Valid) {id : Id α} (live : items.contains id = true)
    (edits : List (Edit α)) : (run items edits).contains id = true ↔ remove id ∉ edits := by
  induction edits generalizing items with
  | nil => simpa [run] using live
  | cons edit rest ih =>
      have makes := makes valid edit
      have before := slot_lt live
      by_cases removes : edit = remove id
      · subst removes
        have gone : (run ((remove id).after items) rest).item? id = none := by
          apply item?_run_of_none makes.valid
          · rw [makes.size]
            exact Nat.lt_add_right _ before
          · rw [makes.old id before]
            exact if_pos rfl
        have dead : (run items (remove id :: rest)).contains id = false := by
          rw [contains_eq]
          exact congrArg Option.isSome gone
        simp [dead]
      · have stays : (edit.after items).contains id = true := by
          rw [contains_eq, makes.old id before]
          rw [contains_eq] at live
          cases edit with
          | remove other =>
              have different : id ≠ other := fun same => removes (by rw [same])
              simpa [image, different] using live
          | modify other change => by_cases same : id = other <;> simpa [image, same] using live
          | push | pushRead | insert | move | sortBy | reorder | setItemOffset => exact live
        rw [List.mem_cons, not_or]
        exact (ih makes.valid stays).trans (by simp [Ne.symm removes])

/-- An item that is neither removed nor changed stays as it is. -/
theorem item?_run (valid : items.Valid) {id : Id α} (live : items.contains id = true)
    {edits : List (Edit α)} (stays : remove id ∉ edits) (same : ∀ change, modify id change ∉ edits) :
    (run items edits).item? id = items.item? id := by
  induction edits generalizing items with
  | nil => rfl
  | cons edit rest ih =>
      have makes := makes valid edit
      have kept : (edit.after items).item? id = items.item? id := by
        rw [makes.old id (slot_lt live)]
        cases edit with
        | remove other =>
            have different : id ≠ other := by
              rintro rfl
              exact stays List.mem_cons_self
            simp [image, different]
        | modify other change =>
            have different : id ≠ other := by
              rintro rfl
              exact same change List.mem_cons_self
            simp [image, different]
        | push | pushRead | insert | move | sortBy | reorder | setItemOffset => rfl
      rw [← kept]
      apply ih makes.valid
      · rwa [contains_eq, kept, ← contains_eq]
      · exact fun inside => stays (List.mem_cons_of_mem _ inside)
      · exact fun change inside => same change (List.mem_cons_of_mem _ inside)

end Edit

/-- An item has an index when the index names the item. -/
theorem Valid.indexOf?_eq_some_iff {items : Section α} (valid : items.Valid)
    (fits : items.size < UInt32.size) {id : Id α} {index : UInt32} :
    items.indexOf? id = some index ↔ items.get? index = some id := by
  unfold get?
  constructor
  · intro place
    have bound := valid.indexOf?_lt (Nat.le_of_lt fits) place
    have real : index ≠ noIndex := by
      rintro rfl
      exact absurd (Nat.lt_of_le_of_lt bound fits) (by decide)
    rw [if_neg real]
    exact valid.getElem?_indexOf? (Nat.le_of_lt fits) place
  · intro found
    split at found
    · cases found
    · rw [valid.index _ id found, UInt32.ofNat_toNat]

end Section

namespace IndexRef

/-- A reference that was linked to an item of a section in one of the three ways. -/
inductive LinkedTo (items : Section α) (id : Id α) : IndexRef α → Prop
  | link (ref : IndexRef α) (unlinked : ref.item = none) (found : items.get? ref.raw = some id) :
    LinkedTo items id (ref.link items)
  | ofId (live : items.contains id = true) : LinkedTo items id (.ofId id)
  | setItem (ref : IndexRef α) (live : items.contains id = true) :
    LinkedTo items id (ref.setItem (some id))

/-- A reference names an item by its index, at which the section finds the item as long as an index
holds every place. -/
structure Tracks (items : Section α) (id : Id α) (ref : IndexRef α) : Prop where
  item : ref.item = some id
  index : items.indexOf? id = some ref.raw
  found : items.size < UInt32.size → items.get? ref.raw = some id

variable {items : Section α} {id : Id α} {ref : IndexRef α}

theorem LinkedTo.item (linked : ref.LinkedTo items id) : ref.item = some id := by
  cases linked with
  | link ref unlinked found => simp [IndexRef.link, unlinked, found]
  | ofId | setItem => rfl

theorem LinkedTo.live (linked : ref.LinkedTo items id) (valid : items.Valid) :
    items.contains id = true := by
  cases linked with
  | link ref unlinked found =>
      unfold Section.get? at found
      split at found
      · cases found
      · rw [Section.contains_eq]
        exact valid.item?_getElem found
  | ofId live => exact live
  | setItem ref live => exact live

theorem refresh_of_removed (named : ref.item = some id) (gone : items.contains id = false) :
    ref.refresh items = {} := by
  rw [Section.contains_eq, ← Section.isSome_indexOf?, Option.isSome_eq_false_iff,
    Option.isNone_iff_eq_none] at gone
  simp only [refresh, named, gone]

theorem tracks_refresh (valid : items.Valid) (named : ref.item = some id)
    (live : items.contains id = true) : (ref.refresh items).Tracks items id := by
  rw [Section.contains_eq, ← Section.isSome_indexOf?] at live
  obtain ⟨index, place⟩ := Option.isSome_iff_exists.1 live
  have refreshed : ref.refresh items = { ref with raw := index } := by
    simp only [refresh, named, place]
  rw [refreshed]
  exact {
    item := named
    index := place
    found := fun fits => (valid.indexOf?_eq_some_iff fits).1 place }

end IndexRef

namespace Section

/-- References by identity: what holds of a section behind edits and of the references to its items. -/
structure ByIdentity (edits : List (Edit α)) (items final : Section α) : Prop where
  /-- The order lists every live item once and no other. -/
  once : ∀ id, final.order.count id = if final.contains id then 1 else 0
  /-- An item has an index when the index names the item. Indexes are 32 bits wide, and the last one
  names none. -/
  indexed : final.size < UInt32.size → ∀ id index,
    final.indexOf? id = some index ↔ final.get? index = some id
  /-- An edit beyond the items or with an order of other ids fails and changes nothing. -/
  refused : ∀ edit : Edit α, edit.Refused final →
    (∃ fault, edit.step final = .error fault) ∧ edit.after final = final
  live : ∀ id, items.contains id → (final.contains id ↔ Edit.remove id ∉ edits)
  same : ∀ id, items.contains id → Edit.remove id ∉ edits → (∀ change, Edit.modify id change ∉ edits) →
    final.item? id = items.item? id
  followed : ∀ (id : Id α) (ref : IndexRef α), ref.LinkedTo items id → Edit.remove id ∉ edits →
    (ref.refresh final).Tracks final id
  /-- The reference to a removed item becomes the sentinel. -/
  removed : ∀ (id : Id α) (ref : IndexRef α), ref.LinkedTo items id → Edit.remove id ∈ edits →
    ref.refresh final = {}
  unlinked : ∀ ref : IndexRef α, ref.item = none → ref.refresh final = ref

theorem Valid.count_order {items : Section α} (valid : items.Valid) (id : Id α) :
    items.order.count id = if items.contains id then 1 else 0 := by
  have listed : id ∈ items.order.toList ↔ items.contains id = true := by
    rw [Array.mem_toList_iff, valid.mem_order_iff, contains_eq]
  rw [← Array.count_toList, valid.nodup.count]
  exact if_congr listed rfl rfl

theorem Valid.byIdentity {items : Section α} (valid : items.Valid) (edits : List (Edit α)) :
    ByIdentity edits items (Edit.run items edits) := by
  have valid' := Edit.valid_run valid edits
  exact {
    once := valid'.count_order
    indexed := fun fits id index => valid'.indexOf?_eq_some_iff fits
    refused := fun edit refused => ⟨refused.step valid', refused.after valid'⟩
    live := fun id live => Edit.contains_run_iff valid live edits
    same := fun id live stays same => Edit.item?_run valid live stays same
    followed := fun id ref linked stays => IndexRef.tracks_refresh valid' linked.item
      ((Edit.contains_run_iff valid (linked.live valid) edits).2 stays)
    removed := fun id ref linked removes => by
      apply IndexRef.refresh_of_removed linked.item
      rw [← Bool.not_eq_true, Edit.contains_run_iff valid (linked.live valid) edits]
      exact not_not.2 removes
    unlinked := fun ref unlinked => by simp only [IndexRef.refresh, unlinked] }

/-- In every section that edits build from an empty one, references go by identity through every
further edits, and no id is issued twice, whether its item was removed or not. -/
theorem Edit.byIdentity_run (kind : SectionKind) (earlier later : List (Edit α)) :
    ByIdentity later (run { kind } earlier) (run { kind } (earlier ++ later)) ∧
      (issued { kind } (earlier ++ later)).Nodup ∧
      ∀ id, (run { kind } (earlier ++ later)).contains id → id ∈ issued { kind } (earlier ++ later) := by
  refine ⟨?_, nodup_issued (valid_empty kind) _, fun id live => mem_issued kind _ live⟩
  rw [run_append]
  exact (valid_run (valid_empty kind) earlier).byIdentity later

end Section
end DexArsc.Dex
