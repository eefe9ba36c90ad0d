/-
Items that go away together, and the items of another section that only they used.
-/

import DexArsc.Proofs.Dex.Section.Valid

namespace DexArsc.Dex.Section

variable {α β : Type} {items final : Section α}

/-- A removal returns the item that it removes. -/
theorem fst_remove (items : Section α) (id : Id α) : (items.remove id).1 = items.item? id := by
  rw [item?_eq]
  unfold remove
  cases items.live? id <;> rfl

theorem order_remove (items : Section α) (id : Id α) :
    (items.remove id).2.order.toList.Sublist items.order.toList := by
  unfold remove
  cases items.live? id with
  | none => exact List.Sublist.refl _
  | some cell =>
      show (items.order.filter (· ≠ id)).toList.Sublist _
      rw [Array.toList_filter]
      exact List.filter_sublist

/-- A removal takes one id out of the order. -/
theorem Valid.order_remove (valid : items.Valid) (id : Id α) :
    (items.remove id).2.order.toList = items.order.toList.filter (· ≠ id) := by
  unfold Section.remove
  cases found : items.live? id with
  | none =>
      refine (List.filter_eq_self.2 fun other inside => decide_eq_true ?_).symm
      rintro rfl
      have live := valid.mem_order_iff.1 (Array.mem_toList_iff.1 inside)
      rw [item?_eq, found] at live
      cases live
  | some cell => exact Array.toList_filter

/-- The items with some ids are gone. All others are as they were, in the order that they had. -/
structure Loses (items : Section α) (gone : Id α → Prop) (final : Section α) : Prop where
  lost : ∀ id, gone id → final.item? id = none
  kept : ∀ id, ¬gone id → final.item? id = items.item? id
  /-- The order has lost the ids that are gone, and nothing else has changed in it. -/
  order : final.order.toList = items.order.toList.filter fun id => (final.item? id).isSome

namespace Loses

variable {gone other : Id α → Prop}

/-- Nothing is gone. -/
theorem nothing (valid : items.Valid) : items.Loses (fun _ => False) items where
  lost _ none := none.elim
  kept _ _ := rfl
  order := (List.filter_eq_self.2 fun _ inside => valid.mem_order_iff.1 (Array.mem_toList_iff.1 inside)).symm

/-- It only counts which live items are gone. -/
theorem congr (loses : items.Loses gone final)
    (same : ∀ id, (items.item? id).isSome → (gone id ↔ other id)) : items.Loses other final where
  lost id here := by
    by_cases live : (items.item? id).isSome
    · exact loses.lost id ((same id live).2 here)
    · by_cases before : gone id
      · exact loses.lost id before
      · rw [loses.kept id before, ← Option.not_isSome_iff_eq_none]
        exact live
  kept id stays := by
    by_cases live : (items.item? id).isSome
    · exact loses.kept id (mt (same id live).1 stays)
    · rw [Option.not_isSome_iff_eq_none] at live
      by_cases before : gone id
      · rw [loses.lost id before, live]
      · exact loses.kept id before
  order := loses.order

/-- A live item that is not found any more is gone. -/
theorem gone_of_none (loses : items.Loses gone final) {id : Id α} (live : (items.item? id).isSome)
    (none : final.item? id = none) : gone id := by
  by_cases here : gone id
  · exact here
  · rw [← loses.kept id here, none] at live
    cases live

/-- One more item is removed. -/
theorem remove (loses : items.Loses gone final) (valid : final.Valid) (id : Id α) :
    items.Loses (fun other => gone other ∨ other = id) (final.remove id).2 where
  lost other here := by
    rw [valid.item?_remove]
    split
    · rfl
    · rename_i different
      exact loses.lost other (here.resolve_right different)
  kept other stays := by
    rw [not_or] at stays
    rw [valid.item?_remove, if_neg stays.2]
    exact loses.kept other stays.1
  order := by
    rw [valid.order_remove, loses.order, List.filter_filter]
    refine List.filter_congr fun other _ => ?_
    rw [valid.item?_remove]
    by_cases same : other = id <;> simp [same]

theorem isSome (loses : items.Loses gone final) {id : Id α} (live : (items.item? id).isSome)
    (stays : ¬gone id) : (final.item? id).isSome := by
  rwa [loses.kept id stays]

/-- All items with the ids of a list are removed. -/
theorem removeAll (loses : items.Loses gone final) (valid : final.Valid) (ids : List (Id α)) :
    items.Loses (fun other => gone other ∨ other ∈ ids)
      (ids.foldl (fun items id => (items.remove id).2) final) := by
  induction ids generalizing gone final with
  | nil => exact loses.congr fun id _ => by simp
  | cons id rest ih =>
      refine (ih (loses.remove valid id) (valid.remove id)).congr fun other _ => ?_
      rw [List.mem_cons, or_assoc]

/-- The items that stay. -/
theorem item?_eq_some (loses : items.Loses gone final) {id : Id α} {item : α} :
    final.item? id = some item ↔ items.item? id = some item ∧ ¬gone id := by
  by_cases here : gone id
  · simp [loses.lost id here, here]
  · simp [loses.kept id here, here]

end Loses

/-- Some item of a section uses an item. -/
def Uses (users : Section β) (uses : β → Id α → Prop) (id : Id α) : Prop :=
  ∃ user item, users.item? user = some item ∧ uses item id

/-- An item is abandoned by users that go away when one of them uses it and no user that stays. -/
structure Abandons (users : Section β) (gone : Id β → Prop) (uses : β → Id α → Prop) (id : Id α) :
    Prop where
  used : ∃ user item, users.item? user = some item ∧ gone user ∧ uses item id
  unused : ∀ user item, users.item? user = some item → uses item id → gone user

variable {users between : Section β} {gone : Id β → Prop} {uses : β → Id α → Prop}

/-- It only counts which live users go away. -/
theorem Abandons.congr {other : Id β → Prop} {id : Id α} (abandoned : users.Abandons gone uses id)
    (same : ∀ user, (users.item? user).isSome → (gone user ↔ other user)) :
    users.Abandons other uses id where
  used := by
    obtain ⟨user, item, found, here, used⟩ := abandoned.used
    exact ⟨user, item, found, (same user (by rw [found]; rfl)).1 here, used⟩
  unused user item found used :=
    (same user (by rw [found]; rfl)).1 (abandoned.unused user item found used)

theorem not_abandons_nothing (id : Id α) : ¬users.Abandons (fun _ => False) uses id := by
  rintro ⟨⟨_, _, _, none, _⟩, _⟩
  exact none

/-- When one more user goes away, it abandons what it uses and no user that stays. -/
theorem abandons_or_iff (loses : users.Loses gone between) (valid : between.Valid) {user : Id β}
    {item : β} (found : between.item? user = some item) (id : Id α) :
    users.Abandons (fun other => gone other ∨ other = user) uses id ↔
      users.Abandons gone uses id ∨ uses item id ∧ ¬(between.remove user).2.Uses uses id := by
  have staying {other : Id β} {image : β} :
      (between.remove user).2.item? other = some image ↔
        users.item? other = some image ∧ ¬(gone other ∨ other = user) :=
    (loses.remove valid user).item?_eq_some
  obtain ⟨live, stays⟩ := loses.item?_eq_some.1 found
  constructor
  · intro abandoned
    by_cases last : uses item id
    · refine .inr ⟨last, ?_⟩
      rintro ⟨other, image, there, used⟩
      obtain ⟨there, here⟩ := staying.1 there
      exact here (abandoned.unused other image there used)
    · left
      have different {other : Id β} {image : β} (there : users.item? other = some image)
          (used : uses image id) : other ≠ user := by
        rintro rfl
        cases live.symm.trans there
        exact last used
      constructor
      · obtain ⟨other, image, there, here, used⟩ := abandoned.used
        exact ⟨other, image, there, here.resolve_right (different there used), used⟩
      · exact fun other image there used =>
          (abandoned.unused other image there used).resolve_right (different there used)
  · rintro (abandoned | ⟨last, unused⟩)
    · constructor
      · obtain ⟨other, image, there, here, used⟩ := abandoned.used
        exact ⟨other, image, there, .inl here, used⟩
      · exact fun other image there used => .inl (abandoned.unused other image there used)
    · refine ⟨⟨user, item, live, .inr rfl, last⟩, fun other image there used => ?_⟩
      exact Classical.byContradiction fun here => unused ⟨other, image, staying.2 ⟨there, here⟩, used⟩

/-- The first user that goes away. -/
theorem abandons_eq_iff (valid : users.Valid) {user : Id β} {item : β}
    (found : users.item? user = some item) (id : Id α) :
    users.Abandons (· = user) uses id ↔ uses item id ∧ ¬(users.remove user).2.Uses uses id := by
  have one : users.Abandons (fun other => False ∨ other = user) uses id ↔ _ :=
    abandons_or_iff (.nothing valid) valid found id
  simp only [false_or, not_abandons_nothing] at one
  exact one

/-- An item that a staying user uses is not abandoned. -/
theorem not_abandons {user : Id β} {item : β} (found : users.item? user = some item)
    (stays : ¬gone user) {id : Id α} (used : uses item id) : ¬users.Abandons gone uses id :=
  fun abandoned => stays (abandoned.unused user item found used)

end DexArsc.Dex.Section
