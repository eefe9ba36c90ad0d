/-
Lists whose elements stand in pairs.
-/

import Mathlib.Data.List.Forall2

namespace DexArsc

/-- The images of a list whose elements all have one stand at the places of the elements. -/
theorem mapM_eq_some {α β : Type} {image? : α → Option β} {values : List α} {images : List β} :
    values.mapM image? = some images ↔
      List.Forall₂ (fun value image => image? value = some image) values images := by
  induction values generalizing images with
  | nil =>
      rw [List.mapM_nil, List.forall₂_nil_left_iff, Option.pure_def, Option.some.injEq, eq_comm]
  | cons value rest ih =>
      simp only [List.mapM_cons, Option.bind_eq_bind, Option.bind_eq_some_iff, Option.pure_def, Option.some.injEq,
        List.forall₂_cons_left_iff, ih]
      constructor
      · rintro ⟨image, here, others, there, rfl⟩
        exact ⟨image, others, here, there, rfl⟩
      · rintro ⟨image, others, here, there, rfl⟩
        exact ⟨image, here, others, there, rfl⟩

/-- A list has images when all of its elements have one. -/
theorem exists_mapM_eq_some {α β : Type} {image? : α → Option β} {values : List α}
    (each : ∀ value ∈ values, (image? value).isSome) : ∃ images, values.mapM image? = some images := by
  induction values with
  | nil => exact ⟨[], rfl⟩
  | cons value rest ih =>
      obtain ⟨image, here⟩ := Option.isSome_iff_exists.1 (each value List.mem_cons_self)
      obtain ⟨images, behind⟩ := ih fun next inside => each next (List.mem_cons_of_mem _ inside)
      exact ⟨image :: images, by rw [List.mapM_cons, here, behind]; rfl⟩

/-- The partner of an element at its place. -/
theorem forall₂_getElem? {α β : Type} {related : α → β → Prop} {first : List α} {second : List β}
    (pairwise : List.Forall₂ related first second) {place : Nat} {value : α}
    (found : first[place]? = some value) : ∃ partner, second[place]? = some partner ∧ related value partner := by
  induction pairwise generalizing place with
  | nil => cases found
  | @cons value' partner _ _ here _ ih =>
      cases place with
      | zero =>
          cases found
          exact ⟨partner, rfl, here⟩
      | succ place => exact ih found

theorem forall₂_imp_mem {α β : Type} {related other : α → β → Prop} {first : List α} {second : List β}
    (pairwise : List.Forall₂ related first second)
    (implies : ∀ value ∈ first, ∀ partner ∈ second, related value partner → other value partner) :
    List.Forall₂ other first second := by
  induction pairwise with
  | nil => exact .nil
  | @cons value partner _ _ here _ ih =>
      exact .cons (implies value List.mem_cons_self partner List.mem_cons_self here)
        (ih fun value inside partner inside' =>
          implies value (List.mem_cons_of_mem _ inside) partner (List.mem_cons_of_mem _ inside'))

/-- The partner of an element in front. -/
theorem forall₂_mem {α β : Type} {related : α → β → Prop} {first : List α} {second : List β}
    (pairwise : List.Forall₂ related first second) {partner : β} (inside : partner ∈ second) :
    ∃ value ∈ first, related value partner := by
  obtain ⟨place, found⟩ := List.mem_iff_getElem?.1 inside
  obtain ⟨value, there, here⟩ := forall₂_getElem? pairwise.flip found
  exact ⟨value, List.mem_of_getElem? there, here⟩

/-- The partners of two lists in a row are two lists in a row. -/
theorem forall₂_append_left {α β : Type} {related : α → β → Prop} {first more : List α} {second : List β}
    (pairwise : List.Forall₂ related (first ++ more) second) : ∃ front back, second = front ++ back ∧
      List.Forall₂ related first front ∧ List.Forall₂ related more back := by
  induction first generalizing second with
  | nil => exact ⟨[], second, rfl, .nil, pairwise⟩
  | cons value rest ih =>
      cases pairwise with
      | cons here later =>
          obtain ⟨front, back, rfl, paired, behind⟩ := ih later
          exact ⟨_ :: front, back, rfl, .cons here paired, behind⟩

/-- Partners of partners. -/
theorem forall₂_comp {α β γ : Type} {related : α → β → Prop} {next : β → γ → Prop} {other : α → γ → Prop}
    {first : List α} {second : List β} {third : List γ} (pairwise : List.Forall₂ related first second)
    (follows : List.Forall₂ next second third) (joins : ∀ a b c, related a b → next b c → other a c) :
    List.Forall₂ other first third := by
  induction pairwise generalizing third with
  | nil =>
      cases follows
      exact .nil
  | cons here _ ih =>
      cases follows with
      | cons there later => exact .cons (joins _ _ _ here there) (ih later)

/-- What relates each pair of three lists relates two of them. -/
theorem forall₂_triangle {α β γ : Type} {related : α → β → Prop}
    {next other : β → γ → Prop} {across : α → γ → Prop}
    {first : List α} {second : List β} {third : List γ} (pairwise : List.Forall₂ related first second)
    (follows : List.Forall₂ next second third) (crosses : List.Forall₂ across first third)
    (joins : ∀ a b c, related a b → next b c → across a c → other b c) : List.Forall₂ other second third := by
  induction pairwise generalizing third with
  | nil =>
      cases follows
      exact .nil
  | cons here _ ih =>
      cases follows with
      | cons there later =>
          cases crosses with
          | cons direct behind => exact .cons (joins _ _ _ here there direct) (ih later behind)

end DexArsc
