/-
The checks of keys: which keys follow the grammar, and what a shorty keeps of it.
-/

import DexArsc.Dex.File.Keys
import DexArsc.Dex.Key
import DexArsc.Proofs.Dex.Section.Valid
import DexArsc.Proofs.Step
import Mathlib.Data.List.Nodup

namespace DexArsc

/-- A result behind a check. -/
theorem Except.check_eq_ok {β : Type} {check : Except Fault Unit} {next : Unit → Except Fault β}
    {result : β} : (check >>= next) = .ok result ↔ check = .ok () ∧ next () = .ok result :=
  bind_eq_ok.trans ⟨fun ⟨_, here, there⟩ => ⟨here, there⟩, fun ⟨here, there⟩ => ⟨(), here, there⟩⟩

namespace Dex

theorem checkTypeDescriptor_eq_ok {text : String} :
    checkTypeDescriptor text = .ok () ↔ isTypeDescriptor text := by
  unfold checkTypeDescriptor malformed
  split <;> simp [*]

theorem checkMemberName_eq_ok {text : String} : checkMemberName text = .ok () ↔ isMemberName text := by
  unfold checkMemberName malformed
  split <;> simp [*]

/-- A check of every element succeeds when each check does. -/
theorem forM_eq_ok {α : Type} {values : List α} {check : α → Except Fault Unit} :
    values.forM check = .ok () ↔ ∀ value ∈ values, check value = .ok () := by
  induction values with
  | nil => simp [pure, Except.pure]
  | cons value rest ih =>
      rw [List.forM_eq_forM] at ih ⊢
      rw [List.forM_cons, Except.check_eq_ok, ih]
      simp

/-- Every part of a prototype is a descriptor, and every parameter has values. -/
theorem Prototype.check_eq_ok {key : Prototype} : key.check = .ok () ↔
    isTypeDescriptor key.returnType ∧
      ∀ parameter ∈ key.parameters, isTypeDescriptor parameter ∧ parameter ≠ "V" := by
  have parameter (text : String) : (do
      checkTypeDescriptor text
      if text = "V" then malformed .parameterType text : Except Fault Unit) = .ok () ↔
        isTypeDescriptor text ∧ text ≠ "V" := by
    rw [Except.check_eq_ok, checkTypeDescriptor_eq_ok]
    refine and_congr_right fun _ => ?_
    split <;> simp [*, malformed, pure, Except.pure]
  unfold check
  rw [Except.check_eq_ok, checkTypeDescriptor_eq_ok, forM_eq_ok]
  simp only [parameter]

theorem FieldKey.check_eq_ok {key : FieldKey} : key.check = .ok () ↔
    isTypeDescriptor key.owner ∧ isMemberName key.name ∧ isTypeDescriptor key.type ∧
      key.type ≠ "V" := by
  unfold check
  simp only [Except.check_eq_ok, checkTypeDescriptor_eq_ok, checkMemberName_eq_ok]
  refine and_congr_right fun _ => and_congr_right fun _ => and_congr_right fun _ => ?_
  split <;> simp [*, malformed, pure, Except.pure]

theorem MethodKey.checkNames_eq_ok {key : MethodKey} : key.checkNames = .ok () ↔
    isTypeDescriptor key.owner ∧ isMemberName key.name := by
  unfold checkNames
  rw [Except.check_eq_ok, checkTypeDescriptor_eq_ok, checkMemberName_eq_ok]

/-- The type of no value is the only descriptor with its letter. -/
theorem eq_void_of_shortyChar {text : String} (grammar : isTypeDescriptor text)
    (letter : shortyChar text = shortyChar "V") : text = "V" := by
  have taken : takesAll scanReturnType text := by
    unfold isTypeDescriptor at grammar
    exact (Bool.and_eq_true_iff.1 grammar).2
  unfold shortyChar takesAll at *
  rw [← String.toList_inj]
  split at letter
  · rename_i empty
    rw [empty] at taken
    cases taken
  · cases letter
  · rename_i first rest _ chars
    obtain rfl : first = 'V' := letter
    rw [chars] at taken ⊢
    cases rest with
    | nil => rfl
    | cons second rest => cases taken

/-- The letter of classes in shorties is the one of arrays too. -/
theorem shortyChar_eq_iff {descriptor : String} :
    shortyChar descriptor = 'L' ↔ descriptor.startsWith "L" ∨ descriptor.startsWith "[" := by
  rw [String.startsWith_string_iff, String.startsWith_string_iff, shortyChar]
  cases descriptor.toList with
  | nil => decide
  | cons first rest =>
      by_cases array : first = '['
      · simp [array]
      · simp [array, eq_comm]

end Dex
end DexArsc

namespace DexArsc.Dex

variable {κ α : Type}

/-- The keyed entries are the live items with their keys. -/
theorem Section.Valid.mem_keyed {items : Section α} (valid : items.Valid) {key? : α → Option κ}
    {key : κ} {id : Id α} : (key, id) ∈ items.keyed key? ↔
      ∃ item, items.item? id = some item ∧ key? item = some key := by
  unfold keyed entries
  simp only [List.mem_filterMap, Option.map_eq_some_iff, Prod.exists, Prod.mk.injEq]
  constructor
  · rintro ⟨_, item, ⟨other, _, _, found, rfl, rfl⟩, _, named, rfl, rfl⟩
    exact ⟨_, found, named⟩
  · rintro ⟨item, found, named⟩
    exact ⟨id, item, ⟨id, Array.mem_toList_iff.2 (valid.mem_order_iff.2 (by rw [found]; rfl)), item,
      found, rfl, rfl⟩, key, named, rfl, rfl⟩

namespace Pool

variable [BEq κ] [Hashable κ]

/-- The key map is fresh and finds every item by its key, and nothing else. -/
structure Knows (pool : Pool κ α) (key? : α → Option κ) : Prop where
  fresh : pool.stale = false
  keys : ∀ (key : κ) (id : Id α), pool.keys[key]? = some id ↔
    ∃ item, pool.items.item? id = some item ∧ key? item = some key

/-- A pool that is not stale knows its keys. -/
def Trusted (pool : Pool κ α) (key? : α → Option κ) : Prop :=
  pool.stale = false → pool.Knows key?

/-- What a pool knows depends on the items alone. -/
theorem Knows.congr {pool : Pool κ α} {key? other : α → Option κ} (knows : pool.Knows key?)
    (same : ∀ id item, pool.items.item? id = some item → other item = key? item) :
    pool.Knows other where
  fresh := knows.fresh
  keys key id := by
    rw [knows.keys]
    refine exists_congr fun item => and_congr_right fun found => ?_
    rw [same id item found]

section Steps

variable [KeyText κ] {pool next : Pool κ α}

/-- A fresh key map leaves the items. -/
theorem items_freshen {key? : α → Option κ} (run : pool.freshen key? = .ok next) :
    next.items = pool.items := by
  unfold freshen at run
  split at run
  · obtain ⟨_, _, rebuilt⟩ := Except.bind_eq_ok.1 run
    cases rebuilt
    rfl
  · cases run
    rfl

/-- Another key leaves the items. -/
theorem items_rekey {id : Id α} {old new : κ} (run : pool.rekey id old new = .ok next) :
    next.items = pool.items := by
  unfold rekey at run
  split at run
  · split at run <;> cases run
    rfl
  · cases run
    rfl

end Steps

variable [LawfulBEq κ] [KeyText κ]

/-- A key map holds the entries that it was made from, and nothing else. -/
theorem getElem?_keyMap {kind : SectionKind} {entries : List (κ × Id α)} {known keys : Std.HashMap κ (Id α)}
    (run : keyMap kind entries known = .ok keys) (key : κ) (id : Id α) :
    keys[key]? = some id ↔ known[key]? = some id ∨ (key, id) ∈ entries := by
  induction entries generalizing known with
  | nil =>
      cases run
      simp
  | cons entry rest ih =>
      obtain ⟨first, owner⟩ := entry
      unfold keyMap at run
      split at run
      · cases run
      · rename_i agrees
        rw [ih run, Std.HashMap.getElem?_insert, List.mem_cons, Prod.mk.injEq]
        by_cases same : first = key
        · subst same
          have known' : known[first]? = some id → id = owner := fun found => by
            rw [found] at agrees
            simpa using agrees
          simp only [beq_self_eq_true, if_true, Option.some.injEq, true_and]
          constructor
          · rintro (equal | inside)
            · exact .inr (.inl equal.symm)
            · exact .inr (.inr inside)
          · rintro (found | equal | inside)
            · exact .inl (known' found).symm
            · exact .inl equal.symm
            · exact .inr inside
        · simp [same, Ne.symm same]

/-- A key map is made exactly when no key names two items. -/
theorem keyMap_isOk_iff (kind : SectionKind) (entries : List (κ × Id α)) (known : Std.HashMap κ (Id α)) :
    (∃ keys, keyMap kind entries known = .ok keys) ↔ ∀ (key : κ) (id other : Id α),
      known[key]? = some id ∨ (key, id) ∈ entries → known[key]? = some other ∨ (key, other) ∈ entries → id = other := by
  constructor
  · rintro ⟨keys, run⟩ key id other here there
    have found := (getElem?_keyMap run key id).2 here
    exact Option.some.inj (found.symm.trans ((getElem?_keyMap run key other).2 there))
  · intro once
    induction entries generalizing known with
    | nil => exact ⟨known, rfl⟩
    | cons entry rest ih =>
        obtain ⟨first, owner⟩ := entry
        have agrees : ¬known[first]?.any (· ≠ owner) := by
          cases found : known[first]? with
          | none => simp
          | some id => simp [once first id owner (.inl found) (.inr List.mem_cons_self)]
        unfold keyMap
        rw [if_neg agrees]
        have listed {key : κ} {id : Id α} (here : (known.insert first owner)[key]? = some id ∨ (key, id) ∈ rest) :
            known[key]? = some id ∨ (key, id) ∈ (first, owner) :: rest := by
          rw [Std.HashMap.getElem?_insert] at here
          rw [List.mem_cons, Prod.mk.injEq]
          rcases here with here | inside
          · split at here
            · rename_i same
              exact .inr (.inl ⟨(eq_of_beq same).symm, (Option.some.inj here).symm⟩)
            · exact .inl here
          · exact .inr (.inr inside)
        exact ih _ fun key id other here there => once key id other (listed here) (listed there)

/-- A key map of different keys holds all of them. -/
theorem keyMap_of_nodup (kind : SectionKind) (entries : List (κ × Id α))
    (distinct : (entries.map Prod.fst).Nodup) (known : Std.HashMap κ (Id α))
    (new : ∀ key ∈ entries.map Prod.fst, known[key]? = none) :
    ∃ keys, keyMap kind entries known = .ok keys ∧
      ∀ (key : κ) (id : Id α), keys[key]? = some id ↔ known[key]? = some id ∨ (key, id) ∈ entries := by
  have absent {key : κ} {id other : Id α} (found : known[key]? = some id) : (key, other) ∉ entries := fun inside => by
    rw [new key (List.mem_map.2 ⟨_, inside, rfl⟩)] at found
    cases found
  obtain ⟨keys, run⟩ := (keyMap_isOk_iff kind entries known).2 fun key id other here there => by
    rcases here with found | inside
    · rcases there with found' | inside'
      · exact Option.some.inj (found.symm.trans found')
      · exact absurd inside' (absent found)
    · rcases there with found' | inside'
      · exact absurd inside (absent found')
      · exact congrArg Prod.snd (List.inj_on_of_nodup_map distinct inside inside' rfl)
  exact ⟨keys, run, getElem?_keyMap run⟩

/-- A pool whose items differ in their keys receives a fresh key map. -/
theorem freshen_of_nodup {pool : Pool κ α} {key? : α → Option κ} (valid : pool.items.Valid)
    (distinct : ((pool.items.keyed key?).map Prod.fst).Nodup) (trusted : pool.Trusted key?) :
    ∃ next, pool.freshen key? = .ok next ∧ next.items = pool.items ∧ next.Knows key? := by
  unfold freshen
  cases stale : pool.stale with
  | false => exact ⟨pool, rfl, rfl, trusted stale⟩
  | true =>
      obtain ⟨keys, run, found⟩ := keyMap_of_nodup pool.items.kind _ distinct {} (by simp)
      refine ⟨{ pool with keys, stale := false }, ?_, rfl, rfl, fun key id => ?_⟩
      · simp only [if_true, rebuild, run]
        rfl
      · rw [found, valid.mem_keyed]
        simp

end Pool
end DexArsc.Dex
