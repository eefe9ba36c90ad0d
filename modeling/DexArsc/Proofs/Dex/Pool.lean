/-
The key maps of pools along runs. Items come and go, take other keys and move, and whenever the pool is fresh its key
map pairs keys and live items one to one. A stale pool answers nothing until it is rebuilt.
-/

import DexArsc.Proofs.Dex.Edit.Rename
import DexArsc.Proofs.Dex.Section.Identity
import DexArsc.Proofs.Dex.Section.Removal

namespace DexArsc.Dex

variable {κ α : Type}

namespace Section.Edit

/-- The items are moved, sorted, replaced in place or laid out, and none comes or goes. -/
def Rearranges : Edit α → Prop
  | move _ _ | sortBy _ | reorder _ | modify _ _ | setItemOffset _ _ => True
  | _ => False

/-- The same items are live behind a rearrangement. -/
theorem contains_after {items : Section α} (valid : items.Valid) {edit : Edit α} (rearranges : edit.Rearranges)
    (id : Id α) : (edit.after items).contains id = items.contains id := by
  have makes := makes valid edit
  have issues : edit.issued? items = none := by
    unfold issued?
    cases edit with
    | push | pushRead | insert | remove => exact rearranges.elim
    | sortBy | modify | setItemOffset => rfl
    | move id index =>
        simp only [step]
        cases items.move id index <;> rfl
    | reorder order =>
        simp only [step]
        cases items.reorder order <;> rfl
  have size : (edit.after items).cells.size = items.cells.size := by
    rw [makes.size, issues]
    rfl
  rw [contains_eq, contains_eq]
  by_cases old : id.slot < items.cells.size
  · rw [makes.old id old]
    cases edit with
    | push | pushRead | insert | remove => exact rearranges.elim
    | move | sortBy | reorder | setItemOffset => rfl
    | modify other change =>
        simp only [image]
        split <;> simp
  · unfold item?
    rw [Array.getElem?_eq_none (by omega), Array.getElem?_eq_none (by omega)]

end Section.Edit

namespace Pool

variable [BEq κ] [Hashable κ] {pool final : Pool κ α}

/-- A result replaces the pool, and a failure leaves it. -/
def replace (change : Pool κ α → Except Fault (Pool κ α)) : Step (Pool κ α) Unit := fun pool =>
  match change pool with
  | .ok final => .ok () final
  | .error fault => .error fault pool

/-- The calls that a pool can refuse. -/
inductive Call (κ α : Type)
  | findOrPush (key : κ) (item : Unit → α)
  | rekey (id : Id α) (old new : κ)
  | rebuild (entries : List (κ × Id α))

namespace Call

/-- The step of a call, without its result. -/
def step [KeyText κ] : Call κ α → Step (Pool κ α) Unit
  | findOrPush key item => do let _ ← Pool.findOrPush key item
  | rekey id old new => replace fun pool => pool.rekey id old new
  | rebuild entries => replace fun pool => pool.rebuild entries

/-- A stale pool refuses to look a key up, a key of another item is refused, and so are entries in which one key names
two items. -/
def Refused (pool : Pool κ α) : Call κ α → Prop
  | findOrPush _ _ => pool.stale = true
  | rekey id _ new => ∃ owner, pool.keys[new]? = some owner ∧ owner ≠ id
  | rebuild entries => ∃ key id other, (key, id) ∈ entries ∧ (key, other) ∈ entries ∧ id ≠ other

end Call

section Calls

variable [KeyText κ]

theorem findOrPush_of_stale (stale : pool.stale = true) (key : κ) (item : Unit → α) :
    findOrPush key item pool =
      .error { cause := .dex (.staleKeys pool.items.kind (KeyText.text key)) } pool := by
  rw [findOrPush, if_pos stale]

theorem findOrPush_of_some (fresh : pool.stale = false) {key : κ} {id : Id α} (found : pool.keys[key]? = some id)
    (item : Unit → α) : findOrPush key item pool = .ok (id, false) pool := by
  rw [findOrPush, if_neg (by simp [fresh]), found]

theorem findOrPush_of_none (fresh : pool.stale = false) {key : κ} (absent : pool.keys[key]? = none)
    (item : Unit → α) : findOrPush key item pool =
      .ok ((pool.items.push (item ())).1, true) (pool.pushKeyed key (item ())) := by
  rw [findOrPush, if_neg (by simp [fresh]), absent]
  rfl

/-- A call fails exactly when it is refused, and a failure leaves the items, the key map and the mark. -/
theorem Call.step_cases [LawfulBEq κ] (call : Call κ α) (pool : Pool κ α) :
    (call.Refused pool ∧ ∃ fault, call.step pool = .error fault pool) ∨
      ¬call.Refused pool ∧ ∃ final, call.step pool = .ok () final := by
  cases call with
  | findOrPush key item =>
      simp only [step, Refused]
      cases stale : pool.stale with
      | true =>
          refine .inl ⟨rfl, { cause := .dex (.staleKeys pool.items.kind (KeyText.text key)) }, ?_⟩
          rw [Step.bind_apply, findOrPush_of_stale stale key item]
      | false =>
          refine .inr ⟨by simp, ?_⟩
          cases found : pool.keys[key]? with
          | some id => exact ⟨_, Step.bind_ok (findOrPush_of_some stale found item)⟩
          | none => exact ⟨_, Step.bind_ok (findOrPush_of_none stale found item)⟩
  | rekey id old new =>
      simp only [step, Refused, replace, Pool.rekey]
      cases taken : pool.keys[new]? with
      | none => exact .inr ⟨by simp, _, rfl⟩
      | some owner =>
          by_cases same : owner = id
          · exact .inr ⟨by simp [same], pool, by simp [same]⟩
          · exact .inl ⟨⟨owner, rfl, same⟩, _, by simp only [ne_eq, same, not_false_eq_true, if_true]; rfl⟩
  | rebuild entries =>
      have once := keyMap_isOk_iff pool.items.kind entries {}
      simp only [Std.HashMap.getElem?_empty, reduceCtorEq, false_or] at once
      simp only [step, Refused, replace, Pool.rebuild]
      cases run : keyMap pool.items.kind entries {} with
      | ok keys =>
          refine .inr ⟨?_, _, rfl⟩
          rintro ⟨key, id, other, here, there, apart⟩
          exact apart (once.1 ⟨keys, run⟩ key id other here there)
      | error fault =>
          refine .inl ⟨?_, fault, rfl⟩
          by_contra all
          obtain ⟨keys, made⟩ := once.2 fun key id other here there =>
            by_contra fun apart => all ⟨key, id, other, here, there, apart⟩
          cases run.symm.trans made

/-- Another key leaves the mark. -/
theorem stale_rekey {id : Id α} {old new : κ} (run : pool.rekey id old new = .ok final) :
    final.stale = pool.stale := by
  unfold rekey at run
  split at run
  · split at run <;> cases run
    rfl
  · cases run
    rfl

end Calls

theorem remove_of_none {id : Id α} (gone : pool.items.item? id = none) : (pool.remove id).2 = pool := by
  have first := (Section.fst_remove pool.items id).trans gone
  unfold remove
  split
  · rfl
  · rename_i removed
    rw [removed] at first
    cases first

theorem remove_of_some {id : Id α} {item : α} (live : pool.items.item? id = some item) : (pool.remove id).2 =
    { pool with items := (pool.items.remove id).2, keys := pool.keys.filter fun _ owner => owner ≠ id } := by
  have first := (Section.fst_remove pool.items id).trans live
  unfold remove
  split
  · rename_i removed
    rw [removed] at first
    cases first
  · rename_i removed
    rw [removed]

/-- The pools that edits reach from an empty one, with the keys of their items. A call that fails reaches no other
pool. -/
inductive Reached [KeyText κ] : Pool κ α → (Id α → Option κ) → Prop
  | empty (kind : SectionKind) : Reached (.empty kind) fun _ => none
  | found {pool final : Pool κ α} {names : Id α → Option κ} {key : κ} {item : Unit → α} {id : Id α} {new : Bool}
      (reached : Reached pool names) (run : findOrPush key item pool = .ok (id, new) final) :
      Reached final (Function.update names id (some key))
  | read {pool : Pool κ α} {names : Id α → Option κ} (reached : Reached pool names) (item : α) (origin : UInt32)
      (key : κ) :
      Reached (pool.pushRead item origin).2 (Function.update names (pool.pushRead item origin).1 (some key))
  | removed {pool : Pool κ α} {names : Id α → Option κ} (reached : Reached pool names) (id : Id α) :
      Reached (pool.remove id).2 (Function.update names id none)
  /-- A live item takes another key. The call names the key that it has, unless the keys are out of date. -/
  | rekeyed {pool final : Pool κ α} {names : Id α → Option κ} {id : Id α} {old new : κ}
      (reached : Reached pool names) (live : pool.items.contains id = true)
      (named : pool.stale = false → names id = some old) (run : pool.rekey id old new = .ok final) :
      Reached final (Function.update names id (some new))
  /-- The entries list every live item once, with its key. -/
  | rebuilt {pool final : Pool κ α} {names names' : Id α → Option κ} {entries : List (κ × Id α)}
      (reached : Reached pool names) (listed : (entries.map Prod.snd).Perm pool.items.order.toList)
      (named : ∀ id key, names' id = some key ↔ (key, id) ∈ entries) (run : pool.rebuild entries = .ok final) :
      Reached final names'
  | rearranged {pool : Pool κ α} {names : Id α → Option κ} (reached : Reached pool names) (edit : Section.Edit α)
      (rearranges : edit.Rearranges) : Reached { pool with items := edit.after pool.items } names
  | invalidated {pool : Pool κ α} {names : Id α → Option κ} (reached : Reached pool names) :
      Reached pool.invalidate names

/-- The live items of a pool have keys, and its key map finds exactly these while it is fresh. -/
structure Keyed (pool : Pool κ α) (names : Id α → Option κ) : Prop where
  valid : pool.items.Valid
  live : ∀ id, (names id).isSome = pool.items.contains id
  reflects : pool.Reflects names

namespace Keyed

variable {names names' : Id α → Option κ}

theorem empty [LawfulBEq κ] (kind : SectionKind) : (Pool.empty kind : Pool κ α).Keyed fun _ => none where
  valid := Section.valid_empty kind
  live id := by
    rw [Section.contains_eq]
    rfl
  reflects _ key id := by simp [Pool.empty]

/-- The place of the next item has no key. -/
theorem fresh (keyed : pool.Keyed names) (item : α) : names (pool.items.push item).1 = none := by
  rw [← Option.not_isSome_iff_eq_none, keyed.live, Section.contains_eq, Section.item?_id_push]
  simp

theorem pushKeyed [LawfulBEq κ] (keyed : pool.Keyed names) {key : κ} (absent : pool.keys[key]? = none) (item : α) :
    (pool.pushKeyed key item).Keyed (Function.update names (pool.items.push item).1 (some key)) where
  valid := keyed.valid.push item
  live id := by
    have after := Section.item?_push pool.items item id
    rw [Function.update_apply, Section.contains_eq, Pool.pushKeyed, after]
    split
    · rfl
    · rw [keyed.live, Section.contains_eq]
  reflects := keyed.reflects.pushKeyed absent item (keyed.fresh item)

theorem found [LawfulBEq κ] [KeyText κ] (keyed : pool.Keyed names) {key : κ} {item : Unit → α} {id : Id α} {new : Bool}
    (run : findOrPush key item pool = .ok (id, new) final) :
    final.Keyed (Function.update names id (some key)) := by
  cases stale : pool.stale with
  | true => cases (findOrPush_of_stale stale key item).symm.trans run
  | false =>
      cases known : pool.keys[key]? with
      | some owner =>
          cases (findOrPush_of_some stale known item).symm.trans run
          rwa [Function.update_eq_self_iff.2 ((keyed.reflects stale key id).1 known).symm]
      | none =>
          cases (findOrPush_of_none stale known item).symm.trans run
          exact keyed.pushKeyed known (item ())

theorem read (keyed : pool.Keyed names) (item : α) (origin : UInt32) (key : κ) :
    (pool.pushRead item origin).2.Keyed (Function.update names (pool.pushRead item origin).1 (some key)) where
  valid := keyed.valid.pushRead item origin
  live id := by
    have after := (Section.item?_pushRead pool.items item origin id).trans (Section.item?_push pool.items item id)
    change (Function.update names (pool.items.push item).1 (some key) id).isSome =
      (pool.items.pushRead item origin).2.contains id
    rw [Function.update_apply, Section.contains_eq, after]
    split
    · rfl
    · rw [keyed.live, Section.contains_eq]
  reflects fresh := by cases fresh

theorem removed [LawfulBEq κ] (keyed : pool.Keyed names) (id : Id α) :
    (pool.remove id).2.Keyed (Function.update names id none) := by
  cases live : pool.items.item? id with
  | none =>
      have free : names id = none := by
        rw [← Option.not_isSome_iff_eq_none, keyed.live, Section.contains_eq, live]
        simp
      rw [remove_of_none live, Function.update_eq_self_iff.2 free.symm]
      exact keyed
  | some item =>
      rw [remove_of_some live]
      refine ⟨keyed.valid.remove id, fun other => ?_, fun fresh key other => ?_⟩
      · rw [Function.update_apply, Section.contains_eq, keyed.valid.item?_remove]
        split
        · rfl
        · rw [keyed.live, Section.contains_eq]
      · rw [Std.HashMap.getElem?_filter', Option.filter_eq_some_iff, keyed.reflects fresh, Function.update_apply]
        by_cases same : other = id <;> simp [same]

theorem rekeyed [LawfulBEq κ] [KeyText κ] (keyed : pool.Keyed names) {id : Id α} {old new : κ}
    (live : pool.items.contains id = true) (named : pool.stale = false → names id = some old)
    (run : pool.rekey id old new = .ok final) : final.Keyed (Function.update names id (some new)) := by
  have items := items_rekey run
  have stays (other : Id α) : (Function.update names id (some new) other).isSome = final.items.contains other := by
    rw [Function.update_apply, items]
    split
    · rename_i same
      rw [same, live]
      rfl
    · exact keyed.live other
  refine ⟨items ▸ keyed.valid, stays, fun fresh => ?_⟩
  rw [stale_rekey run] at fresh
  by_cases same : old = new
  · subst same
    have known := (keyed.reflects fresh old id).2 (named fresh)
    rw [Pool.rekey, known] at run
    simp only [ne_eq, not_true_eq_false, if_false, Except.ok.injEq] at run
    rw [Function.update_eq_self_iff.2 (named fresh).symm, ← run]
    exact keyed.reflects fresh
  · exact (keyed.reflects.rekey fresh (named fresh) same run).2.2.2 (stale_rekey run ▸ fresh)

theorem rebuilt [LawfulBEq κ] [KeyText κ] (keyed : pool.Keyed names) {entries : List (κ × Id α)}
    (listed : (entries.map Prod.snd).Perm pool.items.order.toList)
    (named : ∀ id key, names' id = some key ↔ (key, id) ∈ entries) (run : pool.rebuild entries = .ok final) :
    final.Keyed names' := by
  obtain ⟨keys, made, rebuilt⟩ := Except.bind_eq_ok.1 run
  cases rebuilt
  refine ⟨keyed.valid, fun id => ?_, fun _ key id => ?_⟩
  · rw [Bool.eq_iff_iff, Option.isSome_iff_exists, Section.contains_eq, ← keyed.valid.mem_order_iff,
      ← Array.mem_toList_iff, ← listed.mem_iff, List.mem_map]
    simp only [named, Prod.exists, exists_eq_right]
  · rw [getElem?_keyMap made, named]
    simp

theorem rearranged (keyed : pool.Keyed names) {edit : Section.Edit α} (rearranges : edit.Rearranges) :
    { pool with items := edit.after pool.items : Pool κ α }.Keyed names where
  valid := (Section.Edit.makes keyed.valid edit).valid
  live id := (keyed.live id).trans (Section.Edit.contains_after keyed.valid rearranges id).symm
  reflects := keyed.reflects

theorem invalidated (keyed : pool.Keyed names) : pool.invalidate.Keyed names where
  valid := keyed.valid
  live := keyed.live
  reflects fresh := by cases fresh

end Keyed

/-- Along every run the key map of a fresh pool finds the live items by the keys that they have. -/
theorem Reached.keyed [LawfulBEq κ] [KeyText κ] {names : Id α → Option κ} (reached : Reached pool names) :
    pool.Keyed names := by
  induction reached with
  | empty kind => exact .empty kind
  | found _ run ih => exact ih.found run
  | read _ item origin key ih => exact ih.read item origin key
  | removed _ id ih => exact ih.removed id
  | rekeyed _ live named run ih => exact ih.rekeyed live named run
  | rebuilt _ listed named run ih => exact ih.rebuilt listed named run
  | rearranged _ edit rearranges ih => exact ih.rearranged rearranges
  | invalidated _ ih => exact ih.invalidated

/-- A new item is the last one and has a key, and everything else is as it was. -/
structure Appended (pool : Pool κ α) (key : κ) (item : α) (id : Id α) (final : Pool κ α) : Prop where
  new : pool.items.contains id = false
  order : final.items.order = pool.items.order.push id
  item : final.items.item? id = some item
  index : final.items.indexOf? id = some (UInt32.ofNat pool.size)
  others : ∀ other, other ≠ id → final.items.item? other = pool.items.item? other ∧
    final.items.indexOf? other = pool.items.indexOf? other
  keyed : final.keys[key]? = some id
  unkeyed : ∀ other, other ≠ key → final.keys[other]? = pool.keys[other]?
  fresh : final.stale = pool.stale

theorem appended_pushKeyed [LawfulBEq κ] (pool : Pool κ α) (key : κ) (item : α) :
    pool.Appended key item (pool.items.push item).1 (pool.pushKeyed key item) where
  new := by
    rw [Section.contains_eq, Section.item?_id_push]
    rfl
  order := rfl
  item := (Section.item?_push pool.items item _).trans (if_pos rfl)
  index := by
    have last := Section.live?_push pool.items item (pool.items.push item).1
    rw [Section.id_push, if_pos rfl] at last
    exact congrArg (Option.map Cell.position) last
  others other apart := by
    have different : other.slot ≠ pool.items.cells.size := fun equal => apart (Id.eq_iff.2 equal)
    have same := Section.live?_push pool.items item other
    rw [if_neg different] at same
    exact ⟨(Section.item?_push pool.items item other).trans (if_neg apart), congrArg (Option.map Cell.position) same⟩
  keyed := by simp [pushKeyed]
  unkeyed other apart := by simp [pushKeyed, Std.HashMap.getElem?_insert, Ne.symm apart]
  fresh := rfl

/-- Keys and live items are paired one to one, and an item is found by its key or becomes a new last item. -/
structure Answers [KeyText κ] (pool : Pool κ α) (names : Id α → Option κ) : Prop where
  owner : ∀ (key : κ) (id : Id α), pool.keys[key]? = some id → pool.items.contains id = true
  unique : ∀ id, pool.items.contains id = true → ∃! key : κ, pool.keys[key]? = some id
  named : ∀ (key : κ) (id : Id α), pool.keys[key]? = some id ↔ names id = some key
  find : ∀ key : κ, pool.find? key = pool.keys[key]?
  found : ∀ (key : κ) item id, pool.keys[key]? = some id → findOrPush key item pool = .ok (id, false) pool
  appended : ∀ (key : κ) item, pool.keys[key]? = none → ∃ id final,
    findOrPush key item pool = .ok (id, true) final ∧ pool.Appended key (item ()) id final

theorem Keyed.answers [LawfulBEq κ] [KeyText κ] {names : Id α → Option κ} (keyed : pool.Keyed names)
    (fresh : pool.stale = false) : pool.Answers names where
  owner key id found := by
    rw [← keyed.live, (keyed.reflects fresh key id).1 found]
    rfl
  unique id live := by
    rw [← keyed.live] at live
    obtain ⟨key, named⟩ := Option.isSome_iff_exists.1 live
    refine ⟨key, (keyed.reflects fresh key id).2 named, fun other found => ?_⟩
    exact Option.some.inj (((keyed.reflects fresh other id).1 found).symm.trans named)
  named := keyed.reflects fresh
  find key := by
    rw [find?, if_neg (by simp [fresh])]
  found key item id found := findOrPush_of_some fresh found item
  appended key item absent := ⟨_, _, findOrPush_of_none fresh absent item, pool.appended_pushKeyed key (item ())⟩

/-- In every pool of a run a fresh key map pairs keys and live items one to one, a stale one answers nothing, and a call
that fails leaves the pool as it was. -/
theorem answers_of_reached [LawfulBEq κ] [KeyText κ] {names : Id α → Option κ} (reached : Reached pool names) :
    (pool.stale = false → pool.Answers names) ∧
      (pool.stale = true → ∀ key, pool.find? key = none ∧ ∀ item, ∃ fault,
        findOrPush key item pool = .error fault pool) ∧
      ∀ (call : Call κ α) fault final, call.step pool = .error fault final → call.Refused pool ∧ final = pool := by
  refine ⟨reached.keyed.answers, fun stale key => ⟨?_, fun item => ⟨_, findOrPush_of_stale stale key item⟩⟩,
    fun call fault final run => ?_⟩
  · rw [find?, if_pos stale]
  · rcases call.step_cases pool with ⟨refused, other, fails⟩ | ⟨_, other, succeeds⟩
    · cases fails.symm.trans run
      exact ⟨refused, rfl⟩
    · cases succeeds.symm.trans run

/-- The keys of two types. -/
def twoTypes : List (String × Id String) :=
  [("LA;", ⟨0⟩), ("LB;", ⟨1⟩)]

/-- One type is made and another one is read, which leaves the pool stale. The rebuilt pool finds both types and does
not give one of them the name of the other one. -/
theorem answers_of_reached_twoTypes : ∃ (stale fresh : Pool String String) (names names' : Id String → Option String),
    stale.Reached names ∧ stale.find? "LA;" = none ∧ fresh.Reached names' ∧ fresh.find? "LA;" = some ⟨0⟩ ∧
      fresh.find? "LB;" = some ⟨1⟩ ∧ ∃ fault, (Call.rekey ⟨1⟩ "LB;" "LA;").step fresh = .error fault fresh := by
  have absent : (Pool.empty .typeId : Pool String String).keys["LA;"]? = none := by simp [Pool.empty]
  have made := Reached.found (.empty .typeId) (findOrPush_of_none rfl absent fun _ => "LA;")
  obtain ⟨stale, names, read, mark, order, kind⟩ : ∃ (stale : Pool String String) (names : Id String → Option String),
      stale.Reached names ∧ stale.stale = true ∧ stale.items.order.toList = [⟨0⟩, ⟨1⟩] ∧ stale.items.kind = .typeId :=
    ⟨_, _, made.read "LB;" 112 "LB;", rfl, rfl, rfl⟩
  obtain ⟨keys, map, known⟩ := keyMap_of_nodup .typeId twoTypes (by decide) {} (by simp)
  have rebuilt : stale.rebuild twoTypes = .ok { stale with keys, stale := false } := by
    rw [rebuild, kind, map]
    rfl
  have named (id : Id String) (key : String) :
      (twoTypes.map Prod.swap).lookup id = some key ↔ (key, id) ∈ twoTypes := by
    by_cases isFirst : id = ⟨0⟩
    · simp [twoTypes, isFirst, eq_comm]
    · by_cases isSecond : id = ⟨1⟩ <;>
        simp [twoTypes, List.lookup_cons, isFirst, isSecond, eq_comm, beq_eq_false_iff_ne.2]
  have fresh := read.rebuilt (by rw [order]; exact .refl _) named rebuilt
  have answers := (answers_of_reached fresh).1 rfl
  have first : keys["LA;"]? = some ⟨0⟩ := (known _ _).2 (.inr (by simp [twoTypes]))
  have second : keys["LB;"]? = some ⟨1⟩ := (known _ _).2 (.inr (by simp [twoTypes]))
  refine ⟨stale, _, names, _, read, ((answers_of_reached read).2.1 mark _).1, fresh, (answers.find _).trans first,
    (answers.find _).trans second, ?_⟩
  rcases (Call.rekey ⟨1⟩ "LB;" "LA;").step_cases _ with ⟨_, refused⟩ | ⟨free, _⟩
  · exact refused
  · exact absurd ⟨_, first, by decide⟩ free

end Pool
end DexArsc.Dex
