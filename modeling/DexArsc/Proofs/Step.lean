/-
How steps run: what each primitive step yields, and what a sequence of steps yields when its
first step succeeds.
-/

import DexArsc.Step

namespace DexArsc.Step

variable {state inner α β : Type}

@[simp] theorem pure_apply (value : α) (initial : state) :
    (pure value : Step state α) initial = .ok value initial := rfl

@[simp] theorem get_apply (initial : state) : (get : Step state state) initial = .ok initial initial :=
  rfl

@[simp] theorem set_apply (final initial : state) :
    (set final : Step state PUnit) initial = .ok () final := rfl

@[simp] theorem modify_apply (change : state → state) (initial : state) :
    (modify change : Step state PUnit) initial = .ok () (change initial) := rfl

@[simp] theorem throw_apply (fault : Fault) (initial : state) :
    (throw fault : Step state α) initial = .error fault initial := rfl

@[simp] theorem fail_apply (cause : Cause) (initial : state) :
    (fail cause : Step state α) initial = .error { cause } initial := rfl

/-- A step behind a step. -/
theorem bind_apply (first : Step state α) (next : α → Step state β) (initial : state) :
    (first >>= next) initial = match first initial with
      | .ok value final => next value final
      | .error fault final => .error fault final := by
  change EStateM.bind first next initial = _
  unfold EStateM.bind
  cases first initial <;> rfl

/-- A step behind a step that succeeds. -/
theorem bind_ok {first : Step state α} {next : α → Step state β} {initial final : state}
    {value : α} (succeeds : first initial = .ok value final) :
    (first >>= next) initial = next value final := by
  rw [bind_apply, succeeds]

/-- A sequence of steps succeeds when both steps do. -/
theorem bind_eq_ok {first : Step state α} {next : α → Step state β} {initial final : state}
    {result : β} : (first >>= next) initial = .ok result final ↔
      ∃ value between, first initial = .ok value between ∧ next value between = .ok result final := by
  rw [bind_apply]
  cases first initial with
  | ok value between =>
      exact ⟨fun same => ⟨value, between, rfl, same⟩, fun ⟨_, _, same, run⟩ => by cases same; exact run⟩
  | error fault between => simp

/-- A sequence of steps fails when one of them does. -/
theorem bind_eq_error {first : Step state α} {next : α → Step state β} {initial final : state}
    {fault : Fault} : (first >>= next) initial = .error fault final ↔
      first initial = .error fault final ∨
        ∃ value between, first initial = .ok value between ∧ next value between = .error fault final := by
  rw [bind_apply]
  cases first initial with
  | ok value between =>
      constructor
      · exact fun run => .inr ⟨value, between, rfl, run⟩
      · rintro (⟨⟨⟩⟩ | ⟨_, _, ⟨⟩, run⟩)
        exact run
  | error fault between => simp

/-- A walk along a list that fails does so at one element, behind a walk along those in front of it. -/
theorem foldlM_eq_error {step : β → α → Step state β} {values : List α} {start : β} {initial final : state}
    {fault : Fault} (run : values.foldlM step start initial = .error fault final) :
    ∃ done failing rest result between, values = done ++ failing :: rest ∧
      done.foldlM step start initial = .ok result between ∧ step result failing between = .error fault final := by
  induction values generalizing start initial with
  | nil => cases run
  | cons value values ih =>
      rw [List.foldlM_cons] at run
      rcases bind_eq_error.1 run with here | ⟨next, between, first, run⟩
      · exact ⟨[], value, values, start, initial, rfl, rfl, here⟩
      · obtain ⟨done, failing, rest, result, last, rfl, before, here⟩ := ih run
        exact ⟨value :: done, failing, rest, result, last, rfl, by
          rw [List.foldlM_cons, bind_ok first, before], here⟩

/-- A step that yields a value succeeds. -/
theorem run'_eq_some {step : Step state α} {initial : state} {value : α} :
    EStateM.run' step initial = some value ↔ ∃ final, step initial = .ok value final := by
  unfold EStateM.run' EStateM.run
  cases step initial <;> simp

/-- The cause of a failure. -/
def cause? (step : Step state α) (initial : state) : Option Cause :=
  match step initial with
  | .ok _ _ => none
  | .error fault _ => some fault.cause

theorem cause?_eq_some {step : Step state α} {initial : state} {cause : Cause} :
    step.cause? initial = some cause ↔ ∃ fault final, step initial = .error fault final ∧ fault.cause = cause := by
  unfold cause?
  cases step initial <;> simp

theorem forM_nil (step : α → Step state PUnit) : ([] : List α).forM step = pure () := rfl

theorem forM_cons (step : α → Step state PUnit) (first : α) (rest : List α) :
    (first :: rest).forM step = step first >>= fun _ => rest.forM step := rfl

theorem forM_append (step : α → Step state PUnit) (first second : List α) :
    (first ++ second).forM step = first.forM step >>= fun _ => second.forM step :=
  List.forM_append

/-- Steps on the elements of rows, one row after another. -/
theorem forM_flatMap (step : β → Step state PUnit) (rows : α → List β) (values : List α) :
    (values.flatMap rows).forM step = values.forM fun value => (rows value).forM step := by
  induction values with
  | nil => rfl
  | cons value rest ih => rw [List.flatMap_cons, forM_append, forM_cons, ih]

/-- The image of a result. -/
theorem map_eq_ok {step : Step state α} {change : α → β} {initial final : state} {result : β} :
    (change <$> step) initial = .ok result final ↔
      ∃ value, step initial = .ok value final ∧ change value = result := by
  change EStateM.map change step initial = _ ↔ _
  unfold EStateM.map
  cases step initial with
  | ok value between =>
      constructor
      · intro same
        cases same
        exact ⟨value, rfl, rfl⟩
      · rintro ⟨_, same, rfl⟩
        cases same
        rfl
  | error fault between => simp

/-- A lifted result succeeds as it stands. -/
@[simp] theorem monadLift_ok (value : α) (initial : state) :
    (monadLift (Except.ok value : Except Fault α) : Step state α) initial = .ok value initial := rfl

@[simp] theorem monadLift_error (fault : Fault) (initial : state) :
    (monadLift (Except.error fault : Except Fault α) : Step state α) initial =
      .error fault initial := rfl

/-- A lifted result succeeds exactly when the result does. -/
theorem monadLift_eq_ok {result : Except Fault α} {initial final : state} {value : α} :
    (monadLift result : Step state α) initial = .ok value final ↔
      result = .ok value ∧ final = initial := by
  cases result <;> simp [eq_comm]

/-- A check in front of a step. -/
theorem check_eq_ok {check : Except Fault α} {next : α → Step state β} {initial final : state}
    {result : β} : ((liftM check : Step state α) >>= next) initial = .ok result final ↔
      ∃ value, check = .ok value ∧ next value initial = .ok result final := by
  cases check with
  | ok value =>
      constructor
      · exact fun run => ⟨value, rfl, run⟩
      · rintro ⟨_, ⟨⟩, run⟩
        exact run
  | error fault =>
      constructor
      · intro run
        cases run
      · rintro ⟨_, ⟨⟩, _⟩

/-- A step behind a refusal. -/
theorem guard_apply {test : Prop} [Decidable test] {cause : Cause} {next : PUnit → Step state β} {initial : state} :
    (if test then (fail cause : Step state PUnit) >>= next else next ⟨⟩) initial =
      if test then .error { cause } initial else next ⟨⟩ initial := by
  by_cases holds : test
  · rw [if_pos holds, if_pos holds]
    rfl
  · rw [if_neg holds, if_neg holds]

/-- A step behind a refusal succeeds when nothing is refused. -/
theorem guard_eq_ok {test : Prop} [Decidable test] {cause : Cause} {next : PUnit → Step state β}
    {initial final : state} {result : β} :
    (if test then (fail cause : Step state PUnit) >>= next else next ⟨⟩) initial = .ok result final ↔
      ¬test ∧ next ⟨⟩ initial = .ok result final := by
  rw [guard_apply]
  by_cases holds : test <;> simp [holds]

/-- A place in the messages changes nothing that succeeds. -/
@[simp] theorem within_eq_ok {place : String} {step : Step state α} {initial final : state}
    {value : α} : Step.within place step initial = .ok value final ↔
      step initial = .ok value final := by
  unfold Step.within
  cases step initial <;> simp

/-- A step on a part changes only the part. -/
theorem onPart_eq_ok {part : state → inner} {put : inner → state → state} {step : Step inner α}
    {initial final : state} {value : α} :
    onPart part put step initial = .ok value final ↔
      ∃ result, step (part initial) = .ok value result ∧ put result initial = final := by
  unfold onPart
  cases step (part initial) with
  | ok value between =>
      constructor
      · intro same
        cases same
        exact ⟨between, rfl, rfl⟩
      · rintro ⟨_, same, rfl⟩
        cases same
        rfl
  | error fault between => simp

/-- What holds of the result and the state where a step succeeds, and what where it fails. -/
def Outcome (step : Step state α) (initial : state) (done : α → state → Prop) (failed : Prop) :
    Prop :=
  match step initial with
  | .ok value final => done value final
  | .error _ _ => failed

namespace Outcome

variable {step : Step state α} {next : α → Step state β} {initial : state}
  {done more : α → state → Prop} {result : β → state → Prop} {failed also : Prop}

/-- What follows from the outcome of a step that succeeds. -/
theorem ok {value : α} {final : state} (outcome : step.Outcome initial done failed)
    (run : step initial = .ok value final) : done value final := by
  unfold Outcome at outcome
  rwa [run] at outcome

/-- A step whose failure is excluded succeeds. -/
theorem succeeds (outcome : step.Outcome initial done failed) (never : ¬failed) :
    ∃ value final, step initial = .ok value final ∧ done value final := by
  unfold Outcome at outcome
  cases run : step initial with
  | ok value final =>
      rw [run] at outcome
      exact ⟨value, final, rfl, outcome⟩
  | error fault final =>
      rw [run] at outcome
      exact absurd outcome never

theorem imp (outcome : step.Outcome initial done failed)
    (ok : ∀ value final, done value final → more value final) (error : failed → also) :
    step.Outcome initial more also := by
  unfold Outcome at outcome ⊢
  cases run : step initial with
  | ok value final =>
      rw [run] at outcome
      exact ok value final outcome
  | error fault final =>
      rw [run] at outcome
      exact error outcome

/-- The outcome of a step behind a step. -/
theorem bind (outcome : step.Outcome initial done failed)
    (ok : ∀ value final, done value final → (next value).Outcome final result also)
    (error : failed → also) : (step >>= next).Outcome initial result also := by
  unfold Outcome at outcome ⊢
  rw [bind_apply]
  cases run : step initial with
  | ok value final =>
      rw [run] at outcome
      exact ok value final outcome
  | error fault final =>
      rw [run] at outcome
      exact error outcome

/-- The outcome of a step on a part. -/
theorem onPart {part : state → inner} {put : inner → state → state} {step : Step inner α}
    {done : α → inner → Prop} (outcome : step.Outcome (part initial) done failed) :
    (Step.onPart part put step).Outcome initial
      (fun value final => ∃ changed, final = put changed initial ∧ done value changed) failed := by
  unfold Outcome Step.onPart at *
  cases run : step (part initial) with
  | ok value final =>
      rw [run] at outcome
      exact ⟨final, rfl, outcome⟩
  | error fault final =>
      rw [run] at outcome
      exact outcome

end Outcome

/-- What holds wherever a step ends: one property of a result with its state, and one of the state
that a failure leaves behind. -/
def Ensures (step : Step state α) (initial : state) (done : α → state → Prop)
    (failed : state → Prop) : Prop :=
  match step initial with
  | .ok value final => done value final
  | .error _ final => failed final

namespace Ensures

variable {step : Step state α} {next : α → Step state β} {initial : state}
  {done more : α → state → Prop} {result : β → state → Prop} {failed also : state → Prop}

theorem of_ok {value : α} {final : state} (run : step initial = .ok value final)
    (holds : done value final) : step.Ensures initial done failed := by
  unfold Ensures
  rw [run]
  exact holds

theorem of_error {fault : Fault} {final : state} (run : step initial = .error fault final)
    (holds : failed final) : step.Ensures initial done failed := by
  unfold Ensures
  rw [run]
  exact holds

theorem ok {value : α} {final : state} (ensures : step.Ensures initial done failed)
    (run : step initial = .ok value final) : done value final := by
  unfold Ensures at ensures
  rwa [run] at ensures

theorem error {fault : Fault} {final : state} (ensures : step.Ensures initial done failed)
    (run : step initial = .error fault final) : failed final := by
  unfold Ensures at ensures
  rwa [run] at ensures

theorem imp (ensures : step.Ensures initial done failed)
    (ok : ∀ value final, done value final → more value final)
    (error : ∀ final, failed final → also final) : step.Ensures initial more also := by
  unfold Ensures at ensures ⊢
  cases run : step initial with
  | ok value final =>
      rw [run] at ensures
      exact ok value final ensures
  | error fault final =>
      rw [run] at ensures
      exact error final ensures

/-- What holds behind a step that succeeds. -/
theorem behind {value : α} {final : state} (run : step initial = .ok value final)
    (ensures : (next value).Ensures final result failed) :
    (step >>= next).Ensures initial result failed := by
  unfold Ensures at ensures ⊢
  rw [bind_ok run]
  exact ensures

/-- A failure ends the steps behind it. -/
theorem stop {fault : Fault} {final : state} (run : step initial = .error fault final)
    (holds : failed final) : (step >>= next).Ensures initial result failed :=
  have fails : (step >>= next) initial = .error fault final := by rw [bind_apply, run]
  of_error fails holds

theorem fail (holds : failed initial) (cause : Cause) :
    (DexArsc.fail cause : Step state α).Ensures initial done failed :=
  holds

/-- What holds behind two steps holds behind the second one wherever the first one ends. -/
theorem bind (first : step.Ensures initial done failed)
    (second : ∀ value final, done value final → (next value).Ensures final result failed) :
    (step >>= next).Ensures initial result failed := by
  unfold Ensures at first
  cases run : step initial with
  | ok value final =>
      rw [run] at first
      have behind := second value final first
      unfold Ensures at behind ⊢
      rw [bind_ok run]
      exact behind
  | error fault final =>
      rw [run] at first
      refine of_error (by rw [bind_apply, run]) first

/-- The image of a result. -/
theorem map {change : α → β} (ensures : step.Ensures initial (fun value => result (change value)) failed) :
    (change <$> step).Ensures initial result failed := by
  unfold Ensures at ensures
  cases run : step initial with
  | ok value final =>
      rw [run] at ensures
      exact of_ok (map_eq_ok.2 ⟨value, run, rfl⟩) ensures
  | error fault final =>
      rw [run] at ensures
      have fails : (change <$> step) initial = .error fault final := by
        change EStateM.map change step initial = _
        unfold EStateM.map
        rw [run]
      exact of_error fails ensures

/-- Two properties hold together. -/
theorem and (first : step.Ensures initial done failed) (second : step.Ensures initial more also) :
    step.Ensures initial (fun value final => done value final ∧ more value final)
      (fun final => failed final ∧ also final) := by
  unfold Ensures at *
  cases run : step initial with
  | ok value final =>
      rw [run] at first second
      exact ⟨first, second⟩
  | error fault final =>
      rw [run] at first second
      exact ⟨first, second⟩

/-- A place in the messages changes nothing. -/
theorem within {place : String} (ensures : step.Ensures initial done failed) :
    (Step.within place step).Ensures initial done failed := by
  unfold Ensures Step.within at *
  cases run : step initial with
  | ok value final =>
      rw [run] at ensures
      exact ensures
  | error fault final =>
      rw [run] at ensures
      exact ensures

/-- A check that changes nothing. -/
theorem monadLift {check : Except Fault α} (ok : ∀ value, check = .ok value → done value initial)
    (error : failed initial) : (monadLift check : Step state α).Ensures initial done failed := by
  cases check with
  | ok value => exact ok value rfl
  | error fault => exact error

/-- A check in front of a step. -/
theorem check {check : Except Fault α} (error : failed initial)
    (ok : ∀ value, check = .ok value → (next value).Ensures initial result failed) :
    ((MonadLift.monadLift check : Step state α) >>= next).Ensures initial result failed := by
  cases check with
  | ok value => exact ok value rfl
  | error fault => exact error

theorem get {next : state → Step state β} (ensures : (next initial).Ensures initial result failed) :
    (MonadState.get >>= next).Ensures initial result failed :=
  ensures

/-- Where a step on a part ends, the part is where the step on it ends. -/
theorem onPart {part : state → inner} {put : inner → state → state} {step : Step inner α}
    {done : α → inner → Prop} {failed : inner → Prop}
    (ensures : step.Ensures (part initial) done failed)
    (ok : ∀ value changed, done value changed → more value (put changed initial))
    (error : ∀ changed, failed changed → also (put changed initial)) :
    (Step.onPart part put step).Ensures initial more also := by
  unfold Ensures Step.onPart at *
  cases run : step (part initial) with
  | ok value final =>
      rw [run] at ensures
      exact ok value final ensures
  | error fault final =>
      rw [run] at ensures
      exact error final ensures

end Ensures
end DexArsc.Step

namespace DexArsc.Except

variable {α β : Type}

@[simp] theorem within_eq_ok {place : String} {result : Except Fault α} {value : α} :
    Except.within place result = .ok value ↔ result = .ok value := by
  cases result <;> simp [Except.within]

@[simp] theorem fail_ne_ok {cause : Cause} {value : α} :
    (fail cause : Except Fault α) ≠ .ok value := by
  intro same
  cases same

/-- A sequence of results succeeds when both do. -/
theorem bind_eq_ok {first : Except Fault α} {next : α → Except Fault β} {result : β} :
    (first >>= next) = .ok result ↔ ∃ value, first = .ok value ∧ next value = .ok result := by
  cases first <;> simp [bind, Except.bind]

/-- A result behind a refusal. -/
theorem guard_eq_ok {test : Prop} [Decidable test] {cause : Cause} {next : PUnit → Except Fault β} {result : β} :
    (if test then (fail cause : Except Fault PUnit) >>= next else next ⟨⟩) = .ok result ↔
      ¬test ∧ next ⟨⟩ = .ok result := by
  by_cases holds : test
  · rw [if_pos holds, bind_eq_ok]
    simp [holds]
  · rw [if_neg holds]
    simp [holds]

/-- Every result of a list comes from one of its elements. -/
theorem mapM_eq_ok {step : α → Except Fault β} {values : List α} {results : List β}
    (run : values.mapM step = .ok results) : results.length = values.length ∧
      ∀ result ∈ results, ∃ value ∈ values, step value = .ok result := by
  induction values generalizing results with
  | nil =>
      cases run
      exact ⟨rfl, by simp⟩
  | cons first rest ih =>
      rw [List.mapM_cons] at run
      obtain ⟨result, here, run⟩ := bind_eq_ok.1 run
      obtain ⟨others, later, run⟩ := bind_eq_ok.1 run
      cases run
      obtain ⟨length, each⟩ := ih later
      refine ⟨by simp [length], fun other inside => ?_⟩
      rcases List.mem_cons.1 inside with rfl | inside
      · exact ⟨first, List.mem_cons_self, here⟩
      · obtain ⟨value, listed, run⟩ := each other inside
        exact ⟨value, List.mem_cons_of_mem _ listed, run⟩

end DexArsc.Except
