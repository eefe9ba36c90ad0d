/-
Steps that lead from a state to related ones only, wherever they end.
-/

import DexArsc.Proofs.Dex.Section.Steps

namespace DexArsc.Step

variable {state inner α β : Type}

/-- A step on a part that a state may lack ends where the step on the part ends. -/
theorem onPart?_ends {part? : state → Option inner} {put : inner → state → state} {step : Step inner α}
    {initial final : state} (ends : (onPart? part? put step).Ends initial final) :
    part? initial = none ∧ final = initial ∨
      ∃ part image, part? initial = some part ∧ step.Ends part image ∧ final = put image initial := by
  cases found : part? initial with
  | none =>
      have run : onPart? part? put step initial = .ok none initial := by
        simp only [onPart?, found]
      rcases ends with ⟨_, same⟩ | ⟨_, same⟩
      · cases run.symm.trans same
        exact .inl ⟨rfl, rfl⟩
      · cases run.symm.trans same
  | some part =>
      have run : onPart? part? put step initial = EStateM.map some (onPart (fun _ => part) put step) initial := by
        simp only [onPart?, found]
        rfl
      unfold EStateM.map onPart at run
      right
      cases inner : step part with
      | ok value image =>
          rw [inner] at run
          rcases ends with ⟨_, same⟩ | ⟨_, same⟩
          · cases run.symm.trans same
            exact ⟨part, image, rfl, ends_ok inner, rfl⟩
          · cases run.symm.trans same
      | error fault image =>
          rw [inner] at run
          rcases ends with ⟨_, same⟩ | ⟨_, same⟩
          · cases run.symm.trans same
          · cases run.symm.trans same
            exact ⟨part, image, rfl, ends_error inner, rfl⟩

/-- Wherever the step ends, the state there is related to the one that it started from. -/
structure Leads (related : state → state → Prop) (step : Step state α) (initial : state) : Prop where
  ensures : step.Ensures initial (fun _ final => related initial final) (related initial)

namespace Leads

variable {related : state → state → Prop} {step : Step state α} {next : α → Step state β}
  {initial : state}

theorem ends (leads : step.Leads related initial) {final : state} (ends : step.Ends initial final) :
    related initial final := by
  rcases ends with ⟨_, run⟩ | ⟨_, run⟩
  · exact leads.ensures.ok run
  · exact leads.ensures.error run

theorem of_ends (holds : ∀ final, step.Ends initial final → related initial final) :
    step.Leads related initial := by
  constructor
  unfold Ensures
  cases run : step initial with
  | ok value final => exact holds final (ends_ok run)
  | error fault final => exact holds final (ends_error run)

theorem imp {other : state → state → Prop} (leads : step.Leads related initial)
    (implies : ∀ final, related initial final → other initial final) : step.Leads other initial :=
  ⟨leads.ensures.imp (fun _ => implies) implies⟩

theorem pure (refl : related initial initial) (value : α) :
    (Pure.pure value : Step state α).Leads related initial :=
  ⟨refl⟩

theorem fail (refl : related initial initial) (cause : Cause) :
    (DexArsc.fail cause : Step state α).Leads related initial :=
  ⟨refl⟩

theorem lift (refl : related initial initial) (result : Except Fault α) :
    (monadLift result : Step state α).Leads related initial := by
  cases result with
  | ok value => exact ⟨refl⟩
  | error fault => exact ⟨refl⟩

/-- A check in front of a step. -/
theorem check {check : Except Fault α} (refl : related initial initial)
    (ok : ∀ value, check = .ok value → (next value).Leads related initial) :
    ((MonadLift.monadLift check : Step state α) >>= next).Leads related initial :=
  ⟨Ensures.check refl fun value passed => (ok value passed).ensures⟩

theorem modify {change : state → state} (holds : related initial (change initial)) :
    (modify change : Step state PUnit).Leads related initial :=
  ⟨holds⟩

theorem get {next : state → Step state β} (leads : (next initial).Leads related initial) :
    (MonadState.get >>= next).Leads related initial :=
  ⟨.get leads.ensures⟩

/-- A step behind a step leads on from wherever the first one succeeds. -/
theorem bind (trans : ∀ {between final}, related initial between → related between final →
      related initial final) (first : step.Leads related initial)
    (second : ∀ value between, related initial between → (next value).Leads related between) :
    (step >>= next).Leads related initial :=
  ⟨first.ensures.bind fun value between here =>
    (second value between here).ensures.imp (fun _ _ there => trans here there) fun _ there =>
      trans here there⟩

/-- The same with what holds behind the first step. -/
theorem bind_of_ensures {done : α → state → Prop} (trans : ∀ {between final},
      related initial between → related between final → related initial final)
    (first : step.Ensures initial (fun value between => related initial between ∧ done value between)
      (related initial))
    (second : ∀ value between, done value between → (next value).Leads related between) :
    (step >>= next).Leads related initial :=
  ⟨first.bind fun value between ⟨here, holds⟩ =>
    (second value between holds).ensures.imp (fun _ _ there => trans here there) fun _ there =>
      trans here there⟩

theorem forM {step : α → Step state PUnit} (refl : ∀ initial, related initial initial)
    (trans : ∀ {initial between final}, related initial between → related between final →
      related initial final) {values : List α}
    (each : ∀ value ∈ values, ∀ initial, (step value).Leads related initial) (initial : state) :
    (values.forM step).Leads related initial := by
  induction values generalizing initial with
  | nil => exact .pure (refl initial) _
  | cons value rest ih =>
      rw [forM_cons]
      exact .bind trans (each value List.mem_cons_self initial) fun _ between _ =>
        ih (fun value inside => each value (List.mem_cons_of_mem _ inside)) between

theorem foldlM {step : β → α → Step state β} (refl : ∀ initial, related initial initial)
    (trans : ∀ {initial between final}, related initial between → related between final →
      related initial final) {values : List α}
    (each : ∀ result, ∀ value ∈ values, ∀ initial, (step result value).Leads related initial) (result : β)
    (initial : state) : (values.foldlM step result).Leads related initial := by
  induction values generalizing result initial with
  | nil => exact .pure (refl initial) _
  | cons value rest ih =>
      rw [List.foldlM_cons]
      exact .bind trans (each result value List.mem_cons_self initial) fun result between _ =>
        ih (fun result value inside => each result value (List.mem_cons_of_mem _ inside)) result between

theorem mapM {step : β → Step state α} (refl : ∀ initial, related initial initial)
    (trans : ∀ {initial between final}, related initial between → related between final →
      related initial final) {values : List β}
    (each : ∀ value ∈ values, ∀ initial, (step value).Leads related initial) (initial : state) :
    (values.mapM step).Leads related initial := by
  induction values generalizing initial with
  | nil => exact .pure (refl initial) _
  | cons value rest ih =>
      rw [List.mapM_cons]
      refine .bind trans (each value List.mem_cons_self initial) fun _ between _ => ?_
      exact .bind trans (ih (fun value inside => each value (List.mem_cons_of_mem _ inside)) between)
        fun _ final _ => .pure (refl final) _

theorem map (leads : step.Leads related initial) (change : α → β) :
    (change <$> step).Leads related initial := by
  refine of_ends fun final ends => leads.ends ?_
  rcases ends with ⟨_, run⟩ | ⟨fault, run⟩
  · obtain ⟨value, run, _⟩ := map_eq_ok.1 run
    exact ends_ok run
  · change EStateM.map _ step initial = _ at run
    unfold EStateM.map at run
    cases first : step initial with
    | ok value between =>
        rw [first] at run
        cases run
    | error fault between =>
        rw [first] at run
        cases run
        exact ends_error first

theorem discard (leads : step.Leads related initial) : (Functor.discard step).Leads related initial :=
  leads.map fun _ => PUnit.unit

/-- Where a step on a part leads. -/
theorem onPart {part : state → inner} {put : inner → state → state} {step : Step inner α}
    {parts : inner → inner → Prop} (leads : step.Leads parts (part initial))
    (holds : ∀ changed, parts (part initial) changed → related initial (put changed initial)) :
    (Step.onPart part put step).Leads related initial :=
  ⟨leads.ensures.onPart (fun _ changed => holds changed) holds⟩

/-- Steps that agree in every state that a walk along a list meets. -/
theorem foldlM_congr {first second : β → α → Step state β} {values : List α} {start : state}
    (leads : ∀ result, ∀ value ∈ values, ∀ initial, (first result value).Leads related initial)
    (trans : ∀ {initial between final}, related initial between → related between final → related initial final)
    (same : ∀ result, ∀ value ∈ values, ∀ current, related start current →
      first result value current = second result value current) (result : β) {initial : state}
    (here : related start initial) : values.foldlM first result initial = values.foldlM second result initial := by
  induction values generalizing result initial with
  | nil => rfl
  | cons value rest ih =>
      rw [List.foldlM_cons, List.foldlM_cons, bind_apply, bind_apply,
        ← same result value List.mem_cons_self initial here]
      cases run : first result value initial with
      | ok next final =>
          exact ih (fun result value inside => leads result value (List.mem_cons_of_mem _ inside))
            (fun result value inside => same result value (List.mem_cons_of_mem _ inside)) next
            (trans here ((leads result value List.mem_cons_self initial).ensures.ok run))
      | error fault final => rfl

/-- The same for a walk without a result. -/
theorem forM_congr {first second : α → Step state PUnit} {values : List α} {start : state}
    (leads : ∀ value ∈ values, ∀ initial, (first value).Leads related initial)
    (trans : ∀ {initial between final}, related initial between → related between final → related initial final)
    (same : ∀ value ∈ values, ∀ current, related start current → first value current = second value current)
    {initial : state} (here : related start initial) :
    values.forM first initial = values.forM second initial := by
  induction values generalizing initial with
  | nil => rfl
  | cons value rest ih =>
      rw [forM_cons, forM_cons, bind_apply, bind_apply, ← same value List.mem_cons_self initial here]
      cases run : first value initial with
      | ok next final =>
          exact ih (fun value inside => leads value (List.mem_cons_of_mem _ inside))
            (fun value inside => same value (List.mem_cons_of_mem _ inside))
            (trans here ((leads value List.mem_cons_self initial).ensures.ok run))
      | error fault final => rfl

end Leads
end DexArsc.Step
