/-
Steps that take bytes and differences only where they exist. A guarded step does what a step does with each slice, each
byte and each difference as it asks for it, and ends without a result where one of them is out of range.
-/

import DexArsc.Proofs.Bytes.Bounded
import DexArsc.Proofs.Bytes.Reads

namespace DexArsc

/-- A step that has no result where it asks for something that is out of range. -/
structure Guarded (state α : Type) where
  run : Step state (Option α)

namespace Guarded

variable {state inner α β : Type}

instance : Monad (Guarded state) where
  pure value := ⟨pure (some value)⟩
  bind first next := ⟨do
    match ← first.run with
    | some value => (next value).run
    | none => return none⟩

instance : MonadExceptOf Fault (Guarded state) where
  throw fault := ⟨throw fault⟩
  tryCatch guarded handle := ⟨tryCatch guarded.run fun fault => (handle fault).run⟩

/-- A step that takes nothing by itself. -/
instance : MonadLift (Step state) (Guarded state) where
  monadLift step := ⟨some <$> step⟩

/-- Where a guarded step ends. It has no outcome where something is out of range. -/
def outcome? (guarded : Guarded state α) (initial : state) : Option (EStateM.Result Fault state α) :=
  match guarded.run initial with
  | .ok (some value) final => some (.ok value final)
  | .ok none _ => none
  | .error fault final => some (.error fault final)

/-- What a guarded computation without a state yields. It yields nothing where something is out of range. -/
def value? (guarded : Guarded Unit α) : Option (Except Fault α) :=
  (guarded.outcome? ()).map fun
    | .ok value _ => .ok value
    | .error fault _ => .error fault

/-- Something is out of range. -/
def outOfRange : Guarded state α where
  run := pure none

/-- The bytes between two places of the data. -/
def slice (data : Bytes) (start stop : Nat) : Guarded state (List UInt8) :=
  match data.slice? start stop with
  | some bytes => pure bytes
  | none => outOfRange

/-- The byte at a place of the data. -/
def byteAt (data : Bytes) (place : Nat) : Guarded state UInt8 :=
  match data[place]? with
  | some byte => pure byte
  | none => outOfRange

/-- The difference of two numbers, the second of which is not the greater one. -/
def minus (first second : Nat) : Guarded state Nat :=
  if second ≤ first then pure (first - second) else outOfRange

example : (slice #[1, 2] 1 3 : Guarded Unit _).value? = none ∧ (minus 1 2 : Guarded Unit _).value? = none :=
  ⟨rfl, rfl⟩

/-- A guarded step on a state of its own, with the state behind it. -/
def on (guarded : Guarded inner α) (start : inner) : Guarded state (α × inner) where
  run initial := match guarded.run start with
    | .ok (some value) final => .ok (some (value, final)) initial
    | .ok none _ => .ok none initial
    | .error fault _ => .error fault initial

/-- A guarded step on a part of a state. -/
def onPart (part : state → inner) (put : inner → state → state) (guarded : Guarded inner α) : Guarded state α where
  run := Step.onPart part put guarded.run

/-- The guarded step with a place added to its failure. -/
def within (place : String) (guarded : Guarded state α) : Guarded state α where
  run := Step.within place guarded.run

/-- A guarded step does what the step does: it is never without a result. -/
def Follows (guarded : Guarded state α) (step : Step state α) (initial : state) : Prop :=
  guarded.outcome? initial = some (step initial)

theorem bind_run (first : Guarded state α) (next : α → Guarded state β) (initial : state) :
    (first >>= next).run initial = match first.run initial with
      | .ok (some value) final => (next value).run final
      | .ok none final => .ok none final
      | .error fault final => .error fault final := by
  change EStateM.bind first.run _ initial = _
  unfold EStateM.bind
  rcases first.run initial with ⟨_ | value, final⟩ | ⟨fault, final⟩ <;> rfl

theorem outcome?_eq_ok {guarded : Guarded state α} {initial final : state} {value : α} :
    guarded.outcome? initial = some (.ok value final) ↔ guarded.run initial = .ok (some value) final := by
  unfold outcome?
  rcases guarded.run initial with ⟨_ | value, final⟩ | ⟨fault, final⟩ <;> simp

theorem outcome?_eq_error {guarded : Guarded state α} {initial final : state} {fault : Fault} :
    guarded.outcome? initial = some (.error fault final) ↔ guarded.run initial = .error fault final := by
  unfold outcome?
  rcases guarded.run initial with ⟨_ | value, final⟩ | ⟨fault, final⟩ <;> simp

namespace Follows

variable {guarded : Guarded state α} {step : Step state α} {next' : α → Guarded state β} {next : α → Step state β}
  {initial final : state} {value : α} {fault : Fault}

theorem of_ok (run' : guarded.run initial = .ok (some value) final) (run : step initial = .ok value final) :
    Follows guarded step initial :=
  (outcome?_eq_ok.2 run').trans (congrArg some run.symm)

theorem of_error (run' : guarded.run initial = .error fault final) (run : step initial = .error fault final) :
    Follows guarded step initial :=
  (outcome?_eq_error.2 run').trans (congrArg some run.symm)

theorem ok (follows : Follows guarded step initial) (run : step initial = .ok value final) :
    guarded.run initial = .ok (some value) final :=
  outcome?_eq_ok.1 (follows.trans (congrArg some run))

theorem error (follows : Follows guarded step initial) (run : step initial = .error fault final) :
    guarded.run initial = .error fault final :=
  outcome?_eq_error.1 (follows.trans (congrArg some run))

/-- A step that takes nothing by itself follows itself. -/
theorem lift (step : Step state α) (initial : state) : Follows (liftM step) step initial := by
  have run' : (liftM step : Guarded state α).run initial = EStateM.bind step (fun value => pure (some value)) initial :=
    rfl
  unfold EStateM.bind at run'
  cases run : step initial with
  | ok value final =>
      rw [run] at run'
      exact .of_ok run' run
  | error fault final =>
      rw [run] at run'
      exact .of_error run' run

theorem pure (value : α) (initial : state) : Follows (Pure.pure value) (Pure.pure value : Step state α) initial :=
  rfl

/-- Guarded steps follow steps one behind the other. -/
theorem bind (first : Follows guarded step initial)
    (later : ∀ value final, step initial = .ok value final → Follows (next' value) (next value) final) :
    Follows (guarded >>= next') (step >>= next) initial := by
  cases run : step initial with
  | ok value final =>
      have behind := later value final run
      unfold Follows outcome? at behind ⊢
      rw [bind_run, first.ok run, Step.bind_ok run]
      exact behind
  | error fault final =>
      refine .of_error ?_ (by rw [Step.bind_apply, run])
      rw [bind_run, first.error run]

/-- Behind a step that takes nothing by itself. -/
theorem bind_lift (later : ∀ value final, step initial = .ok value final → Follows (next' value) (next value) final) :
    Follows (liftM step >>= next') (step >>= next) initial :=
  (lift step initial).bind later

/-- Behind a step that takes nothing by itself and succeeds. -/
theorem behind (run : step initial = .ok value final) (later : Follows (next' value) (next value) final) :
    Follows (liftM step >>= next') (step >>= next) initial :=
  bind_lift fun _ _ run' => by
    cases run.symm.trans run'
    exact later

/-- Behind a question that only the guarded step asks. -/
theorem aside {query : Step state α} {step : Step state β} (follows : Follows guarded query initial)
    (answer : query initial = .ok value initial) (later : Follows (next' value) step initial) :
    Follows (guarded >>= next') step initial := by
  unfold Follows outcome? at later ⊢
  rw [bind_run, follows.ok answer]
  exact later

theorem get {next' : state → Guarded state β} {next : state → Step state β}
    (later : Follows (next' initial) (next initial) initial) :
    Follows (MonadState.get >>= next') (MonadState.get >>= next) initial :=
  later

/-- Behind a refusal. -/
theorem guard {test : Prop} [Decidable test] {cause : Cause} {next' : PUnit → Guarded state β}
    {next : PUnit → Step state β} (later : ¬test → Follows (next' ⟨⟩) (next ⟨⟩) initial) :
    Follows (if test then DexArsc.fail cause >>= next' else next' ⟨⟩)
      (if test then DexArsc.fail cause >>= next else next ⟨⟩) initial := by
  by_cases holds : test
  · rw [if_pos holds, if_pos holds]
    rfl
  · rw [if_neg holds, if_neg holds]
    exact later holds

theorem ite {test : Prop} [Decidable test] {other' : Guarded state α} {other : Step state α}
    (yes : test → Follows guarded step initial) (no : ¬test → Follows other' other initial) :
    Follows (if test then guarded else other') (if test then step else other) initial := by
  by_cases holds : test
  · rw [if_pos holds, if_pos holds]
    exact yes holds
  · rw [if_neg holds, if_neg holds]
    exact no holds

theorem slice {data : Bytes} {start stop : Nat} {next' : List UInt8 → Guarded state β} {step : Step state β}
    (ordered : start ≤ stop) (inside : stop ≤ data.size)
    (later : Follows (next' (data.extract start stop).toList) step initial) :
    Follows (Guarded.slice data start stop >>= next') step initial := by
  unfold Guarded.slice
  rw [Reader.slice?_of_le ordered inside]
  exact later

theorem byteAt {data : Bytes} {place : Nat} {next' : UInt8 → Guarded state β} {step : Step state β}
    (inside : place < data.size) (later : Follows (next' data[place]) step initial) :
    Follows (Guarded.byteAt data place >>= next') step initial := by
  unfold Guarded.byteAt
  rw [Array.getElem?_eq_getElem inside]
  exact later

theorem minus {first second : Nat} {next' : Nat → Guarded state β} {step : Step state β} (ordered : second ≤ first)
    (later : Follows (next' (first - second)) step initial) :
    Follows (Guarded.minus first second >>= next') step initial := by
  unfold Guarded.minus
  rw [if_pos ordered]
  exact later

/-- Behind a step that is a result. -/
theorem bind_result {check : Except Fault α} (first : Follows guarded (liftM check) initial)
    (later : ∀ value, check = .ok value → Follows (next' value) (next value) initial) :
    Follows (guarded >>= next') (liftM check >>= next) initial :=
  first.bind fun value final run => by
    obtain ⟨same, rfl⟩ := Step.monadLift_eq_ok.1 run
    exact later value same

/-- Behind a result that does not depend on the state. -/
theorem bind_except {guarded : Guarded state α} {check : Except Fault α} {next : α → Except Fault β}
    (first : Follows guarded (liftM check) initial)
    (later : ∀ value, check = .ok value → Follows (next' value) (liftM (next value)) initial) :
    Follows (guarded >>= next') (liftM (check >>= next)) initial := by
  have whole : (liftM (check >>= next) : Step state β) = liftM check >>= fun value => liftM (next value) := by
    cases check <;> rfl
  rw [whole]
  exact first.bind_result later

theorem value?_eq {guarded : Guarded Unit α} {check : Except Fault α} (follows : Follows guarded (liftM check) ()) :
    guarded.value? = some check := by
  unfold value?
  rw [show guarded.outcome? () = _ from follows]
  cases check <;> rfl

theorem guard_except {test : Prop} [Decidable test] {cause : Cause} {next' : PUnit → Guarded state β}
    {next : PUnit → Except Fault β} (later : ¬test → Follows (next' ⟨⟩) (liftM (next ⟨⟩)) initial) :
    Follows (if test then DexArsc.fail cause >>= next' else next' ⟨⟩)
      (liftM (if test then DexArsc.fail cause >>= next else next ⟨⟩)) initial := by
  by_cases holds : test
  · rw [if_pos holds, if_pos holds]
    rfl
  · rw [if_neg holds, if_neg holds]
    exact later holds

theorem map (follows : Follows guarded step initial) (change : α → β) :
    Follows (change <$> guarded) (change <$> step) initial :=
  follows.bind fun _ _ _ => .pure _ _

theorem within (follows : Follows guarded step initial) (place : String) :
    Follows (Guarded.within place guarded) (Step.within place step) initial := by
  cases run : step initial with
  | ok value final => exact .of_ok (Step.within_eq_ok.2 (follows.ok run)) (Step.within_eq_ok.2 run)
  | error fault final =>
      refine .of_error ?_ (show Step.within place step initial = .error (fault.within place) final from ?_)
      · change Step.within place guarded.run initial = _
        unfold Step.within
        rw [follows.error run]
      · unfold Step.within
        rw [run]

theorem within_except {check : Except Fault α} (follows : Follows guarded (liftM check) initial) (place : String) :
    Follows (Guarded.within place guarded) (liftM (Except.within place check)) initial := by
  have whole : (liftM (Except.within place check) : Step state α) = Step.within place (liftM check) := by
    cases check <;> rfl
  rw [whole]
  exact follows.within place

theorem onPart {part : inner → state} {put : state → inner → inner} {initial : inner}
    (follows : Follows guarded step (part initial)) :
    Follows (Guarded.onPart part put guarded) (Step.onPart part put step) initial := by
  cases run : step (part initial) with
  | ok value final =>
      exact .of_ok (Step.onPart_eq_ok.2 ⟨final, follows.ok run, rfl⟩) (Step.onPart_eq_ok.2 ⟨final, run, rfl⟩)
  | error fault final =>
      refine .of_error ?_ (show Step.onPart part put step initial = .error fault (put final initial) from ?_)
      · change Step.onPart part put guarded.run initial = _
        unfold Step.onPart
        rw [follows.error run]
      · unfold Step.onPart
        rw [run]

theorem forM {visit' : α → Guarded state PUnit} {visit : α → Step state PUnit} {values : List α}
    (each : ∀ value ∈ values, ∀ initial, Follows (visit' value) (visit value) initial) (initial : state) :
    Follows (values.forM visit') (values.forM visit) initial := by
  induction values generalizing initial with
  | nil => exact .pure _ _
  | cons value rest ih =>
      obtain ⟨here, others⟩ := List.forall_mem_cons.1 each
      exact (here initial).bind fun _ final _ => ih others final

theorem foldlM {visit' : β → α → Guarded state β} {visit : β → α → Step state β} {values : List α}
    (each : ∀ value ∈ values, ∀ result initial, Follows (visit' result value) (visit result value) initial)
    (start : β) (initial : state) : Follows (values.foldlM visit' start) (values.foldlM visit start) initial := by
  induction values generalizing start initial with
  | nil => exact .pure _ _
  | cons value rest ih =>
      obtain ⟨here, others⟩ := List.forall_mem_cons.1 each
      rw [List.foldlM_cons, List.foldlM_cons]
      exact (here start initial).bind fun result final _ => ih others result final

/-- Behind a step on a state of its own that succeeds. -/
theorem on {next' : α × state → Guarded inner β} {step' : Step inner β} {other : inner}
    (follows : Follows guarded step initial) (run : step initial = .ok value final)
    (later : Follows (next' (value, final)) step' other) :
    Follows (Guarded.on guarded initial >>= next') step' other := by
  have run' : (Guarded.on guarded initial).run other = .ok (some (value, final)) other := by
    unfold Guarded.on
    rw [follows.ok run]
  unfold Follows outcome? at later ⊢
  rw [bind_run, run']
  exact later

/-- A step on a state of its own that fails. -/
theorem on_error {next' : α × state → Guarded inner β} {step' : Step inner β} {other : inner}
    (follows : Follows guarded step initial) (run : step initial = .error fault final)
    (fails : step' other = .error fault other) : Follows (Guarded.on guarded initial >>= next') step' other := by
  refine .of_error ?_ fails
  have run' : (Guarded.on guarded initial).run other = .error fault other := by
    unfold Guarded.on
    rw [follows.error run]
  rw [bind_run, run']

end Follows

/-- Peeking takes a slice. -/
def peekAs (what : String) (count : Nat) : Guarded Cursor (List UInt8) := do
  let cursor ← get
  if cursor.remaining < count then
    fail (.bytes (.endOfStream what cursor.position))
  slice cursor.data cursor.position (cursor.position + count)

/-- Reading takes a slice. -/
def bytesAs (what : String) (count : Nat) : Guarded Cursor (List UInt8) := do
  let bytes ← peekAs what count
  Reader.advance count
  return bytes

def peek (count : Nat) : Guarded Cursor (List UInt8) :=
  peekAs "byte array" count

def bytes (count : Nat) : Guarded Cursor (List UInt8) :=
  bytesAs "byte array" count

def word16 : Guarded Cursor UInt16 :=
  return UInt16.ofNat (Bytes.littleEndian (← bytesAs "u2" 2))

def word32 : Guarded Cursor UInt32 :=
  return UInt32.ofNat (Bytes.littleEndian (← bytesAs "u4" 4))

/-- `count` guarded steps one after another, behind those that are already done, which are listed in reverse. -/
def replicateOnto (guarded : Guarded Cursor α) : (count : Nat) → List α → Guarded Cursor (List α)
  | 0, done => return done.reverse
  | count + 1, done => do
    let result ← guarded
    replicateOnto guarded count (result :: done)

/-- `count` guarded steps one after another, with the list of their results. -/
def replicate (guarded : Guarded Cursor α) (count : Nat) : Guarded Cursor (List α) :=
  replicateOnto guarded count []

variable {cursor : Cursor} {data : Bytes} {position : Nat}

theorem follows_peekAs (bounded : cursor.Bounded) (what : String) (count : Nat) :
    Follows (peekAs what count) (Reader.peekAs what count) cursor := by
  unfold peekAs Reader.peekAs
  refine .get (.guard fun enough => ?_)
  have taken := Reader.slice?_of_enough bounded enough
  unfold slice
  rw [taken]
  rfl

theorem follows_bytesAs (bounded : cursor.Bounded) (what : String) (count : Nat) :
    Follows (bytesAs what count) (Reader.bytesAs what count) cursor := by
  refine (follows_peekAs bounded what count).bind fun bytes final _ => ?_
  exact .bind_lift fun _ _ _ => .pure _ _

theorem follows_word16 (bounded : cursor.Bounded) : Follows word16 Reader.word16 cursor :=
  (follows_bytesAs bounded "u2" 2).bind fun _ _ _ => .pure _ _

theorem follows_word32 (bounded : cursor.Bounded) : Follows word32 Reader.word32 cursor :=
  (follows_bytesAs bounded "u4" 4).bind fun _ _ _ => .pure _ _

end Guarded

/-- A reader stops in the data, at a place that is no farther than their end. -/
def Reader.StaysIn {α : Type} (reader : Reader α) (data : Bytes) : Prop :=
  ∀ ⦃position value final⦄, position ≤ data.size → reader { data, position } = .ok value final →
    ∃ stop ≤ data.size, final = { data, position := stop }

namespace Guarded

variable {α β : Type} {data : Bytes} {position : Nat} {guarded : Guarded Cursor α} {reader : Reader α}
  {next' : α → Guarded Cursor β} {next : α → Reader β}

theorem bounded_of_le (within : position ≤ data.size) : Cursor.Bounded { data, position } where
  nested := List.pairwise_singleton _ _
  position_le := within

theorem staysIn_pure (value : α) (data : Bytes) : Reader.StaysIn (pure value) data := by
  intro position _ _ within run
  cases run
  exact ⟨position, within, rfl⟩

theorem staysIn_bind (first : reader.StaysIn data) (later : ∀ value, (next value).StaysIn data) :
    (reader >>= next).StaysIn data := by
  intro _ _ _ within run
  obtain ⟨value, _, here, behind⟩ := Step.bind_eq_ok.1 run
  obtain ⟨stop, inside, rfl⟩ := first within here
  exact later value inside behind

theorem staysIn_get {next : Cursor → Reader β} (later : ∀ position, (next { data, position }).StaysIn data) :
    Reader.StaysIn (get >>= next) data := by
  intro position _ _ within run
  exact later position within run

theorem staysIn_guard {test : Prop} [Decidable test] {cause : Cause} {next : PUnit → Reader β}
    (later : (next ⟨⟩).StaysIn data) : Reader.StaysIn (if test then fail cause >>= next else next ⟨⟩) data := by
  intro _ _ _ within run
  exact later within (Step.guard_eq_ok.1 run).2

theorem staysIn_bytesAs (what : String) (count : Nat) (data : Bytes) : (Reader.bytesAs what count).StaysIn data := by
  intro position _ _ within run
  obtain ⟨enough, -, rfl⟩ := Reader.bytesAs_eq_ok.1 run
  exact ⟨position + count, by omega, rfl⟩

theorem staysIn_word16 (data : Bytes) : Reader.StaysIn Reader.word16 data :=
  staysIn_bind (staysIn_bytesAs "u2" 2 data) fun _ => staysIn_pure _ data

theorem staysIn_word32 (data : Bytes) : Reader.StaysIn Reader.word32 data :=
  staysIn_bind (staysIn_bytesAs "u4" 4 data) fun _ => staysIn_pure _ data

theorem staysIn_seek (target : Nat) (data : Bytes) : (Reader.seek target).StaysIn data := by
  intro _ _ _ _ run
  obtain ⟨inside, rfl⟩ := Reader.seek_eq_ok.1 run
  exact ⟨target, inside, rfl⟩

theorem staysIn_replicateOnto (stays : reader.StaysIn data) (count : Nat) (done : List α) :
    (reader.replicateOnto count done).StaysIn data := by
  induction count generalizing done with
  | zero => exact staysIn_pure _ data
  | succ count ih => exact staysIn_bind stays fun _ => ih _

namespace Follows

/-- Behind a reader that stops in the data. -/
theorem read (follows : Follows guarded reader { data, position }) (stays : reader.StaysIn data)
    (within : position ≤ data.size)
    (later : ∀ value stop, stop ≤ data.size → Follows (next' value) (next value) { data, position := stop }) :
    Follows (guarded >>= next') (reader >>= next) { data, position } :=
  follows.bind fun value _ run => by
    obtain ⟨stop, inside, rfl⟩ := stays within run
    exact later value stop inside

theorem word16 {next' : UInt16 → Guarded Cursor β} {next : UInt16 → Reader β} (within : position ≤ data.size)
    (later : ∀ value stop, stop ≤ data.size → Follows (next' value) (next value) { data, position := stop }) :
    Follows (Guarded.word16 >>= next') (Reader.word16 >>= next) { data, position } :=
  (follows_word16 (bounded_of_le within)).read (staysIn_word16 data) within later

theorem word32 {next' : UInt32 → Guarded Cursor β} {next : UInt32 → Reader β} (within : position ≤ data.size)
    (later : ∀ value stop, stop ≤ data.size → Follows (next' value) (next value) { data, position := stop }) :
    Follows (Guarded.word32 >>= next') (Reader.word32 >>= next) { data, position } :=
  (follows_word32 (bounded_of_le within)).read (staysIn_word32 data) within later

theorem peek {next' : List UInt8 → Guarded Cursor β} {next : List UInt8 → Reader β} {count : Nat}
    (within : position ≤ data.size) (later : ∀ value, Follows (next' value) (next value) { data, position }) :
    Follows (Guarded.peek count >>= next') (Reader.peek count >>= next) { data, position } :=
  (follows_peekAs (bounded_of_le within) "byte array" count).bind fun value _ run => by
    obtain ⟨-, -, rfl⟩ := Reader.peek_eq_ok.1 run
    exact later value

theorem seek {next' : PUnit → Guarded Cursor β} {next : PUnit → Reader β} {target : Nat}
    (later : target ≤ data.size → Follows (next' ⟨⟩) (next ⟨⟩) { data, position := target }) :
    Follows (liftM (Reader.seek target) >>= next') (Reader.seek target >>= next) { data, position } :=
  bind_lift fun _ _ run => by
    obtain ⟨inside, rfl⟩ := Reader.seek_eq_ok.1 run
    exact later inside

/-- Reading the same again and again takes nothing that is out of range when one reading does not. -/
theorem replicateOnto (stays : reader.StaysIn data)
    (each : ∀ position, position ≤ data.size → Follows guarded reader { data, position }) (count : Nat) (done : List α)
    (within : position ≤ data.size) :
    Follows (Guarded.replicateOnto guarded count done) (reader.replicateOnto count done) { data, position } := by
  induction count generalizing position done with
  | zero => exact .pure _ _
  | succ count ih => exact (each position within).read stays within fun value stop inside => ih _ inside

theorem words {count : Nat} {next' : List UInt32 → Guarded Cursor β} {next : List UInt32 → Reader β}
    (within : position ≤ data.size)
    (later : ∀ values stop, stop ≤ data.size → Follows (next' values) (next values) { data, position := stop }) :
    Follows (Guarded.replicate Guarded.word32 count >>= next') (Reader.word32.replicate count >>= next)
      { data, position } :=
  (replicateOnto (staysIn_word32 data) (fun _ inside => follows_word32 (bounded_of_le inside)) count [] within).read
    (staysIn_replicateOnto (staysIn_word32 data) count []) within later

end Follows
end Guarded
end DexArsc
