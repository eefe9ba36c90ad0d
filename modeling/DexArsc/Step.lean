/-
Steps on the parts of a state. A step that fails inside a part leaves the part as far as it got
and everything else as it was.
-/

import DexArsc.Fault

namespace DexArsc.Step

variable {state inner α β : Type}

/-- A step on a part of a state. -/
def onPart (part : state → inner) (put : inner → state → state) (step : Step inner α) :
    Step state α :=
  fun initial => match step (part initial) with
    | .ok value final => .ok value (put final initial)
    | .error fault final => .error fault (put final initial)

/-- A step on a part that a state may lack. Without the part there is no result. -/
def onPart? (part? : state → Option inner) (put : inner → state → state) (step : Step inner α) :
    Step state (Option α) :=
  fun initial => match part? initial with
    | none => .ok none initial
    | some part => (some <$> onPart (fun _ => part) put step) initial

/-- A step on every element behind those that are already done, which are listed in reverse. -/
def onEachFrom (step : Step α Unit) : (done : List α) → Step (List α) Unit
  | done, [] => .ok () done.reverse
  | done, item :: rest =>
    match step item with
    | .ok () item => onEachFrom step (item :: done) rest
    | .error fault item => .error fault (done.reverse ++ item :: rest)

/-- A step on every element of a list, up to the first failure. -/
def onEach (step : Step α Unit) : Step (List α) Unit :=
  onEachFrom step []

end DexArsc.Step
