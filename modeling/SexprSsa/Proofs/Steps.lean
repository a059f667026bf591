/-
SexprSsa.Proofs.Steps — counted steps of the machine.

A run is a number of steps and what the last one leads to. The limit of a run
only decides whether that many steps are made (`resume_of_steps`,
`resume_of_limit`).
-/
import SexprSsa.Machine.Run

namespace SexprSsa.Machine

/-- The machine goes from one state to another in a number of steps. -/
inductive Steps (m : Module) : Nat → Config → Config → Prop
  | refl {c : Config} : Steps m 0 c c
  | next {n : Nat} {c c' c'' : Config} :
      c.step m = .ok (.running c') → Steps m n c' c'' → Steps m (n + 1) c c''

namespace Steps

variable {m : Module} {n k : Nat} {c c' c'' : Config}

theorem single (h : c.step m = .ok (.running c')) : Steps m 1 c c' := .next h .refl

theorem trans (h : Steps m n c c') (h' : Steps m k c' c'') : Steps m (n + k) c c'' := by
  induction h with
  | refl => simpa using h'
  | next hstep _ ih =>
    rw [Nat.add_right_comm]
    exact .next hstep (ih h')

end Steps

variable {m : Module} {n limit left : Nat} {c c' : Config}

/-- The steps that a run has made are taken off what is left of its limit. -/
theorem resume_of_steps (h : Steps m n c c') :
    resume m limit (n + left) c = resume m limit left c' := by
  induction h with
  | refl => rw [Nat.zero_add]
  | next hstep _ ih =>
    rw [Nat.add_right_comm, resume, hstep]
    exact ih

/-- A run whose limit is used up by steps that it can make ends for that reason. -/
theorem resume_of_limit (h : Steps m n c c') (hleft : left ≤ n) :
    resume m limit left c = .error (.stepLimit limit) := by
  induction h generalizing left with
  | refl =>
    obtain rfl : left = 0 := Nat.le_zero.1 hleft
    rfl
  | next hstep _ ih =>
    cases left with
    | zero => rfl
    | succ left =>
      rw [resume, hstep]
      exact ih (Nat.le_of_succ_le_succ hleft)

/-- A step that fails ends the run, unless the limit has ended it before. -/
theorem resume_of_fault (h : Steps m n c c') {fault : Fault} (hstep : c'.step m = .error fault) :
    resume m limit left c = .error fault ∨ resume m limit left c = .error (.stepLimit limit) := by
  by_cases hleft : left ≤ n
  · exact .inr (resume_of_limit h hleft)
  · obtain ⟨k, rfl⟩ : ∃ k, left = n + (k + 1) := ⟨left - n - 1, by omega⟩
    rw [resume_of_steps h, resume, hstep]
    exact .inl rfl

/-- A run that halts does so with every limit that lets it come so far. -/
theorem resume_of_halt (h : Steps m n c c') {result : Option Value} {output : String}
    (hstep : c'.step m = .ok (.halted result output)) (hleft : n < left) :
    ∃ steps, resume m limit left c = .ok ⟨result, output, steps⟩ := by
  obtain ⟨k, rfl⟩ : ∃ k, left = n + (k + 1) := ⟨left - n - 1, by omega⟩
  rw [resume_of_steps h, resume, hstep]
  exact ⟨_, rfl⟩

end SexprSsa.Machine
