/-
SexprSsa.Proofs.Effects — computations that change a state and may fail.

Building and lowering are both of this kind: a failure keeps the effects that
came before it. `Meets` is the judgement the proofs about them are written in.
It says what holds after a success and which failures can occur, and `bind`
is its only rule with content.
-/

namespace SexprSsa

section
variable {ε σ α β : Type}

theorem bind_of_ok {x : ExceptT ε (StateM σ) α} {f : α → ExceptT ε (StateM σ) β} {s s' : σ}
    {a : α} (h : x s = (.ok a, s')) : (x >>= f) s = f a s' := by
  simp only [bind, ExceptT.bind, ExceptT.mk, StateT.bind, h]
  rfl

theorem bind_of_error {x : ExceptT ε (StateM σ) α} {f : α → ExceptT ε (StateM σ) β} {s s' : σ}
    {e : ε} (h : x s = (.error e, s')) : (x >>= f) s = (.error e, s') := by
  simp only [bind, ExceptT.bind, ExceptT.mk, StateT.bind, h]
  rfl

/-- What comes after a first computation that succeeds has gone on from the state that it left. -/
theorem exists_of_bind_ok {x : ExceptT ε (StateM σ) α} {f : α → ExceptT ε (StateM σ) β}
    {s s'' : σ} {b : β} (h : (x >>= f) s = (.ok b, s'')) :
    ∃ a s', x s = (.ok a, s') ∧ f a s' = (.ok b, s'') := by
  rcases hx : x s with ⟨e | a, s'⟩
  · rw [bind_of_error hx] at h
    cases h
  · rw [bind_of_ok hx] at h
    exact ⟨a, s', rfl, h⟩

/-- Run in `s`, the computation either succeeds with `post` or fails in an `allowed` way. -/
def Meets (allowed : ε → Prop) (x : ExceptT ε (StateM σ) α) (s : σ) (post : α → σ → Prop) :
    Prop :=
  match x s with
  | (.ok a, s') => post a s'
  | (.error e, _) => allowed e

namespace Meets

variable {allowed : ε → Prop} {x : ExceptT ε (StateM σ) α} {s : σ} {post : α → σ → Prop}

theorem of_ok {a : α} {s' : σ} (h : x s = (.ok a, s')) (hpost : post a s') :
    Meets allowed x s post := by
  unfold Meets
  rw [h]
  exact hpost

theorem of_error {e : ε} {s' : σ} (h : x s = (.error e, s')) (he : allowed e) :
    Meets allowed x s post := by
  unfold Meets
  rw [h]
  exact he

/-- What a computation that meets its condition does when it succeeds. -/
theorem ok (h : Meets allowed x s post) {a : α} {s' : σ} (hx : x s = (.ok a, s')) :
    post a s' := by
  unfold Meets at h
  rw [hx] at h
  exact h

/-- How a computation that meets its condition fails. -/
theorem error (h : Meets allowed x s post) {e : ε} {s' : σ} (hx : x s = (.error e, s')) :
    allowed e := by
  unfold Meets at h
  rw [hx] at h
  exact h

theorem pure {a : α} (h : post a s) : Meets allowed (Pure.pure a) s post := of_ok rfl h

theorem bind {f : α → ExceptT ε (StateM σ) β} {post' : β → σ → Prop}
    (hx : Meets allowed x s post)
    (hf : ∀ a s', post a s' → Meets allowed (f a) s' post') :
    Meets allowed (x >>= f) s post' := by
  rcases h : x s with ⟨e | a, s'⟩
  · exact of_error (bind_of_error h) (hx.error h)
  · have hf := hf a s' (hx.ok h)
    unfold Meets at hf ⊢
    rwa [bind_of_ok h]

theorem weaken {post' : α → σ → Prop} (h : Meets allowed x s post)
    (hpost : ∀ a s', post a s' → post' a s') : Meets allowed x s post' := by
  rcases hx : x s with ⟨e | a, s'⟩
  · exact of_error hx (h.error hx)
  · exact of_ok hx (hpost a s' (h.ok hx))

end Meets

end

end SexprSsa
