/-
SexprSsa.Proofs.Decimal — integers in decimal notation.

Program texts, JSON and listings write an integer as the decimal digits of its
size, after a minus sign if it is negative. The digits have no zero in front,
which JSON insists on. They determine the number; so do those of another base,
as long as there are enough characters for them.
-/

namespace SexprSsa

theorem toList_toString_int (n : Int) : (toString n).toList =
    if n < 0 then '-' :: Nat.toDigits 10 n.natAbs else Nat.toDigits 10 n.natAbs := by
  cases n with
  | ofNat m =>
    change (toString m).toList = _
    simp
  | negSucc m =>
    change ("-" ++ toString (m + 1)).toList = _
    simp [Int.negSucc_lt_zero]

theorem isDigit_of_mem_toDigits {n : Nat} {c : Char} (h : c ∈ Nat.toDigits 10 n) :
    c.isDigit = true :=
  Nat.isDigit_of_mem_toDigits (by decide) (by decide) h

/-- Only the number zero starts with a zero. -/
theorem head?_toDigits_ne {n : Nat} (h : 0 < n) : (Nat.toDigits 10 n).head? ≠ some '0' := by
  induction n using Nat.strongRecOn with
  | ind n ih =>
    by_cases hn : n < 10
    · have hsmall : ∀ k < 10, 0 < k → [k.digitChar].head? ≠ some '0' := by decide
      rw [Nat.toDigits_of_lt_base hn]
      exact hsmall n hn h
    · have hprefix := ih (n / 10) (by omega) (by omega)
      rw [Nat.toDigits_of_base_le (by decide) (by omega), List.head?_append]
      cases hhead : (Nat.toDigits 10 (n / 10)).head? with
      | none => simp at hhead
      | some c => simpa [hhead] using hprefix

/-! ## The notation determines the number -/

theorem digitChar_injective {d d' : Nat} (hd : d < 16) (hd' : d' < 16)
    (h : d.digitChar = d'.digitChar) : d = d' := by
  have hall : ∀ d < 16, ∀ d' < 16, d.digitChar = d'.digitChar → d = d' := by decide
  exact hall d hd d' hd' h

theorem exists_digitChar {base : Nat} (hbase : 1 < base) {n : Nat} {c : Char}
    (h : c ∈ Nat.toDigits base n) : ∃ d < base, d.digitChar = c := by
  induction n using Nat.strongRecOn with
  | ind n ih =>
    rw [Nat.toDigits_eq_if hbase] at h
    split at h
    · next hn => exact ⟨n, hn, (List.mem_singleton.1 h).symm⟩
    · rcases List.mem_append.1 h with h | h
      · exact ih (n / base) (Nat.div_lt_self (by omega) hbase) h
      · exact ⟨n % base, Nat.mod_lt n (by omega), (List.mem_singleton.1 h).symm⟩

/-- The digits of a number determine it. -/
theorem toDigits_injective {base : Nat} (hbase : 1 < base) (hlimit : base ≤ 16) {n k : Nat}
    (h : Nat.toDigits base n = Nat.toDigits base k) : n = k := by
  -- All digits but the last are those of the number without its last digit.
  have hsplit (n : Nat) : Nat.toDigits base n =
      (if n < base then [] else Nat.toDigits base (n / base)) ++ [(n % base).digitChar] := by
    rw [Nat.toDigits_eq_if hbase]
    split
    · next hn => rw [Nat.mod_eq_of_lt hn, List.nil_append]
    · rfl
  induction n using Nat.strongRecOn generalizing k with
  | ind n ih =>
    rw [hsplit n, hsplit k] at h
    obtain ⟨hfront, hlast⟩ := List.append_inj' h rfl
    have hmod : n % base = k % base := by
      have hpos : 0 < base := by omega
      refine digitChar_injective ?_ ?_ (List.singleton_inj.1 hlast)
      · exact Nat.lt_of_lt_of_le (Nat.mod_lt n hpos) hlimit
      · exact Nat.lt_of_lt_of_le (Nat.mod_lt k hpos) hlimit
    have hdiv : n / base = k / base := by
      by_cases hn : n < base <;> by_cases hk : k < base
      · rw [Nat.div_eq_of_lt hn, Nat.div_eq_of_lt hk]
      · simp [hn, hk, Nat.toDigits_ne_nil.symm] at hfront
      · simp [hn, hk, Nat.toDigits_ne_nil] at hfront
      · rw [if_neg hn, if_neg hk] at hfront
        exact ih (n / base) (Nat.div_lt_self (by omega) hbase) hfront
    rw [← Nat.div_add_mod n base, ← Nat.div_add_mod k base, hmod, hdiv]

theorem toString_int_injective {n k : Int} (h : (toString n).toList = (toString k).toList) :
    n = k := by
  have hminus (n k : Nat) : '-' :: Nat.toDigits 10 n ≠ Nat.toDigits 10 k := by
    intro he
    have hdigit := isDigit_of_mem_toDigits (c := '-') (he ▸ List.mem_cons_self ..)
    exact absurd hdigit (by decide)
  rw [toList_toString_int, toList_toString_int] at h
  split at h <;> split at h
  · have habs := toDigits_injective (by decide) (by decide) (List.cons.inj h).2
    omega
  · exact absurd h (hminus _ _)
  · exact absurd h.symm (hminus _ _)
  · have habs := toDigits_injective (by decide) (by decide) h
    omega

theorem mem_toString_int {n : Int} {c : Char} (h : c ∈ (toString n).toList) :
    c = '-' ∨ c.isDigit = true := by
  rw [toList_toString_int] at h
  split at h
  · exact (List.mem_cons.1 h).imp_right isDigit_of_mem_toDigits
  · exact .inr (isDigit_of_mem_toDigits h)

end SexprSsa
