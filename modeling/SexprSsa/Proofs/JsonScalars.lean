/-
SexprSsa.Proofs.JsonScalars — strings and numbers in JSON texts.

Main statements: `isRaw_escape`, what the writer puts between quotes is split
off whole, so no quote in it ends the string early; `unescape?_escape`, its
escapes denote the text it was made from; `number?_toString`, an integer in
decimal notation is read as that integer, provided that nothing follows it
which could be part of a number.
-/
import SexprSsa.Json.Reader
import SexprSsa.Proofs.Decimal

namespace SexprSsa.Json

/-! ## Strings -/

theorem codeUnit?_hexDigit : ∀ n < 32,
    codeUnit? '0' '0' (hexDigit (n / 16)) (hexDigit n) = some n := by decide

/-- A character is written after a backslash as a letter, by its code, or as itself. -/
theorem escapeChar_cases (c : Char) :
    (∃ letter, letter ≠ 'u' ∧ escapeLetter? letter = some c ∧ escapeChar c = ['\\', letter]) ∨
    (c.toNat < 32 ∧
      escapeChar c = ['\\', 'u', '0', '0', hexDigit (c.toNat / 16), hexDigit c.toNat]) ∨
    (c ≠ '"' ∧ c ≠ '\\' ∧ 32 ≤ c.toNat ∧ escapeChar c = [c]) := by
  fun_cases escapeChar c
  · next hc => exact .inl ⟨'"', by decide, by rw [hc]; rfl, rfl⟩
  · next hc => exact .inl ⟨'\\', by decide, by rw [hc]; rfl, rfl⟩
  · next hc => exact .inl ⟨'b', by decide, by rw [hc]; rfl, rfl⟩
  · next hc => exact .inl ⟨'f', by decide, by rw [hc]; rfl, rfl⟩
  · next hc => exact .inl ⟨'n', by decide, by rw [hc]; rfl, rfl⟩
  · next hc => exact .inl ⟨'r', by decide, by rw [hc]; rfl, rfl⟩
  · next hc => exact .inl ⟨'t', by decide, by rw [hc]; rfl, rfl⟩
  · next hcode => exact .inr (.inl ⟨hcode, rfl⟩)
  · next hquote hslash _ _ _ _ _ hcode =>
    exact .inr (.inr ⟨hquote, hslash, by omega, rfl⟩)

theorem splitString_escapeChar (c : Char) (text : List Char) :
    splitString (escapeChar c ++ text) =
      (splitString text).map fun (raw, rest) => (escapeChar c ++ raw, rest) := by
  rcases escapeChar_cases c with ⟨letter, hu, hc, he⟩ | ⟨hcode, he⟩ | ⟨hquote, hslash, hc, he⟩
  · rw [he]
    simp [splitString, hc, hu]
  · rw [he]
    simp [splitString, codeUnit?_hexDigit _ hcode]
  · rw [he]
    simp [splitString, hslash, Nat.not_lt.2 hc]

theorem unescapeChars_escapeChar (c : Char) (text : List Char) :
    unescapeChars (escapeChar c ++ text) = (unescapeChars text).map (c :: ·) := by
  rcases escapeChar_cases c with ⟨letter, hu, hc, he⟩ | ⟨hcode, he⟩ | ⟨_, hslash, _, he⟩
  · rw [he]
    simp [unescapeChars, hc, hu, Option.map_eq_bind, Function.comp_def]
  · have hhigh : isHighSurrogate c.toNat = false := by simp [isHighSurrogate]; omega
    have hlow : isLowSurrogate c.toNat = false := by simp [isLowSurrogate]; omega
    rw [he]
    simp [unescapeChars, codeUnit?_hexDigit _ hcode, hhigh, hlow, Option.map_eq_bind,
      Function.comp_def]
  · rw [he]
    simp [unescapeChars, hslash, Option.map_eq_bind, Function.comp_def]

/-- The text between quotes is one that the reader splits off whole. -/
def IsRaw (raw : String) : Prop :=
  ∀ rest, splitString (raw.toList ++ '"' :: rest) = some (raw.toList, rest)

theorem isRaw_escape (s : String) : IsRaw (escape s) := by
  intro rest
  simp only [escape, String.toList_ofList]
  induction s.toList with
  | nil => simp [splitString]
  | cons c chars ih =>
    rw [List.flatMap_cons, List.append_assoc, splitString_escapeChar, ih]
    rfl

/-- Escapes denote the text that was escaped. -/
@[simp] theorem unescape?_escape (s : String) : unescape? (escape s) = some s := by
  have hchars : ∀ chars : List Char, unescapeChars (chars.flatMap escapeChar) = some chars := by
    intro chars
    induction chars with
    | nil => rfl
    | cons c chars ih => rw [List.flatMap_cons, unescapeChars_escapeChar, ih]; rfl
  simp [unescape?, escape, hchars]

theorem escapeChar_digit {c : Char} (h : c.isDigit = true) : escapeChar c = [c] := by
  rcases escapeChar_cases c with ⟨letter, _, hletter, _⟩ | ⟨hcode, _⟩ | ⟨_, _, _, he⟩
  · have hdigit : c.isDigit = false := by
      unfold escapeLetter? at hletter
      split at hletter <;> cases hletter <;> rfl
    rw [hdigit] at h
    cases h
  · have hdigit : 48 ≤ c.toNat := by
      simp only [Char.isDigit, Bool.and_eq_true, decide_eq_true_eq, ge_iff_le,
        UInt32.le_iff_toNat_le] at h
      exact h.1
    omega
  · exact he

/-- Digits need no escapes. -/
theorem escape_repr (n : Nat) : escape n.repr = n.repr := by
  have hdigits : ∀ digits : List Char, (∀ c ∈ digits, c.isDigit = true) →
      digits.flatMap escapeChar = digits := by
    intro digits h
    induction digits with
    | nil => rfl
    | cons c digits ih =>
      obtain ⟨hc, hdigits⟩ := List.forall_mem_cons.1 h
      rw [List.flatMap_cons, escapeChar_digit hc, ih hdigits]
      rfl
  have hrepr : n.repr.toList = Nat.toDigits 10 n := by simp
  rw [escape, hrepr, hdigits _ fun c => isDigit_of_mem_toDigits, ← hrepr, String.ofList_toList]

/-! ## Numbers -/

/-- What may follow a number: nothing that could be part of it. -/
def EndsNumber (rest : List Char) : Prop :=
  ∀ c ∈ rest.head?, c.isDigit = false ∧ c ≠ '.' ∧ c ≠ 'e' ∧ c ≠ 'E'

theorem splitDigits_toDigits (n : Nat) {rest : List Char} (h : EndsNumber rest) :
    splitDigits (Nat.toDigits 10 n ++ rest) = (Nat.toDigits 10 n, rest) := by
  have hdigits : ∀ c ∈ Nat.toDigits 10 n, c.isDigit = true := fun c => isDigit_of_mem_toDigits
  have hrest : rest.takeWhile Char.isDigit = [] ∧ rest.dropWhile Char.isDigit = rest := by
    cases rest with
    | nil => simp
    | cons c rest =>
      have hc := (h c rfl).1
      simp [hc]
  simp [splitDigits, List.takeWhile_append_of_pos hdigits, List.dropWhile_append_of_pos hdigits,
    hrest]

theorem whole?_toDigits (n : Nat) {rest : List Char} (h : EndsNumber rest) :
    whole? (Nat.toDigits 10 n ++ rest) = some (Nat.toDigits 10 n, rest) := by
  rw [whole?, splitDigits_toDigits n h]
  have hne : Nat.toDigits 10 n ≠ [] := by simp
  by_cases hn : n = 0
  · subst hn
    rfl
  · have hhead := head?_toDigits_ne (Nat.pos_of_ne_zero hn)
    cases hdigits : Nat.toDigits 10 n with
    | nil => exact absurd hdigits hne
    | cons c digits =>
      rw [hdigits] at hhead
      have hc : c ≠ '0' := by simpa using hhead
      simp [hc]

theorem fraction?_ends {rest : List Char} (h : EndsNumber rest) :
    fraction? rest = some ([], rest) := by
  cases rest with
  | nil => rfl
  | cons c rest => simp [fraction?, (h c rfl).2.1]

theorem exponent?_ends {rest : List Char} (h : EndsNumber rest) :
    exponent? rest = some ([], rest) := by
  cases rest with
  | nil => rfl
  | cons c rest => simp [exponent?, (h c rfl).2.2.1, (h c rfl).2.2.2]

/-- A digit or the minus sign. -/
def StartsNumber (c : Char) : Prop := c.isDigit = true ∨ c = '-'

theorem StartsNumber.ne {c d : Char} (h : StartsNumber c) (hdigit : d.isDigit = false)
    (hminus : d ≠ '-') : c ≠ d := by
  rintro rfl
  rcases h with h | h
  · simp [hdigit] at h
  · exact hminus h

theorem toString_head (n : Int) :
    ∃ c text, (toString n).toList = c :: text ∧ StartsNumber c := by
  rw [toList_toString_int]
  by_cases hn : n < 0
  · rw [if_pos hn]
    exact ⟨_, _, rfl, .inr rfl⟩
  · rw [if_neg hn]
    cases hdigits : Nat.toDigits 10 n.natAbs with
    | nil => simp at hdigits
    | cons c text =>
      have hmem : c ∈ Nat.toDigits 10 n.natAbs := by simp [hdigits]
      exact ⟨c, text, rfl, .inl (isDigit_of_mem_toDigits hmem)⟩

theorem number?_toDigits (n : Nat) {rest : List Char} (h : EndsNumber rest) :
    number? (Nat.toDigits 10 n ++ rest) = some (.integer n, rest) := by
  have hvalue : Nat.ofDigitChars 10 (Nat.toDigits 10 n) 0 = n := Nat.ofDigitChars_ten_toDigits
  have hwhole := whole?_toDigits n h
  cases hdigits : Nat.toDigits 10 n with
  | nil => simp at hdigits
  | cons c digits =>
    have hc : c.isDigit = true := isDigit_of_mem_toDigits (n := n) (by simp [hdigits])
    have hsign : c ≠ '-' := by
      rintro rfl
      cases hc
    rw [hdigits] at hwhole hvalue
    rw [List.cons_append] at hwhole
    simp [number?, hsign, hwhole, fraction?_ends h, exponent?_ends h, hvalue]

/-- Only zero has no negative. -/
theorem number?_minus {n : Nat} (hn : 0 < n) {rest : List Char} (h : EndsNumber rest) :
    number? ('-' :: Nat.toDigits 10 n ++ rest) = some (.integer (-n), rest) := by
  have hvalue : Nat.ofDigitChars 10 (Nat.toDigits 10 n) 0 = n := Nat.ofDigitChars_ten_toDigits
  have hzero : Nat.toDigits 10 n ≠ ['0'] := fun hdigits =>
    head?_toDigits_ne hn (by rw [hdigits]; rfl)
  simp [number?, whole?_toDigits n h, fraction?_ends h, exponent?_ends h, hvalue, hzero]

/-- An integer in decimal notation reads back, whatever ends it. -/
theorem number?_toString (n : Int) {rest : List Char} (h : EndsNumber rest) :
    number? ((toString n).toList ++ rest) = some (.integer n, rest) := by
  rw [toList_toString_int]
  by_cases hn : n < 0
  · have hvalue : -(n.natAbs : Int) = n := by omega
    rw [if_pos hn, number?_minus (by omega) h, hvalue]
  · have hvalue : (n.natAbs : Int) = n := by omega
    rw [if_neg hn, number?_toDigits _ h, hvalue]

end SexprSsa.Json
