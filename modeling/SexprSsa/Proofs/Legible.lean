/-
SexprSsa.Proofs.Legible — what is written can be told from the text.

A way of writing is legible if a text that starts with something written says
what it is and where it ends. Some things say so by themselves, such as a line;
others need to be followed by something that cannot be part of them, such as a
number, which goes on as long as there are digits. So legibility is relative to
what may follow (`Ends`), and to what is written at all (`Ok`).

Main statements: `legible_run`, for what is written in characters of one kind;
`Legible.flatMap` and `Legible.intercalate`, for rows; `legible_quoted`, for
texts in quotes, whatever they contain.
-/
import SexprSsa.Proofs.Decimal
import SexprSsa.Proofs.TokenRow
import SexprSsa.Text.Quoted
import SexprSsa.Ir.Operand

namespace SexprSsa

open Grammar

/-- A text that starts with something written says what it is and what follows. -/
def Legible {α : Type} (Ok : α → Prop) (Ends : List Char → Prop) (write : α → List Char) : Prop :=
  ∀ ⦃a a' : α⦄ ⦃rest rest' : List Char⦄, Ok a → Ok a' → Ends rest → Ends rest' →
    write a ++ rest = write a' ++ rest' → a = a' ∧ rest = rest'

/-- Anything can be written, or follow. -/
def Anything {α : Type} (_ : α) : Prop := True

/-- What follows does not start with a character of the kind. -/
def Stops (kind : Char → Bool) (rest : List Char) : Prop := ∀ c ∈ rest.head?, kind c = false

@[simp] theorem stops_cons {kind : Char → Bool} {c : Char} {rest : List Char} :
    Stops kind (c :: rest) ↔ kind c = false := by
  simp [Stops]

/-! ## Runs and rows -/

section
variable {α : Type} {Ok : α → Prop} {Ends Stop : List Char → Prop} {write : α → List Char}

/-- What is written in characters of one kind ends where another kind starts. -/
theorem legible_run {kind : Char → Bool} (hkind : ∀ a, Ok a → (write a).all kind = true)
    (hinj : ∀ a a', Ok a → Ok a' → write a = write a' → a = a') :
    Legible Ok (Stops kind) write := by
  intro a a' rest rest' ha ha' hrest hrest' h
  obtain ⟨hrun, hafter⟩ := span_append (List.all_eq_true.1 (hkind a ha)) hrest
  obtain ⟨hrun', hafter'⟩ := span_append (List.all_eq_true.1 (hkind a' ha')) hrest'
  rw [h] at hrun hafter
  exact ⟨hinj a a' ha ha' (hrun.symm.trans hrun'), hafter.symm.trans hafter'⟩

/-- A row of things, one right after the other, ends where no other thing starts. -/
theorem Legible.flatMap (h : Legible Ok Ends write) (hends : ∀ {rest}, Stop rest → Ends rest)
    (hnext : ∀ {a} rest, Ok a → Ends (write a ++ rest))
    (hstop : ∀ {a} rest, Ok a → ¬ Stop (write a ++ rest)) :
    Legible (fun l => ∀ a ∈ l, Ok a) Stop (List.flatMap write) := by
  have hrow (l : List α) (hl : ∀ a ∈ l, Ok a) {rest : List Char} (hrest : Stop rest) :
      Ends (l.flatMap write ++ rest) := by
    cases l with
    | nil => exact hends hrest
    | cons a l =>
      rw [List.flatMap_cons, List.append_assoc]
      exact hnext _ (hl a (by simp))
  intro l l' rest rest' hl hl' hrest hrest' heq
  induction l generalizing l' with
  | nil =>
    cases l' with
    | nil => exact ⟨rfl, heq⟩
    | cons a' l' =>
      rw [show rest = _ from heq, List.flatMap_cons, List.append_assoc] at hrest
      exact absurd hrest (hstop _ (hl' a' (by simp)))
  | cons a l ih =>
    cases l' with
    | nil =>
      rw [show rest' = _ from heq.symm, List.flatMap_cons, List.append_assoc] at hrest'
      exact absurd hrest' (hstop _ (hl a (by simp)))
    | cons a' l' =>
      obtain ⟨ha, htail⟩ := List.forall_mem_cons.1 hl
      obtain ⟨ha', htail'⟩ := List.forall_mem_cons.1 hl'
      simp only [List.flatMap_cons, List.append_assoc] at heq
      obtain ⟨rfl, hmore⟩ := h ha ha' (hrow l htail hrest) (hrow l' htail' hrest') heq
      obtain ⟨rfl, hafter⟩ := ih htail htail' hmore
      exact ⟨rfl, hafter⟩

/-- All things of a row but the first come after a separator. -/
theorem intercalate_cons_eq (separator text : List Char) (texts : List (List Char)) :
    separator.intercalate (text :: texts) =
      text ++ texts.flatMap fun more => separator ++ more := by
  induction texts generalizing text with
  | nil => simp
  | cons more texts ih =>
    rw [List.intercalate_cons_cons, ih, List.flatMap_cons]
    simp only [List.append_assoc]

/-- A row of things with a separator in between ends where neither of them starts. -/
theorem Legible.intercalate {separator : List Char} (h : Legible Ok Ends write)
    (hends : ∀ {rest}, Stop rest → Ends rest) (hnext : ∀ rest, Ends (separator ++ rest))
    (hmore : ∀ rest, ¬ Stop (separator ++ rest))
    (hstop : ∀ {a} rest, Ok a → ¬ Stop (write a ++ rest)) :
    Legible (fun l => ∀ a ∈ l, Ok a) Stop
      fun l : List α => separator.intercalate (l.map write) := by
  have hitem : Legible Ok Ends fun a => separator ++ write a := by
    intro a a' rest rest' ha ha' hrest hrest' heq
    simp only [List.append_assoc, List.append_cancel_left_eq] at heq
    exact h ha ha' hrest hrest' heq
  have hnext' {a : α} (rest : List Char) : Ends ((separator ++ write a) ++ rest) := by
    rw [List.append_assoc]
    exact hnext _
  have hrow (l : List α) {rest : List Char} (hrest : Stop rest) :
      Ends ((l.flatMap fun a => separator ++ write a) ++ rest) := by
    cases l with
    | nil => exact hends hrest
    | cons a l =>
      rw [List.flatMap_cons, List.append_assoc]
      exact hnext' _
  have htail := hitem.flatMap hends (fun rest _ => hnext' rest) fun {a} rest _ => by
    rw [List.append_assoc]
    exact hmore _
  intro l l' rest rest' hl hl' hrest hrest' heq
  cases l with
  | nil =>
    cases l' with
    | nil => exact ⟨rfl, heq⟩
    | cons a' l' =>
      simp only [List.map_cons, intercalate_cons_eq, List.append_assoc] at heq
      rw [show rest = _ from heq] at hrest
      exact absurd hrest (hstop _ (hl' a' (by simp)))
  | cons a l =>
    cases l' with
    | nil =>
      simp only [List.map_cons, intercalate_cons_eq, List.append_assoc] at heq
      rw [show rest' = _ from heq.symm] at hrest'
      exact absurd hrest' (hstop _ (hl a (by simp)))
    | cons a' l' =>
      obtain ⟨ha, hmany⟩ := List.forall_mem_cons.1 hl
      obtain ⟨ha', hmany'⟩ := List.forall_mem_cons.1 hl'
      simp only [List.map_cons, intercalate_cons_eq, List.append_assoc, List.flatMap_map] at heq
      obtain ⟨rfl, hmore⟩ := h ha ha' (hrow l hrest) (hrow l' hrest') heq
      obtain ⟨rfl, hafter⟩ := htail hmany hmany' hrest hrest' hmore
      exact ⟨rfl, hafter⟩

end

/-! ## Texts in quotes -/

/-- The character that a letter after a backslash stands for. -/
def escapedBy : Char → Char
  | '0' => '\x00'
  | 't' => '\t'
  | 'r' => '\r'
  | 'n' => '\n'
  | c => c

/-- A character in quotes is a pair of a backslash and a letter, or the code of the character, or
the character itself. -/
theorem quotedChar_cases (c : Char) :
    (∃ e, quotedChar c = ['\\', e] ∧ e ≠ 'u' ∧ escapedBy e = c) ∨
    quotedChar c = '\\' :: 'u' :: '\x7b' :: (Nat.toDigits 16 c.toNat ++ ['\x7d']) ∨
    quotedChar c = [c] ∧ c ≠ '\\' ∧ c ≠ '"' := by
  unfold quotedChar
  split
  · next h => exact .inl ⟨'0', rfl, by decide, h.symm⟩
  split
  · next h => exact .inl ⟨'t', rfl, by decide, h.symm⟩
  split
  · next h => exact .inl ⟨'r', rfl, by decide, h.symm⟩
  split
  · next h => exact .inl ⟨'n', rfl, by decide, h.symm⟩
  split
  · next h => exact .inl ⟨'\\', rfl, by decide, h.symm⟩
  split
  · next h => exact .inl ⟨'"', rfl, by decide, h.symm⟩
  split
  · exact .inr (.inl rfl)
  · next hslash hquote _ => exact .inr (.inr ⟨rfl, hslash, hquote⟩)

/-- Each character in quotes says where it ends. -/
theorem legible_quotedChar : Legible Anything Anything quotedChar := by
  -- A code ends at its brace, whatever follows.
  have hcode : Legible Anything (Stops (· != '\x7d')) fun c : Char => Nat.toDigits 16 c.toNat := by
    have hbrace : ∀ k < 16, (k.digitChar != '\x7d') = true := by decide
    refine legible_run (fun c _ => List.all_eq_true.2 fun d hd => ?_) (fun c c' _ _ h => ?_)
    · obtain ⟨k, hk, rfl⟩ := exists_digitChar (by decide) hd
      exact hbrace k hk
    · exact Char.toNat_inj.1 (toDigits_injective (by decide) (by decide) h)
  intro c c' rest rest' _ _ _ _ h
  rcases quotedChar_cases c with ⟨e, hc, hletter, rfl⟩ | hc | ⟨hc, hslash, -⟩
  · rcases quotedChar_cases c' with ⟨e', hc', -, rfl⟩ | hc' | ⟨hc', hslash', -⟩
    · obtain ⟨rfl, hrest⟩ : e = e' ∧ rest = rest' := by simpa [hc, hc'] using h
      exact ⟨rfl, hrest⟩
    · exact absurd h (by simp [hc, hc', hletter])
    · exact absurd h (by simp [hc, hc', hslash'.symm])
  · rcases quotedChar_cases c' with ⟨e', hc', hletter', rfl⟩ | hc' | ⟨hc', hslash', -⟩
    · exact absurd h (by simp [hc, hc', hletter'.symm])
    · have hdigits : Nat.toDigits 16 c.toNat ++ '\x7d' :: rest =
          Nat.toDigits 16 c'.toNat ++ '\x7d' :: rest' := by simpa [hc, hc'] using h
      obtain ⟨rfl, hrest⟩ := hcode trivial trivial (by simp) (by simp) hdigits
      exact ⟨rfl, by simpa using hrest⟩
    · exact absurd h (by simp [hc, hc', hslash'.symm])
  · rcases quotedChar_cases c' with ⟨e', hc', -, rfl⟩ | hc' | ⟨hc', -⟩
    · exact absurd h (by simp [hc, hc', hslash])
    · exact absurd h (by simp [hc, hc', hslash])
    · simpa [hc, hc'] using h

/-- No character in quotes starts with a quote. -/
theorem head?_quotedChar (c : Char) (rest : List Char) :
    (quotedChar c ++ rest).head? ≠ some '"' := by
  rcases quotedChar_cases c with ⟨e, hc, -⟩ | hc | ⟨hc, -, hquote⟩
  · simp [hc]
  · simp [hc]
  · simpa [hc] using hquote

/-- Whatever is in a text, its quotes say where it ends. -/
theorem legible_quoted : Legible Anything Anything fun s : String => (quoted s).toList := by
  have hchars : Legible (fun cs => ∀ c ∈ cs, Anything c) (fun rest => rest.head? = some '"')
      (List.flatMap quotedChar) :=
    legible_quotedChar.flatMap (fun _ => trivial) (fun _ _ => trivial)
      fun rest _ => head?_quotedChar _ rest
  intro s s' rest rest' _ _ _ _ h
  have hrow : s.toList.flatMap quotedChar ++ '"' :: rest =
      s'.toList.flatMap quotedChar ++ '"' :: rest' := by simpa [quoted] using h
  obtain ⟨htext, hrest⟩ := hchars (fun _ _ => trivial) (fun _ _ => trivial) rfl rfl hrow
  exact ⟨String.toList_injective htext, by simpa using hrest⟩

/-! ## Words

Numbers, types and operands are words: what comes after them in a listing is none of their
characters. -/

/-- Whether a character can be part of a word. -/
def inWord (c : Char) : Bool := c ∉ [' ', ',', ')', ']', ':', '\n']

/-- A digit is none of some other characters. -/
theorem not_mem_of_isDigit {others : List Char} (h : (others.any Char.isDigit) = false) {c : Char}
    (hc : c.isDigit = true) : c ∉ others := by
  intro hmem
  rw [List.any_eq_true.2 ⟨c, hmem, hc⟩] at h
  cases h

theorem inWord_of_isDigit {c : Char} (h : c.isDigit = true) : inWord c = true :=
  decide_eq_true (not_mem_of_isDigit (by decide) h)

theorem inWord_toDigits (n : Nat) : (Nat.toDigits 10 n).all inWord = true :=
  List.all_eq_true.2 fun _ hc => inWord_of_isDigit (isDigit_of_mem_toDigits hc)

theorem legible_digits : Legible Anything (Stops inWord) (Nat.toDigits 10) :=
  legible_run (fun n _ => inWord_toDigits n) fun _ _ _ _ h =>
    toDigits_injective (by decide) (by decide) h

theorem inWord_ty (ty : Ty) : ty.render.toList.all inWord = true := by
  induction ty with
  | ptr pointee ih =>
    have hstar : inWord '*' = true := by decide
    simpa [Ty.render, hstar] using ih
  | _ => decide

theorem Ty.render_injective {ty ty' : Ty} (h : ty.render = ty'.render) : ty = ty' := by
  -- Only pointers end with a star.
  have hstar (ty : Ty) : ty.render.toList.getLast? = some '*' ↔ ∃ p, ty = .ptr p := by
    cases ty <;> simp [Ty.render]
  induction ty generalizing ty' with
  | ptr pointee ih =>
    obtain ⟨pointee', rfl⟩ := (hstar ty').1 (h ▸ (hstar (.ptr pointee)).2 ⟨pointee, rfl⟩)
    have hinner : pointee.render = pointee'.render := by simpa [Ty.render] using h
    rw [ih hinner]
  | i1 | i8 | i32 | void =>
    cases ty' with
    | ptr pointee' =>
      have hlast := (hstar (.ptr pointee')).2 ⟨pointee', rfl⟩
      rw [← h] at hlast
      exact absurd hlast (by decide)
    | _ =>
      revert h
      decide

theorem legible_ty : Legible Anything (Stops inWord) fun ty : Ty => ty.render.toList :=
  legible_run (fun ty _ => inWord_ty ty) fun _ _ _ _ h =>
    Ty.render_injective (String.toList_injective h)

theorem inWord_constant (c : Constant) : c.render.toList.all inWord = true := by
  cases c with
  | int value =>
    refine List.all_eq_true.2 fun d hd => ?_
    rcases mem_toString_int hd with rfl | hdigit
    · decide
    · exact inWord_of_isDigit hdigit
  | bool value => cases value <;> decide

theorem Constant.render_injective {c c' : Constant} (h : c.render = c'.render) : c = c' := by
  -- No integer is spelled like a truth value.
  have hbool (value : Int32) (b : Bool) :
      (Constant.int value).render ≠ (Constant.bool b).render := by
    intro he
    have he : (toString value.toInt).toList = (Constant.bool b).render.toList := congrArg _ he
    have hletter : 'e' ∈ (toString value.toInt).toList := by
      rw [he]
      cases b <;> decide
    rcases mem_toString_int hletter with hminus | hdigit
    · exact absurd hminus (by decide)
    · exact absurd hdigit (by decide)
  cases c with
  | int value =>
    cases c' with
    | int value' =>
      have hvalue : value.toInt = value'.toInt := toString_int_injective (congrArg _ h)
      rw [Int32.toInt_inj.1 hvalue]
    | bool b => exact absurd h (hbool value b)
  | bool b =>
    cases c' with
    | int value' => exact absurd h.symm (hbool value' b)
    | bool b' =>
      revert h
      cases b <;> cases b' <;> decide

end SexprSsa
