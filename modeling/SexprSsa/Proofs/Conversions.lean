/-
SexprSsa.Proofs.Conversions — formats piece by piece.

A format is a row of pieces, told from left to right: plain characters, doubled
percent signs, conversions, and at the end perhaps a lone percent sign
(`pieces`). Only conversions take arguments, each the next one (`allot`). What a
piece makes of its argument does not depend on the pieces around it, so the text
of a format is what its pieces make, one after the other (`format_eq`), and a
format that ends with a whole piece can be followed by any other.

Main statement: `format_composes`. If all arguments are taken and nothing is
wrong with the first of two formats, then the two together do what the second
does by itself with its arguments, after the text of the first. What a format
makes of its arguments is told by its pieces (`Piece.Shows`), and the first of
them that fails (`Piece.Fails`) is the fault of the format.
-/
import SexprSsa.Machine.Print
import Mathlib.Data.List.Forall2

namespace SexprSsa.Machine

/-! ## Pieces -/

/-- A piece of a format. -/
inductive Piece where
  /-- A character other than a percent sign. -/
  | plain (c : Char)
  /-- Two percent signs. -/
  | percent
  /-- A percent sign and another character. -/
  | conversion (letter : Char)
  /-- A percent sign at the end of the format. -/
  | lone
  deriving DecidableEq, Repr

/-- The pieces of a format, told from left to right. -/
def pieces : List Char → List Piece
  | [] => []
  | ['%'] => [.lone]
  | '%' :: '%' :: rest => .percent :: pieces rest
  | '%' :: letter :: rest => .conversion letter :: pieces rest
  | c :: rest => .plain c :: pieces rest

/-- Whether a piece takes an argument. -/
def Piece.takes : Piece → Bool
  | .conversion _ => true
  | _ => false

/-- The number of arguments that pieces take. -/
def taken (row : List Piece) : Nat := row.countP Piece.takes

/-- The number of conversions of a format. -/
def conversions (f : List Char) : Nat := taken (pieces f)

/-- The pieces with the arguments that they take, from left to right: each that takes one has the
next, if there is one left. -/
def allot : List Piece → List Value → List (Piece × Option Value)
  | [], _ => []
  | piece :: row, args =>
      if piece.takes then (piece, args.head?) :: allot row args.tail
      else (piece, none) :: allot row args

/-- What a piece makes of the argument that it takes. -/
def Piece.text (m : Module) : Piece → Option Value → Except Fault (List Char)
  | .plain c, _ => .ok [c]
  | .percent, _ => .ok ['%']
  | .conversion letter, some value => convert m letter value
  | .conversion letter, none => .error (.missingArgument letter)
  | .lone, _ => .error .danglingPercent

/-! ## Texts and faults of pieces -/

/-- The text that a piece becomes. -/
inductive Piece.Shows (m : Module) : Piece → Option Value → List Char → Prop
  | plain {c arg} : Shows m (.plain c) arg [c]
  | percent {arg} : Shows m .percent arg ['%']
  | signed {letter value n} : letter = 'd' ∨ letter = 'i' → value.toInt32 = .ok n →
      Shows m (.conversion letter) (some value) (toString n.toInt).toList
  | unsigned {value n} : value.toInt32 = .ok n →
      Shows m (.conversion 'u') (some value) (Nat.toDigits 10 n.toUInt32.toNat)
  | hexadecimal {value n} : value.toInt32 = .ok n →
      Shows m (.conversion 'x') (some value) (Nat.toDigits 16 n.toUInt32.toNat)
  | character {value n} : value.toInt32 = .ok n →
      Shows m (.conversion 'c') (some value) [Char.ofNat (n.toUInt32.toNat % 256)]
  | string {id s} : m.string? id = some s →
      Shows m (.conversion 's') (some (.ptr (.str id))) s.value.toList

/-- The fault of a piece that has no text. -/
inductive Piece.Fails (m : Module) : Piece → Option Value → Fault → Prop
  | lone {arg} : Fails m .lone arg .danglingPercent
  | missing {letter} : Fails m (.conversion letter) none (.missingArgument letter)
  | unknown {letter value} : letter ∉ ['d', 'i', 'u', 'x', 'c', 's'] →
      Fails m (.conversion letter) (some value) (.unsupported letter)
  | pointer {letter target} : letter ∈ ['d', 'i', 'u', 'x', 'c'] →
      Fails m (.conversion letter) (some (.ptr target)) (.notInteger target)
  | noString {value} : (∀ id, value ≠ .ptr (.str id)) →
      Fails m (.conversion 's') (some value) (.notString value)
  | unknownString {id} : m.string? id = none →
      Fails m (.conversion 's') (some (.ptr (.str id))) (.unknownString id)

section
variable {m : Module}

theorem toInt32_cases (value : Value) :
    (∃ n, value.toInt32 = .ok n) ∨
      ∃ target, value = .ptr target ∧ value.toInt32 = .error (.notInteger target) := by
  cases value with
  | int n => exact .inl ⟨n, rfl⟩
  | bool b => exact .inl ⟨_, rfl⟩
  | ptr target => exact .inr ⟨target, rfl, rfl⟩

theorem Piece.Shows.text_eq {piece : Piece} {arg : Option Value} {text : List Char}
    (h : piece.Shows m arg text) : piece.text m arg = .ok text := by
  cases h with
  | plain => rfl
  | percent => rfl
  | signed hletter hn => rcases hletter with rfl | rfl <;> simp [Piece.text, convert, hn]
  | unsigned hn => simp [Piece.text, convert, hn]
  | hexadecimal hn => simp [Piece.text, convert, hn]
  | character hn => simp [Piece.text, convert, hn]
  | string hs => simp [Piece.text, convert, stringOf, hs]

theorem Piece.Fails.text_eq {piece : Piece} {arg : Option Value} {fault : Fault}
    (h : piece.Fails m arg fault) : piece.text m arg = .error fault := by
  cases h with
  | lone => rfl
  | missing => rfl
  | unknown hletter =>
    simp only [List.mem_cons, not_or] at hletter
    unfold Piece.text convert
    split <;> simp_all
  | @pointer letter target hletter =>
    simp only [List.mem_cons, List.not_mem_nil, or_false] at hletter
    rcases hletter with rfl | rfl | rfl | rfl | rfl <;> rfl
  | @noString value hvalue =>
    cases value with
    | int n => rfl
    | bool b => rfl
    | ptr target =>
      cases target with
      | slot id => rfl
      | global id => rfl
      | str id => exact absurd rfl (hvalue id)
  | unknownString hs => simp [Piece.text, convert, stringOf, hs]

/-- Whatever it takes, a piece has a text or a fault. -/
theorem Piece.shows_or_fails (piece : Piece) (arg : Option Value) :
    (∃ text, piece.Shows m arg text) ∨ ∃ fault, piece.Fails m arg fault := by
  cases piece with
  | plain c => exact .inl ⟨_, .plain⟩
  | percent => exact .inl ⟨_, .percent⟩
  | lone => exact .inr ⟨_, .lone⟩
  | conversion letter =>
    cases arg with
    | none => exact .inr ⟨_, .missing⟩
    | some value =>
      by_cases hinteger : letter ∈ ['d', 'i', 'u', 'x', 'c']
      · rcases toInt32_cases value with ⟨n, hn⟩ | ⟨target, rfl, -⟩
        · simp only [List.mem_cons, List.not_mem_nil, or_false] at hinteger
          rcases hinteger with rfl | rfl | rfl | rfl | rfl
          · exact .inl ⟨_, .signed (.inl rfl) hn⟩
          · exact .inl ⟨_, .signed (.inr rfl) hn⟩
          · exact .inl ⟨_, .unsigned hn⟩
          · exact .inl ⟨_, .hexadecimal hn⟩
          · exact .inl ⟨_, .character hn⟩
        · exact .inr ⟨_, .pointer hinteger⟩
      · by_cases hstring : letter = 's'
        · subst hstring
          by_cases hvalue : ∃ id, value = .ptr (.str id)
          · obtain ⟨id, rfl⟩ := hvalue
            cases hs : m.string? id with
            | some s => exact .inl ⟨_, .string hs⟩
            | none => exact .inr ⟨_, .unknownString hs⟩
          · exact .inr ⟨_, .noString fun id hid => hvalue ⟨id, hid⟩⟩
        · exact .inr ⟨_, .unknown (by simp_all)⟩

theorem Piece.shows_iff {piece : Piece} {arg : Option Value} {text : List Char} :
    piece.text m arg = .ok text ↔ piece.Shows m arg text := by
  refine ⟨fun h => ?_, Piece.Shows.text_eq⟩
  rcases piece.shows_or_fails (m := m) arg with ⟨text', hshows⟩ | ⟨fault, hfails⟩
  · rw [hshows.text_eq] at h
    cases h
    exact hshows
  · rw [hfails.text_eq] at h
    cases h

theorem Piece.fails_iff {piece : Piece} {arg : Option Value} {fault : Fault} :
    piece.text m arg = .error fault ↔ piece.Fails m arg fault := by
  refine ⟨fun h => ?_, Piece.Fails.text_eq⟩
  rcases piece.shows_or_fails (m := m) arg with ⟨text, hshows⟩ | ⟨fault', hfails⟩
  · rw [hshows.text_eq] at h
    cases h
  · rw [hfails.text_eq] at h
    cases h
    exact hfails

end

/-! ## Rows -/

section
variable {ε α β : Type}

theorem bind_eq_ok_iff {x : Except ε α} {g : α → Except ε β} {b : β} :
    x >>= g = .ok b ↔ ∃ a, x = .ok a ∧ g a = .ok b := by
  cases x <;> simp [bind, Except.bind]

theorem bind_eq_error_iff {x : Except ε α} {g : α → Except ε β} {e : ε} :
    x >>= g = .error e ↔ x = .error e ∨ ∃ a, x = .ok a ∧ g a = .error e := by
  cases x <;> simp [bind, Except.bind]

theorem map_eq_ok_iff {x : Except ε α} {g : α → β} {b : β} :
    g <$> x = .ok b ↔ ∃ a, x = .ok a ∧ g a = b := by
  cases x <;> simp [Functor.map, Except.map]

theorem map_eq_error_iff {x : Except ε α} {g : α → β} {e : ε} :
    g <$> x = .error e ↔ x = .error e := by
  cases x <;> simp [Functor.map, Except.map]

variable {f : α → Except ε β}

/-- A row gives results if each of its members gives its own. -/
theorem mapM_eq_ok_iff {row : List α} {results : List β} :
    row.mapM f = .ok results ↔ List.Forall₂ (fun a b => f a = .ok b) row results := by
  induction row generalizing results with
  | nil =>
    rw [List.mapM_nil, List.forall₂_nil_left_iff]
    exact ⟨fun h => by cases h; rfl, fun h => by rw [h]; rfl⟩
  | cons a row ih =>
    simp only [List.mapM_cons, bind_eq_ok_iff, ih, List.forall₂_cons_left_iff]
    constructor
    · rintro ⟨b, hb, more, hmore, hresults⟩
      cases hresults
      exact ⟨b, more, hb, hmore, rfl⟩
    · rintro ⟨b, more, hb, hmore, rfl⟩
      exact ⟨b, hb, more, hmore, rfl⟩

/-- A row fails like the first of its members that fails. -/
theorem mapM_eq_error_iff {row : List α} {e : ε} :
    row.mapM f = .error e ↔ ∃ before a after, row = before ++ a :: after ∧
      (∀ a' ∈ before, ∃ b, f a' = .ok b) ∧ f a = .error e := by
  induction row with
  | nil =>
    rw [List.mapM_nil]
    constructor
    · intro h
      cases h
    · rintro ⟨before, a, after, h, -⟩
      simp at h
  | cons a row ih =>
    have hcons : (a :: row).mapM f = .error e ↔
        f a = .error e ∨ ∃ b, f a = .ok b ∧ row.mapM f = .error e := by
      rw [List.mapM_cons, bind_eq_error_iff]
      refine or_congr_right (exists_congr fun b => and_congr_right fun _ => ?_)
      rw [bind_eq_error_iff]
      exact or_iff_left fun ⟨_, _, h⟩ => by cases h
    rw [hcons, ih]
    constructor
    · rintro (h | ⟨b, hb, before, a', after, rfl, hbefore, h⟩)
      · exact ⟨[], a, row, rfl, by simp, h⟩
      · exact ⟨a :: before, a', after, rfl, List.forall_mem_cons.2 ⟨⟨b, hb⟩, hbefore⟩, h⟩
    · rintro ⟨before, a', after, hrow, hbefore, h⟩
      cases before with
      | nil =>
        obtain ⟨rfl, -⟩ := List.cons.inj hrow
        exact .inl h
      | cons a'' before =>
        obtain ⟨rfl, rfl⟩ := List.cons.inj hrow
        obtain ⟨⟨b, hb⟩, hbefore'⟩ := List.forall_mem_cons.1 hbefore
        exact .inr ⟨b, hb, before, a', after, rfl, hbefore', h⟩

end

section
variable {m : Module}

/-! ## The text of a format -/

theorem allot_of_takes {piece : Piece} (h : piece.takes = true) (row : List Piece)
    (args : List Value) : allot (piece :: row) args = (piece, args.head?) :: allot row args.tail :=
  if_pos h

theorem allot_of_not_takes {piece : Piece} (h : piece.takes = false) (row : List Piece)
    (args : List Value) : allot (piece :: row) args = (piece, none) :: allot row args := by
  rw [allot, if_neg (by simp [h])]

theorem flatten_mapM_cons {α : Type} (g : α → Except Fault (List Char)) (a : α) (row : List α) :
    List.flatten <$> (a :: row).mapM g = do
      let text ← g a
      return text ++ (← List.flatten <$> row.mapM g) := by
  rw [List.mapM_cons]
  cases g a with
  | error e => rfl
  | ok text => cases row.mapM g <;> rfl

/-- **A format makes of its arguments what its pieces make of them, one after the other.** -/
theorem format_eq (f : List Char) (args : List Value) :
    format m f args =
      List.flatten <$> (allot (pieces f) args).mapM fun p => p.1.text m p.2 := by
  fun_induction pieces f generalizing args with
  | case1 => rfl
  | case2 => rfl
  | case3 rest ih =>
    rw [format, allot_of_not_takes rfl, flatten_mapM_cons, ← ih]
    rfl
  | case4 letter rest h ih =>
    cases args with
    | nil =>
      rw [format, allot_of_takes rfl, flatten_mapM_cons]
      · rfl
      · exact h
    | cons value args =>
      rw [format, allot_of_takes rfl, flatten_mapM_cons, List.tail_cons, ← ih]
      · rfl
      · exact h
  | case5 c rest h h' h'' ih =>
    rw [format, allot_of_not_takes rfl, flatten_mapM_cons, ← ih]
    · rfl
    · exact h
    · exact h'
    · exact fun letter rest' _ => h'' letter rest'
    · exact fun letter rest' _ _ _ => h'' letter rest'

/-! ## Two formats -/

/-- Where no percent sign is left over, another format can follow. -/
theorem pieces_append {f : List Char} (h : .lone ∉ pieces f) (g : List Char) :
    pieces (f ++ g) = pieces f ++ pieces g := by
  fun_induction pieces f with
  | case1 => rfl
  | case2 => exact absurd (List.mem_singleton_self _) h
  | case3 rest ih =>
    rw [List.cons_append, List.cons_append, pieces, ih (List.not_mem_of_not_mem_cons h)]
    rfl
  | case4 letter rest hletter ih =>
    rw [List.cons_append, List.cons_append, pieces, ih (List.not_mem_of_not_mem_cons h)]
    · rfl
    · exact hletter
  | case5 c rest hlone hpercent hconversion ih =>
    have hc : c ≠ '%' := by
      intro hc
      cases rest with
      | nil => exact hlone hc rfl
      | cons letter rest => exact hconversion letter rest hc rfl
    rw [List.cons_append, pieces, ih (List.not_mem_of_not_mem_cons h)]
    · rfl
    · exact fun hc' => absurd hc' hc
    · exact fun _ hc' => absurd hc' hc
    · exact fun _ _ hc' => absurd hc' hc

theorem map_fst_allot (row : List Piece) (args : List Value) :
    (allot row args).map Prod.fst = row := by
  induction row generalizing args with
  | nil => rfl
  | cons piece row ih =>
    cases h : piece.takes with
    | true => rw [allot_of_takes h, List.map_cons, ih]
    | false => rw [allot_of_not_takes h, List.map_cons, ih]

/-- The pieces that come later take what the earlier ones leave. -/
theorem allot_append (row more : List Piece) (args : List Value) :
    allot (row ++ more) args = allot row args ++ allot more (args.drop (taken row)) := by
  induction row generalizing args with
  | nil => rfl
  | cons piece row ih =>
    cases h : piece.takes with
    | true =>
      rw [List.cons_append, allot_of_takes h, allot_of_takes h, ih, List.drop_tail, taken, taken,
        List.countP_cons_of_pos h]
      rfl
    | false =>
      rw [List.cons_append, allot_of_not_takes h, allot_of_not_takes h, ih, taken, taken,
        List.countP_cons_of_neg (by simp [h])]
      rfl

/-- No piece takes an argument beyond the number that is taken. -/
theorem allot_take (row : List Piece) (args : List Value) :
    allot row (args.take (taken row)) = allot row args := by
  induction row generalizing args with
  | nil => rfl
  | cons piece row ih =>
    cases h : piece.takes with
    | true =>
      have htaken : taken (piece :: row) = taken row + 1 := List.countP_cons_of_pos h
      rw [allot_of_takes h, allot_of_takes h, htaken]
      cases args with
      | nil => rfl
      | cons value args => rw [List.take_succ_cons, List.tail_cons, List.tail_cons, ih]; rfl
    | false =>
      have htaken : taken (piece :: row) = taken row := List.countP_cons_of_neg (by simp [h])
      rw [allot_of_not_takes h, allot_of_not_takes h, htaken, ih]

/-- A format has a text if each of its pieces shows one, and it is these texts in their order. -/
theorem format_eq_ok_iff {f : List Char} {args : List Value} {s : List Char} :
    format m f args = .ok s ↔
      ∃ texts, List.Forall₂ (fun p text => p.1.Shows m p.2 text) (allot (pieces f) args) texts ∧
        texts.flatten = s := by
  simp only [format_eq, map_eq_ok_iff, mapM_eq_ok_iff, Piece.shows_iff]

/-- A format has the fault of its first piece that fails. -/
theorem format_eq_error_iff {f : List Char} {args : List Value} {fault : Fault} :
    format m f args = .error fault ↔
      ∃ before piece arg after, allot (pieces f) args = before ++ (piece, arg) :: after ∧
        (∀ p ∈ before, ∃ text, p.1.Shows m p.2 text) ∧ piece.Fails m arg fault := by
  simp only [format_eq, map_eq_error_iff, mapM_eq_error_iff, Piece.shows_iff, Piece.fails_iff,
    Prod.exists]

/-- A format that has a text does not end with a lone percent sign. -/
theorem lone_not_mem {f : List Char} {args : List Value} {s : List Char}
    (h : format m f args = .ok s) : .lone ∉ pieces f := by
  obtain ⟨texts, hshows, -⟩ := format_eq_ok_iff.1 h
  have hpieces : ∀ p ∈ allot (pieces f) args, p.1 ≠ .lone := by
    refine ((List.forall₂_and_left ..).1 (hshows.imp fun p text hp => ⟨?_, hp⟩)).1
    intro hlone
    rw [hlone] at hp
    cases hp
  intro hlone
  rw [← map_fst_allot (pieces f) args] at hlone
  obtain ⟨p, hp, hpiece⟩ := List.mem_map.1 hlone
  exact hpieces p hp hpiece

/-- **Formats compose.** A format all of whose arguments are taken leaves to the next what comes
after them. -/
theorem format_append {f : List Char} {args : List Value} {s : List Char}
    (h : format m f args = .ok s) (hargs : args.length = conversions f) (g : List Char)
    (more : List Value) :
    format m (f ++ g) (args ++ more) = (s ++ ·) <$> format m g more := by
  have hfirst : allot (pieces f) (args ++ more) = allot (pieces f) args := by
    rw [← allot_take, ← conversions, ← hargs, List.take_left]
  have hrest : (args ++ more).drop (taken (pieces f)) = more := by
    rw [← conversions, ← hargs, List.drop_left]
  have hpieces : pieces (f ++ g) = pieces f ++ pieces g := pieces_append (lone_not_mem h) g
  rw [format_eq] at h
  obtain ⟨texts, htexts, rfl⟩ := map_eq_ok_iff.1 h
  rw [format_eq, hpieces, allot_append, hfirst, hrest, List.mapM_append, htexts, format_eq]
  cases (allot (pieces g) more).mapM fun p => p.1.text m p.2 with
  | error e => rfl
  | ok later => exact congrArg Except.ok List.flatten_append

/-- Arguments beyond the number of conversions are ignored. -/
theorem format_take (f : List Char) (args : List Value) :
    format m f (args.take (conversions f)) = format m f args := by
  rw [format_eq, format_eq, conversions, allot_take]

end

/-- **Printing is done piece by piece.** If a format has a text and takes all its arguments, another
format after it makes of further arguments what it makes of them by itself, and the text of the
first stands before its text. Arguments that are left over are ignored. The text of a format is
what its pieces show, each conversion with the next argument, and its fault is that of its first
piece that fails: a lone percent sign, or a conversion that has no argument, is unknown, or has an
argument of the wrong kind. -/
theorem format_composes (m : Module) (f : List Char) (args : List Value) :
    (∀ s, format m f args = .ok s → args.length = conversions f → ∀ g more,
      (∀ t, format m g more = .ok t → format m (f ++ g) (args ++ more) = .ok (s ++ t)) ∧
      ∀ fault, format m g more = .error fault →
        format m (f ++ g) (args ++ more) = .error fault) ∧
    format m f (args.take (conversions f)) = format m f args ∧
    (∀ s, format m f args = .ok s ↔ ∃ texts,
      List.Forall₂ (fun p text => p.1.Shows m p.2 text) (allot (pieces f) args) texts ∧
        texts.flatten = s) ∧
    ∀ fault, format m f args = .error fault ↔ ∃ before piece arg after,
      allot (pieces f) args = before ++ (piece, arg) :: after ∧
        (∀ p ∈ before, ∃ text, p.1.Shows m p.2 text) ∧ piece.Fails m arg fault := by
  refine ⟨?_, format_take f args, fun s => format_eq_ok_iff, fun fault => format_eq_error_iff⟩
  intro s hs hargs g more
  constructor
  · intro t ht
    rw [format_append hs hargs, ht]
    rfl
  · intro fault hfault
    rw [format_append hs hargs, hfault]
    rfl

/-- A module with one string. -/
def greeting : Module := { Module.empty "demo" with strings := [⟨⟨0⟩, "hi"⟩] }

/-- The first format ends with a doubled percent sign and the second starts with a conversion; what
is wrong with the second is wrong with both. -/
theorem format_composes_percent :
    conversions "%d:%c%%".toList = 2 ∧
    format greeting "%d:%c%%".toList [.int (-7), .int 65] = .ok "-7:A%".toList ∧
    format greeting ("%d:%c%%".toList ++ "%s%x".toList)
      ([.int (-7), .int 65] ++ [.ptr (.str ⟨0⟩), .int (-1), .int 3]) =
        .ok "-7:A%hiffffffff".toList ∧
    format greeting ("%d:%c%%".toList ++ "%u%".toList)
      ([.int (-7), .int 65] ++ [.bool true]) = .error .danglingPercent := by
  have hcount : conversions "%d:%c%%".toList = 2 := by decide
  have hfirst : format greeting "%d:%c%%".toList [.int (-7), .int 65] =
      .ok "-7:A%".toList := by rfl
  have hcomposes := (format_composes greeting "%d:%c%%".toList [.int (-7), .int 65]).1 _ hfirst
    hcount.symm
  exact ⟨hcount, hfirst, (hcomposes _ _).1 _ (by rfl), (hcomposes _ _).2 _ (by rfl)⟩

end SexprSsa.Machine
