/-
SexprSsa.Proofs.Printing — printed expressions read back.

Printing puts a leaf into the text as it is. So an expression is read back from
its print exactly if its leaves look like what they are: literals hold no bare
quote, and symbols are words that are no numerals (`Printable`). An expression
that was read from some text has such leaves, since the grammar allows no
others; so a print of an unprintable expression is never read as that
expression, whatever else it may be read as.

Main statement: `readExpr_render_iff`.
-/
import SexprSsa.Proofs.Decimal
import SexprSsa.Proofs.Reading

namespace SexprSsa

open Grammar

namespace Tree

/-! ## Printable expressions -/

mutual

/-- The leaves of a tree, from left to right. -/
def leaves {ν : Type} : Tree ν → List (Tree ν)
  | .list items => leavesAll items
  | t => [t]

/-- The leaves of the items of a list. -/
def leavesAll {ν : Type} : List (Tree ν) → List (Tree ν)
  | [] => []
  | t :: items => leaves t ++ leavesAll items

end

/-- A leaf can stand in a text as it is. -/
def PrintableLeaf : Expr → Prop
  | .number _ | .list _ => True
  | .text raw => Raw raw.toList
  | .symbol name => Symbol name.toList

/-- All leaves of an expression can stand in a text as they are. -/
def Printable (e : Expr) : Prop := ∀ leaf ∈ e.leaves, PrintableLeaf leaf

theorem printable_list {items : List Expr} :
    Printable (.list items) ↔ ∀ leaf ∈ leavesAll items, PrintableLeaf leaf := by
  rw [Printable, leaves]

/-! ## Printable expressions are written by printing -/

/-- The numeral of an integer denotes it. -/
theorem denotes_numeralOf (n : Int64) : Denotes (numeralOf n) n := by
  have hdigits : ∀ c ∈ Nat.toDigits 10 n.toInt.natAbs, c.isDigit = true :=
    fun c hc => isDigit_of_mem_toDigits hc
  unfold Denotes numeralOf
  rw [toList_toString_int]
  split
  · have h := Numeral.minus Nat.toDigits_ne_nil hdigits
    rwa [Nat.ofDigitChars_ten_toDigits, show -(n.toInt.natAbs : Int) = n.toInt by omega] at h
  · have h := Numeral.plain Nat.toDigits_ne_nil hdigits
    rwa [Nat.ofDigitChars_ten_toDigits, show (n.toInt.natAbs : Int) = n.toInt by omega] at h

mutual

theorem rendering_spell {rest : List Char} (hrest : Bounded rest) : (e : Expr) → e.Printable →
    Rendering Denotes e (e.spell numeralOf ++ rest) rest
  | .number n, _ => by
    rw [spell]
    exact .number (denotes_numeralOf n) hrest
  | .text raw, h => by
    rw [spell, List.cons_append, List.append_assoc]
    exact .text (h (.text raw) (by simp [leaves]))
  | .symbol name, h => by
    rw [spell]
    exact .symbol (h (.symbol name) (by simp [leaves])) hrest
  | .list [], _ => by
    rw [spell, spellAll]
    exact .list (.close .nil)
  | .list (e :: items), h => by
    rw [printable_list, leavesAll, List.forall_mem_append] at h
    rw [spell, spellAll, List.append_assoc, List.cons_append, List.append_assoc,
      List.append_assoc, List.singleton_append]
    have hitems := renderings_spellRest rest items h.2
    refine .list (.item .nil (rendering_spell ?_ e h.1) hitems)
    cases items <;> simp [spellRest, bounded_cons, Delimiter]

theorem renderings_spellRest (rest : List Char) : (items : List Expr) →
    (∀ leaf ∈ leavesAll items, PrintableLeaf leaf) →
    Renderings Denotes items (spellRest numeralOf items ++ ')' :: rest) rest
  | [], _ => .close .nil
  | e :: items, h => by
    rw [leavesAll, List.forall_mem_append] at h
    rw [spellRest, List.cons_append, List.append_assoc]
    have hitems := renderings_spellRest rest items h.2
    refine .item (.blank (by simp) .nil) (rendering_spell ?_ e h.1) hitems
    cases items <;> simp [spellRest, bounded_cons, Delimiter]

end

/-! ## Only printable expressions are written at all -/

mutual

theorem printable_of_rendering {start rest : List Char} : (e : Expr) →
    Rendering Denotes e start rest → e.Printable
  | .number n, _ => by simp [Printable, leaves, PrintableLeaf]
  | .text raw, h => by
    cases h with
    | text hraw => simpa [Printable, leaves, PrintableLeaf] using hraw
  | .symbol name, h => by
    cases h with
    | symbol hname _ => simpa [Printable, leaves, PrintableLeaf] using hname
  | .list items, h => by
    cases h with
    | list h => exact printable_list.2 (printable_of_renderings items h)

theorem printable_of_renderings {text rest : List Char} : (items : List Expr) →
    Renderings Denotes items text rest → ∀ leaf ∈ leavesAll items, PrintableLeaf leaf
  | [], _ => by simp [leavesAll]
  | e :: items, h => by
    cases h with
    | item _ h h' =>
      rw [leavesAll, List.forall_mem_append]
      exact ⟨printable_of_rendering e h, printable_of_renderings items h'⟩

end

end Tree

/-- What the reader accepts is printable. -/
theorem printable_of_readExpr {text : String} {e : Expr} (h : readExpr text = .ok e) :
    e.Printable := by
  obtain ⟨_, _, _, hrendering, _⟩ := readExpr_ok_iff.1 h
  exact e.printable_of_rendering hrendering

/-- An expression is read back from its print exactly if its leaves are printable; and what was
read from a text always is. -/
theorem readExpr_render_iff :
    (∀ e : Expr, readExpr e.render = .ok e ↔ e.Printable) ∧
    ∀ (text : String) (e : Expr), readExpr text = .ok e → readExpr e.render = .ok e := by
  have hrender (e : Expr) (h : e.Printable) : readExpr e.render = .ok e := by
    refine readExpr_ok_iff.2 ⟨e.spell numeralOf, [], ?_, ?_, .nil⟩
    · rw [Tree.render, String.toList_ofList]
      exact .nil
    · simpa using e.rendering_spell bounded_nil h
  exact ⟨fun e => ⟨printable_of_readExpr, hrender e⟩,
    fun _ e h => hrender e (printable_of_readExpr h)⟩

/-- `(printf "%d \"a//b\"" (- -7 a//b))` -/
def quotedPrint : Expr :=
  .list [.symbol "printf", .text "%d \\\"a//b\\\"", .list [.symbol "-", .number (-7), .symbol "a//b"]]

theorem readExpr_render_quotedPrint :
    readExpr " (printf\"%d \\\"a//b\\\"\"(- -07 a//b)// done\n)" = .ok quotedPrint ∧
      quotedPrint.Printable ∧ readExpr quotedPrint.render = .ok quotedPrint := by
  have hread : readExpr " (printf\"%d \\\"a//b\\\"\"(- -07 a//b)// done\n)" = .ok quotedPrint := by
    decide +kernel
  have hback := readExpr_render_iff.2 _ _ hread
  exact ⟨hread, (readExpr_render_iff.1 quotedPrint).1 hback, hback⟩

end SexprSsa
