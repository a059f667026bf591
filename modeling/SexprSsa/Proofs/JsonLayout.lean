/-
SexprSsa.Proofs.JsonLayout — written JSON values read back.

The compact and the pretty form of a value differ in blanks only. `layout`
writes a value with any blanks in the places where the pretty form has some,
and the reader is followed along it once for both.

Main statements: `parse?_compact` and `parse?_pretty`, for values whose
strings and keys are spelled as they may stand between quotes and whose
numbers are integers.
-/
import SexprSsa.Json.Writer
import SexprSsa.Proofs.JsonScalars
import Mathlib.Data.List.DropRight

namespace SexprSsa.Json

/-! ## Blanks -/

/-- The text holds blanks only. -/
def Blank (text : List Char) : Prop := ∀ c ∈ text, isBlank c = true

theorem blank_nil : Blank [] := by simp [Blank]

theorem skipBlanks_append {blanks : List Char} (h : Blank blanks) (text : List Char) :
    skipBlanks (blanks ++ text) = skipBlanks text :=
  List.dropWhile_append_of_pos h

theorem skipBlanks_cons {c : Char} (h : isBlank c = false) (text : List Char) :
    skipBlanks (c :: text) = c :: text := by
  simp [skipBlanks, h]

@[simp] theorem skipBlanks_skipBlanks (text : List Char) :
    skipBlanks (skipBlanks text) = skipBlanks text := by
  exact List.dropWhile_idempotent _ text

theorem value?_skipBlanks (fuel : Nat) (text : List Char) :
    value? fuel (skipBlanks text) = value? fuel text := by
  cases fuel <;> simp [value?]

theorem items?_skipBlanks (fuel : Nat) (text : List Char) :
    items? fuel (skipBlanks text) = items? fuel text := by
  cases fuel with
  | zero => rfl
  | succ fuel => rw [items?, items?, value?_skipBlanks]

theorem members?_skipBlanks (fuel : Nat) (text : List Char) :
    members? fuel (skipBlanks text) = members? fuel text := by
  cases fuel <;> simp [members?]

theorem StartsNumber.isBlank {c : Char} (h : StartsNumber c) : isBlank c = false := by
  have hspace : c ≠ ' ' := h.ne rfl (by decide)
  have htab : c ≠ '\t' := h.ne rfl (by decide)
  have hfeed : c ≠ '\n' := h.ne rfl (by decide)
  have hreturn : c ≠ '\r' := h.ne rfl (by decide)
  simp [Json.isBlank, hspace, htab, hfeed, hreturn]

/-- A text that starts with a digit or a minus sign is read as a number. -/
theorem value?_number {text more : List Char} {c : Char} (fuel : Nat)
    (h : skipBlanks text = c :: more) (hc : StartsNumber c) :
    value? (fuel + 1) text = number? (c :: more) := by
  have hquote : c ≠ '"' := hc.ne rfl (by decide)
  have hbracket : c ≠ '[' := hc.ne rfl (by decide)
  have hbrace : c ≠ '\x7b' := hc.ne rfl (by decide)
  have hliteral : c ≠ 'n' ∧ c ≠ 't' ∧ c ≠ 'f' :=
    ⟨hc.ne rfl (by decide), hc.ne rfl (by decide), hc.ne rfl (by decide)⟩
  rw [value?, h]
  simp [literal?, hquote, hbracket, hbrace, hliteral]

/-- After an opening bracket that is not closed at once the items follow. -/
theorem value?_array {text : List Char} (rest : List Char) (fuel : Nat)
    (h : skipBlanks text = '[' :: rest) (hopen : ∀ c ∈ (skipBlanks rest).head?, c ≠ ']') :
    value? (fuel + 1) text =
      (items? fuel rest).map fun (items, rest) => (.array items, rest) := by
  rw [value?, h, ← items?_skipBlanks]
  cases hskip : skipBlanks rest with
  | nil => simp [hskip]
  | cons c more =>
    have hc : c ≠ ']' := hopen c (by simp [hskip])
    simp [hskip, hc]

/-- After an opening brace that is not closed at once the members follow. -/
theorem value?_object {text : List Char} (rest : List Char) (fuel : Nat)
    (h : skipBlanks text = '\x7b' :: rest) (hopen : ∀ c ∈ (skipBlanks rest).head?, c ≠ '\x7d') :
    value? (fuel + 1) text =
      (members? fuel rest).map fun (members, rest) => (.object members, rest) := by
  rw [value?, h, ← members?_skipBlanks]
  cases hskip : skipBlanks rest with
  | nil => simp [hskip]
  | cons c more =>
    have hc : c ≠ '\x7d' := hopen c (by simp [hskip])
    simp [hskip, hc]

/-! ## Layout

Both ways of writing a value are one, up to the blanks: what stands before
an item, a member or a closing bracket, for each level, and what stands
after a colon. -/

section
variable (line : Nat → List Char) (space : List Char)

mutual

/-- The text of a value that stands at a level. -/
def layout (level : Nat) : Json → List Char
  | .array (item :: items) =>
      '[' :: (layoutItems (level + 1) (item :: items) ++ (line level ++ [']']))
  | .object (member :: members) =>
      '\x7b' :: (layoutMembers (level + 1) (member :: members) ++ (line level ++ ['\x7d']))
  | value => (scalar value).toList

/-- The text of the items of an array. -/
def layoutItems (level : Nat) : List Json → List Char
  | [] => []
  | [item] => line level ++ layout level item
  | item :: items => line level ++ (layout level item ++ ',' :: layoutItems level items)

/-- The text of the members of an object. -/
def layoutMembers (level : Nat) : List (String × Json) → List Char
  | [] => []
  | [(key, value)] =>
      line level ++ '"' :: (key.toList ++ '"' :: ':' :: (space ++ layout level value))
  | (key, value) :: members =>
      line level ++ '"' :: (key.toList ++ '"' :: ':' :: (space ++ (layout level value ++
        ',' :: layoutMembers level members)))

end

end

mutual

theorem toList_compact : ∀ (value : Json) (level : Nat),
    (compact value).toList = layout (fun _ => []) [] level value
  | .null, _ | .bool _, _ | .integer _, _ | .inexact _, _ | .string _, _ => rfl
  | .array [], _ | .object [], _ => rfl
  | .array (item :: items), level => by
    have hitems := toList_compactItems (item :: items) (level + 1)
    simp [compact, layout, hitems]
  | .object (member :: members), level => by
    have hmembers := toList_compactMembers (member :: members) (level + 1)
    simp [compact, layout, hmembers]

theorem toList_compactItems : ∀ (items : List Json) (level : Nat),
    (compactItems items).toList = layoutItems (fun _ => []) [] level items
  | [], _ => rfl
  | [item], level => by
    have hitem := toList_compact item level
    simp [compactItems, layoutItems, hitem]
  | item :: next :: items, level => by
    have hitem := toList_compact item level
    have hitems := toList_compactItems (next :: items) level
    simp [compactItems, layoutItems, hitem, hitems]

theorem toList_compactMembers : ∀ (members : List (String × Json)) (level : Nat),
    (compactMembers members).toList = layoutMembers (fun _ => []) [] level members
  | [], _ => rfl
  | [(key, value)], level => by
    have hvalue := toList_compact value level
    simp [compactMembers, layoutMembers, hvalue]
  | (key, value) :: next :: members, level => by
    have hvalue := toList_compact value level
    have hmembers := toList_compactMembers (next :: members) level
    simp [compactMembers, layoutMembers, hvalue, hmembers]

end

mutual

theorem toList_prettyAt : ∀ (value : Json) (level : Nat),
    (prettyAt level value).toList = layout (fun n => (newline n).toList) [' '] level value
  | .null, _ | .bool _, _ | .integer _, _ | .inexact _, _ | .string _, _ => rfl
  | .array [], _ | .object [], _ => rfl
  | .array (item :: items), level => by
    have hitems := toList_prettyItems (item :: items) (level + 1)
    simp [prettyAt, layout, hitems]
  | .object (member :: members), level => by
    have hmembers := toList_prettyMembers (member :: members) (level + 1)
    simp [prettyAt, layout, hmembers]

theorem toList_prettyItems : ∀ (items : List Json) (level : Nat),
    (prettyItems level items).toList =
      layoutItems (fun n => (newline n).toList) [' '] level items
  | [], _ => rfl
  | [item], level => by
    have hitem := toList_prettyAt item level
    simp [prettyItems, layoutItems, hitem]
  | item :: next :: items, level => by
    have hitem := toList_prettyAt item level
    have hitems := toList_prettyItems (next :: items) level
    simp [prettyItems, layoutItems, hitem, hitems]

theorem toList_prettyMembers : ∀ (members : List (String × Json)) (level : Nat),
    (prettyMembers level members).toList =
      layoutMembers (fun n => (newline n).toList) [' '] level members
  | [], _ => rfl
  | [(key, value)], level => by
    have hvalue := toList_prettyAt value level
    simp [prettyMembers, layoutMembers, hvalue]
  | (key, value) :: next :: members, level => by
    have hvalue := toList_prettyAt value level
    have hmembers := toList_prettyMembers (next :: members) level
    simp [prettyMembers, layoutMembers, hvalue, hmembers]

end


/-! ## Reading a layout back -/

mutual

/-- Strings and keys are spelled as they may stand between quotes, and numbers are integers. -/
def Plain : Json → Prop
  | .inexact _ => False
  | .string raw => IsRaw raw
  | .array items => AllPlain items
  | .object members => MembersPlain members
  | _ => True

/-- Every item is plain. -/
def AllPlain : List Json → Prop
  | [] => True
  | item :: items => Plain item ∧ AllPlain items

/-- Every key and every value is plain. -/
def MembersPlain : List (String × Json) → Prop
  | [] => True
  | (key, value) :: members => IsRaw key ∧ Plain value ∧ MembersPlain members

end

/-- What may follow a value. -/
def EndsValue (rest : List Char) : Prop :=
  ∀ c ∈ rest.head?, isBlank c = true ∨ c = ',' ∨ c = ']' ∨ c = '\x7d'

theorem EndsValue.number {rest : List Char} (h : EndsValue rest) : EndsNumber rest := by
  intro c hc
  rcases h c hc with hblank | rfl | rfl | rfl
  · simp only [isBlank, Bool.or_eq_true, beq_iff_eq] at hblank
    rcases hblank with ((rfl | rfl) | rfl) | rfl <;> decide
  · decide
  · decide
  · decide

theorem endsValue_line {line : List Char} (h : Blank line) {c : Char} (hc : c = ']' ∨ c = '\x7d')
    (rest : List Char) : EndsValue (line ++ c :: rest) := by
  intro d hd
  cases line with
  | nil =>
    cases hd
    exact .inr (.inr hc)
  | cons b line =>
    cases hd
    exact .inl (h d (by simp))

section
variable {line : Nat → List Char} {space : List Char}

/-- The layout adds nothing but blanks. -/
structure BlankLayout (line : Nat → List Char) (space : List Char) : Prop where
  line : ∀ level, Blank (line level)
  space : Blank space

/-- A value's text starts with a character that neither is blank nor closes anything. -/
theorem layout_head (line : Nat → List Char) (space : List Char) (level : Nat) {value : Json}
    (h : Plain value) :
    ∃ c text, layout line space level value = c :: text ∧ isBlank c = false ∧
      c ≠ ']' ∧ c ≠ '\x7d' := by
  cases value with
  | null => exact ⟨_, _, rfl, by decide⟩
  | bool value => cases value <;> exact ⟨_, _, rfl, by decide⟩
  | integer n =>
    obtain ⟨c, text, htext, hc⟩ := toString_head n
    exact ⟨c, text, htext, hc.isBlank, hc.ne rfl (by decide), hc.ne rfl (by decide)⟩
  | inexact text => exact h.elim
  | string raw =>
    simp only [layout, scalar, String.toList_append]
    exact ⟨'"', _, rfl, by decide⟩
  | array items => cases items <;> exact ⟨'[', _, rfl, by decide⟩
  | object members => cases members <;> exact ⟨'\x7b', _, rfl, by decide⟩

variable (hblank : BlankLayout line space)
include hblank

theorem skipBlanks_layoutItems (level : Nat) {items : List Json} (hne : items ≠ [])
    (h : AllPlain items) (text : List Char) :
    ∀ c ∈ (skipBlanks (layoutItems line space level items ++ text)).head?, c ≠ ']' := by
  obtain _ | ⟨item, items⟩ := items
  · exact absurd rfl hne
  obtain ⟨c, more, htext, hc, hclose, _⟩ := layout_head line space level h.1
  cases items <;>
    simp [layoutItems, skipBlanks_append (hblank.line level), htext, skipBlanks_cons hc, hclose]

theorem skipBlanks_layoutMembers (level : Nat) {members : List (String × Json)}
    (hne : members ≠ []) (text : List Char) :
    ∀ c ∈ (skipBlanks (layoutMembers line space level members ++ text)).head?, c ≠ '\x7d' := by
  obtain _ | ⟨⟨key, value⟩, members⟩ := members
  · exact absurd rfl hne
  cases members <;>
    simp [layoutMembers, skipBlanks_append (hblank.line level), skipBlanks_cons, isBlank]

mutual

theorem value?_layout : ∀ (value : Json) (level : Nat), Plain value →
    ∀ {blanks : List Char}, Blank blanks → ∀ (rest : List Char), EndsValue rest →
    ∀ fuel, (layout line space level value).length ≤ fuel →
      value? fuel (blanks ++ (layout line space level value ++ rest)) = some (value, rest)
  | .null, level, h, blanks, hblanks, rest, hrest, fuel, hfuel => by
    obtain _ | fuel := fuel
    · simp [layout, scalar] at hfuel
    simp [value?, skipBlanks_append hblanks, layout, scalar, skipBlanks_cons, isBlank, literal?]
  | .bool b, level, h, blanks, hblanks, rest, hrest, fuel, hfuel => by
    obtain _ | fuel := fuel
    · cases b <;> simp [layout, scalar] at hfuel
    cases b <;>
      simp [value?, skipBlanks_append hblanks, layout, scalar, skipBlanks_cons, isBlank, literal?]
  | .integer n, level, h, blanks, hblanks, rest, hrest, fuel, hfuel => by
    obtain ⟨c, text, htext, hc⟩ := toString_head n
    have hlayout : layout line space level (.integer n) = c :: text := htext
    obtain _ | fuel := fuel
    · simp [hlayout] at hfuel
    rw [value?_number fuel _ hc, ← List.cons_append, ← htext, number?_toString n hrest.number]
    rw [skipBlanks_append hblanks, hlayout, List.cons_append, skipBlanks_cons hc.isBlank]
  | .inexact text, level, h, blanks, hblanks, rest, hrest, fuel, hfuel => h.elim
  | .string raw, level, h, blanks, hblanks, rest, hrest, fuel, hfuel => by
    obtain _ | fuel := fuel
    · simp [layout, scalar] at hfuel
    have hraw := h rest
    simp [value?, skipBlanks_append hblanks, layout, scalar, skipBlanks_cons, isBlank, hraw]
  | .array [], level, h, blanks, hblanks, rest, hrest, fuel, hfuel => by
    obtain _ | fuel := fuel
    · simp [layout, scalar] at hfuel
    simp [value?, skipBlanks_append hblanks, layout, scalar, skipBlanks_cons, isBlank]
  | .array (item :: items), level, h, blanks, hblanks, rest, hrest, fuel, hfuel => by
    obtain _ | fuel := fuel
    · simp [layout] at hfuel
    simp only [layout, List.length_cons, List.length_append, List.length_nil] at hfuel
    have hitems := items?_layout (item :: items) (level + 1) h (by simp) (hblank.line level) rest
      fuel (by omega)
    rw [value?_array (layoutItems line space (level + 1) (item :: items) ++
      (line level ++ ']' :: rest)) fuel, hitems]
    · rfl
    · simp [skipBlanks_append hblanks, layout, skipBlanks_cons, isBlank]
    · exact skipBlanks_layoutItems hblank _ (by simp) h _
  | .object [], level, h, blanks, hblanks, rest, hrest, fuel, hfuel => by
    obtain _ | fuel := fuel
    · simp [layout, scalar] at hfuel
    simp [value?, skipBlanks_append hblanks, layout, scalar, skipBlanks_cons, isBlank]
  | .object (member :: members), level, h, blanks, hblanks, rest, hrest, fuel, hfuel => by
    obtain _ | fuel := fuel
    · simp [layout] at hfuel
    simp only [layout, List.length_cons, List.length_append, List.length_nil] at hfuel
    have hmembers := members?_layout (member :: members) (level + 1) h (by simp)
      (hblank.line level) rest fuel (by omega)
    rw [value?_object (layoutMembers line space (level + 1) (member :: members) ++
      (line level ++ '\x7d' :: rest)) fuel, hmembers]
    · rfl
    · simp [skipBlanks_append hblanks, layout, skipBlanks_cons, isBlank]
    · exact skipBlanks_layoutMembers hblank _ (by simp) _

theorem items?_layout : ∀ (items : List Json) (level : Nat), AllPlain items → items ≠ [] →
    ∀ {close : List Char}, Blank close → ∀ (rest : List Char) fuel,
      (layoutItems line space level items).length < fuel →
      items? fuel (layoutItems line space level items ++ (close ++ ']' :: rest)) =
        some (items, rest)
  | [], _, _, hne, _, _, _, _, _ => absurd rfl hne
  | [item], level, h, _, close, hclose, rest, fuel, hfuel => by
    obtain _ | fuel := fuel
    · simp at hfuel
    simp only [layoutItems, List.length_append, List.append_assoc] at hfuel ⊢
    have hitem := value?_layout item level h.1 (hblank.line level) _
      (endsValue_line hclose (.inl rfl) rest) fuel (by omega)
    rw [items?, hitem]
    simp [skipBlanks_append hclose, skipBlanks_cons, isBlank]
  | item :: next :: items, level, h, _, close, hclose, rest, fuel, hfuel => by
    obtain _ | fuel := fuel
    · simp at hfuel
    simp only [layoutItems, List.length_append, List.length_cons, List.append_assoc,
      List.cons_append] at hfuel ⊢
    have hitem := value?_layout item level h.1 (hblank.line level)
      (',' :: (layoutItems line space level (next :: items) ++ (close ++ ']' :: rest)))
      (by simp [EndsValue]) fuel (by omega)
    have hitems := items?_layout (next :: items) level h.2 (by simp) hclose rest fuel (by omega)
    rw [items?, hitem]
    simp [skipBlanks_cons, isBlank, hitems]

theorem members?_layout : ∀ (members : List (String × Json)) (level : Nat),
    MembersPlain members → members ≠ [] →
    ∀ {close : List Char}, Blank close → ∀ (rest : List Char) fuel,
      (layoutMembers line space level members).length < fuel →
      members? fuel (layoutMembers line space level members ++ (close ++ '\x7d' :: rest)) =
        some (members, rest)
  | [], _, _, hne, _, _, _, _, _ => absurd rfl hne
  | [(key, value)], level, h, _, close, hclose, rest, fuel, hfuel => by
    obtain _ | fuel := fuel
    · simp at hfuel
    simp only [layoutMembers, List.length_append, List.length_cons, List.append_assoc,
      List.cons_append] at hfuel ⊢
    have hvalue := value?_layout value level h.2.1 hblank.space _
      (endsValue_line hclose (.inr rfl) rest) fuel (by omega)
    rw [members?, skipBlanks_append (hblank.line level), skipBlanks_cons (by decide)]
    simp [h.1 _, skipBlanks_cons, isBlank, hvalue, skipBlanks_append hclose]
  | (key, value) :: next :: members, level, h, _, close, hclose, rest, fuel, hfuel => by
    obtain _ | fuel := fuel
    · simp at hfuel
    simp only [layoutMembers, List.length_append, List.length_cons, List.append_assoc,
      List.cons_append] at hfuel ⊢
    have hvalue := value?_layout value level h.2.1 hblank.space
      (',' :: (layoutMembers line space level (next :: members) ++ (close ++ '\x7d' :: rest)))
      (by simp [EndsValue]) fuel (by omega)
    have hmembers := members?_layout (next :: members) level h.2.2 (by simp) hclose rest fuel
      (by omega)
    rw [members?, skipBlanks_append (hblank.line level), skipBlanks_cons (by decide)]
    simp [h.1 _, skipBlanks_cons, isBlank, hvalue, hmembers]

end

/-- The whole text of a plain value is read as that value. -/
theorem parse?_layout {value : Json} (h : Plain value) (text : String)
    (htext : text.toList = layout line space 0 value) : parse? text = some value := by
  have hread := value?_layout hblank value 0 h blank_nil [] (by simp [EndsValue])
    ((layout line space 0 value).length + 1) (by omega)
  rw [List.nil_append, List.append_nil] at hread
  simp [parse?, htext, hread, skipBlanks]

end

theorem blank_newline (level : Nat) : Blank (newline level).toList := by
  intro c hc
  simp only [newline, String.toList_append, String.toList_ofList, List.mem_append,
    List.mem_replicate] at hc
  rcases hc with hc | ⟨_, rfl⟩
  · obtain rfl : c = '\n' := by simpa using hc
    decide
  · decide

/-- The compact form of a plain value is read as that value. -/
theorem parse?_compact {value : Json} (h : Plain value) : parse? (compact value) = some value :=
  parse?_layout ⟨fun _ => blank_nil, blank_nil⟩ h _ (toList_compact value 0)

/-- The pretty form of a plain value is read as that value. -/
theorem parse?_pretty {value : Json} (h : Plain value) : parse? (pretty value) = some value :=
  parse?_layout ⟨blank_newline, by simp [Blank, isBlank]⟩ h _ (toList_prettyAt value 0)

end SexprSsa.Json
