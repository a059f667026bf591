/-
SexprSsa.Proofs.Agreement — when the machine and the evaluator agree.

The machine has values where the evaluator has data, and a pointer to a string
stands for the text of the string. A computation of the machine follows one of
the evaluator (`Follows`) if both succeed with related results or both fail for
the same reason. Faults of the machine that have no counterpart, such as the
use of a value that was never computed, are thereby ruled out.

Main statements: `Denotes.read`, `Denotes.readInt` and `follows_print`.
-/
import SexprSsa.Proofs.FormEvaluator
import SexprSsa.Machine.Step

namespace SexprSsa

open Machine Direct

/-! ## Values and faults -/

/-- What a value is to the evaluator; an address of a variable is nothing. -/
def Machine.Value.datum (m : Module) : Value → Option Datum
  | .int value => some (.int value)
  | .bool value => some (.bool value)
  | .ptr (.str id) => (m.string? id).map fun s => .text s.value
  | .ptr (.slot _) | .ptr (.global _) => none

theorem Machine.Value.datum_ne_function {m : Module} {x : Value} :
    x.datum m ≠ some .function := by
  unfold datum
  split <;> simp

/-- A fault has the cause for which the evaluator fails. -/
def Direct.Failure.Explains : Failure → Fault → Prop
  | .emptyCell k, .uninitialized s => s.index = k
  | .functionAsValue, .functionAsValue _ => True
  | .notNumber, .notInteger _ => True
  | .notText, .notString _ => True
  | .divisionByZero, .divisionByZero => True
  | .danglingPercent, .danglingPercent => True
  | .missingArgument c, .missingArgument c' => c = c'
  | .unsupported c, .unsupported c' => c = c'
  | _, _ => False

/-- The machine's computation succeeds or fails as the evaluator's does. -/
def Follows {α β : Type} (r : α → β → Prop) : Except Fault α → Except Failure β → Prop
  | .ok a, .ok b => r a b
  | .error fault, .error failure => failure.Explains fault
  | _, _ => False

namespace Follows

variable {α β α' β' : Type} {r : α → β → Prop} {r' : α' → β' → Prop}
  {x : Except Fault α} {y : Except Failure β}

theorem bind {f : α → Except Fault α'} {g : β → Except Failure β'} (h : Follows r x y)
    (hf : ∀ a b, r a b → Follows r' (f a) (g b)) : Follows r' (x >>= f) (y >>= g) := by
  cases x with
  | ok a =>
    cases y with
    | ok b => exact hf a b h
    | error e => exact h.elim
  | error fault =>
    cases y with
    | ok b => exact h.elim
    | error e => exact h

/-- The evaluator may go on to a result of its own. -/
theorem image {g : β → β'} {s : α → β' → Prop} (h : Follows r x y)
    (hg : ∀ a b, r a b → s a (g b)) : Follows s x (do return g (← y)) := by
  cases x with
  | ok a =>
    cases y with
    | ok b => exact hg a b h
    | error e => exact h
  | error fault =>
    cases y with
    | ok b => exact h
    | error e => exact h

/-- The machine may go on to a result of its own. -/
theorem preimage {f : α → α'} {s : α' → β → Prop} (h : Follows r x y)
    (hf : ∀ a b, r a b → s (f a) b) : Follows s (do return f (← x)) y := by
  cases x with
  | ok a =>
    cases y with
    | ok b => exact hf a b h
    | error e => exact h
  | error fault =>
    cases y with
    | ok b => exact h
    | error e => exact h

theorem weaken {s : α → β → Prop} (h : Follows r x y) (hrs : ∀ a b, r a b → s a b) :
    Follows s x y := by
  cases x with
  | ok a =>
    cases y with
    | ok b => exact hrs a b h
    | error e => exact h
  | error fault =>
    cases y with
    | ok b => exact h
    | error e => exact h

end Follows

/-! ## Operands -/

/-- In a frame, the operand has the value that the evaluator's datum stands for. -/
def Denotes (m : Module) (f : Frame) (v : Operand) (d : Datum) : Prop :=
  (∃ name, v = .func name ∧ d = .function) ∨ ∃ x, f.read v = .ok x ∧ x.datum m = some d

variable {m : Module} {f f' : Frame} {v : Operand} {d : Datum}

theorem Denotes.read (h : Denotes m f v d) :
    Follows (fun x d' => d' = d ∧ x.datum m = some d) (f.read v) d.use := by
  rcases h with ⟨name, rfl, rfl⟩ | ⟨x, hread, hx⟩
  · exact trivial
  · rw [hread]
    cases d with
    | function => exact absurd hx Value.datum_ne_function
    | _ => exact ⟨rfl, hx⟩

theorem follows_toInt32 {x : Value} (h : x.datum m = some d) :
    Follows Eq x.toInt32 d.number := by
  cases x with
  | int n =>
    cases h
    exact rfl
  | bool b =>
    cases h
    exact rfl
  | ptr target =>
    cases target with
    | str id =>
      obtain ⟨s, -, rfl⟩ := Option.map_eq_some_iff.1 h
      exact trivial
    | _ => cases h

theorem Denotes.readInt (h : Denotes m f v d) : Follows Eq (f.readInt v) d.number := by
  rcases h with ⟨name, rfl, rfl⟩ | ⟨x, hread, hx⟩
  · exact trivial
  · unfold Frame.readInt
    rw [hread]
    exact follows_toInt32 hx

theorem Denotes.truth (h : Denotes m f v d) :
    Follows (fun x b => x.isTrue = b) (f.read v) d.truth := by
  rcases h with ⟨name, rfl, rfl⟩ | ⟨x, hread, hx⟩
  · exact trivial
  · rw [hread]
    cases x with
    | int n =>
      cases hx
      exact rfl
    | bool b =>
      cases hx
      exact rfl
    | ptr target =>
      cases target with
      | str id =>
        obtain ⟨s, -, rfl⟩ := Option.map_eq_some_iff.1 hx
        exact rfl
      | _ => cases hx

/-- An operand keeps its value as long as the values of the numbers up to its own stay. -/
theorem Denotes.keep (h : Denotes m f v d) {n : Nat} (hv : ∀ w, v = .temp w → w.index < n)
    (hkept : ∀ k, k < n → f'.values[k]? = f.values[k]?) : Denotes m f' v d := by
  rcases h with h | ⟨x, hread, hx⟩
  · exact .inl h
  · refine .inr ⟨x, ?_, hx⟩
    cases v with
    | temp w =>
      simp only [Frame.read] at hread ⊢
      rw [hkept w.index (hv w rfl)]
      exact hread
    | _ => exact hread

theorem follows_readAll {values : List Operand} {ds : List Datum}
    (h : List.Forall₂ (Denotes m f) values ds) :
    Follows (fun xs _ => List.Forall₂ (fun x d => x.datum m = some d) xs ds)
      (values.mapM f.read) (ds.mapM Datum.use) := by
  induction h with
  | nil => exact List.Forall₂.nil
  | cons hv _ ih =>
    rw [List.mapM_cons, List.mapM_cons]
    refine hv.read.bind ?_
    intro x d hx
    exact ih.bind fun xs ds hxs => .cons hx.2 hxs

/-! ## Printing -/

theorem follows_stringOf {x : Value} (h : x.datum m = some d) :
    Follows Eq (stringOf m x) d.string := by
  cases x with
  | int n =>
    cases h
    exact trivial
  | bool b =>
    cases h
    exact trivial
  | ptr target =>
    cases target with
    | str id =>
      obtain ⟨s, hs, rfl⟩ := Option.map_eq_some_iff.1 h
      simp only [stringOf, hs]
      exact rfl
    | _ => cases h

theorem follows_convert {x : Value} (h : x.datum m = some d) (conversion : Char) :
    Follows Eq (Machine.convert m conversion x) (Direct.convert conversion d) := by
  have hnumber {g : Int32 → List Char} : Follows Eq (do return g (← x.toInt32))
      (do return g (← d.number)) :=
    (follows_toInt32 h).bind fun a b hab => congrArg g hab
  have hstring : Follows Eq (do return (← stringOf m x).toList) (do return (← d.string).toList) :=
    (follows_stringOf h).bind fun a b hab => congrArg String.toList hab
  unfold Machine.convert
  split
  · exact hnumber
  · exact hnumber
  · exact hnumber
  · exact hnumber
  · exact hnumber
  · exact hstring
  · next hd hi hu hx hc hs =>
    rw [Direct.convert]
    · exact rfl
    · exact hd
    · exact hi
    · exact hu
    · exact hx
    · exact hc
    · exact hs

/-- The text that a format makes is the same. -/
theorem follows_format {template : List Char} {xs : List Value} {ds : List Datum}
    (h : List.Forall₂ (fun x d => x.datum m = some d) xs ds) :
    Follows Eq (Machine.format m template xs) (Direct.format template ds) := by
  fun_induction Machine.format m template xs generalizing ds with
  | case1 xs => exact rfl
  | case2 xs => exact trivial
  | case3 rest xs ih => exact (ih h).bind fun a b hab => congrArg ('%' :: ·) hab
  | case4 conversion rest hconversion =>
    cases h
    rw [Direct.format]
    · exact rfl
    · exact hconversion
  | case5 conversion rest x xs hconversion ih =>
    cases h with
    | cons hx hxs =>
      rw [Direct.format]
      · exact (follows_convert hx conversion).bind fun a b hab =>
          (ih hxs).bind fun a' b' hab' => by rw [hab, hab']; exact rfl
      · exact hconversion
  | case6 c rest xs hdangling hpercent hmissing hconversion ih =>
    have hc : c ≠ '%' := by
      intro hc
      cases rest with
      | nil => exact hdangling hc rfl
      | cons conversion tail =>
        cases xs with
        | nil => exact hmissing conversion tail rfl hc rfl
        | cons x xs => exact hconversion conversion tail x xs rfl hc rfl
    rw [Direct.format]
    · exact (ih h).bind fun a b hab => congrArg (c :: ·) hab
    · exact fun he _ => hc he
    · exact fun _ he _ => hc he
    · exact fun _ _ _ he _ => hc he
    · exact fun _ _ _ _ _ he _ => hc he

/-- The print function writes what the evaluator prints. -/
theorem follows_print {v : Operand} {values : List Operand} {d : Datum} {ds : List Datum}
    (hv : Denotes m f v d) (hvalues : List.Forall₂ (Denotes m f) values ds) :
    Follows Eq ((v :: values).mapM f.read >>= print m) (printed d ds) := by
  unfold printed
  refine (follows_readAll (.cons hv hvalues)).bind ?_
  intro xs _ hxs
  cases hxs with
  | cons hx hxs =>
    refine (follows_stringOf hx).bind ?_
    intro template template' ht
    subst ht
    exact (follows_format hxs).bind fun text text' htext => congrArg String.ofList htext

/-! ## States -/

/-- What a binding is to the evaluator. -/
def Binding.place : Binding → Place
  | .slot id _ => .cell id.index
  | .global id _ => .global id.index
  | .value _ => .function

/-- The names in scope refer to the same variables, and the same variable comes next. -/
structure Scoped (s : LowerState) (w : World) : Prop where
  names : ∀ name, w.names name = (s.scopes.lookup? name).map Binding.place
  next : w.next = s.builder.body.slots.length

/-- Slots hold what cells hold, and likewise the configured variables; the output is the same. -/
structure Stores (m : Module) (w : World) (c : Config) : Prop where
  cells : ∀ k, (c.frame.slots[k]?).map (Value.datum m) = (w.cells k).map some
  globals : ∀ i, i < m.globals.size →
    ∃ x, c.globals[i]? = some x ∧ x.datum m = some (w.globals i)
  output : c.output = w.output

namespace Stores

variable {w : World} {c : Config}

theorem fill (h : Stores m w c) {x : Value} (hx : x.datum m = some d) (k : Nat) :
    Stores m (w.fill k d)
      { c with frame := { c.frame with slots := c.frame.slots.insert k x } } where
  cells j := by
    simp only [World.fill, Std.ExtTreeMap.getElem?_insert]
    by_cases hj : j = k
    · subst hj
      simp [hx]
    · have hne : ¬ k = j := fun e => hj e.symm
      simpa [hj, hne] using h.cells j
  globals := h.globals
  output := h.output

/-- The variable that a place stands for is read as the machine reads its address. -/
theorem load (h : Stores m w c) {name : String} {binding : Binding} {address : Operand} {ty : Ty}
    (hname : w.names name = some binding.place) (haddress : binding.address? = some (address, ty))
    (hglobal : ∀ id, address = .global id → id.index < m.globals.size) :
    Follows (fun x d => x.datum m = some d) (c.frame.read address >>= c.load) (w.value name) := by
  cases binding with
  | slot id _ =>
    obtain ⟨rfl, -⟩ : Operand.slot id = address ∧ _ := by simpa [Binding.address?] using haddress
    have hcell := h.cells id.index
    change Follows _ (c.load (.ptr (.slot id))) _
    simp only [World.value, hname, Binding.place, Config.load]
    cases hslot : c.frame.slots[id.index]? with
    | none =>
      obtain hnone : w.cells id.index = none := by simpa [hslot] using hcell.symm
      simp only [hnone]
      exact rfl
    | some x =>
      obtain ⟨d, hd, hx⟩ : ∃ d, w.cells id.index = some d ∧ x.datum m = some d := by
        cases hd : w.cells id.index with
        | none => simp [hslot, hd] at hcell
        | some d => exact ⟨d, rfl, by simpa [hslot, hd] using hcell⟩
      simp only [hd]
      exact hx
  | global id _ =>
    obtain ⟨rfl, -⟩ : Operand.global id = address ∧ _ := by
      simpa [Binding.address?] using haddress
    obtain ⟨x, hglob, hx⟩ := h.globals id.index (hglobal id rfl)
    change Follows _ (c.load (.ptr (.global id))) _
    simp only [World.value, hname, Binding.place, Config.load, hglob]
    exact hx
  | value v => simp [Binding.address?] at haddress

end Stores

/-- Control stands where it stood. -/
structure Machine.Config.Unmoved (c c' : Config) : Prop where
  body : c'.frame.body = c.frame.body
  block : c'.frame.block = c.frame.block
  code : c'.frame.code = c.frame.code
  exit : c'.frame.exit = c.frame.exit
  callers : c'.callers = c.callers

/-- A store has done what the evaluator did to its world. -/
structure Stored (m : Module) (w w' : World) (c c' : Config) : Prop where
  unmoved : c.Unmoved c'
  values : c'.frame.values = c.frame.values
  names : w'.names = w.names
  next : w'.next = w.next
  stores : Stores m w' c'

namespace Stores

variable {w : World} {c : Config}

/-- A store to a slot fills the cell of its number. -/
theorem store_slot (h : Stores m w c) (hv : Denotes m c.frame v d) (k : Nat) :
    Follows (fun c' w' => Stored m w w' c c')
      (do c.store (← c.frame.read v) (← c.frame.read (.slot ⟨k⟩)))
      (do return w.fill k (← d.use)) := by
  refine hv.read.bind ?_
  intro x d' hx
  obtain ⟨rfl, hx⟩ := hx
  exact ⟨⟨rfl, rfl, rfl, rfl, rfl⟩, rfl, rfl, rfl, h.fill hx k⟩

/-- A store to the address of a variable assigns it. -/
theorem assign (h : Stores m w c) {name : String} {binding : Binding} {address : Operand} {ty : Ty}
    (hname : w.names name = some binding.place) (haddress : binding.address? = some (address, ty))
    (hglobal : ∀ id, address = .global id → id.index < m.globals.size)
    (hv : Denotes m c.frame v d) :
    Follows (fun c' w' => Stored m w w' c c')
      (do c.store (← c.frame.read v) (← c.frame.read address)) (w.assign name d) := by
  cases binding with
  | slot id _ =>
    obtain ⟨rfl, -⟩ : Operand.slot id = address ∧ _ := by simpa [Binding.address?] using haddress
    simp only [World.assign, hname, Binding.place]
    exact h.store_slot hv id.index
  | global id _ =>
    obtain ⟨rfl, -⟩ : Operand.global id = address ∧ _ := by
      simpa [Binding.address?] using haddress
    obtain ⟨old, hold, -⟩ := h.globals id.index (hglobal id rfl)
    have hlt : id.index < c.globals.length := (List.getElem?_eq_some_iff.1 hold).1
    simp only [World.assign, hname, Binding.place]
    refine hv.read.bind ?_
    intro x d' hx
    obtain ⟨rfl, hx⟩ := hx
    change Follows _ (c.store x (.ptr (.global id))) _
    simp only [Config.store, hlt, if_true]
    refine ⟨⟨rfl, rfl, rfl, rfl, rfl⟩, rfl, rfl, rfl, h.cells, fun i hi => ?_, h.output⟩
    by_cases he : i = id.index
    · subst he
      exact ⟨x, by simp [hlt], by simpa using hx⟩
    · obtain ⟨y, hy, hdatum⟩ := h.globals i hi
      refine ⟨y, ?_, by simpa [he] using hdatum⟩
      rw [List.getElem?_set_ne (fun e => he e.symm)]
      exact hy
  | value v => simp [Binding.address?] at haddress

end Stores

end SexprSsa
