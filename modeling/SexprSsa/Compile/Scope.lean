/-
SexprSsa.Compile.Scope — what names refer to.

Scopes nest. A name is bound in the current scope only and looked up from
there outwards, so a binding hides those of the same name further out, and
leaving a scope brings them back.

Main statements: `lookup?_define`, `lookup?_push` and `pop_push`.
-/
import SexprSsa.Ir.Operand

namespace SexprSsa

/-- What a name refers to, decided when it is bound. -/
inductive Binding where
  | slot (id : SlotId) (ty : Ty)
  | global (id : GlobalId) (ty : Ty)
  /-- A value that is neither loaded nor assigned, such as a function. -/
  | value (operand : Operand)
  deriving DecidableEq, Repr

namespace Binding

/-- Whether a binding is a variable. -/
def isVariable : Binding → Bool
  | .value _ => false
  | _ => true

/-- The address and the type of a variable. -/
def address? : Binding → Option (Operand × Ty)
  | .slot id ty => some (.slot id, ty)
  | .global id ty => some (.global id, ty)
  | .value _ => none

end Binding

/-- The bindings of one scope, the newest first. -/
abbrev Scope := List (String × Binding)

/-- The scopes around a place, the innermost first. -/
structure Scopes where
  current : Scope
  outer : List Scope
  deriving DecidableEq, Repr

namespace Scopes

/-- One scope with the given bindings. -/
def root (bindings : Scope) : Scopes := ⟨bindings, []⟩

/-- Binds a name in the current scope. -/
def define (s : Scopes) (name : String) (binding : Binding) : Scopes :=
  { s with current := (name, binding) :: s.current }

/-- What a name refers to. -/
def lookup? (s : Scopes) (name : String) : Option Binding :=
  (s.current :: s.outer).findSome? fun scope => scope.lookup name

/-- Opens a scope. -/
def push (s : Scopes) : Scopes := ⟨[], s.current :: s.outer⟩

/-- Leaves the current scope; the outermost one stays. -/
def pop (s : Scopes) : Scopes :=
  match s.outer with
  | [] => s
  | scope :: outer => ⟨scope, outer⟩

/-- How many scopes lie further out. -/
def depth (s : Scopes) : Nat := s.outer.length

/-! ## Lookups and depth after each operation -/

@[simp] theorem lookup?_root (bindings : Scope) (name : String) :
    (root bindings).lookup? name = bindings.lookup name := by
  simp [lookup?, root]

/-- A binding is found under its own name and hides nothing else. -/
theorem lookup?_define (s : Scopes) (name other : String) (binding : Binding) :
    (s.define name binding).lookup? other =
      if other = name then some binding else s.lookup? other := by
  by_cases h : other = name
  · subst h; simp [lookup?, define]
  · have h' : (other == name) = false := by simpa using h
    simp only [lookup?, define, List.findSome?_cons, List.lookup_cons, h', if_neg h]

@[simp] theorem lookup?_push (s : Scopes) (name : String) :
    s.push.lookup? name = s.lookup? name := by
  simp [lookup?, push, List.findSome?_cons]

/-- Leaving a scope that was opened brings back what was bound before, whatever the scope held. -/
@[simp] theorem pop_push (s : Scopes) : s.push.pop = s := rfl

@[simp] theorem pop_define_push (s : Scopes) (name : String) (binding : Binding) :
    (s.push.define name binding).pop = s := rfl

@[simp] theorem depth_root (bindings : Scope) : (root bindings).depth = 0 := rfl

@[simp] theorem depth_push (s : Scopes) : s.push.depth = s.depth + 1 := rfl

@[simp] theorem depth_define (s : Scopes) (name : String) (binding : Binding) :
    (s.define name binding).depth = s.depth := rfl

@[simp] theorem depth_pop (s : Scopes) : s.pop.depth = s.depth - 1 := by
  obtain ⟨current, outer⟩ := s
  cases outer <;> rfl

end Scopes

end SexprSsa
