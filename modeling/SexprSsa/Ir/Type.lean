/-
SexprSsa.Ir.Type — the types of the intermediate form.
-/

namespace SexprSsa

/-- The type of a value, a variable or a function's result. -/
inductive Ty where
  | i1
  | i8
  | i32
  | ptr (pointee : Ty)
  | void
  deriving DecidableEq, Repr

namespace Ty

instance : Inhabited Ty := ⟨.i32⟩

/-- The type of strings. -/
def bytes : Ty := .ptr .i8

/-- The notation of a type; pointers are marked by a star. -/
def render : Ty → String
  | .i1 => "i1"
  | .i8 => "i8"
  | .i32 => "i32"
  | .ptr pointee => render pointee ++ "*"
  | .void => "void"

instance : ToString Ty := ⟨render⟩

/-- The width in bits; there is none for `void`. -/
def bits : Ty → Nat
  | .i1 => 1
  | .i8 => 8
  | .i32 => 32
  | .ptr _ => 64
  | .void => 0

/-- The size in memory, in bytes. -/
def byteSize : Ty → Nat
  | .i1 | .i8 => 1
  | .i32 => 4
  | .ptr _ => 8
  | .void => 0

/-- Whether a type is one of the integer types. -/
def isInteger : Ty → Bool
  | .i1 | .i8 | .i32 => true
  | .ptr _ | .void => false

/-- Whether a type is a pointer type. -/
def isPointer : Ty → Bool
  | .ptr _ => true
  | _ => false

end Ty

end SexprSsa
