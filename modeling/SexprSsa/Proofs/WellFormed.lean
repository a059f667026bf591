/-
SexprSsa.Proofs.WellFormed — expressions that have a form.

An expression that can be lowered is a number in range, a text, a symbol, or a
list that starts with a keyword and has the operands that the keyword asks for.
`HasForm` lists these shapes with their forms, so that proofs about evaluators
do not look at malformed expressions.

Main statements: `HasForm.of_whole`, an expression that is nowhere malformed has
one of the shapes, and `Lowered.hasForm`, so does what can be lowered.
-/
import SexprSsa.Proofs.Forms

namespace SexprSsa

/-! ## Keywords -/

/-- The symbol of an arithmetic operation. -/
def ArithOp.tag : ArithOp → String
  | .add => "+"
  | .sub => "-"
  | .mul => "*"
  | .div => "/"

/-- The symbol of a comparison. -/
def Cond.tag : Cond → String
  | .gt => ">"
  | .lt => "<"
  | .eq => "=="
  | .ne => "!="
  | .ge => ">="
  | .le => "<="

/-- The symbol of a keyword. -/
def Keyword.tag : Keyword → String
  | .arith op => op.tag
  | .compare cond => cond.tag
  | .declare => "var"
  | .assign => "set"
  | .block => "begin"
  | .print => "printf"
  | .choose => "if"

theorem Keyword.eq_tag {tag : String} {k : Keyword} (h : Keyword.ofTag? tag = some k) :
    tag = k.tag := by
  unfold Keyword.ofTag? at h
  split at h <;> first | (cases h; rfl) | cases h

/-! ## Shapes -/

mutual

/-- The expression has the form, and nothing in it is malformed. -/
inductive HasForm (strict : Bool) : Expr → Form → Prop
  | number {n : Int64} : HasForm strict (.number n) (.number (Int32.ofInt n.toInt))
  | text {raw : String} : HasForm strict (.text raw) (.text (unescape raw))
  | yes : HasForm strict (.symbol "true") (.truth true)
  | no : HasForm strict (.symbol "false") (.truth false)
  | reference {name : String} : name ≠ "true" → name ≠ "false" →
      HasForm strict (.symbol name) (.reference name)
  | arith {op : ArithOp} {left right : Expr} {l r : Form} :
      HasForm strict left l → HasForm strict right r →
      HasForm strict (.list [.symbol op.tag, left, right]) (.arith op l r)
  | compare {cond : Cond} {left right : Expr} {l r : Form} :
      HasForm strict left l → HasForm strict right r →
      HasForm strict (.list [.symbol cond.tag, left, right]) (.compare cond l r)
  | declare {target init : Expr} {name : String} {ty : Ty} {f : Form} :
      Form.declaredBy strict target = .ok (name, ty) → HasForm strict init f →
      HasForm strict (.list [.symbol "var", target, init]) (.declare name ty f)
  | assign {name : String} {value : Expr} {f : Form} : HasForm strict value f →
      HasForm strict (.list [.symbol "set", .symbol name, value]) (.assign name f)
  | block {first : Expr} {rest : List Expr} {f : Form} {forms : List Form} :
      HasForm strict first f → HaveForms strict rest forms →
      HasForm strict (.list (.symbol "begin" :: first :: rest)) (.block f forms)
  | print {template : Expr} {args : List Expr} {f : Form} {forms : List Form} :
      HasForm strict template f → HaveForms strict args forms →
      HasForm strict (.list (.symbol "printf" :: template :: args)) (.print f forms)
  | choose {condition yes no : Expr} {c y n : Form} :
      HasForm strict condition c → HasForm strict yes y → HasForm strict no n →
      HasForm strict (.list [.symbol "if", condition, yes, no]) (.choose c y n)

/-- The expressions have the forms. -/
inductive HaveForms (strict : Bool) : List Expr → List Form → Prop
  | nil : HaveForms strict [] []
  | cons {e : Expr} {rest : List Expr} {f : Form} {forms : List Form} :
      HasForm strict e f → HaveForms strict rest forms →
      HaveForms strict (e :: rest) (f :: forms)

end

mutual

/-- Nothing in the form is malformed. -/
inductive Form.Whole : Form → Prop
  | number {value : Int32} : Form.Whole (.number value)
  | truth {value : Bool} : Form.Whole (.truth value)
  | text {value : String} : Form.Whole (.text value)
  | reference {name : String} : Form.Whole (.reference name)
  | arith {op : ArithOp} {left right : Form} : Form.Whole left → Form.Whole right →
      Form.Whole (.arith op left right)
  | compare {cond : Cond} {left right : Form} : Form.Whole left → Form.Whole right →
      Form.Whole (.compare cond left right)
  | declare {name : String} {ty : Ty} {init : Form} : Form.Whole init →
      Form.Whole (.declare name ty init)
  | assign {name : String} {value : Form} : Form.Whole value → Form.Whole (.assign name value)
  | block {first : Form} {rest : List Form} : Form.Whole first → Form.WholeAll rest →
      Form.Whole (.block first rest)
  | print {template : Form} {args : List Form} : Form.Whole template → Form.WholeAll args →
      Form.Whole (.print template args)
  | choose {condition yes no : Form} : Form.Whole condition → Form.Whole yes → Form.Whole no →
      Form.Whole (.choose condition yes no)

/-- Nothing in the forms is malformed. -/
inductive Form.WholeAll : List Form → Prop
  | nil : Form.WholeAll []
  | cons {form : Form} {rest : List Form} : Form.Whole form → Form.WholeAll rest →
      Form.WholeAll (form :: rest)

end

variable {strict : Bool}

mutual

/-- An expression whose form is not malformed has this form. -/
theorem HasForm.of_whole : (e : Expr) → (Form.ofExpr strict e).Whole →
    HasForm strict e (Form.ofExpr strict e)
  | .number n, h => by
    simp only [Form.ofExpr, Form.ofNumber] at h ⊢
    split at h
    · next hrange =>
      rw [if_pos hrange]
      exact .number
    · cases h
  | .text raw, h => by
    unfold Form.ofExpr
    exact .text
  | .symbol name, h => by
    unfold Form.ofExpr Form.ofSymbol
    split
    · exact .yes
    · exact .no
    · next htrue hfalse => exact .reference htrue hfalse
  | .list [], h => by
    unfold Form.ofExpr at h
    cases h
  | .list (.number n :: _), h => by
    unfold Form.ofExpr at h
    cases h
  | .list (.text raw :: _), h => by
    unfold Form.ofExpr at h
    cases h
  | .list (.list items :: _), h => by
    unfold Form.ofExpr at h
    cases h
  | .list (.symbol tag :: operands), h => by
    unfold Form.ofExpr at h ⊢
    cases hk : Keyword.ofTag? tag with
    | none =>
      rw [hk] at h
      cases h
    | some k =>
      rw [hk] at h
      obtain rfl := Keyword.eq_tag hk
      -- With other numbers of operands the form is malformed.
      cases k with
      | arith op =>
        match operands, h with
        | [left, right], h =>
          cases h with
          | arith hleft hright => exact .arith (.of_whole left hleft) (.of_whole right hright)
        | [], h => cases h
        | [_], h => cases h
        | _ :: _ :: _ :: _, h => cases h
      | compare cond =>
        match operands, h with
        | [left, right], h =>
          cases h with
          | compare hleft hright => exact .compare (.of_whole left hleft) (.of_whole right hright)
        | [], h => cases h
        | [_], h => cases h
        | _ :: _ :: _ :: _, h => cases h
      | declare =>
        match operands, h with
        | [target, init], h =>
          cases htarget : Form.declaredBy strict target with
          | error fault =>
            simp only [htarget] at h
            cases h
          | ok declared =>
            simp only [htarget] at h ⊢
            cases h with
            | declare hinit => exact .declare htarget (.of_whole init hinit)
        | [], h => cases h
        | [_], h => cases h
        | _ :: _ :: _ :: _, h => cases h
      | assign =>
        match operands, h with
        | [.symbol name, value], h =>
          cases h with
          | assign hvalue => exact .assign (.of_whole value hvalue)
        | [.number _, _], h => cases h
        | [.text _, _], h => cases h
        | [.list _, _], h => cases h
        | [], h => cases h
        | [e], h => cases e <;> cases h
        | e :: _ :: _ :: _, h => cases e <;> cases h
      | block =>
        match operands, h with
        | first :: rest, h =>
          cases h with
          | block hfirst hrest => exact .block (.of_whole first hfirst) (.of_wholeAll rest hrest)
        | [], h => cases h
      | print =>
        match operands, h with
        | template :: args, h =>
          cases h with
          | print htemplate hargs =>
            exact .print (.of_whole template htemplate) (.of_wholeAll args hargs)
        | [], h => cases h
      | choose =>
        match operands, h with
        | [condition, yes, no], h =>
          cases h with
          | choose hcondition hyes hno =>
            exact .choose (.of_whole condition hcondition) (.of_whole yes hyes) (.of_whole no hno)
        | [], h => cases h
        | [_], h => cases h
        | [_, _], h => cases h
        | _ :: _ :: _ :: _ :: _, h => cases h

theorem HaveForms.of_wholeAll : (es : List Expr) → Form.WholeAll (Form.ofExprs strict es) →
    HaveForms strict es (Form.ofExprs strict es)
  | [], _ => by
    unfold Form.ofExprs
    exact .nil
  | e :: rest, h => by
    unfold Form.ofExprs at h ⊢
    cases h with
    | cons he hrest => exact .cons (.of_whole e he) (.of_wholeAll rest hrest)

end

mutual

/-- What is lowered is not malformed. -/
theorem Lowered.whole {pending : List BlockId} {s s' : LowerState} {v : Operand} {f : Form} :
    Lowered pending f s v s' → f.Whole
  | .number => .number
  | .truth => .truth
  | .text => .text
  | .value _ => .reference
  | .load _ _ => .reference
  | .arith hleft hright => .arith hleft.whole hright.whole
  | .compare hleft hright => .compare hleft.whole hright.whole
  | .declare hinit => .declare hinit.whole
  | .assign hvalue _ _ => .assign hvalue.whole
  | .block hfirst hrest => .block hfirst.whole hrest.wholeAll
  | .print htemplate hargs => .print htemplate.whole hargs.wholeAll
  | .choose hcondition hyes _ hno _ => .choose hcondition.whole hyes.whole hno.whole

theorem LoweredAll.wholeAll {pending : List BlockId} {s s' : LowerState} {values : List Operand}
    {forms : List Form} : LoweredAll pending forms s values s' → Form.WholeAll forms
  | .nil => .nil
  | .cons hform hrest => .cons hform.whole hrest.wholeAll

end

/-- What can be lowered is well formed. -/
theorem Lowered.hasForm {pending : List BlockId} {s s' : LowerState} {v : Operand} (e : Expr)
    (h : Lowered pending (Form.ofExpr strict e) s v s') :
    HasForm strict e (Form.ofExpr strict e) :=
  .of_whole e h.whole

end SexprSsa
