/-
SexprSsa.Proofs.Literals — the string literals of a compiled program.

A module keeps each text once, in the order in which the texts were asked for
(`Module.Pools`). So the strings of a compiled module are decided by which
literals lowering comes to, and in which order. It comes to all of them, from
left to right, those in branches that are not taken included: `Form.calls` lists
what is lowered in the course of lowering a form, each part with the state that
it is lowered in, and the literals among those calls are the literals of the
text (`Form.lower_texts`).

Main statement: `compileExpr_contents`. A compiled module has the configured
variables, the print function and the entry function, and the distinct decoded
texts of the program; and each literal is lowered to the number of its own text.
-/
import SexprSsa.Proofs.FormSteps
import SexprSsa.Proofs.ModuleTables
import SexprSsa.Proofs.Runs
import SexprSsa.Proofs.WellFormed
import Mathlib.Data.List.Induction

namespace SexprSsa

/-! ## Texts without repetition -/

section
variable {α : Type} [DecidableEq α]

theorem eraseDups_concat (l : List α) (a : α) :
    (l ++ [a]).eraseDups = if a ∈ l then l.eraseDups else l.eraseDups ++ [a] := by
  rw [List.eraseDups_append]
  by_cases h : a ∈ l
  · simp [List.removeAll, h]
  · simp [List.removeAll, h, List.eraseDups_cons]

theorem nodup_eraseDups (l : List α) : l.eraseDups.Nodup := by
  induction l using List.reverseRecOn with
  | nil => exact List.nodup_nil
  | append_singleton l a ih =>
    rw [eraseDups_concat]
    split
    · exact ih
    · next ha =>
      refine List.nodup_append.2 ⟨ih, by simp, ?_⟩
      rintro b hb _ hc rfl
      obtain rfl := List.mem_singleton.1 hc
      exact ha (List.mem_eraseDups.1 hb)

/-- What comes later moves nothing that was there. -/
theorem idxOf_eraseDups_extend {l l' : List α} (h : l <+: l') {a : α} (ha : a ∈ l) :
    l'.eraseDups.idxOf a = l.eraseDups.idxOf a := by
  obtain ⟨more, rfl⟩ := h
  rw [List.eraseDups_append, List.idxOf_append_of_mem (List.mem_eraseDups.2 ha)]

end

/-- The strings of a module are the texts, without repetition, each under its position. -/
def Module.Pools (m : Module) (texts : List String) : Prop :=
  m.strings = texts.eraseDups.mapIdx fun i value => ⟨⟨i⟩, value⟩

/-- The number of a text among others. -/
def poolId (texts : List String) (value : String) : StrId := ⟨texts.eraseDups.idxOf value⟩

namespace Module.Pools

variable {m : Module} {texts : List String}

theorem getElem? (h : m.Pools texts) (i : Nat) :
    m.strings[i]? = texts.eraseDups[i]?.map fun value => ⟨⟨i⟩, value⟩ := by
  rw [h, List.getElem?_mapIdx]

theorem mem_iff (h : m.Pools texts) {value : String} :
    (∃ s ∈ m.strings, s.value = value) ↔ value ∈ texts := by
  rw [← List.mem_eraseDups]
  constructor
  · rintro ⟨s, hs, rfl⟩
    obtain ⟨i, hi⟩ := List.mem_iff_getElem?.1 hs
    rw [h.getElem?] at hi
    obtain ⟨value, hvalue, rfl⟩ := Option.map_eq_some_iff.1 hi
    exact List.mem_of_getElem? hvalue
  · intro hvalue
    obtain ⟨i, hi⟩ := List.mem_iff_getElem?.1 hvalue
    exact ⟨⟨⟨i⟩, value⟩, List.mem_of_getElem? ((h.getElem? i).trans (by rw [hi]; rfl)), rfl⟩

/-- The number of a text denotes it. -/
theorem string? (h : m.Pools texts) {value : String} (hvalue : value ∈ texts) :
    m.string? (poolId texts value) = some ⟨poolId texts value, value⟩ := by
  have hfound : texts.eraseDups[texts.eraseDups.idxOf value]? = some value :=
    List.getElem?_idxOf (List.mem_eraseDups.2 hvalue)
  rw [Module.string?, poolId, h.getElem?, hfound]
  rfl

/-- A text that is asked for is among the strings afterwards, and the answer is its number. -/
theorem addString (h : m.Pools texts) (value : String) :
    (m.addString value).2.Pools (texts ++ [value]) ∧
      (m.addString value).1 = poolId (texts ++ [value]) value := by
  rcases m.addString_cases value with ⟨s, hs, hvalue, hadd⟩ | ⟨hnew, hadd⟩
  · have hmem : value ∈ texts := h.mem_iff.1 ⟨s, hs, hvalue⟩
    have hsame : (texts ++ [value]).eraseDups = texts.eraseDups := by
      rw [eraseDups_concat, if_pos hmem]
    obtain ⟨i, hi⟩ := List.mem_iff_getElem?.1 hs
    rw [h.getElem?] at hi
    obtain ⟨_, hfound, rfl⟩ := Option.map_eq_some_iff.1 hi
    obtain rfl := hvalue
    rw [hadd]
    constructor
    · rw [Module.Pools, hsame]
      exact h
    · obtain ⟨hlt, hat⟩ := List.getElem?_eq_some_iff.1 hfound
      rw [poolId, hsame, ← hat, (nodup_eraseDups texts).idxOf_getElem]
  · have hmem : value ∉ texts := fun hmem => by
      obtain ⟨s, hs, hvalue⟩ := h.mem_iff.2 hmem
      exact hnew s hs hvalue
    have hlonger : (texts ++ [value]).eraseDups = texts.eraseDups ++ [value] := by
      rw [eraseDups_concat, if_neg hmem]
    have hlength : m.strings.length = texts.eraseDups.length := by
      rw [h, List.length_mapIdx]
    rw [hadd]
    constructor
    · rw [Module.Pools, hlonger, List.mapIdx_concat, ← h, hlength]
    · have hmem' : value ∉ texts.eraseDups := fun hv => hmem (List.mem_eraseDups.1 hv)
      rw [poolId, hlonger, List.idxOf_append_of_notMem hmem', hlength]
      simp

end Module.Pools

/-! ## The literals of a text -/

mutual

/-- The string literals of a tree as they are written, from left to right. -/
def Tree.texts {ν : Type} : Tree ν → List String
  | .text raw => [raw]
  | .list items => Tree.textsAll items
  | .number _ | .symbol _ => []

/-- The string literals of trees one after the other. -/
def Tree.textsAll {ν : Type} : List (Tree ν) → List String
  | [] => []
  | e :: rest => e.texts ++ Tree.textsAll rest

end

mutual

/-- The texts of a form, from left to right. -/
def Form.texts : Form → List String
  | .number _ | .truth _ | .reference _ | .malformed _ => []
  | .text value => [value]
  | .arith _ left right | .compare _ left right => left.texts ++ right.texts
  | .declare _ _ init => init.texts
  | .assign _ value => value.texts
  | .block first rest => first.texts ++ Form.textsAll rest
  | .print template args => template.texts ++ Form.textsAll args
  | .choose condition yes no => condition.texts ++ (yes.texts ++ no.texts)

/-- The texts of forms one after the other. -/
def Form.textsAll : List Form → List String
  | [] => []
  | f :: rest => f.texts ++ Form.textsAll rest

end

/-- What is declared has a name and perhaps a type, but no text. -/
theorem texts_of_declaredBy {strict : Bool} {target : Expr} {declared : String × Ty}
    (h : Form.declaredBy strict target = .ok declared) : target.texts = [] := by
  unfold Form.declaredBy at h
  split at h
  · simp only [Tree.texts]
  · simp only [Tree.texts, Tree.textsAll, List.append_nil]
  all_goals cases h

mutual

/-- The texts of a form are the decoded literals of the expression. -/
theorem HasForm.texts_eq {strict : Bool} {e : Expr} : (f : Form) → HasForm strict e f →
    f.texts = e.texts.map unescape
  | .number _, h => by
    cases h
    simp [Tree.texts, Form.texts]
  | .truth _, h => by
    cases h <;> simp [Tree.texts, Form.texts]
  | .text _, h => by
    cases h
    simp [Tree.texts, Form.texts]
  | .reference _, h => by
    cases h
    simp [Tree.texts, Form.texts]
  | .arith _ l r, h => by
    cases h with
    | arith hleft hright =>
      simp [Tree.texts, Tree.textsAll, Form.texts, HasForm.texts_eq l hleft,
        HasForm.texts_eq r hright]
  | .compare _ l r, h => by
    cases h with
    | compare hleft hright =>
      simp [Tree.texts, Tree.textsAll, Form.texts, HasForm.texts_eq l hleft,
        HasForm.texts_eq r hright]
  | .declare _ _ init, h => by
    cases h with
    | declare htarget hinit =>
      simp [Tree.texts, Tree.textsAll, Form.texts, texts_of_declaredBy htarget,
        HasForm.texts_eq init hinit]
  | .assign _ value, h => by
    cases h with
    | assign hvalue =>
      simp [Tree.texts, Tree.textsAll, Form.texts, HasForm.texts_eq value hvalue]
  | .block first rest, h => by
    cases h with
    | block hfirst hrest =>
      simp [Tree.texts, Tree.textsAll, Form.texts, HasForm.texts_eq first hfirst,
        HaveForms.texts_eq rest hrest]
  | .print template args, h => by
    cases h with
    | print htemplate hargs =>
      simp [Tree.texts, Tree.textsAll, Form.texts, HasForm.texts_eq template htemplate,
        HaveForms.texts_eq args hargs]
  | .choose condition yes no, h => by
    cases h with
    | choose hcondition hyes hno =>
      simp [Tree.texts, Tree.textsAll, Form.texts, HasForm.texts_eq condition hcondition,
        HasForm.texts_eq yes hyes, HasForm.texts_eq no hno]
  | .malformed _, h => by cases h

theorem HaveForms.texts_eq {strict : Bool} {es : List Expr} : (forms : List Form) →
    HaveForms strict es forms → Form.textsAll forms = (Tree.textsAll es).map unescape
  | [], h => by
    cases h
    simp [Tree.textsAll, Form.textsAll]
  | f :: rest, h => by
    cases h with
    | cons hf hrest =>
      simp [Tree.textsAll, Form.textsAll, HasForm.texts_eq f hf, HaveForms.texts_eq rest hrest]

end

/-! ## What is lowered in the course of lowering -/

/-- A form that is lowered, and the state that it is lowered in. -/
structure Call where
  form : Form
  state : LowerState

/-- What is called after a step of lowering; after a step that fails, nothing is. -/
def Lower.next {α : Type} (x : Lower α) (s : LowerState) (k : α → LowerState → List Call) :
    List Call :=
  match x s with
  | (.ok a, s') => k a s'
  | (.error _, _) => []

theorem Lower.next_of_ok {α : Type} {x : Lower α} {s s' : LowerState} {a : α}
    (h : x s = (.ok a, s')) (k : α → LowerState → List Call) : Lower.next x s k = k a s' := by
  simp only [Lower.next, h]

open Lower in
mutual

/-- The calls of lowering that lowering a form makes, itself first, in the order in which they are
begun. -/
def Form.calls (form : Form) (s : LowerState) : List Call :=
  ⟨form, s⟩ ::
    match form with
    | .number _ | .truth _ | .text _ | .reference _ | .malformed _ => []
    | .arith _ left right | .compare _ left right =>
        left.calls s ++ left.lower.next s fun _ s₁ => right.calls s₁
    | .declare _ _ init => init.calls s
    | .assign _ value => value.calls s
    | .block first rest =>
        first.calls s.inner ++ first.lower.next s.inner fun _ s₁ => Form.callsAll rest s₁
    | .print template args =>
        requirePrint.next s fun _ s₁ =>
          template.calls s₁ ++ template.lower.next s₁ fun _ s₂ => Form.callsAll args s₂
    | .choose condition yes no =>
        condition.calls s ++ condition.lower.next s fun c s₁ =>
          (build (fork c)).next s₁ fun blocks s₂ =>
            yes.calls s₂ ++ yes.lower.next s₂ fun _ s₃ =>
              (build (closeBranch blocks.join blocks.no)).next s₃ fun _ s₄ => no.calls s₄

/-- The calls that lowering forms from left to right makes. -/
def Form.callsAll (forms : List Form) (s : LowerState) : List Call :=
  match forms with
  | [] => []
  | form :: rest => form.calls s ++ form.lower.next s fun _ s₁ => Form.callsAll rest s₁

end

/-- The text that a call lowers, if it lowers a text, and what it is lowered to. -/
def Call.literal? : Call → Option (String × Except CompileError Operand)
  | ⟨.text value, s⟩ => some (value, ((Form.text value).lower s).1)
  | _ => none

/-! ## Lowering a form -/

namespace Lower

variable {s s' : LowerState}

theorem module_of_build {α : Type} {operation : Build α} {a : α}
    (h : build operation s = (.ok a, s')) : s'.module = s.module := by
  have hmodule := module_build operation s
  rwa [h] at hmodule

/-- A name is read without a change in the module. -/
theorem module_of_readName {name : String} {v : Operand} (h : readName name s = (.ok v, s')) :
    s'.module = s.module := by
  obtain ⟨binding, s₁, hresolve, hload⟩ := exists_of_bind_ok h
  obtain rfl := of_resolve hresolve
  cases binding with
  | value w =>
    cases hload
    rfl
  | slot id ty => exact module_of_build hload
  | global id ty => exact module_of_build hload

theorem module_of_declareName {name : String} {ty : Ty} {v : Operand}
    (h : declareName name ty v s = (.ok (), s')) : s'.module = s.module := by
  obtain ⟨slot, s₁, halloca, h⟩ := exists_of_bind_ok h
  obtain ⟨_, s₂, hdefine, hstore⟩ := exists_of_bind_ok h
  cases hdefine
  have hallocated : s₁.module = s.module := module_of_build halloca
  exact (module_of_build hstore).trans hallocated

theorem module_of_assignName {name : String} {v : Operand}
    (h : assignName name v s = (.ok (), s')) : s'.module = s.module := by
  obtain ⟨binding, s₁, hresolve, hstore⟩ := exists_of_bind_ok h
  obtain rfl := of_resolve hresolve
  cases binding with
  | value w => cases hstore
  | slot id ty => exact module_of_build hstore
  | global id ty => exact module_of_build hstore

end Lower

section
variable (all : List String)

/-- A literal and the number that its text has among all texts. -/
def literal (value : String) : String × Except CompileError Operand :=
  (value, .ok (.str (poolId all value)))

/-- What lowering has done to the texts: they are among the strings, after those that were asked
for before, and the calls for literals have given their numbers. -/
structure TextsLowered (before texts : List String) (calls : List Call) (s' : LowerState) :
    Prop where
  pools : s'.module.Pools (before ++ texts)
  literals : calls.filterMap Call.literal? = texts.map (literal all)

variable {all} {before texts more : List String} {calls later : List Call} {s s' : LowerState}

namespace TextsLowered

theorem none (h : s.module.Pools before) : TextsLowered all before [] [] s :=
  ⟨by rwa [List.append_nil], rfl⟩

theorem append (h : TextsLowered all before texts calls s)
    (h' : TextsLowered all (before ++ texts) more later s') :
    TextsLowered all before (texts ++ more) (calls ++ later) s' where
  pools := by
    rw [← List.append_assoc]
    exact h'.pools
  literals := by
    rw [List.filterMap_append, h.literals, h'.literals, List.map_append]

/-- What follows does not touch the module. -/
theorem of_module (h : TextsLowered all before texts calls s) (hmodule : s'.module = s.module) :
    TextsLowered all before texts calls s' where
  pools := by
    rw [hmodule]
    exact h.pools
  literals := h.literals

/-- The call of a form that is no text itself. -/
theorem cons {c : Call} (hc : c.literal? = .none) (h : TextsLowered all before texts calls s) :
    TextsLowered all before texts (c :: calls) s where
  pools := h.pools
  literals := by
    rw [List.filterMap_cons_none hc]
    exact h.literals

end TextsLowered

end

/-- What is asked for first is the beginning of what is asked for. -/
theorem append_prefix_of_append {before texts more all : List String}
    (h : before ++ (texts ++ more) <+: all) :
    before ++ texts <+: all ∧ (before ++ texts) ++ more <+: all := by
  rw [← List.append_assoc] at h
  exact ⟨(List.prefix_append ..).trans h, h⟩

mutual

/-- **Lowering a form comes to each of its literals, from left to right, and gives it the number of
its text.** -/
theorem Form.lower_texts {all before : List String} {s s' : LowerState} {v : Operand} :
    (f : Form) → f.lower s = (.ok v, s') → s.module.Pools before → before ++ f.texts <+: all →
      TextsLowered all before f.texts (f.calls s) s'
  | .number _, h, hs, _ => by
    obtain ⟨-, rfl⟩ := Form.steps h
    simp only [Form.calls, Form.texts]
    exact (TextsLowered.none hs).cons rfl
  | .truth _, h, hs, _ => by
    obtain ⟨-, rfl⟩ := Form.steps h
    simp only [Form.calls, Form.texts]
    exact (TextsLowered.none hs).cons rfl
  | .text value, h, hs, hall => by
    obtain ⟨-, rfl⟩ := Form.steps h
    simp only [Form.texts] at hall
    obtain ⟨hpools, hid⟩ := hs.addString value
    simp only [Form.calls, Form.texts]
    refine ⟨hpools, ?_⟩
    have hnumber : poolId (before ++ [value]) value = poolId all value :=
      congrArg StrId.mk (idxOf_eraseDups_extend hall (by simp)).symm
    have hresult : ((Form.text value).lower s).1 = .ok (.str (s.module.addString value).1) := by
      unfold Form.lower
      rfl
    simp [Call.literal?, literal, hresult, hid, hnumber]
  | .reference name, h, hs, _ => by
    simp only [Form.calls, Form.texts]
    exact ((TextsLowered.none hs).cons rfl).of_module (Lower.module_of_readName (Form.steps h))
  | .arith _ left right, h, hs, hall => by
    obtain ⟨a, s₁, b, s₂, hleft, hright, hbuild⟩ := Form.steps h
    simp only [Form.texts] at hall ⊢
    obtain ⟨hall₁, hall₂⟩ := append_prefix_of_append hall
    have hl := left.lower_texts hleft hs hall₁
    have hr := right.lower_texts hright hl.pools hall₂
    simp only [Form.calls, Lower.next_of_ok hleft]
    exact ((hl.append hr).cons rfl).of_module (Lower.module_of_build hbuild)
  | .compare _ left right, h, hs, hall => by
    obtain ⟨a, s₁, b, s₂, hleft, hright, hbuild⟩ := Form.steps h
    simp only [Form.texts] at hall ⊢
    obtain ⟨hall₁, hall₂⟩ := append_prefix_of_append hall
    have hl := left.lower_texts hleft hs hall₁
    have hr := right.lower_texts hright hl.pools hall₂
    simp only [Form.calls, Lower.next_of_ok hleft]
    exact ((hl.append hr).cons rfl).of_module (Lower.module_of_build hbuild)
  | .declare name ty init, h, hs, hall => by
    obtain ⟨s₁, hinit, hdeclare⟩ := Form.steps h
    simp only [Form.texts] at hall ⊢
    simp only [Form.calls]
    exact ((init.lower_texts hinit hs hall).cons rfl).of_module
      (Lower.module_of_declareName hdeclare)
  | .assign name value, h, hs, hall => by
    obtain ⟨s₁, hvalue, hassign⟩ := Form.steps h
    simp only [Form.texts] at hall ⊢
    simp only [Form.calls]
    exact ((value.lower_texts hvalue hs hall).cons rfl).of_module
      (Lower.module_of_assignName hassign)
  | .block first rest, h, hs, hall => by
    obtain ⟨w, s₁, ws, s₂, hfirst, hrest, -, rfl⟩ := Form.steps h
    simp only [Form.texts] at hall ⊢
    obtain ⟨hall₁, hall₂⟩ := append_prefix_of_append hall
    have hf := first.lower_texts (s := s.inner) hfirst hs hall₁
    have hr := Form.lowerAll_texts rest hrest hf.pools hall₂
    simp only [Form.calls, Lower.next_of_ok hfirst]
    exact ((hf.append hr).cons rfl).of_module rfl
  | .print template args, h, hs, hall => by
    obtain ⟨w, s₁, ws, s₂, hrequire, htemplate, hargs, hcall⟩ := Form.steps h
    simp only [Form.texts] at hall ⊢
    obtain ⟨hall₁, hall₂⟩ := append_prefix_of_append hall
    have ht := template.lower_texts htemplate hs hall₁
    have hr := Form.lowerAll_texts args hargs ht.pools hall₂
    simp only [Form.calls, Lower.next_of_ok hrequire, Lower.next_of_ok htemplate]
    exact ((ht.append hr).cons rfl).of_module (Lower.module_of_build hcall)
  | .choose condition yes no, h, hs, hall => by
    obtain ⟨c, s₁, blocks, s₂, y, s₃, yesEnd, s₄, n, s₅, noEnd, s₆, hcondition, hfork, hyes,
      hyesEnd, hno, hnoEnd, hmerge⟩ := Form.steps h
    simp only [Form.texts] at hall ⊢
    obtain ⟨hall₁, hall⟩ := append_prefix_of_append hall
    obtain ⟨hall₂, hall₃⟩ := append_prefix_of_append hall
    have hc := (condition.lower_texts hcondition hs hall₁).of_module
      (Lower.module_of_build hfork)
    have hy := (yes.lower_texts hyes hc.pools hall₂).of_module (Lower.module_of_build hyesEnd)
    have hn := (no.lower_texts hno hy.pools hall₃).of_module
      ((Lower.module_of_build hmerge).trans (Lower.module_of_build hnoEnd))
    simp only [Form.calls, Lower.next_of_ok hcondition, Lower.next_of_ok hfork,
      Lower.next_of_ok hyes, Lower.next_of_ok hyesEnd]
    exact (hc.append (hy.append hn)).cons rfl
  | .malformed _, h, _, _ => (Form.steps h).elim

theorem Form.lowerAll_texts {all before : List String} {s s' : LowerState}
    {values : List Operand} : (forms : List Form) → Form.lowerAll forms s = (.ok values, s') →
      s.module.Pools before → before ++ Form.textsAll forms <+: all →
      TextsLowered all before (Form.textsAll forms) (Form.callsAll forms s) s'
  | [], h, hs, _ => by
    unfold Form.lowerAll at h
    cases h
    simp only [Form.callsAll, Form.textsAll]
    exact .none hs
  | f :: rest, h, hs, hall => by
    obtain ⟨w, s₁, ws, hf, hrest, -⟩ := Form.steps_cons h
    simp only [Form.textsAll] at hall ⊢
    obtain ⟨hall₁, hall₂⟩ := append_prefix_of_append hall
    have hfirst := f.lower_texts hf hs hall₁
    have hr := Form.lowerAll_texts rest hrest hfirst.pools hall₂
    simp only [Form.callsAll, Lower.next_of_ok hf]
    exact hfirst.append hr

end

/-! ## Compiled modules -/

/-- The distinct texts of the literals of a program, decoded, in the order in which each is found
first. -/
def Expr.pool (program : Expr) : List String := (program.texts.map unescape).eraseDups

/-- The variable of a module that a configured variable becomes at a position. -/
def GlobalOption.entry (g : GlobalOption) (i : Nat) : String × GlobalVar :=
  (g.name, ⟨⟨i⟩, g.name, .i32, .int g.value, false, 4⟩)

theorem entries_addConfigured {start next : Module × Scopes} {g : GlobalOption}
    (h : addConfigured start g = .ok next) :
    next.1.globals.entries = start.1.globals.entries ++ [g.entry start.1.globals.size] := by
  unfold addConfigured at h
  rcases start.1.addGlobal_cases g.name (.int g.value) with ⟨-, hadd⟩ | ⟨hname, hadd⟩
  · rw [hadd] at h
    cases h
  · rw [hadd] at h
    cases h
    exact Table.entries_insert_of_not_mem _ _ hname

/-- Configured variables are added one after the other. -/
theorem entries_foldlM_addConfigured {done globals : List GlobalOption}
    {start next : Module × Scopes}
    (hstart : start.1.globals.entries = done.mapIdx fun i g => g.entry i)
    (h : globals.foldlM addConfigured start = .ok next) :
    next.1.globals.entries = (done ++ globals).mapIdx fun i g => g.entry i := by
  induction globals generalizing done start with
  | nil =>
    cases h
    simpa using hstart
  | cons g rest ih =>
    rw [List.foldlM_cons] at h
    cases hadd : addConfigured start g with
    | error e =>
      rw [hadd] at h
      cases h
    | ok added =>
      rw [hadd] at h
      have hsize : start.1.globals.size = done.length := by
        rw [Table.size, hstart, List.length_mapIdx]
      have hadded : added.1.globals.entries = (done ++ [g]).mapIdx fun i g => g.entry i := by
        rw [List.mapIdx_concat, ← hstart, entries_addConfigured hadd, hsize]
      have hnext := ih hadded h
      rwa [List.append_assoc] at hnext

theorem entries_of_prepare {options : Options} {prepared : Module × Scopes}
    (h : prepare options = .ok prepared) :
    prepared.1.globals.entries = options.globals.mapIdx fun i g => g.entry i := by
  let m : Module := { Module.empty options.moduleName with
    functions := (∅ : Table String Func).insert printName (.declared printSignature) }
  have hprepare : prepare options =
      (options.globals.foldlM addConfigured (m, .root []) >>= fun next =>
        .ok (next.1, next.2.define options.entry (.value (.func options.entry)))) := rfl
  rw [hprepare] at h
  cases hnext : options.globals.foldlM addConfigured (m, .root []) with
  | error e =>
    rw [hnext] at h
    cases h
  | ok next =>
    rw [hnext] at h
    have hempty : (m, Scopes.root []).1.globals.entries =
        [].mapIdx fun i (g : GlobalOption) => g.entry i := rfl
    have hentries := entries_foldlM_addConfigured hempty hnext
    cases h
    exact hentries

namespace Compiled

variable {options : Options} {program : Expr} {m : Module} {prepared : Module × Scopes}
  {v : Operand} {t : LowerState}

theorem globals_entries (h : Compiled options program m prepared v t) :
    m.globals.entries = options.globals.mapIdx fun i g => g.entry i := by
  have hkept : t.module.globals = prepared.1.globals := h.reaches.module.globals
  rw [h.module]
  change t.module.globals.entries = _
  rw [hkept, entries_of_prepare h.prepares]

theorem functions_entries (h : Compiled options program m prepared v t) :
    m.functions.entries = [(printName, .declared printSignature),
      (options.entry, ⟨options.signature, some t.returned.builder.body⟩)] := by
  have hkeys : options.entry ∉
      ((∅ : Table String Func).insert printName (.declared printSignature)).keys := by
    simpa [Table.keys_insert] using h.entry
  rw [h.module]
  change (t.module.functions.insert t.builder.signature.name
    ⟨t.builder.signature, some t.returned.builder.body⟩).entries = _
  rw [h.reaches.sound.functions, h.signature]
  exact Table.entries_insert_of_not_mem _ _ hkeys

end Compiled

/-- Defining the entry function adds no string. -/
theorem strings_of_finishModule {s : LowerState} {m : Module} (h : finishModule s = .ok m) :
    m.strings = s.module.strings := by
  unfold finishModule at h
  cases hfinish : s.builder.finish with
  | error e =>
    rw [hfinish] at h
    cases h
  | ok f =>
    rw [hfinish] at h
    rcases s.module.define_cases f with ⟨g, -, -, hdefine⟩ | ⟨-, hdefine⟩
    · simp only [Except.mapError, bind, Except.bind, hdefine] at h
      cases h
    · simp only [Except.mapError, bind, Except.bind, hdefine] at h
      split at h
      · cases h
      · cases h
        rfl

/-- The strings of a compiled module are those that lowering has left. -/
theorem exists_lower_of_compileExpr {options : Options} {program : Expr} {m : Module}
    {prepared : Module × Scopes} (h : compileExpr options program = .ok m)
    (hprepare : prepare options = .ok prepared) :
    ∃ v s, (Form.ofExpr options.strict program).lower (options.start prepared) = (.ok v, s) ∧
      m.strings = s.module.strings := by
  rw [compileExpr_eq hprepare] at h
  rcases hlower : lowerProgram (.ofExpr options.strict program) (options.start prepared) with
    ⟨e | ⟨⟩, s'⟩
  · rw [hlower] at h
    cases h
  · rw [hlower] at h
    obtain ⟨v, s, hform, hreturn⟩ := exists_of_bind_ok hlower
    refine ⟨v, s, hform, ?_⟩
    rw [← Lower.module_of_build hreturn]
    cases hfinish : finishModule s' with
    | error e =>
      simp only [hfinish] at h
      cases h
    | ok m' =>
      simp only [hfinish] at h
      cases h
      exact strings_of_finishModule hfinish

/-- **What a compiled module contains.** Its variables are the configured ones, in order and
numbered so; its functions are the print function, declared, and the entry function; its strings
are the distinct decoded texts of the literals of the program, in the order in which they are found
first, also those in branches that are not taken, each with its position as its number. All literals
are lowered, from left to right, and each to the number of the string that is its own text. -/
theorem compileExpr_contents {options : Options} {program : Expr} {m : Module}
    (h : compileExpr options program = .ok m) :
    (m.globals.entries = options.globals.mapIdx fun i g =>
      (g.name, ⟨⟨i⟩, g.name, .i32, .int g.value, false, 4⟩)) ∧
    (∃ body, m.functions.entries = [(printName, .declared printSignature),
      (options.entry, ⟨options.signature, some body⟩)]) ∧
    (m.strings = program.pool.mapIdx fun i value => ⟨⟨i⟩, value⟩) ∧
    ∃ prepared, prepare options = .ok prepared ∧
      (((Form.ofExpr options.strict program).calls (options.start prepared)).filterMap
        Call.literal? = program.texts.map fun raw =>
          (unescape raw, .ok (.str ⟨program.pool.idxOf (unescape raw)⟩))) ∧
      ∀ raw ∈ program.texts, m.string? ⟨program.pool.idxOf (unescape raw)⟩ =
        some ⟨⟨program.pool.idxOf (unescape raw)⟩, unescape raw⟩ := by
  obtain ⟨prepared, v, t, hc⟩ := compileExpr_compiled h
  obtain ⟨scopes, hprepared, -⟩ := hc.ready.configured
  obtain ⟨w, s, hlower, hstrings⟩ := exists_lower_of_compileExpr h hc.prepares
  have htexts : (Form.ofExpr options.strict program).texts = program.texts.map unescape :=
    HasForm.texts_eq _ (hc.lowered.hasForm program)
  have hpools : (options.start prepared).module.Pools [] := hprepared.strings
  have hall : [] ++ (Form.ofExpr options.strict program).texts <+: program.texts.map unescape := by
    simp [htexts]
  have hlowered := Form.lower_texts _ hlower hpools hall
  rw [htexts] at hlowered
  have hpool : m.Pools (program.texts.map unescape) := hstrings.trans hlowered.pools
  refine ⟨hc.globals_entries, ⟨_, hc.functions_entries⟩, hpool, prepared, hc.prepares, ?_, ?_⟩
  · rw [hlowered.literals, List.map_map]
    rfl
  · intro raw hraw
    exact hpool.string? (List.mem_map_of_mem hraw)

/-- `(begin "\q" (if (== 1 2) "a" "\\q") (printf "a"))`: the first and the third literal are spelled
differently and mean the same, and the branch with the second is not taken. -/
def repeatedLiterals : Expr :=
  .list [.symbol "begin", .text "\\q",
    .list [.symbol "if", .list [.symbol "==", .number 1, .number 2], .text "a", .text "\\\\q"],
    .list [.symbol "printf", .text "a"]]

theorem compileExpr_contents_repeatedLiterals :
    ∃ m, compileExpr .standard repeatedLiterals = .ok m ∧
      m.strings = [⟨⟨0⟩, "\\q"⟩, ⟨⟨1⟩, "a"⟩] ∧
      ∃ prepared, prepare .standard = .ok prepared ∧
        ((Form.ofExpr false repeatedLiterals).calls (Options.start .standard prepared)).filterMap
          Call.literal? = [("\\q", .ok (.str ⟨0⟩)), ("a", .ok (.str ⟨1⟩)), ("\\q", .ok (.str ⟨0⟩)),
            ("a", .ok (.str ⟨1⟩))] := by
  obtain ⟨m, hm⟩ := exists_of_isOk (x := compileExpr .standard repeatedLiterals)
    (by decide +kernel)
  obtain ⟨-, -, hstrings, prepared, hprepare, hliterals, -⟩ := compileExpr_contents hm
  have hpool : repeatedLiterals.pool = ["\\q", "a"] := by decide +kernel
  refine ⟨m, hm, ?_, prepared, hprepare, ?_⟩
  · rw [hstrings, hpool]
    rfl
  · refine hliterals.trans ?_
    decide +kernel

end SexprSsa
