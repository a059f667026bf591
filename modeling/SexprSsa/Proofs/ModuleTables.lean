/-
SexprSsa.Proofs.ModuleTables — the tables of a module only grow.

A module is asked for variables, strings, declarations and definitions, in any
order and with any arguments; a request that it refuses changes nothing. What a
request can do is said once, by `Module.Becomes`. The numbering of the tables
(`Module.Numbered`) and what is kept for good (`Module.Extends`) follow for one
request, and then for any row of them.

Main statement: `Module.tables_after`, about all rows of requests and all moments
in them: the tables are numbered, a number that was given out denotes what it was
given for, and a function that has a body keeps it.
-/
import SexprSsa.Ir.Module

namespace SexprSsa.Module

/-! ## Requests -/

/-- What a module can be asked for. -/
inductive Request where
  | addGlobal (name : String) (initial : Constant)
  | addString (value : String)
  | declare (signature : Signature)
  | define (f : Func)

/-- What a module answers. -/
inductive Reply where
  | global (id : GlobalId)
  | text (id : StrId)
  | done
  | refused (e : IrError)

/-- The module's answer to a request, and the module afterwards. -/
def take (m : Module) : Request → Reply × Module
  | .addGlobal name initial =>
      match m.addGlobal name initial with
      | .ok (id, m') => (.global id, m')
      | .error e => (.refused e, m)
  | .addString value => let (id, m') := m.addString value; (.text id, m')
  | .declare signature =>
      match m.declare signature with
      | .ok m' => (.done, m')
      | .error e => (.refused e, m)
  | .define f =>
      match m.define f with
      | .ok m' => (.done, m')
      | .error e => (.refused e, m)

/-- The module after a row of requests. -/
def after (m : Module) (requests : List Request) : Module :=
  requests.foldl (fun m r => (m.take r).2) m

/-! ## What a request can do -/

/-- The second module is the first after one request. -/
inductive Becomes (m : Module) : Module → Prop
  | same : Becomes m m
  | global {g : GlobalVar} : g.name ∉ m.globals.keys → g.id = ⟨m.globals.size⟩ →
      Becomes m { m with globals := m.globals.insert g.name g }
  | text {value : String} : (∀ s ∈ m.strings, s.value ≠ value) →
      Becomes m { m with strings := m.strings ++ [⟨⟨m.strings.length⟩, value⟩] }
  | function {f : Func} :
      (∀ g, m.func? f.name = some g → g.body = none ∧ g.signature = f.signature) →
      Becomes m { m with functions := m.functions.insert f.name f }

theorem addGlobal_cases (m : Module) (name : String) (initial : Constant) :
    m.globals.contains name = true ∧
        m.addGlobal name initial = .error (.duplicateSymbol name) ∨
      name ∉ m.globals.keys ∧ m.addGlobal name initial = .ok (⟨m.globals.size⟩, { m with
        globals := m.globals.insert name
          ⟨⟨m.globals.size⟩, name, initial.ty, initial, false, 4⟩ }) := by
  unfold addGlobal
  by_cases h : m.globals.contains name = true
  · exact .inl ⟨h, if_pos h⟩
  · exact .inr ⟨by simpa [Table.contains_eq] using h, if_neg h⟩

theorem addString_cases (m : Module) (value : String) :
    (∃ s ∈ m.strings, s.value = value ∧ m.addString value = (s.id, m)) ∨
      (∀ s ∈ m.strings, s.value ≠ value) ∧ m.addString value = (⟨m.strings.length⟩,
        { m with strings := m.strings ++ [⟨⟨m.strings.length⟩, value⟩] }) := by
  unfold addString
  split
  · next s hs =>
    exact .inl ⟨s, List.mem_of_find?_eq_some hs, by simpa using List.find?_some hs, rfl⟩
  · next hnone =>
    exact .inr ⟨fun s hs => by simpa using List.find?_eq_none.1 hnone s hs, rfl⟩

theorem declare_cases (m : Module) (signature : Signature) :
    (∃ f, m.func? signature.name = some f ∧ f.signature = signature ∧
        m.declare signature = .ok m) ∨
      (∃ f, m.func? signature.name = some f ∧ f.signature ≠ signature ∧
        m.declare signature = .error (.duplicateSymbol signature.name)) ∨
      m.func? signature.name = none ∧ m.declare signature = .ok
        { m with functions := m.functions.insert signature.name (.declared signature) } := by
  unfold declare
  split
  · next f hf =>
    by_cases h : f.signature = signature
    · exact .inl ⟨f, hf, h, if_pos h⟩
    · exact .inr (.inl ⟨f, hf, h, if_neg h⟩)
  · next hf => exact .inr (.inr ⟨hf, rfl⟩)

theorem define_cases (m : Module) (f : Func) :
    (∃ g, m.func? f.name = some g ∧ ¬ (g.body = none ∧ g.signature = f.signature) ∧
        m.define f = .error (.duplicateSymbol f.name)) ∨
      (∀ g, m.func? f.name = some g → g.body = none ∧ g.signature = f.signature) ∧
        m.define f = .ok { m with functions := m.functions.insert f.name f } := by
  unfold define
  split
  · next g hg =>
    by_cases h : g.isDeclaration ∧ g.signature = f.signature
    · refine .inr ⟨fun g' hg' => ?_, if_pos h⟩
      rw [hg] at hg'
      cases hg'
      exact ⟨by simpa [Func.isDeclaration] using h.1, h.2⟩
    · exact .inl ⟨g, hg, by simpa [Func.isDeclaration] using h, if_neg h⟩
  · next hnone => exact .inr ⟨fun g hg => by simp [hnone] at hg, rfl⟩

/-- A request leaves the module as it is or adds to one of its tables. -/
theorem becomes_take (m : Module) (r : Request) : m.Becomes (m.take r).2 := by
  cases r with
  | addGlobal name initial =>
    rcases m.addGlobal_cases name initial with ⟨-, h⟩ | ⟨hname, h⟩
    · simp only [take, h]
      exact .same
    · simp only [take, h]
      exact .global (g := ⟨_, name, _, _, _, _⟩) hname rfl
  | addString value =>
    rcases m.addString_cases value with ⟨s, -, -, h⟩ | ⟨hvalue, h⟩
    · simp only [take, h]
      exact .same
    · simp only [take, h]
      exact .text hvalue
  | declare signature =>
    rcases m.declare_cases signature with ⟨f, -, -, h⟩ | ⟨f, -, -, h⟩ | ⟨hnone, h⟩
    · simp only [take, h]
      exact .same
    · simp only [take, h]
      exact .same
    · simp only [take, h]
      exact .function (f := .declared signature) fun g hg => by
        rw [show m.func? signature.name = some g from hg] at hnone
        cases hnone
  | define f =>
    rcases m.define_cases f with ⟨g, -, -, h⟩ | ⟨hf, h⟩
    · simp only [take, h]
      exact .same
    · simp only [take, h]
      exact .function hf

/-! ## Numbered tables -/

/-- Variables and strings have their positions as numbers, no string occurs twice, and variables
and functions are listed under their own names. -/
structure Numbered (m : Module) : Prop where
  globals : ∀ {i : Nat} {key : String} {g : GlobalVar}, m.globals.at? i = some (key, g) →
    g.id = ⟨i⟩ ∧ key = g.name
  strings : ∀ {i : Nat} {s : StrConst}, m.strings[i]? = some s → s.id = ⟨i⟩
  distinct : (m.strings.map StrConst.value).Nodup
  functions : ∀ {i : Nat} {key : String} {f : Func}, m.functions.at? i = some (key, f) →
    key = f.name

theorem numbered_empty (name : String) : (Module.empty name).Numbered where
  globals h := by cases h
  strings h := by cases h
  distinct := List.nodup_nil
  functions h := by cases h

/-- A request keeps the tables numbered. -/
theorem Numbered.becomes {m m' : Module} (h : m.Numbered) (hbecomes : m.Becomes m') : m'.Numbered := by
  cases hbecomes with
  | same => exact h
  | @global g hname hid =>
    refine { h with globals := fun {i key g'} hg => ?_ }
    rcases m.globals.at?_of_at?_insert hg with ⟨rfl, rfl, hi⟩ | hg
    · rw [hi hname]
      exact ⟨hid, rfl⟩
    · exact h.globals hg
  | @text value hvalue =>
    refine { h with strings := fun {i s} hs => ?_, distinct := ?_ }
    · rw [List.getElem?_append] at hs
      split at hs
      · exact h.strings hs
      · obtain ⟨hi, rfl⟩ := List.getElem?_eq_some_iff.1 hs
        have hlast : i = m.strings.length := by
          rw [List.length_singleton] at hi
          omega
        simp [hlast]
    · rw [List.map_append, List.nodup_append]
      refine ⟨h.distinct, by simp, fun a ha b hb hab => ?_⟩
      obtain ⟨s, hs, rfl⟩ := List.mem_map.1 ha
      exact hvalue s hs (hab.trans (List.mem_singleton.1 hb))
  | @function f _ =>
    refine { h with functions := fun {i key g} hg => ?_ }
    rcases m.functions.at?_of_at?_insert hg with ⟨rfl, rfl, -⟩ | hg
    · rfl
    · exact h.functions hg

theorem Numbered.take {m : Module} (h : m.Numbered) (r : Request) : (m.take r).2.Numbered :=
  h.becomes (m.becomes_take r)

theorem Numbered.after {m : Module} (h : m.Numbered) (requests : List Request) :
    (m.after requests).Numbered := by
  induction requests generalizing m with
  | nil => exact h
  | cons r requests ih => exact ih (h.take r)

/-! ## What is kept for good -/

/-- What the first module has, the second has in the same place: variables and strings as they
are, and functions with their signatures and, if they have bodies, with their bodies. -/
structure Extends (m m' : Module) : Prop where
  globals : m.globals.entries <+: m'.globals.entries
  strings : m.strings <+: m'.strings
  functions : ∀ {i : Nat} {key : String} {f : Func}, m.functions.at? i = some (key, f) →
    ∃ g, m'.functions.at? i = some (key, g) ∧ g.signature = f.signature ∧ (f.body ≠ none → g = f)

theorem Extends.refl (m : Module) : m.Extends m where
  globals := List.prefix_rfl
  strings := List.prefix_rfl
  functions hf := ⟨_, hf, rfl, fun _ => rfl⟩

theorem Extends.trans {m m' m'' : Module} (h : m.Extends m') (h' : m'.Extends m'') :
    m.Extends m'' where
  globals := h.globals.trans h'.globals
  strings := h.strings.trans h'.strings
  functions hf := by
    obtain ⟨g, hg, hsignature, hbody⟩ := h.functions hf
    obtain ⟨g', hg', hsignature', hbody'⟩ := h'.functions hg
    refine ⟨g', hg', hsignature'.trans hsignature, fun hf => ?_⟩
    obtain rfl := hbody hf
    exact hbody' hf

/-- A request takes nothing away. -/
theorem Becomes.extends {m m' : Module} (h : m.Becomes m') : m.Extends m' := by
  cases h with
  | same => exact .refl m
  | global hname _ =>
    refine { Extends.refl m with globals := ?_ }
    rw [Table.entries_insert_of_not_mem _ _ hname]
    exact List.prefix_append ..
  | text _ => exact { Extends.refl m with strings := List.prefix_append .. }
  | @function f hf =>
    refine { Extends.refl m with functions := fun {i key g} hg => ?_ }
    refine ⟨_, m.functions.at?_insert f hg, ?_⟩
    by_cases hkey : key = f.name
    · have hfind : m.func? f.name = some g := by
        rw [← hkey]
        exact (Table.find?_eq_some_iff ..).2 (List.mem_of_getElem? hg)
      obtain ⟨hbody, hsignature⟩ := hf g hfind
      rw [if_pos hkey]
      exact ⟨hsignature.symm, fun h => absurd hbody h⟩
    · rw [if_neg hkey]
      exact ⟨rfl, fun _ => rfl⟩

theorem extends_take (m : Module) (r : Request) : m.Extends (m.take r).2 :=
  (m.becomes_take r).extends

theorem extends_after (m : Module) (requests : List Request) : m.Extends (m.after requests) := by
  induction requests generalizing m with
  | nil => exact .refl m
  | cons r requests ih => exact (m.extends_take r).trans (ih _)

/-! ## What a number denotes -/

theorem getElem?_of_prefix {α : Type} {l l' : List α} (h : l <+: l') {i : Nat} {a : α}
    (ha : l[i]? = some a) : l'[i]? = some a := by
  obtain ⟨hi, rfl⟩ := List.getElem?_eq_some_iff.1 ha
  exact List.prefix_iff_getElem?.1 h i hi

theorem Extends.global? {m m' : Module} (h : m.Extends m') {id : GlobalId} {g : GlobalVar}
    (hg : m.global? id = some g) : m'.global? id = some g := by
  obtain ⟨e, he, rfl⟩ := Option.map_eq_some_iff.1 hg
  have he' : m'.globals.at? id.index = some e := getElem?_of_prefix h.globals he
  rw [Module.global?, he']
  rfl

theorem Extends.string? {m m' : Module} (h : m.Extends m') {id : StrId} {s : StrConst}
    (hs : m.string? id = some s) : m'.string? id = some s :=
  getElem?_of_prefix h.strings hs

/-- A function that has a body stays what it is. -/
theorem Extends.func? {m m' : Module} (h : m.Extends m') {name : String} {f : Func}
    (hf : m.func? name = some f) (hbody : f.body ≠ none) : m'.func? name = some f := by
  obtain ⟨i, hi⟩ := List.mem_iff_getElem?.1 ((Table.find?_eq_some_iff ..).1 hf)
  obtain ⟨g, hg, -, hsame⟩ := h.functions hi
  obtain rfl := hsame hbody
  exact (Table.find?_eq_some_iff ..).2 (List.mem_of_getElem? hg)

/-- The number of a new variable denotes it. -/
theorem global?_of_addGlobal {m m' : Module} {name : String} {initial : Constant} {id : GlobalId}
    (h : m.addGlobal name initial = .ok (id, m')) :
    m'.global? id = some ⟨id, name, initial.ty, initial, false, 4⟩ := by
  rcases m.addGlobal_cases name initial with ⟨-, he⟩ | ⟨hname, he⟩
  · rw [he] at h
    cases h
  · rw [he] at h
    cases h
    simp [Module.global?, Table.at?, Table.entries_insert_of_not_mem _ _ hname, Table.size]

/-- The number of a string denotes it. -/
theorem Numbered.string?_addString {m : Module} (h : m.Numbered) (value : String) :
    (m.addString value).2.string? (m.addString value).1 =
      some ⟨(m.addString value).1, value⟩ := by
  rcases m.addString_cases value with ⟨s, hs, rfl, he⟩ | ⟨-, he⟩
  · rw [he]
    obtain ⟨i, hi⟩ := List.mem_iff_getElem?.1 hs
    rw [Module.string?, h.strings hi]
    simp [hi, ← h.strings hi]
  · rw [he]
    simp [Module.string?]

/-- No two strings are equal. -/
theorem Numbered.string?_inj {m : Module} (h : m.Numbered) {id id' : StrId} {s s' : StrConst}
    (hs : m.string? id = some s) (hs' : m.string? id' = some s') (hvalue : s.value = s'.value) :
    id = id' := by
  have hvalues : (m.strings.map StrConst.value)[id.index]? =
      (m.strings.map StrConst.value)[id'.index]? := by
    rw [List.getElem?_map, List.getElem?_map, show m.strings[id.index]? = some s from hs,
      show m.strings[id'.index]? = some s' from hs', Option.map_some, Option.map_some, hvalue]
  have hid : id.index < (m.strings.map StrConst.value).length := by
    rw [List.length_map]
    exact (List.getElem?_eq_some_iff.1 hs).1
  have hindex := (List.getElem?_inj hid h.distinct).1 hvalues
  cases id
  cases id'
  cases hindex
  rfl

/-- Strings asked for at two moments have the same number exactly if they are equal. -/
theorem Numbered.addString_eq_iff {m : Module} (h : m.Numbered) (more : List Request)
    (value value' : String) :
    (m.addString value).1 = (((m.addString value).2.after more).addString value').1 ↔
      value = value' := by
  have hfirst : (m.addString value).2.Numbered := h.take (.addString value)
  have hlater := hfirst.after more
  have hlast : (((m.addString value).2.after more).addString value').2.Numbered :=
    hlater.take (.addString value')
  have hextends := ((m.addString value).2.extends_after more).trans
    (extends_take _ (.addString value'))
  have hs := hextends.string? (h.string?_addString value)
  have hs' := hlater.string?_addString value'
  constructor
  · intro he
    rw [← he] at hs'
    have hsame := hs.symm.trans hs'
    cases hsame
    rfl
  · rintro rfl
    exact hlast.string?_inj hs hs' rfl

/-! ## Refused requests -/

/-- The request is about a name that is taken. -/
def Request.Clashes (m : Module) (taken : String) : Request → Prop
  | .addGlobal name _ => name = taken ∧ name ∈ m.globals.keys
  | .addString _ => False
  | .declare signature =>
      signature.name = taken ∧ ∃ f, m.func? taken = some f ∧ f.signature ≠ signature
  | .define f => f.name = taken ∧
      ∃ g, m.func? taken = some g ∧ ¬ (g.body = none ∧ g.signature = f.signature)

/-- Exactly the requests about names that are taken are refused, and the refusal says the name. -/
theorem take_refused_iff {m : Module} {r : Request} {e : IrError} :
    (m.take r).1 = .refused e ↔ ∃ taken, r.Clashes m taken ∧ e = .duplicateSymbol taken := by
  cases r with
  | addGlobal name initial =>
    rcases m.addGlobal_cases name initial with ⟨hname, h⟩ | ⟨hname, h⟩
    · have hkey : name ∈ m.globals.keys := by simpa [Table.contains_eq] using hname
      simp [take, h, Request.Clashes, hkey, eq_comm]
    · simp [take, h, Request.Clashes, hname]
  | addString value => simp [take, Request.Clashes]
  | declare signature =>
    rcases m.declare_cases signature with ⟨f, hf, hs, h⟩ | ⟨f, hf, hs, h⟩ | ⟨hnone, h⟩
    · simp [take, h, Request.Clashes, hf, hs]
    · simp only [take, h, Reply.refused.injEq]
      constructor
      · rintro rfl
        exact ⟨_, ⟨rfl, f, hf, hs⟩, rfl⟩
      · rintro ⟨_, ⟨rfl, -⟩, rfl⟩
        rfl
    · simp [take, h, Request.Clashes, hnone]
  | define f =>
    rcases m.define_cases f with ⟨g, hg, hs, h⟩ | ⟨hf, h⟩
    · simp only [take, h, Reply.refused.injEq]
      constructor
      · rintro rfl
        exact ⟨_, ⟨rfl, g, hg, hs⟩, rfl⟩
      · rintro ⟨_, ⟨rfl, -⟩, rfl⟩
        rfl
    · simp only [take, h, Request.Clashes, reduceCtorEq, false_iff]
      rintro ⟨taken, ⟨rfl, g, hg, hs⟩, -⟩
      exact hs (hf g hg)

/-- A request that is refused changes nothing. -/
theorem take_refused {m : Module} {r : Request} {e : IrError} (h : (m.take r).1 = .refused e) :
    (m.take r).2 = m := by
  cases r with
  | addString value => cases h
  | addGlobal name initial =>
    simp only [take] at h ⊢
    split at h
    · cases h
    · rfl
  | declare signature =>
    simp only [take] at h ⊢
    split at h
    · cases h
    · rfl
  | define f =>
    simp only [take] at h ⊢
    split at h
    · cases h
    · rfl

/-- A number that a request for a variable is answered with is that of the new variable. -/
theorem take_addGlobal {m : Module} {name : String} {initial : Constant} {id : GlobalId}
    (h : (m.take (.addGlobal name initial)).1 = .global id) :
    m.addGlobal name initial = .ok (id, (m.take (.addGlobal name initial)).2) := by
  simp only [take] at h ⊢
  split at h
  · next he =>
    cases h
    exact he
  · cases h

/-- **The tables of a module only grow.** Take any row of requests that starts with an empty module,
and any moment in it. The tables are numbered; all that is there stays in its place, declarations
may turn into definitions with the same signature, and functions with bodies stay what they are.
The number that is then given out for a variable or a string always denotes what it was given for;
strings get the same number exactly if they are equal. A refused request changes nothing. -/
theorem tables_after (name : String) (before more : List Request) :
    let m := (Module.empty name).after before
    m.Numbered ∧ m.Extends (m.after more) ∧
    (∀ key f, m.func? key = some f → f.body ≠ none → (m.after more).func? key = some f) ∧
    (∀ var initial id, (m.take (.addGlobal var initial)).1 = .global id →
      ((m.take (.addGlobal var initial)).2.after more).global? id =
        some ⟨id, var, initial.ty, initial, false, 4⟩) ∧
    (∀ value, ∃ id, (m.take (.addString value)).1 = .text id ∧
      ((m.take (.addString value)).2.after more).string? id = some ⟨id, value⟩) ∧
    (∀ value value', (m.take (.addString value)).1 =
      (((m.take (.addString value)).2.after more).take (.addString value')).1 ↔ value = value') ∧
    ∀ r e, (m.take r).1 = .refused e → (m.take r).2 = m := by
  intro m
  have hm : m.Numbered := (numbered_empty name).after before
  have hextends := m.extends_after more
  refine ⟨hm, hextends, fun key f => hextends.func?, fun var initial id h => ?_, fun value => ?_,
    fun value value' => ?_, fun r e => take_refused⟩
  · exact (extends_after _ more).global? (global?_of_addGlobal (take_addGlobal h))
  · exact ⟨_, rfl, (extends_after _ more).string? (hm.string?_addString value)⟩
  · rw [← hm.addString_eq_iff more value value']
    exact Reply.text.injEq .. ▸ Iff.rfl

/-- A second variable of the same name is refused. -/
theorem tables_after_refused :
    let m := (Module.empty "demo").after [.addString "a", .addGlobal "x" (.int 1)]
    (m.take (.addGlobal "x" (.int 2))).1 = .refused (.duplicateSymbol "x") ∧
      (m.take (.addGlobal "x" (.int 2))).2 = m := by
  intro m
  have hrefused : (m.take (.addGlobal "x" (.int 2))).1 = .refused (.duplicateSymbol "x") := rfl
  exact ⟨hrefused, (tables_after "demo" _ []).2.2.2.2.2.2 _ _ hrefused⟩

end SexprSsa.Module
