/-
SexprSsa.Proofs.Control — what one step does with control, and where it stops.

Control goes on in its block, over an edge to another block, into a function
that is called, or back to one that waits; nothing else (`Config.Moves`). A
step that fails does so over the data it computes with or at one of few places
of control (`Config.Stops`). Both are said once, by `Config.step_ends`, for all
instructions and terminators and for any module, checked or not.

What holds of a frame wherever a function is entered and is kept while the
function runs holds of all frames of a run, also of those that wait
(`Frame.Kept`, `Steps.frames`); first of all that the frame stands in a block
of a function of the module (`Frame.Within`).
-/
import SexprSsa.Proofs.Steps
import Mathlib.Data.List.Basic

namespace SexprSsa.Machine

/-! ## Computations that return or fail -/

section
variable {α β : Type}

/-- A computation returns what `post` says or fails by a fault that is allowed. -/
def Ends (x : Except Fault α) (post : α → Prop) (allowed : Fault → Prop) : Prop :=
  match x with
  | .ok a => post a
  | .error fault => allowed fault

namespace Ends

variable {x : Except Fault α} {post : α → Prop} {allowed : Fault → Prop}

theorem ok (h : Ends x post allowed) {a : α} (hx : x = .ok a) : post a := by
  rwa [hx] at h

theorem error (h : Ends x post allowed) {fault : Fault} (hx : x = .error fault) :
    allowed fault := by
  rwa [hx] at h

theorem bind {f : α → Except Fault β} {post' : β → Prop} (hx : Ends x post allowed)
    (hf : ∀ a, x = .ok a → post a → Ends (f a) post' allowed) :
    Ends (x >>= f) post' allowed := by
  cases x with
  | error fault => exact hx
  | ok a => exact hf a rfl hx

theorem weaken {allowed' : Fault → Prop} (h : Ends x post allowed)
    (hallowed : ∀ fault, allowed fault → allowed' fault) : Ends x post allowed' := by
  cases x with
  | error fault => exact hallowed fault h
  | ok a => exact h

theorem mapM {f : β → Except Fault α} {l : List β}
    (h : ∀ b ∈ l, Ends (f b) (fun _ => True) allowed) :
    Ends (l.mapM f) (fun _ => True) allowed := by
  induction l with
  | nil => trivial
  | cons b rest ih =>
    obtain ⟨hb, hrest⟩ := List.forall_mem_cons.1 h
    rw [List.mapM_cons]
    exact hb.bind fun a _ _ => (ih hrest).bind fun more _ _ => trivial

end Ends

end

/-! ## Faults over data -/

/-- The fault is over a value that is missing or not of the kind that is needed, whatever the
course of control. -/
def Fault.IsData : Fault → Prop
  | .uninitialized _ | .loadUnknown _ | .loadFrom _ | .storeUnknown _ | .storeTo _
  | .divisionByZero | .unevaluated _ | .functionAsValue _ | .notInteger _ | .unknownString _
  | .notString _ | .danglingPercent | .missingArgument _ | .unsupported _ => True
  | _ => False

variable {m : Module}

theorem ends_toInt32 (v : Value) : Ends v.toInt32 (fun _ => True) Fault.IsData := by
  cases v <;> trivial

theorem ends_stringOf (m : Module) (v : Value) :
    Ends (stringOf m v) (fun _ => True) Fault.IsData := by
  unfold stringOf
  split
  · split <;> trivial
  · trivial

theorem ends_convert (m : Module) (c : Char) (v : Value) :
    Ends (convert m c v) (fun _ => True) Fault.IsData := by
  unfold convert
  split
  case h_6 => exact (ends_stringOf m v).bind fun _ _ _ => trivial
  case h_7 => trivial
  all_goals exact (ends_toInt32 v).bind fun _ _ _ => trivial

theorem ends_format (m : Module) (text : List Char) (args : List Value) :
    Ends (format m text args) (fun _ => True) Fault.IsData := by
  fun_induction format m text args with
  | case1 => trivial
  | case2 => trivial
  | case3 args rest ih => exact ih.bind fun _ _ _ => trivial
  | case4 => trivial
  | case5 conversion rest value args hpercent ih =>
    exact (ends_convert m conversion value).bind fun _ _ _ => ih.bind fun _ _ _ => trivial
  | case6 c rest args _ _ _ _ ih => exact ih.bind fun _ _ _ => trivial

theorem ends_print {template : Value} {args : List Value} :
    Ends (print m (template :: args)) (fun _ => True) Fault.IsData :=
  (ends_stringOf m template).bind fun text _ _ =>
    (ends_format m text.toList args).bind fun _ _ _ => trivial

theorem Frame.ends_read (f : Frame) (o : Operand) :
    Ends (f.read o) (fun _ => True) Fault.IsData := by
  cases o with
  | temp id =>
    unfold Frame.read
    dsimp only
    split <;> trivial
  | const value => trivial
  | slot id => trivial
  | global id => trivial
  | str id => trivial
  | func name => trivial

theorem Frame.ends_readInt (f : Frame) (o : Operand) :
    Ends (f.readInt o) (fun _ => True) Fault.IsData :=
  (f.ends_read o).bind fun v _ _ => ends_toInt32 v

theorem Config.ends_load (c : Config) (address : Value) :
    Ends (c.load address) (fun _ => True) Fault.IsData := by
  unfold Config.load
  split
  · split <;> trivial
  · split <;> trivial
  · trivial

/-- A store changes the slots of the running function or the variables of the module. -/
theorem Config.ends_store (c : Config) (v address : Value) :
    Ends (c.store v address)
      (fun c' => (∃ slots, c'.frame = { c.frame with slots }) ∧ c'.callers = c.callers)
      Fault.IsData := by
  unfold Config.store
  split
  · exact ⟨⟨_, rfl⟩, rfl⟩
  · split
    · exact ⟨⟨_, rfl⟩, rfl⟩
    · trivial
  · trivial

/-! ## Calls -/

/-- Why a function cannot be called with these arguments. -/
inductive Refused (m : Module) (name : String) (args : List Value) : Fault → Prop
  | notFound : m.func? name = none → Refused m name args (.functionNotFound name)
  | arity {f : Func} : m.func? name = some f → f.signature.accepts args.length = false →
      Refused m name args (.wrongArity name args.length)
  | missingEntry {f : Func} {body : Body} : m.func? name = some f → f.body = some body →
      body.block? body.entry = none → Refused m name args (.missingBlock body.entry)
  | notProvided {f : Func} : m.func? name = some f → f.body = none → name ≠ printName →
      Refused m name args (.notProvided name)
  | noFormat {f : Func} : m.func? name = some f → f.body = none → name = printName →
      f.signature.accepts args.length = true → args = [] → Refused m name args .noFormat
  | data {fault : Fault} : fault.IsData → Refused m name args fault

/-- The frame at the start of a function. -/
def Frame.Begins (body : Body) (f : Frame) : Prop :=
  ∃ b, body.block? body.entry = some b ∧
    f = ⟨body, body.entry, b.instrs, b.terminator, none, ∅, ∅⟩

/-- What a call leads to: a function of the module begins, or a provided one has run. -/
theorem invoke_ends (m : Module) (name : String) (args : List Value) :
    Ends (invoke m name args)
      (fun invocation => ∀ frame, invocation = .entered frame →
        ∃ f body, m.func? name = some f ∧ f.body = some body ∧ frame.Begins body)
      (Refused m name args) := by
  unfold invoke
  cases hf : m.func? name with
  | none => exact .notFound hf
  | some f =>
    dsimp only
    by_cases haccepts : f.signature.accepts args.length = true
    · rw [if_pos haccepts]
      cases hbody : f.body with
      | some body =>
        cases hentry : body.block? body.entry with
        | none =>
          simp only [enterBlock, hentry]
          exact .missingEntry hf hbody hentry
        | some b =>
          simp only [enterBlock, hentry]
          rintro frame ⟨⟩
          exact ⟨f, body, rfl, hbody, b, hentry, rfl⟩
      | none =>
        dsimp only
        split
        · next hname =>
          cases args with
          | nil => exact .noFormat hf hbody hname haccepts rfl
          | cons template args =>
            exact (ends_print.weaken fun _ h => .data h).bind fun text _ _ => nofun
        · next hname => exact .notProvided hf hbody hname
    · rw [if_neg haccepts]
      exact .arity hf (by simpa using haccepts)

/-! ## Steps -/

namespace Config

/-- Where control goes in one step. -/
inductive Moves (m : Module) (c : Config) : Config → Prop
  /-- An instruction is done. -/
  | on {c' : Config} {i : Instr} {code : List Instr} {values slots : Memory} :
      c.frame.code = i :: code → c'.frame = { c.frame with code, values, slots } →
      c'.callers = c.callers → Moves m c c'
  /-- The block is left for another. -/
  | along {c' : Config} {q : BlockId} : c.frame.code = [] → q ∈ c.frame.exit.successors →
      c.frame.goto q = .ok c'.frame → c'.callers = c.callers → Moves m c c'
  /-- A function is called. -/
  | into {c' : Config} {result : ValueId} {callee : String} {args : List Operand}
      {code : List Instr} {f : Func} {body : Body} :
      c.frame.code = .call result callee args :: code → m.func? callee = some f →
      f.body = some body → c'.frame.Begins body →
      c'.callers = ⟨{ c.frame with code }, result, callee⟩ :: c.callers → Moves m c c'
  /-- A function returns to one that waits. -/
  | back {c' : Config} {caller : Suspended} {value : Value} : c.frame.code = [] →
      c.callers = caller :: c'.callers → c'.frame = caller.frame.assign caller.result value →
      Moves m c c'

/-- Where and why a step can fail. -/
inductive Stops (m : Module) (c : Config) : Fault → Prop
  | data {fault : Fault} : fault.IsData → Stops m c fault
  | noPredecessor {result : ValueId} {ty : Ty} {entries : List (Operand × BlockId)}
      {code : List Instr} : c.frame.code = .phi result ty entries :: code →
      c.frame.cameFrom = none → Stops m c (.noPredecessor c.frame.block)
  | noIncoming {result : ValueId} {ty : Ty} {entries : List (Operand × BlockId)}
      {code : List Instr} {p : BlockId} : c.frame.code = .phi result ty entries :: code →
      c.frame.cameFrom = some p → p ∉ entries.map Prod.snd →
      Stops m c (.noIncoming c.frame.block p)
  | call {result : ValueId} {callee : String} {args : List Operand} {code : List Instr}
      {values : List Value} {fault : Fault} : c.frame.code = .call result callee args :: code →
      args.mapM c.frame.read = .ok values → Refused m callee values fault → Stops m c fault
  | missingTarget {q : BlockId} : c.frame.code = [] → q ∈ c.frame.exit.successors →
      c.frame.body.block? q = none → Stops m c (.missingBlock q)
  | unterminated : c.frame.code = [] → c.frame.exit = .missing →
      Stops m c (.unterminated c.frame.block)
  | noResult {caller : Suspended} {callers : List Suspended} : c.frame.code = [] →
      c.callers = caller :: callers → c.frame.exit = .ret none →
      Stops m c (.noResult caller.callee)

variable {c : Config}

theorem ends_incoming {result : ValueId} {ty : Ty} {entries : List (Operand × BlockId)}
    {code : List Instr} (hcode : c.frame.code = .phi result ty entries :: code) :
    Ends (c.frame.incoming entries) (fun _ => True) (c.Stops m) := by
  unfold Frame.incoming
  split
  · next hfrom => exact .noPredecessor hcode hfrom
  · next p hfrom =>
    split
    · trivial
    · next hnone =>
      refine .noIncoming hcode hfrom fun hmem => ?_
      obtain ⟨entry, hentry, rfl⟩ := List.mem_map.1 hmem
      simpa using List.find?_eq_none.1 hnone entry hentry

/-- An instruction goes on in its block or enters a function. -/
theorem ends_execute {i : Instr} {code : List Instr} (hcode : c.frame.code = i :: code) :
    Ends (execute m { c with frame := { c.frame with code } } i) (c.Moves m) (c.Stops m) := by
  have hdata {α : Type} {x : Except Fault α} {post : α → Prop}
      (h : Ends x post Fault.IsData) : Ends x post (c.Stops m) := h.weaken fun _ => .data
  cases i with
  | alloca slot ty name => exact .on hcode rfl rfl
  | load result ty address =>
    refine (hdata (Frame.ends_read _ address)).bind fun a _ _ => ?_
    exact (hdata (ends_load _ a)).bind fun v _ _ => .on hcode rfl rfl
  | store address value =>
    refine (hdata (Frame.ends_read _ value)).bind fun v _ _ => ?_
    refine (hdata (Frame.ends_read _ address)).bind fun a _ _ => ?_
    have hstore := ends_store { c with frame := { c.frame with code } } v a
    unfold Ends at hstore ⊢
    split
    · next c' hc' =>
      rw [hc'] at hstore
      obtain ⟨⟨slots, hframe⟩, hcallers⟩ := hstore
      exact .on hcode hframe hcallers
    · next fault hfault =>
      rw [hfault] at hstore
      exact .data hstore
  | arith result op left right =>
    refine (hdata (Frame.ends_readInt _ left)).bind fun l _ _ => ?_
    refine (hdata (Frame.ends_readInt _ right)).bind fun r _ _ => ?_
    cases op.eval? l r with
    | none => exact .data trivial
    | some value => exact .on hcode rfl rfl
  | compare result cond left right =>
    refine (hdata (Frame.ends_readInt _ left)).bind fun l _ _ => ?_
    exact (hdata (Frame.ends_readInt _ right)).bind fun r _ _ => .on hcode rfl rfl
  | call result callee args =>
    have hargs := Ends.mapM fun o (_ : o ∈ args) => Frame.ends_read { c.frame with code } o
    refine (hdata hargs).bind fun values hvalues _ => ?_
    refine ((invoke_ends m callee values).weaken fun _ h => .call hcode hvalues h).bind
      fun invocation _ hinvocation => ?_
    cases invocation with
    | entered frame =>
      obtain ⟨f, body, hf, hbody, hbegins⟩ := hinvocation frame rfl
      exact .into hcode hf hbody hbegins rfl
    | provided written value => exact .on hcode rfl rfl
  | phi result ty entries =>
    refine (ends_incoming hcode).bind fun o _ _ => ?_
    exact (hdata (Frame.ends_read _ o)).bind fun v _ _ => .on hcode rfl rfl

/-- What a step leads to, unless the run is over. -/
def MovesTo (m : Module) (c : Config) : Next → Prop
  | .running c' => c.Moves m c'
  | .halted _ _ => c.frame.code = [] ∧ c.callers = []

theorem ends_goto (hcode : c.frame.code = []) {q : BlockId} (hq : q ∈ c.frame.exit.successors) :
    Ends (c.goto q) (c.MovesTo m) (c.Stops m) := by
  cases hblock : c.frame.body.block? q with
  | none =>
    simp only [goto, Frame.goto, enterBlock, hblock]
    exact .missingTarget hcode hq hblock
  | some b =>
    simp only [goto, Frame.goto, enterBlock, hblock]
    refine Moves.along hcode hq ?_ rfl
    simp only [Frame.goto, enterBlock, hblock]

theorem ends_leave (hcode : c.frame.code = []) {result : Option Value}
    (hresult : result = none → c.frame.exit = .ret none) :
    Ends (c.leave result) (c.MovesTo m) (c.Stops m) := by
  unfold leave
  cases hcallers : c.callers with
  | nil => exact ⟨hcode, hcallers⟩
  | cons caller callers =>
    cases result with
    | none => exact .noResult hcode hcallers (hresult rfl)
    | some value => exact Moves.back hcode hcallers rfl

theorem ends_terminate (hcode : c.frame.code = []) :
    Ends (c.terminate c.frame.exit) (c.MovesTo m) (c.Stops m) := by
  have hdata {α : Type} {x : Except Fault α} {post : α → Prop}
      (h : Ends x post Fault.IsData) : Ends x post (c.Stops m) := h.weaken fun _ => .data
  have hgoto : ∀ q ∈ c.frame.exit.successors, Ends (c.goto q) (c.MovesTo m) (c.Stops m) :=
    fun q hq => ends_goto hcode hq
  cases hexit : c.frame.exit with
  | missing => exact .unterminated hcode hexit
  | jump target => exact hgoto target (by simp [hexit, Terminator.successors])
  | branch condition yes no =>
    refine (hdata (c.frame.ends_read condition)).bind fun v _ _ => ?_
    cases v.isTrue with
    | true => exact hgoto yes (by simp [hexit, Terminator.successors])
    | false => exact hgoto no (by simp [hexit, Terminator.successors])
  | ret value =>
    cases value with
    | none => exact ends_leave hcode fun _ => hexit
    | some value =>
      exact (hdata (c.frame.ends_read value)).bind fun v _ _ => ends_leave hcode nofun

/-- **One step moves control in one of four ways, ends the run, or stops where it may.** -/
theorem step_ends (m : Module) (c : Config) : Ends (c.step m) (c.MovesTo m) (c.Stops m) := by
  unfold step
  split
  · next i code hcode =>
    exact (ends_execute hcode).bind fun c' _ hmoves => hmoves
  · next hcode => exact ends_terminate hcode

theorem step_moves {c' : Config} (h : c.step m = .ok (.running c')) : c.Moves m c' :=
  (step_ends m c).ok h

theorem step_stops {fault : Fault} (h : c.step m = .error fault) : c.Stops m fault :=
  (step_ends m c).error h

end Config

/-! ## Frames -/

/-- What the frames of a run have if functions begin with it and running keeps it. -/
structure Frame.Kept (m : Module) (inv : Frame → Prop) : Prop where
  begins : ∀ {name : String} {g : Func} {body : Body} {f : Frame}, m.func? name = some g →
    g.body = some body → f.Begins body → inv f
  taken : ∀ {f : Frame} {i : Instr} {code : List Instr}, inv f → f.code = i :: code →
    inv { f with code }
  computed : ∀ {f : Frame} (values slots : Memory), inv f → inv { f with values, slots }
  moved : ∀ {f f' : Frame} {q : BlockId}, inv f → q ∈ f.exit.successors → f.goto q = .ok f' →
    inv f'

/-- A property of the frame that runs and of those that wait. -/
def Config.Frames (inv : Frame → Prop) (c : Config) : Prop :=
  inv c.frame ∧ ∀ caller ∈ c.callers, inv caller.frame

namespace Frame.Kept

variable {inv : Frame → Prop}

theorem moves (hkept : Frame.Kept m inv) {c c' : Config} (h : c.Frames inv)
    (hmoves : c.Moves m c') : c'.Frames inv := by
  obtain ⟨hframe, hcallers⟩ := h
  cases hmoves with
  | on hcode hframe' hcallers' =>
    refine ⟨?_, hcallers' ▸ hcallers⟩
    rw [hframe']
    exact hkept.computed _ _ (hkept.taken hframe hcode)
  | along hcode hq hgoto hcallers' =>
    exact ⟨hkept.moved hframe hq hgoto, hcallers' ▸ hcallers⟩
  | into hcode hf hbody hbegins hcallers' =>
    refine ⟨hkept.begins hf hbody hbegins, ?_⟩
    rw [hcallers']
    exact List.forall_mem_cons.2 ⟨hkept.taken hframe hcode, hcallers⟩
  | back hcode hcallers' hframe' =>
    rw [hcallers'] at hcallers
    obtain ⟨hcaller, hothers⟩ := List.forall_mem_cons.1 hcallers
    refine ⟨?_, hothers⟩
    rw [hframe']
    exact hkept.computed _ _ hcaller

theorem steps (hkept : Frame.Kept m inv) {n : Nat} {c c' : Config} (h : Steps m n c c')
    (hc : c.Frames inv) : c'.Frames inv := by
  induction h with
  | refl => exact hc
  | next hstep _ ih => exact ih (hkept.moves hc (Config.step_moves hstep))

end Frame.Kept

/-! ## Runs -/

/-- A state that some run of a function comes to, given a limit that is high enough. -/
def Visits (m : Module) (entry : String) (n : Nat) (c : Config) : Prop :=
  ∃ frame, invoke m entry [] = .ok (.entered frame) ∧ Steps m n (.initial m frame) c

/-- What every function begins with and keeps holds of all frames of a run. -/
theorem Visits.frames {inv : Frame → Prop} (hkept : Frame.Kept m inv) {entry : String} {n : Nat}
    {c : Config} (h : Visits m entry n c) : c.Frames inv := by
  obtain ⟨frame, hinvoke, hsteps⟩ := h
  obtain ⟨f, body, hf, hbody, hbegins⟩ := (invoke_ends m entry []).ok hinvoke frame rfl
  exact hkept.steps hsteps ⟨hkept.begins hf hbody hbegins, nofun⟩

theorem resume_error {limit left : Nat} {c : Config} {fault : Fault}
    (h : resume m limit left c = .error fault) :
    fault = .stepLimit limit ∨
      ∃ n c', n < left ∧ Steps m n c c' ∧ c'.step m = .error fault := by
  induction left generalizing c with
  | zero => exact .inl (Except.error.inj h).symm
  | succ left ih =>
    rw [resume] at h
    cases hstep : c.step m with
    | error e =>
      rw [hstep] at h
      cases h
      exact .inr ⟨0, c, Nat.succ_pos _, .refl, hstep⟩
    | ok next =>
      rw [hstep] at h
      cases next with
      | halted result output => cases h
      | running c' =>
        rcases ih h with hlimit | ⟨n, c'', hn, hsteps, hfault⟩
        · exact .inl hlimit
        · exact .inr ⟨n + 1, c'', Nat.succ_lt_succ hn, .next hstep hsteps, hfault⟩

/-- **A run that fails has reached its limit, could not start, or stops in a state that it came
to.** -/
theorem run_error {limit : Nat} {entry : String} {fault : Fault}
    (h : run m limit entry = .error fault) :
    fault = .stepLimit limit ∨ Refused m entry [] fault ∨
      ∃ n c, n < limit ∧ Visits m entry n c ∧ c.Stops m fault := by
  unfold run at h
  cases hinvoke : invoke m entry [] with
  | error e =>
    rw [hinvoke] at h
    cases h
    exact .inr (.inl ((invoke_ends m entry []).error hinvoke))
  | ok invocation =>
    rw [hinvoke] at h
    cases invocation with
    | provided written value => cases h
    | entered frame =>
      refine (resume_error h).imp id fun ⟨n, c, hn, hsteps, hfault⟩ => .inr ?_
      exact ⟨n, c, hn, ⟨frame, hinvoke, hsteps⟩, Config.step_stops hfault⟩

/-! ## Standing in a block -/

/-- Control stands in a block of a function of the module. -/
structure Frame.Within (m : Module) (f : Frame) : Prop where
  func : ∃ name g, m.func? name = some g ∧ g.body = some f.body
  block : ∃ b, f.body.block? f.block = some b ∧ f.code <:+ b.instrs ∧ f.exit = b.terminator

theorem Frame.goto_eq_ok {f f' : Frame} {q : BlockId} (h : f.goto q = .ok f') :
    ∃ b, f.body.block? q = some b ∧
      f' = ⟨f.body, q, b.instrs, b.terminator, some f.block, f.values, f.slots⟩ := by
  unfold Frame.goto enterBlock at h
  split at h
  · next b hb =>
    cases h
    exact ⟨b, hb, rfl⟩
  · cases h

theorem Frame.Within.kept (m : Module) : Frame.Kept m (Frame.Within m) where
  begins {name g body f} hg hbody hbegins := by
    obtain ⟨b, hb, rfl⟩ := hbegins
    exact ⟨⟨name, g, hg, hbody⟩, b, hb, List.suffix_refl _, rfl⟩
  taken h hcode := by
    obtain ⟨b, hb, hsuffix, hexit⟩ := h.block
    rw [hcode] at hsuffix
    exact ⟨h.func, b, hb, (List.suffix_cons _ _).trans hsuffix, hexit⟩
  computed _ _ h := ⟨h.func, h.block⟩
  moved h _ hgoto := by
    obtain ⟨b, hb, rfl⟩ := Frame.goto_eq_ok hgoto
    exact ⟨h.func, b, hb, List.suffix_refl _, rfl⟩

end SexprSsa.Machine
