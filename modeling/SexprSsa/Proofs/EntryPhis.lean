/-
SexprSsa.Proofs.EntryPhis — where a phi finds no predecessor.

A phi takes the operand that is listed for the block that control came from.
The check compares the list with the predecessors in the body, so a phi has an
operand for every edge. Control also comes to the entry block from outside,
when the function is called, and then there is no block that it came from. The
check does not look at this way in (`run_entryPhi`).

Main statement: `run_phis_resolve`. In a built and verified module this is the
only way a phi is left without an operand: if no entry block has a phi, none
is, and if the entry block of the function that is run has one, no run of it
goes past it.
-/
import SexprSsa.Proofs.Checked
import SexprSsa.Proofs.Control
import SexprSsa.Proofs.VerifiedRuns

namespace SexprSsa

/-! ## Phis at the start of a block -/

namespace Body

/-- The entry block has a phi. -/
def EntryPhi (body : Body) : Prop :=
  ∃ b, body.block? body.entry = some b ∧ ∃ i ∈ b.instrs, i.isPhi = true

variable {m : Module} {body : Body} {b : Block}

/-- After an instruction that is no phi the check accepts no phi. -/
theorem not_isPhi_of_late {instrs : List Instr} (h : body.checkInstrs m b true instrs = .ok ()) :
    ∀ i ∈ instrs, i.isPhi = false := by
  induction instrs with
  | nil => simp
  | cons i rest ih =>
    rw [checkInstrs] at h
    obtain ⟨hplace, h⟩ := bind_eq_ok h
    obtain ⟨-, h⟩ := bind_eq_ok h
    obtain ⟨-, hrest⟩ := bind_eq_ok h
    refine List.forall_mem_cons.2 ⟨?_, ih (by simpa using hrest)⟩
    cases i with
    | phi => cases hplace
    | _ => rfl

/-- A checked block that has a phi starts with one. -/
theorem exists_phi_cons {ret : Ty} (hcheck : body.checkBlock m ret b = .ok ()) {i : Instr}
    (hi : i ∈ b.instrs) (hphi : i.isPhi = true) :
    ∃ result ty entries code, b.instrs = .phi result ty entries :: code := by
  obtain ⟨-, h⟩ := bind_eq_ok hcheck
  obtain ⟨-, hinstrs⟩ := bind_eq_ok h
  cases hcode : b.instrs with
  | nil => simp [hcode] at hi
  | cons first code =>
    rw [hcode, checkInstrs] at hinstrs
    obtain ⟨-, h⟩ := bind_eq_ok hinstrs
    obtain ⟨-, h⟩ := bind_eq_ok h
    obtain ⟨-, hrest⟩ := bind_eq_ok h
    have hfirst : first.isPhi = true := by
      by_contra hno
      have hno : first.isPhi = false := by simpa using hno
      rw [hno] at hrest
      rw [hcode] at hi
      rcases List.mem_cons.1 hi with rfl | hi
      · exact absurd hphi (by simp [hno])
      · exact absurd hphi (by simp [not_isPhi_of_late hrest i hi])
    cases first with
    | phi result ty entries => exact ⟨result, ty, entries, code, rfl⟩
    | _ => cases hfirst

end Body

namespace Machine

variable {m : Module}

/-! ## Where control came from -/

/-- Control came to its block over an edge of the body, or the function has just begun. -/
structure Frame.Traced (m : Module) (f : Frame) : Prop extends f.Within m where
  first : f.cameFrom = none → f.block = f.body.entry
  edge : ∀ p, f.cameFrom = some p → ∃ b, f.body.block? p = some b ∧ f.block ∈ b.successors

theorem Frame.Traced.kept (m : Module) : Frame.Kept m (Frame.Traced m) where
  begins hg hbody hbegins := by
    have hwithin := (Frame.Within.kept m).begins hg hbody hbegins
    obtain ⟨b, hb, rfl⟩ := hbegins
    exact ⟨hwithin, fun _ => rfl, nofun⟩
  taken h hcode := ⟨(Frame.Within.kept m).taken h.toWithin hcode, h.first, h.edge⟩
  computed values slots h :=
    ⟨(Frame.Within.kept m).computed values slots h.toWithin, h.first, h.edge⟩
  moved {f f' q} h hq hgoto := by
    have hwithin := (Frame.Within.kept m).moved h.toWithin hq hgoto
    obtain ⟨b, hb, -, hexit⟩ := h.block
    obtain ⟨target, -, rfl⟩ := Frame.goto_eq_ok hgoto
    refine ⟨hwithin, nofun, ?_⟩
    rintro _ ⟨⟩
    refine ⟨b, hb, ?_⟩
    rwa [hexit] at hq

/-- In a checked module a phi has an operand for the block that control came from, unless the
function has just begun. -/
theorem Frame.Traced.phi (hm : m.Checked) {f : Frame} (h : f.Traced m) {b : Block}
    (hb : f.body.block? f.block = some b) {result : ValueId} {ty : Ty}
    {entries : List (Operand × BlockId)} (hphi : .phi result ty entries ∈ b.instrs) :
    (∃ p, f.cameFrom = some p ∧ p ∈ f.body.predecessors f.block ∧ p ∈ entries.map Prod.snd) ∨
      f.cameFrom = none ∧ f.body.EntryPhi := by
  obtain ⟨name, g, hg, hbody⟩ := h.func
  have hchecked := hm name g f.body hg hbody
  cases hfrom : f.cameFrom with
  | none =>
    have hentry := h.first hfrom
    exact .inr ⟨rfl, b, hentry ▸ hb, _, hphi, rfl⟩
  | some p =>
    obtain ⟨source, hsource, hedge⟩ := h.edge p hfrom
    have hpred := hchecked.mem_predecessors hsource hedge
    have hid : b.id = f.block := hchecked.ids hb
    exact .inl ⟨p, rfl, hpred, (hchecked.blocks hb).phis hphi p (hid.symm ▸ hpred)⟩

/-! ## Runs -/

/-- A function whose entry block starts with a phi stops there. -/
theorem run_noPredecessor {entry : String} {f : Func} {body : Body} {b : Block}
    (hf : m.func? entry = some f) (hbody : f.body = some body) (hparams : f.signature.params = [])
    (hb : body.block? body.entry = some b) {result : ValueId} {ty : Ty}
    {entries : List (Operand × BlockId)} {code : List Instr}
    (hcode : b.instrs = .phi result ty entries :: code) (limit : Nat) :
    run m (limit + 1) entry = .error (.noPredecessor body.entry) := by
  have haccepts : f.signature.accepts ([] : List Value).length = true := by
    simp [Signature.accepts, hparams]
  have hinvoke : invoke m entry [] =
      .ok (.entered ⟨body, body.entry, b.instrs, b.terminator, none, ∅, ∅⟩) := by
    simp only [invoke, hf, haccepts, hbody, enterBlock, hb]
    rfl
  unfold run
  rw [hinvoke, hcode]
  rfl

/-- If no entry block has a phi, every phi that a run comes to lists the block that control came
from. -/
theorem Visits.phi_resolves (hm : m.Checked)
    (hfree : ∀ name f body, m.func? name = some f → f.body = some body → ¬ body.EntryPhi)
    {entry : String} {n : Nat} {c : Config} (h : Visits m entry n c) {b : Block}
    (hb : c.frame.body.block? c.frame.block = some b) {result : ValueId} {ty : Ty}
    {entries : List (Operand × BlockId)} (hphi : .phi result ty entries ∈ b.instrs) :
    ∃ p, c.frame.cameFrom = some p ∧ p ∈ c.frame.body.predecessors c.frame.block ∧
      p ∈ entries.map Prod.snd := by
  have hframe := (h.frames (Frame.Traced.kept m)).1
  obtain ⟨name, g, hg, hbody⟩ := hframe.func
  rcases hframe.phi hm hb hphi with hresolves | ⟨-, hentry⟩
  · exact hresolves
  · exact absurd hentry (hfree name g _ hg hbody)

/-- A run that fails for want of a predecessor has come to a phi in an entry block. -/
theorem exists_entryPhi_of_run (hm : m.Checked) {limit : Nat} {entry : String} {q : BlockId}
    (hrun : run m limit entry = .error (.noPredecessor q)) :
    ∃ name f body, m.func? name = some f ∧ f.body = some body ∧ body.EntryPhi := by
  rcases run_error hrun with hlimit | hrefused | ⟨n, c, -, hvisits, hstops⟩
  · cases hlimit
  · cases hrefused with
    | data h => exact absurd h id
  · cases hstops with
    | data h => exact absurd h id
    | call _ _ hrefused =>
      cases hrefused with
      | data h => exact absurd h id
    | noPredecessor hcode hfrom =>
      have hframe := (hvisits.frames (Frame.Traced.kept m)).1
      obtain ⟨name, g, hg, hbody⟩ := hframe.func
      obtain ⟨b, hb, hsuffix, -⟩ := hframe.block
      rw [hcode] at hsuffix
      rcases hframe.phi hm hb (hsuffix.subset List.mem_cons_self) with ⟨p, hp, -⟩ | ⟨-, hentry⟩
      · rw [hfrom] at hp
        cases hp
      · exact ⟨name, g, _, hg, hbody, hentry⟩

/-- **In a built and verified module only a phi in an entry block can lack a predecessor.** If no
entry block of a function has a phi, no run fails so, and in every state that a run comes to, a
block that has a phi was entered from a predecessor that the phi lists. If the entry block of a
function without parameters has a phi, every run of the function that is not cut off before fails
there. -/
theorem run_phis_resolve (hbuilt : m.Built) (hverify : m.verify = .ok ()) :
    ((∀ name f body, m.func? name = some f → f.body = some body → ¬ body.EntryPhi) →
      ∀ entry, (∀ limit q, run m limit entry ≠ .error (.noPredecessor q)) ∧
        ∀ n c, Visits m entry n c → ∀ b, c.frame.body.block? c.frame.block = some b →
          ∀ result ty entries, .phi result ty entries ∈ b.instrs →
            ∃ p, c.frame.cameFrom = some p ∧ p ∈ c.frame.body.predecessors c.frame.block ∧
              p ∈ entries.map Prod.snd) ∧
    ∀ entry f body, m.func? entry = some f → f.body = some body → f.signature.params = [] →
      body.EntryPhi → ∀ limit, run m (limit + 1) entry = .error (.noPredecessor body.entry) := by
  have hm := hbuilt.checked hverify
  refine ⟨fun hfree entry => ⟨fun limit q hrun => ?_, ?_⟩, ?_⟩
  · obtain ⟨name, f, body, hf, hbody, hentry⟩ := exists_entryPhi_of_run hm hrun
    exact hfree name f body hf hbody hentry
  · intro n c hvisits b hb result ty entries hphi
    exact hvisits.phi_resolves hm hfree hb hphi
  · intro entry f body hf hbody hparams ⟨b, hb, i, hi, hphi⟩ limit
    have hcheck := Module.check_of_verify hverify hf hbody
    have hlaidOut : body.entry ∈ body.layout :=
      (hm entry f body hf hbody).layout.mem_iff.2 ((body.blocks.mem_keys_iff _).2 ⟨b, hb⟩)
    obtain ⟨result, ty, entries, code, hcode⟩ :=
      Body.exists_phi_cons (Body.checkBlock_of_check hcheck hlaidOut hb) hi hphi
    exact run_noPredecessor hf hbody hparams hb hcode limit

theorem run_phis_resolve_countdown : countdownModule.Built ∧ countdownModule.verify = .ok () ∧
    ∀ limit q, run countdownModule limit "main" ≠ .error (.noPredecessor q) := by
  have hverify : countdownModule.verify = .ok () := by rfl
  have hfree : ∀ name f body, countdownModule.func? name = some f → f.body = some body →
      ¬ body.EntryPhi := by
    intro name f body hf hbody ⟨b, hb, i, hi, hphi⟩
    unfold Module.func? countdownModule at hf
    rw [Table.find?_insert] at hf
    split at hf
    · cases hf
      cases hbody
      have hentry : countdown.body.block? countdown.body.entry =
          some ⟨⟨0⟩, "entry", [.store (.global ⟨0⟩) (.str ⟨0⟩)], .jump ⟨1⟩⟩ := by rfl
      rw [hentry] at hb
      cases hb
      rw [List.mem_singleton.1 hi] at hphi
      cases hphi
    · rw [Table.find?_insert] at hf
      split at hf
      · cases hf
        cases hbody
      · cases hf
  exact ⟨built_countdownModule, hverify,
    ((run_phis_resolve built_countdownModule hverify).1 hfree "main").1⟩

/-- A function that starts with a phi for no predecessor. -/
def entryPhi : Builder :=
  (Builder.start ⟨"main", [], .i32, false⟩).after
    [.phi .i32 [], .ret (some (.const (.int 0)))]

/-- A module with the function. -/
def entryPhiModule : Module where
  name := "demo"
  globals := ∅
  strings := []
  functions := Table.empty.insert "main" ⟨entryPhi.signature, some entryPhi.body⟩

/-- The check passes the module, and its run does not go past the phi. -/
theorem run_entryPhi : entryPhiModule.Built ∧ entryPhiModule.verify = .ok () ∧
    run entryPhiModule 10 "main" = .error (.noPredecessor ⟨0⟩) := by
  have hfinish : entryPhi.finish = .ok ⟨entryPhi.signature, some entryPhi.body⟩ := by rfl
  exact ⟨(Module.Built.empty "demo").define hfinish rfl, by rfl, by rfl⟩

end Machine

end SexprSsa
