/-
SexprSsa.Proofs.Coverage — layouts that show the check every block it needs.

The check of a body walks the layout, a run walks the blocks by number. In a
module that was built the two see the same blocks; in one that was read from
its persisted form the layout can list a block twice and leave another out, or
the entry number can have no block, and the check does not notice as long as
the lengths agree (`verify_lost`).

Main statement: `verified_covered_iff`. The runs of a verified module stay in
blocks that exist and have passed the check exactly when every function has its
entry block and its layout lists every block that control can reach from there
(`Module.Covered`).
-/
import SexprSsa.Proofs.Checked
import SexprSsa.Proofs.Control
import SexprSsa.Proofs.Draft

namespace SexprSsa

/-! ## Layouts that cover -/

namespace Body

/-- The entry block exists, and the layout lists every block that control can come to from it,
whatever the outcomes of branches. -/
structure Covered (body : Body) : Prop where
  entry : ∃ b, body.block? body.entry = some b
  laidOut : ∀ {passed : List BlockId} {q : BlockId}, body.flow.Path passed q → q ∈ body.layout

/-- The layout shows a block to the check, which passes it. -/
def Passes (body : Body) (m : Module) (ret : Ty) (q : BlockId) : Prop :=
  q ∈ body.layout ∧ ∃ b, body.block? q = some b ∧ body.checkBlock m ret b = .ok ()

variable {m : Module} {ret : Ty} {body : Body} {q : BlockId} {b : Block}

theorem Passes.checked (h : body.Passes m ret q) (hb : body.block? q = some b) :
    b.Checked m body := by
  obtain ⟨-, blk, hblk, hcheck⟩ := h
  obtain rfl : blk = b := Option.some.inj (hblk.symm.trans hb)
  exact checked_of_checkBlock hcheck

/-- Control goes from a block that passes to one that exists. -/
theorem Passes.target (h : body.Passes m ret q) {r : BlockId} (hedge : body.flow.Edge q r) :
    ∃ target, body.block? r = some target := by
  obtain ⟨-, b, hb, hcheck⟩ := h
  have hexit : body.flow.exit q = b.terminator := exit_of_block hb
  unfold Flow.Edge at hedge
  rw [hexit] at hedge
  exact (checked_of_checkBlock hcheck).targets r hedge

/-- Along every path through a body that is covered and passes the check, the blocks pass. -/
theorem Covered.passes (h : body.Covered) (hcheck : body.check m ret = .ok ())
    {passed : List BlockId} (hpath : body.flow.Path passed q) : body.Passes m ret q := by
  have hexists : ∃ b, body.block? q = some b := by
    induction hpath with
    | start => exact h.entry
    | step hpath hedge ih =>
      obtain ⟨b, hb⟩ := ih
      exact Passes.target ⟨h.laidOut hpath, b, hb,
        checkBlock_of_check hcheck (h.laidOut hpath) hb⟩ hedge
  obtain ⟨b, hb⟩ := hexists
  exact ⟨h.laidOut hpath, b, hb, checkBlock_of_check hcheck (h.laidOut hpath) hb⟩

/-- A layout that lists every block covers, if the entry block is one of them. -/
theorem covered_of_layout (hcheck : body.check m ret = .ok ())
    (hentry : body.entry ∈ body.blocks.keys) (hlayout : ∀ q ∈ body.blocks.keys, q ∈ body.layout) :
    body.Covered := by
  have hkeys : ∀ {passed q}, body.flow.Path passed q → q ∈ body.blocks.keys := by
    intro passed q hpath
    induction hpath with
    | start => exact hentry
    | @step passed p q _ hedge ih =>
      obtain ⟨b, hb⟩ := (body.blocks.mem_keys_iff p).1 ih
      have hpasses : body.Passes m ret p :=
        ⟨hlayout p ih, b, hb, checkBlock_of_check hcheck (hlayout p ih) hb⟩
      exact (body.blocks.mem_keys_iff q).2 (hpasses.target hedge)
  exact ⟨(body.blocks.mem_keys_iff _).1 hentry, fun hpath => hlayout _ (hkeys hpath)⟩

end Body

/-- The layouts of all functions cover. -/
def Module.Covered (m : Module) : Prop :=
  ∀ name f body, m.func? name = some f → f.body = some body → body.Covered

namespace Machine

variable {m : Module}

/-! ## Runs that get lost -/

/-- Control has come to a block that does not exist or does not end. -/
def Fault.IsLost : Fault → Prop
  | .missingBlock _ | .unterminated _ => True
  | _ => False

theorem Fault.IsData.not_isLost {fault : Fault} (h : fault.IsData) : ¬ fault.IsLost := by
  intro hlost
  cases fault with
  | missingBlock q => exact h
  | unterminated q => exact h
  | _ => exact hlost

/-- Control stands in a block to which a path leads from the entry block. -/
structure Frame.OnPath (m : Module) (f : Frame) : Prop extends f.Within m where
  path : ∃ passed, f.body.flow.Path passed f.block

theorem Frame.OnPath.kept (m : Module) : Frame.Kept m (Frame.OnPath m) where
  begins hg hbody hbegins := by
    refine ⟨(Frame.Within.kept m).begins hg hbody hbegins, [], ?_⟩
    obtain ⟨b, hb, rfl⟩ := hbegins
    exact .start
  taken h hcode := ⟨(Frame.Within.kept m).taken h.toWithin hcode, h.path⟩
  computed values slots h := ⟨(Frame.Within.kept m).computed values slots h.toWithin, h.path⟩
  moved {f f' q} h hq hgoto := by
    obtain ⟨passed, hpath⟩ := h.path
    obtain ⟨b, hb, -, hexit⟩ := h.block
    refine ⟨(Frame.Within.kept m).moved h.toWithin hq hgoto, f.block :: passed, ?_⟩
    obtain ⟨target, -, rfl⟩ := Frame.goto_eq_ok hgoto
    refine hpath.step ?_
    rwa [Flow.Edge, show f.body.flow.exit f.block = b.terminator from Body.exit_of_block hb,
      ← hexit]

/-- A call that is refused does not lose control if every function has its entry block. -/
theorem Refused.not_isLost (hcovered : m.Covered) {name : String} {args : List Value}
    {fault : Fault} (h : Refused m name args fault) : ¬ fault.IsLost := by
  cases h with
  | missingEntry hf hbody hnone =>
    obtain ⟨b, hb⟩ := (hcovered _ _ _ hf hbody).entry
    rw [hb] at hnone
    cases hnone
  | data h => exact h.not_isLost
  | notFound => exact id
  | arity => exact id
  | notProvided => exact id
  | noFormat => exact id

/-- A step in a covered function is not lost. -/
theorem Config.Stops.not_isLost (hverify : m.verify = .ok ()) (hcovered : m.Covered) {c : Config}
    (hframe : c.frame.OnPath m) {fault : Fault} (h : c.Stops m fault) : ¬ fault.IsLost := by
  obtain ⟨name, g, hg, hbody⟩ := hframe.func
  obtain ⟨b, hb, -, hexit⟩ := hframe.block
  obtain ⟨passed, hpath⟩ := hframe.path
  have hcheck := Module.check_of_verify hverify hg hbody
  have hpasses := (hcovered name g _ hg hbody).passes hcheck hpath
  have hchecked := hpasses.checked hb
  cases h with
  | data h => exact h.not_isLost
  | call _ _ hrefused => exact hrefused.not_isLost hcovered
  | missingTarget _ hq hnone =>
    obtain ⟨target, htarget⟩ := hchecked.targets _ (hexit ▸ hq)
    rw [htarget] at hnone
    cases hnone
  | unterminated _ hmissing => exact absurd (hexit.symm.trans hmissing) hchecked.terminated
  | noPredecessor => exact id
  | noIncoming => exact id
  | noResult => exact id

/-- **Runs of a verified module stay in checked blocks exactly if the layouts cover.** In a
verified module, no run of a defined function comes to a block that is missing or has no
terminator, and every block that control can reach in a function exists and is one that the check
has passed, if and only if every function has its entry block and lists in its layout all blocks
that control can reach. -/
theorem verified_covered_iff (hverify : m.verify = .ok ()) :
    ((∀ entry f, m.func? entry = some f → f.body.isSome → ∀ limit fault, fault.IsLost →
        run m limit entry ≠ .error fault) ∧
      ∀ name f body, m.func? name = some f → f.body = some body →
        ∀ passed q, body.flow.Path passed q → body.Passes m f.signature.ret q) ↔
    m.Covered := by
  constructor
  · rintro ⟨-, hpasses⟩ name f body hf hbody
    have hpasses := hpasses name f body hf hbody
    obtain ⟨-, b, hb, -⟩ := hpasses [] body.entry .start
    exact ⟨⟨b, hb⟩, fun hpath => (hpasses _ _ hpath).1⟩
  · intro hcovered
    refine ⟨fun entry f hf _ limit fault hlost hrun => ?_, fun name f body hf hbody passed q => ?_⟩
    · rcases run_error hrun with rfl | hrefused | ⟨n, c, -, hvisits, hstops⟩
      · exact hlost
      · exact hrefused.not_isLost hcovered hlost
      · have hframe := (hvisits.frames (Frame.OnPath.kept m)).1
        exact hstops.not_isLost hverify hcovered hframe hlost
    · exact (hcovered name f body hf hbody).passes (Module.check_of_verify hverify hf hbody)

/-- A function whose blocks carry other numbers than they are kept under and whose entry block
is neither the first one nor the first in the layout. -/
def looseBody : Body where
  entry := ⟨7⟩
  blocks := (Table.empty.insert ⟨2⟩ ⟨⟨2⟩, "done", [], .ret (some (.const (.int 0)))⟩).insert ⟨7⟩
    ⟨⟨3⟩, "start", [], .branch (.const (.bool true)) ⟨2⟩ ⟨7⟩⟩
  layout := [⟨2⟩, ⟨7⟩]
  slots := []
  nextBlock := 0
  nextValue := 0

/-- A module with one function. -/
def soleModule (body : Body) : Module where
  name := "demo"
  globals := ∅
  strings := []
  functions := Table.empty.insert "main" ⟨⟨"main", [], .i32, false⟩, some body⟩

theorem eq_of_soleModule {body other : Body} {name : String} {f : Func}
    (hf : (soleModule body).func? name = some f) (hbody : f.body = some other) : other = body := by
  unfold Module.func? soleModule at hf
  rw [Table.find?_insert] at hf
  split at hf
  · cases hf
    cases hbody
    rfl
  · cases hf

theorem verified_covered_iff_loose : (soleModule looseBody).verify = .ok () ∧
    ∀ limit fault, fault.IsLost → run (soleModule looseBody) limit "main" ≠ .error fault := by
  have hverify : (soleModule looseBody).verify = .ok () := by rfl
  have hcovered : (soleModule looseBody).Covered := by
    intro name f body hf hbody
    have hcheck := Module.check_of_verify hverify hf hbody
    obtain rfl := eq_of_soleModule hf hbody
    exact Body.covered_of_layout hcheck (by decide) (by decide)
  exact ⟨hverify, ((verified_covered_iff hverify).2 hcovered).1 "main" _ rfl rfl⟩

/-- A function whose layout lists the entry block twice in the place of the block that it jumps
to, which has no terminator. -/
def lostBody : Body where
  entry := ⟨0⟩
  blocks := (Table.empty.insert ⟨0⟩ ⟨⟨0⟩, "entry", [], .jump ⟨1⟩⟩).insert ⟨1⟩
    (.opened ⟨1⟩ "lost")
  layout := [⟨0⟩, ⟨0⟩]
  slots := []
  nextBlock := 2
  nextValue := 0

/-- The check passes a module one of whose runs comes to a block without terminator. -/
theorem verify_lost : (soleModule lostBody).verify = .ok () ∧
    run (soleModule lostBody) 10 "main" = .error (.unterminated ⟨1⟩) :=
  ⟨by rfl, by rfl⟩

end Machine

end SexprSsa
