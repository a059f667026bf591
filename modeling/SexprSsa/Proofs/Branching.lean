/-
SexprSsa.Proofs.Branching — the blocks of a conditional.

A conditional opens its three blocks at once, so two of them wait while a
branch is lowered. Nothing that is lowered leads into a block that waits
(`Grows.keeps`); hence the edges into the second branch and into the join are
those that the conditional itself makes, and what every path had computed
before the conditional is known in both.

Main statements: `Sound.forked`, `Reaches.second` and `Reaches.joined` say that
lowering stays in order at the start of each block of a conditional, and
`Reaches.merged` that the phi which names the ends of the two branches may
stand in the join.
-/
import SexprSsa.Proofs.Lowering

namespace SexprSsa

/-! ## What a conditional does to a draft -/

namespace Builder

/-- The number of a block to come. -/
def ahead (b : Builder) (k : Nat) : BlockId := ⟨b.body.nextBlock + k⟩

/-- Three blocks are open. -/
def widened (b : Builder) : Builder := ((b.openBlock "then").openBlock "else").openBlock "ifend"

/-- The three blocks of a conditional are open, and the cursor is in the first. -/
def forked (b : Builder) (condition : Operand) : Builder :=
  (b.widened.conclude (.branch condition (b.ahead 0) (b.ahead 1))).resume (b.ahead 0)

/-- A branch has jumped to the join, and the cursor is in a block that waited. -/
def left (b : Builder) (join next : BlockId) (layout : List BlockId) : Builder :=
  ((b.conclude (.jump join)).resume next).relay layout

variable {pending : List BlockId} {b b' : Builder}

theorem Open.widened (h : b.Open pending) :
    b.widened.Open (b.ahead 0 :: b.ahead 1 :: b.ahead 2 :: pending) := by
  have hopen := ((h.openBlock "then").openBlock "else").openBlock "ifend"
  refine hopen.perm ?_
  change List.Perm (b.ahead 2 :: b.ahead 1 :: b.ahead 0 :: pending) _
  refine (List.Perm.swap ..).trans (.trans (.cons _ (.swap ..)) (.swap ..)) |>.trans ?_
  exact .cons _ (.refl _)

theorem flow_widened (h : b.Open pending) : b.widened.flow = b.flow := by
  unfold Builder.widened
  rw [flow_openBlock ((h.openBlock _).openBlock _).toShaped,
    flow_openBlock (h.openBlock _).toShaped, flow_openBlock h.toShaped]

theorem work_widened (h : b.Open pending) : b.widened.body.work = b.body.work := by
  unfold Builder.widened
  rw [work_openBlock ((h.openBlock _).openBlock _).toShaped,
    work_openBlock (h.openBlock _).toShaped, work_openBlock h.toShaped]

theorem Open.grows_widened (h : b.Open pending) : b.Grows b.widened :=
  ((h.grows_openBlock "then").trans h ((h.openBlock _).grows_openBlock "else")).trans h
    (((h.openBlock _).openBlock _).grows_openBlock "ifend")

theorem Open.forked (h : b.Open pending) (condition : Operand) :
    (b.forked condition).Open (b.ahead 1 :: b.ahead 2 :: pending) :=
  h.widened.leave (by rintro ⟨⟩)

theorem flow_forked (h : b.Open pending) (condition : Operand) :
    (b.forked condition).flow =
      b.flow.close b.cursor.block (.branch condition (b.ahead 0) (b.ahead 1)) := by
  unfold Builder.forked
  rw [flow_resume, h.widened.flow_conclude, flow_widened h]
  rfl

theorem Open.grows_forked (h : b.Open pending) (condition : Operand) :
    b.Grows (b.forked condition) := by
  refine h.grows_widened.leave h.widened (by rintro ⟨⟩) (Nat.le_add_right ..) ?_
  intro q hq
  simp only [Terminator.successors, List.mem_cons, List.not_mem_nil, or_false] at hq
  rcases hq with rfl | rfl
  · exact Nat.le_add_right ..
  · exact Nat.le_add_right ..

theorem fork_eq (h : b.Open pending) (condition : Operand) :
    Lower.fork condition b = (.ok ⟨b.ahead 0, b.ahead 1, b.ahead 2⟩, b.forked condition) := by
  have hclosed : (b.widened.conclude (.branch condition (b.ahead 0) (b.ahead 1))).Shaped := by
    obtain ⟨blk, hblk⟩ := h.widened.exists_current
    exact h.widened.toShaped.conclude hblk _
  unfold Lower.fork
  rw [bind_of_ok (Build.createBlock_eq _), bind_of_ok (Build.createBlock_eq _),
    bind_of_ok (Build.createBlock_eq _)]
  refine (bind_of_ok (Build.conclude_eq h.widened _)).trans ?_
  refine (bind_of_ok (Build.switchTo_eq hclosed ?_)).trans rfl
  change b.body.nextBlock < b.body.nextBlock + 1 + 1 + 1
  omega

theorem Open.left {join next : BlockId} (h : b.Open (next :: pending)) {layout : List BlockId}
    (hl : layout.Perm b.body.layout) : (b.left join next layout).Open pending :=
  (h.leave (by rintro ⟨⟩)).relay hl

theorem Open.flow_left (h : b.Open pending) (join next : BlockId) (layout : List BlockId) :
    (b.left join next layout).flow = b.flow.close b.cursor.block (.jump join) :=
  h.flow_conclude _

theorem Open.covers_left (h : b.Open pending) (join next : BlockId) (layout : List BlockId) :
    b.Covers (b.left join next layout) where
  results q v hv := by
    rw [h.flow_left]
    exact hv
  slots := Nat.le_refl _
  signature := rfl

theorem Grows.left {waiting : List BlockId} {join next : BlockId} (hb : b.Open pending)
    (h : b.Grows b') (hb' : b'.Open (next :: waiting)) (hnext : b.body.nextBlock ≤ next.index)
    (hjoin : b.body.nextBlock ≤ join.index) {layout : List BlockId} :
    b.Grows (b'.left join next layout) := by
  refine (h.leave hb' (t := .jump join) (by rintro ⟨⟩) hnext ?_).trans hb
    ((hb'.leave (by rintro ⟨⟩)).grows_relay layout)
  simpa [Terminator.successors] using hjoin

theorem closeBranch_eq (join : BlockId) {next : BlockId} (h : b.Open pending)
    (hnext : next ∈ pending) :
    ∃ layout, relocate b.body.layout next b.cursor.block = .ok layout ∧
      Lower.closeBranch join next b = (.ok b.cursor.block, b.left join next layout) := by
  have hclosed : (b.conclude (.jump join)).Shaped := by
    obtain ⟨blk, hblk⟩ := h.exists_current
    exact h.toShaped.conclude hblk _
  have hlt : next.index < b.body.nextBlock := h.pending_lt hnext
  have hcurrent : b.cursor.block.index < (b.conclude (.jump join)).body.nextBlock := h.current_lt
  obtain ⟨layout, hmoved, hmove⟩ := Build.moveAfter_eq hclosed (q := next) hlt hcurrent
  refine ⟨layout, hmoved, ?_⟩
  unfold Lower.closeBranch
  refine (bind_of_ok (show Build.currentBlock b = (.ok b.cursor.block, b) from rfl)).trans ?_
  refine (bind_of_ok (Build.conclude_eq h _)).trans ?_
  refine (bind_of_ok hmove).trans ?_
  exact (bind_of_ok (Build.switchTo_eq (hclosed.relay (relocate_perm hmoved)) hlt)).trans rfl

theorem merge_eq (h : b.Open pending) (incoming : List (Operand × BlockId)) :
    Lower.merge incoming b =
      (.ok (.temp ⟨b.body.nextValue⟩), b.putValue (.phi · b.signature.ret incoming)) := by
  unfold Lower.merge
  exact (bind_of_ok (show (get : Build Builder) b = (.ok b, b) from rfl)).trans
    (Build.compute_eq h _)

/-! ## The edges a conditional makes -/

/-- Only the block before a conditional leads to its branches. -/
theorem edge_forked (h : b.Open pending) {m : Module} (hs : b.Sound m) {condition : Operand}
    {p : BlockId} {k : Nat} :
    (b.forked condition).flow.Edge p (b.ahead k) ↔ p = b.cursor.block ∧ k < 2 := by
  have hnone : ¬ b.flow.Edge p (b.ahead k) := by
    intro he
    have hlt := hs.targets he
    simp only [ahead] at hlt
    omega
  have hmem : b.ahead k ∈ [b.ahead 0, b.ahead 1] ↔ k < 2 := by
    simp only [List.mem_cons, List.not_mem_nil, or_false, ahead, BlockId.mk.injEq]
    omega
  rw [flow_forked h, Flow.edge_close]
  simp only [Terminator.successors, hmem, hnone, and_false, or_false]

/-- What is settled before a conditional is available in both branches. -/
theorem available_forked (h : b.Open pending) {m : Module} (hs : b.Sound m)
    {condition : Operand} {v : ValueId} (hv : b.flow.Settled b.cursor.block v) {k : Nat}
    (hk : k < 2) : (b.forked condition).flow.Available (b.ahead k) v := by
  refine Flow.available_of_edges ?_ ?_
  · intro he
    have hentry : (b.forked condition).flow.entry = ⟨0⟩ := h.entry
    rw [hentry] at he
    have := h.inhabited
    simp only [ahead, BlockId.mk.injEq] at he
    omega
  · intro p he
    rw [((edge_forked h hs).1 he).1]
    exact ((h.grows_forked condition).keeps h).settled h.current_lt hv

/-- A branch that jumps to the join adds one edge. -/
theorem edge_left (h : b.Open pending) {join next : BlockId} {layout : List BlockId}
    {p q : BlockId} : (b.left join next layout).flow.Edge p q ↔
      b.flow.Edge p q ∨ p = b.cursor.block ∧ q = join := by
  rw [h.flow_left, Flow.edge_close_open h.current_open]
  simp [Terminator.successors]

theorem keeps_left (h : b.Open pending) {join next : BlockId} (hjoin : join ∈ pending)
    {layout : List BlockId} :
    b.flow.Keeps (b.left join next layout).flow fun q => q ≠ join := by
  rw [h.flow_left]
  have hkeeps := b.flow.keeps_close (t := .jump join) h.current_open (by
    intro r hr
    simp only [Terminator.successors, List.mem_singleton] at hr
    rw [hr]
    exact h.pending_open hjoin)
  simpa only [Terminator.successors, List.mem_singleton] using hkeeps

theorem Sound.left {m : Module} (hs : b.Sound m) (h : b.Open pending) {join next : BlockId}
    (hjoin : join ∈ pending) (layout : List BlockId) : (b.left join next layout).Sound m := by
  have hclosed : (b.conclude (.jump join)).Sound m := by
    refine hs.conclude h ?_ ?_ ?_
    · simpa [Terminator.successors] using hjoin
    · simp [Terminator.operands]
    · rintro v ⟨⟩
  exact hclosed.of_flow rfl (Nat.le_refl _) (Nat.le_refl _) ⟨fun _ _ hv => hv, Nat.le_refl _, rfl⟩

theorem Sound.forked {m : Module} (hs : b.Sound m) (h : b.Open pending) {condition : Operand}
    (hknown : condition.Known m b)
    (hsettled : ∀ w, condition = .temp w → b.flow.Settled b.cursor.block w) :
    (b.forked condition).Sound m := by
  have hflow := flow_widened h
  have hcovers := h.grows_widened.covers h
  have hwide : b.widened.Sound m := hs.of_flow hflow h.grows_widened.blocks
    h.grows_widened.values hcovers
  have hclosed : (b.widened.conclude (.branch condition (b.ahead 0) (b.ahead 1))).Sound m := by
    refine hwide.conclude h.widened ?_ ?_ ?_
    · intro q hq
      simp only [Terminator.successors, List.mem_cons, List.not_mem_nil, or_false] at hq
      rcases hq with rfl | rfl <;> simp
    · intro v hv
      obtain rfl : v = condition := by simpa [Terminator.operands] using hv
      refine ⟨hknown.mono (.refl m) hcovers, fun w hw => ?_⟩
      rw [hflow]
      exact hsettled w hw
    · rintro v ⟨⟩
  exact hclosed.of_flow rfl (Nat.le_refl _) (Nat.le_refl _) ⟨fun _ _ hv => hv, Nat.le_refl _, rfl⟩

end Builder

/-! ## Lowering a conditional -/

namespace LowerState

variable {pending waiting : List BlockId} {s t u : LowerState} {condition : Operand}

/-- A branch can be left for a join that waits. -/
theorem Sound.left {join next : BlockId} (h : s.Sound (next :: pending))
    (hjoin : join ∈ next :: pending) {layout : List BlockId}
    (hl : layout.Perm s.builder.body.layout) :
    Sound pending { s with builder := s.builder.left join next layout } where
  opened := h.opened.left hl
  sound := h.sound.left h.opened hjoin layout
  strings := h.strings
  functions := h.functions
  names hname := (h.names hname).mono (.refl _) (h.opened.covers_left ..)

/-- At the start of the first branch. -/
theorem Sound.forked (h : s.Sound pending) (hc : condition.Usable s) :
    s.Reaches (s.builder.ahead 1 :: s.builder.ahead 2 :: pending)
      { s with builder := s.builder.forked condition } :=
  h.reaches_builder (h.opened.forked condition)
    (h.sound.forked h.opened hc.known hc.settled) (h.opened.grows_forked condition)
    fun hv => .inr (Builder.available_forked h.opened h.sound hv (by decide))

/-- `t` comes of lowering the first branch of a conditional. -/
abbrev FirstBranch (pending : List BlockId) (s : LowerState) (condition : Operand)
    (t : LowerState) : Prop :=
  Reaches (s.builder.ahead 1 :: s.builder.ahead 2 :: pending)
    { s with builder := s.builder.forked condition } t

/-- `u` comes of lowering the second branch. -/
abbrev SecondBranch (pending : List BlockId) (s t : LowerState) (layout : List BlockId)
    (u : LowerState) : Prop :=
  Reaches (s.builder.ahead 2 :: pending)
    { t with builder := t.builder.left (s.builder.ahead 2) (s.builder.ahead 1) layout } u

theorem ahead_lt_forked (s : LowerState) (condition : Operand) {k : Nat} (hk : k < 3) :
    (s.builder.ahead k).index < (s.builder.forked condition).body.nextBlock := by
  change s.builder.body.nextBlock + k < s.builder.body.nextBlock + 1 + 1 + 1
  omega

theorem ahead_ne (s : LowerState) {k l : Nat} (h : k ≠ l) :
    s.builder.ahead k ≠ s.builder.ahead l := by
  simp only [Builder.ahead, ne_eq, BlockId.mk.injEq]
  omega

/-- At the start of the second branch. -/
theorem Sound.second (h : s.Sound pending) (hc : condition.Usable s)
    (ht : FirstBranch pending s condition t) {layout : List BlockId}
    (hl : layout.Perm t.builder.body.layout) :
    s.Reaches (s.builder.ahead 2 :: pending)
      { t with builder := t.builder.left (s.builder.ahead 2) (s.builder.ahead 1) layout } where
  sound := ht.sound.left (by simp) hl
  module := ht.module
  builder := ((h.forked hc).trans h ht).builder.left h.opened ht.sound.opened
    (Nat.le_add_right ..) (Nat.le_add_right ..)
  settled {v} hv := by
    have hforked : (s.builder.forked condition).flow.Available (s.builder.ahead 1) v :=
      Builder.available_forked h.opened h.sound hv (by decide)
    have hfirst := (ht.builder.keeps (h.forked hc).sound.opened).available
      (s.ahead_lt_forked condition (by decide)) hforked
    exact .inr ((Builder.keeps_left ht.sound.opened (by simp)).available
      (s.ahead_ne (by decide)) hfirst)

/-- The edges into the join come from the ends of the two branches. -/
theorem edge_joined (h : s.Sound pending) (hc : condition.Usable s)
    (ht : FirstBranch pending s condition t) {layout layout' : List BlockId}
    (hl : layout.Perm t.builder.body.layout) (hu : SecondBranch pending s t layout u)
    {p : BlockId} :
    (u.builder.left (s.builder.ahead 2) (s.builder.ahead 2) layout').flow.Edge p
        (s.builder.ahead 2) ↔
      p = t.builder.cursor.block ∨ p = u.builder.cursor.block := by
  have hsecond := h.second hc ht hl
  have hlt := s.ahead_lt_forked condition (k := 2) (by decide)
  have hnone : ¬ t.builder.flow.Edge p (s.builder.ahead 2) := by
    rw [(ht.builder.keeps (h.forked hc).sound.opened).edge hlt,
      Builder.edge_forked h.opened h.sound]
    omega
  rw [Builder.edge_left hu.sound.opened,
    (hu.builder.keeps hsecond.sound.opened).edge (Nat.lt_of_lt_of_le hlt ht.builder.blocks),
    Builder.edge_left ht.sound.opened]
  simp [hnone]

/-- What is settled at the end of the first branch stays so until the branches meet. -/
theorem settled_first (h : s.Sound pending) (hc : condition.Usable s)
    (ht : FirstBranch pending s condition t) {layout layout' : List BlockId}
    (hl : layout.Perm t.builder.body.layout) (hu : SecondBranch pending s t layout u)
    {v : ValueId} (hv : t.builder.flow.Settled t.builder.cursor.block v) :
    (u.builder.left (s.builder.ahead 2) (s.builder.ahead 2) layout').flow.Settled
      t.builder.cursor.block v := by
  have hsecond := h.second hc ht hl
  have hne : t.builder.cursor.block ≠ s.builder.ahead 2 :=
    (ht.sound.opened.pending_ne (by simp)).symm
  have hleft : (t.builder.left (s.builder.ahead 2) (s.builder.ahead 1) layout).flow.Settled
      t.builder.cursor.block v :=
    (Builder.keeps_left ht.sound.opened (by simp)).settled hne hv
  have hgrown := (hu.builder.keeps hsecond.sound.opened).settled ht.sound.opened.current_lt hleft
  exact (Builder.keeps_left hu.sound.opened (by simp)).settled hne hgrown

/-- What is settled at the end of the second branch stays so when it is left. -/
theorem settled_second (hu : u.Sound (s.builder.ahead 2 :: pending)) {layout : List BlockId}
    {v : ValueId} (hv : u.builder.flow.Settled u.builder.cursor.block v) :
    (u.builder.left (s.builder.ahead 2) (s.builder.ahead 2) layout).flow.Settled
      u.builder.cursor.block v :=
  (Builder.keeps_left hu.opened (by simp)).settled (hu.opened.pending_ne (by simp)).symm hv

theorem entry_ne_ahead (h : s.Sound pending) {b : Builder} (hb : s.builder.Grows b) {k : Nat} :
    s.builder.ahead k ≠ b.flow.entry := by
  have hentry : b.flow.entry = ⟨0⟩ := hb.entry.trans h.opened.entry
  have := h.opened.inhabited
  rw [hentry]
  simp only [Builder.ahead, ne_eq, BlockId.mk.injEq]
  omega

/-- Where the branches meet. -/
theorem Sound.joined (h : s.Sound pending) (hc : condition.Usable s)
    (ht : FirstBranch pending s condition t) {layout layout' : List BlockId}
    (hl : layout.Perm t.builder.body.layout) (hu : SecondBranch pending s t layout u)
    (hl' : layout'.Perm u.builder.body.layout) :
    s.Reaches pending
      { u with builder := u.builder.left (s.builder.ahead 2) (s.builder.ahead 2) layout' } := by
  have hgrown := (h.second hc ht hl).trans h hu
  have hbuilder : s.builder.Grows
      (u.builder.left (s.builder.ahead 2) (s.builder.ahead 2) layout') :=
    hgrown.builder.left h.opened hu.sound.opened (Nat.le_add_right ..) (Nat.le_add_right ..)
  refine ⟨hu.sound.left (by simp) hl', hgrown.module, hbuilder, fun hv => ?_⟩
  refine .inr (Flow.available_of_edges (entry_ne_ahead h hbuilder) fun p he => ?_)
  rcases (edge_joined h hc ht hl hu).1 he with rfl | rfl
  · exact settled_first h hc ht hl hu (ht.settled ((h.forked hc).settled hv))
  · exact settled_second hu.sound (hgrown.settled hv)

/-- The phi of the join names the ends of the branches and what they leave behind. -/
theorem Sound.merged (h : s.Sound pending) (hc : condition.Usable s)
    (ht : FirstBranch pending s condition t) {layout layout' : List BlockId}
    (hl : layout.Perm t.builder.body.layout) (hu : SecondBranch pending s t layout u)
    (hl' : layout'.Perm u.builder.body.layout) {yes no : Operand} (hyes : yes.Usable t)
    (hno : no.Usable u) (ty : Ty) :
    let b := u.builder.left (s.builder.ahead 2) (s.builder.ahead 2) layout'
    let entries := [(yes, t.builder.cursor.block), (no, u.builder.cursor.block)]
    s.Reaches pending { u with builder := b.putValue (.phi · ty entries) } ∧
      (Operand.temp ⟨b.body.nextValue⟩).Usable
        { u with builder := b.putValue (.phi · ty entries) } := by
  intro b entries
  have hjoined := h.joined hc ht hl hu hl'
  have hsecond := h.second hc ht hl
  have hempty : b.flow.code (s.builder.ahead 2) = [] := by
    change (u.builder.left _ _ _).flow.code _ = _
    rw [hu.sound.opened.flow_left, Flow.code_close]
    exact hu.sound.opened.empty _ (by simp)
  have hyesKnown : yes.Known u.module b :=
    ((hyes.known.mono (.refl _) (ht.sound.opened.covers_left ..)).mono hu.module
      (hu.builder.covers hsecond.sound.opened)).mono (.refl _) (hu.sound.opened.covers_left ..)
  have hnoKnown : no.Known u.module b :=
    hno.known.mono (.refl _) (hu.sound.opened.covers_left ..)
  have hentries : ∀ e ∈ entries, e.1.Known u.module b ∧
      ∀ w, e.1 = .temp w → b.flow.Settled e.2 w := by
    simp only [entries, List.mem_cons, List.not_mem_nil, or_false, forall_eq_or_imp, forall_eq]
    exact ⟨⟨hyesKnown, fun w hw => settled_first h hc ht hl hu (hyes.settled w hw)⟩, hnoKnown,
      fun w hw => settled_second hu.sound (hno.settled w hw)⟩
  obtain ⟨hreaches, husable⟩ := hjoined.sound.compute (i := (.phi · ty entries)) (fun _ => rfl)
    { fits :=
        { uses := by rintro ⟨⟩
          place := by
            refine fun _ => ⟨entry_ne_ahead h hjoined.builder, fun j hj => ?_⟩
            have hnil : j ∈ b.flow.code (s.builder.ahead 2) := hj
            simp [hempty] at hnil
          sources := by
            rintro r ty' incoming ⟨⟩ p
            have hedge : b.flow.Edge p (s.builder.ahead 2) ↔
                p = t.builder.cursor.block ∨ p = u.builder.cursor.block :=
              edge_joined h hc ht hl hu
            refine Iff.trans ?_ hedge.symm
            simp [entries]
          incoming := by
            rintro r ty' incoming ⟨⟩ w p hw
            exact (hentries _ hw).2 w rfl }
      fresh := by
        rintro v ⟨⟩
        exact ⟨Nat.lt_succ_self _, hjoined.sound.fresh_value⟩
      operands := by
        intro v hv
        obtain ⟨e, he, rfl⟩ := List.mem_map.1 hv
        exact (hentries e he).1
      plain := rfl
      calls := by rintro r callee args ⟨⟩ }
  exact ⟨hjoined.trans h hreaches, husable⟩

end LowerState

end SexprSsa
