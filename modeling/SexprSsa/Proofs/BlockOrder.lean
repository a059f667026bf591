/-
SexprSsa.Proofs.BlockOrder — the order in which lowering lays blocks out.

A conditional opens its blocks at the end of the layout and moves those for the
second branch and for what follows only when their turn comes. In between, the
blocks that wait, of this conditional and of all around it, lie anywhere. Those
that do not wait are the line of the builder (`Builder.line`). It ends in the
block of the cursor and grows at its end only: a block joins it when control
can first come to it, from blocks that are in it (`Arranged`). So all edges go
down the line, except those to blocks that wait; and once none waits, the line
is the layout.

Main statement: `Form.arranges`. Lowering a form lengthens the line by blocks
with the names that the form gives (`Form.blockNames`).
-/
import SexprSsa.Proofs.Forms

namespace SexprSsa

/-! ## The names that a form gives -/

mutual

/-- The names of the blocks that a form adds, in the order of the layout. -/
def Form.blockNames : Form → List String
  | .number _ | .truth _ | .text _ | .reference _ | .malformed _ => []
  | .arith _ left right | .compare _ left right => left.blockNames ++ right.blockNames
  | .declare _ _ init => init.blockNames
  | .assign _ value => value.blockNames
  | .block first rest => first.blockNames ++ Form.blockNamesAll rest
  | .print template args => template.blockNames ++ Form.blockNamesAll args
  | .choose condition yes no =>
      condition.blockNames ++ "then" :: yes.blockNames ++ "else" :: no.blockNames ++ ["ifend"]

/-- The names of the blocks that forms add one after the other. -/
def Form.blockNamesAll : List Form → List String
  | [] => []
  | f :: rest => f.blockNames ++ Form.blockNamesAll rest

end

/-- The name of a block. -/
def Body.nameOf (body : Body) (q : BlockId) : Option String := (body.block? q).map Block.name

/-! ## Putting a block right after another -/

/-- A part of a layout that has the block and the one it is put after. -/
theorem filter_insertAfter {keep : BlockId → Bool} {anchor block : BlockId}
    (hanchor : keep anchor = true) (hblock : keep block = true) (layout : List BlockId) :
    (insertAfter anchor block layout).filter keep =
      insertAfter anchor block (layout.filter keep) := by
  induction layout with
  | nil => rfl
  | cons q rest ih =>
    by_cases hq : q = anchor
    · subst hq
      simp [insertAfter, hanchor, hblock]
    · by_cases hkeep : keep q = true
      · simp [insertAfter, hq, hkeep, ih]
      · simp [insertAfter, hq, hkeep, ih]

/-- A block is put right behind the first occurrence of its anchor. -/
theorem insertAfter_append {anchor : BlockId} (block : BlockId) {front : List BlockId}
    (h : anchor ∉ front) (back : List BlockId) :
    insertAfter anchor block (front ++ anchor :: back) = front ++ anchor :: block :: back := by
  induction front with
  | nil => simp [insertAfter]
  | cons q front ih =>
    simp only [List.mem_cons, not_or] at h
    simp [insertAfter, Ne.symm h.1, ih h.2]

/-- A block that follows another one has been taken out and put back. -/
theorem relocate_eq {layout moved : List BlockId} {block anchor : BlockId} (hne : block ≠ anchor)
    (h : relocate layout block anchor = .ok moved) :
    moved = insertAfter anchor block (layout.erase block) := by
  unfold relocate at h
  rw [if_neg hne] at h
  split at h
  · cases h
  · split at h
    · cases h
    · cases h
      rfl

/-! ## Joins -/

/-- Two edges lead to the block, and it starts with its only phi. -/
def Flow.Joins (g : Flow) (q : BlockId) : Prop :=
  (∃ p p', p ≠ p' ∧ ∀ r, g.Edge r q ↔ r = p ∨ r = p') ∧
    ∃ phi rest, g.code q = phi :: rest ∧ phi.isPhi = true ∧ ∀ i ∈ rest, i.isPhi = false

theorem Flow.Joins.of_eq {g g' : Flow} {q : BlockId} (h : g.Joins q)
    (hedge : ∀ r, g'.Edge r q ↔ g.Edge r q) (hcode : g'.code q = g.code q) : g'.Joins q := by
  obtain ⟨⟨p, p', hne, hedges⟩, hphi⟩ := h
  constructor
  · refine ⟨p, p', hne, ?_⟩
    intro r
    rw [hedge, hedges]
  · rwa [hcode]

/-- Other instructions may be put behind the phi. -/
theorem Flow.Joins.append {g : Flow} {q p : BlockId} (h : g.Joins q) {i : Instr}
    (hi : i.isPhi = false) : (g.append p i).Joins q := by
  by_cases hq : q = p
  · subst hq
    obtain ⟨hedges, phi, rest, hcode, hphi, hrest⟩ := h
    refine ⟨hedges, phi, rest ++ [i], ?_, hphi, ?_⟩
    · rw [Flow.code_append_self, hcode, List.cons_append]
    · intro j hj
      rcases List.mem_append.1 hj with hj | hj
      · exact hrest j hj
      · rw [List.mem_singleton.1 hj]
        exact hi
  · exact h.of_eq (fun _ => Iff.rfl) (Flow.code_append_of_ne g p i hq)

/-! ## The line of a builder -/

namespace Builder

variable {pending pending' : List BlockId} {b b' b'' : Builder}

/-- The blocks that do not wait, in the order of the layout. -/
def line (b : Builder) (pending : List BlockId) : List BlockId :=
  b.body.layout.filter fun q => decide (q ∉ pending)

/-- The line ends in the block of the cursor, edges go down the line or to blocks that wait, and
the blocks in which branches meet are joins. -/
structure Arranged (pending : List BlockId) (b : Builder) : Prop where
  last : ∃ done, b.line pending = done ++ [b.cursor.block]
  edges : ∀ {p q}, b.flow.Edge p q → q ∈ pending ∨ [p, q].Sublist (b.line pending)
  joins : ∀ {q}, q ∈ b.line pending → b.body.nameOf q = some "ifend" → b.flow.Joins q

/-- The line of one builder has grown into that of another by blocks with these names. -/
structure Arranges (pending : List BlockId) (b : Builder) (names : List String)
    (pending' : List BlockId) (b' : Builder) : Prop where
  blocks : b.body.nextBlock ≤ b'.body.nextBlock
  named : ∀ q, q.index < b.body.nextBlock → b'.body.nameOf q = b.body.nameOf q
  line : ∃ new, b'.line pending' = b.line pending ++ new ∧
    new.map b'.body.nameOf = names.map some
  arranged : b'.Arranged pending'

theorem Shaped.nodup_layout (h : b.Shaped) : b.body.layout.Nodup :=
  h.layout.nodup_iff.2 b.body.blocks.nodup

theorem Shaped.mem_layout (h : b.Shaped) {q : BlockId} :
    q ∈ b.body.layout ↔ q.index < b.body.nextBlock := by
  rw [h.layout.mem_iff, h.mem_keys]

theorem Shaped.mem_line (h : b.Shaped) {q : BlockId} :
    q ∈ b.line pending ↔ q.index < b.body.nextBlock ∧ q ∉ pending := by
  simp [line, h.mem_layout]

/-- Edges start in blocks that do not wait. -/
theorem Open.mem_line_of_edge (h : b.Open pending) {p q : BlockId} (he : b.flow.Edge p q) :
    p ∈ b.line pending := by
  have hexit : b.flow.exit p ≠ .missing := by
    intro hmissing
    simp [Flow.Edge, hmissing, Terminator.successors] at he
  rw [h.mem_line]
  constructor
  · by_contra hp
    exact hexit (h.exit_fresh (Nat.le_of_not_lt hp))
  · intro hp
    exact hexit (h.pending_open hp)

theorem Arranged.mem_cursor (h : b.Arranged pending) : b.cursor.block ∈ b.line pending := by
  obtain ⟨done, hdone⟩ := h.last
  simp [hdone]

/-- A builder that has the same blocks, edges and line is arranged like the other. -/
theorem Arranged.of_eq (h : b.Arranged pending) (hcursor : b'.cursor = b.cursor)
    (hlayout : b'.body.layout = b.body.layout) (hnames : ∀ q, b'.body.nameOf q = b.body.nameOf q)
    (hedge : ∀ p q, b'.flow.Edge p q ↔ b.flow.Edge p q)
    (hjoins : ∀ q, b.flow.Joins q → b'.flow.Joins q) : b'.Arranged pending where
  last := by
    rw [line, hlayout, hcursor]
    exact h.last
  edges he := by
    rw [line, hlayout]
    exact h.edges ((hedge _ _).1 he)
  joins {q} hq hname := by
    rw [line, hlayout] at hq
    rw [hnames] at hname
    exact hjoins q (h.joins hq hname)

namespace Arranges

variable {names names' : List String}

theorem refl (h : b.Arranged pending) : b.Arranges pending [] pending b where
  blocks := Nat.le_refl _
  named _ _ := rfl
  line := ⟨[], by simp⟩
  arranged := h

theorem trans {pending'' : List BlockId} (h : b.Arranges pending names pending' b')
    (hb' : b'.Open pending') (h' : b'.Arranges pending' names' pending'' b'') :
    b.Arranges pending (names ++ names') pending'' b'' where
  blocks := Nat.le_trans h.blocks h'.blocks
  named q hq := (h'.named q (Nat.lt_of_lt_of_le hq h.blocks)).trans (h.named q hq)
  line := by
    obtain ⟨new, hline, hnames⟩ := h.line
    obtain ⟨new', hline', hnames'⟩ := h'.line
    refine ⟨new ++ new', by rw [hline', hline, List.append_assoc], ?_⟩
    have hkept : new.map b''.body.nameOf = new.map b'.body.nameOf := by
      refine List.map_congr_left ?_
      intro q hq
      have hmem : q ∈ b'.line pending' := by
        rw [hline]
        exact List.mem_append_right _ hq
      exact h'.named q (hb'.mem_line.1 hmem).1
    rw [List.map_append, List.map_append, hkept, hnames, hnames']
  arranged := h'.arranged

/-- A step that adds no block and changes no edge. -/
theorem extend (h : b.Arranges pending names pending' b') (hcursor : b''.cursor = b'.cursor)
    (hlayout : b''.body.layout = b'.body.layout)
    (hblocks : b''.body.nextBlock = b'.body.nextBlock)
    (hnames : ∀ q, b''.body.nameOf q = b'.body.nameOf q)
    (hedge : ∀ p q, b''.flow.Edge p q ↔ b'.flow.Edge p q)
    (hjoins : ∀ q, b'.flow.Joins q → b''.flow.Joins q) :
    b.Arranges pending names pending' b'' where
  blocks := hblocks ▸ h.blocks
  named q hq := (hnames q).trans (h.named q hq)
  line := by
    obtain ⟨new, hline, hnew⟩ := h.line
    refine ⟨new, ?_, ?_⟩
    · rw [← hline, Builder.line, hlayout]
      rfl
    · rw [funext hnames]
      exact hnew
  arranged := h.arranged.of_eq hcursor hlayout hnames hedge hjoins

end Arranges

/-! ## Steps that add no block -/

/-- Changing a block in other ways leaves all names. -/
theorem nameOf_modifyBlock (body : Body) (q : BlockId) {f : Block → Block}
    (hf : ∀ blk, (f blk).name = blk.name) (p : BlockId) :
    (body.modifyBlock q f).nameOf p = body.nameOf p := by
  unfold Body.nameOf
  rw [Body.block?_modifyBlock]
  split
  · cases body.block? p with
    | none => rfl
    | some blk => simp [hf]
  · rfl

theorem nameOf_put (b : Builder) (i : Instr) (q : BlockId) :
    (b.put i).body.nameOf q = b.body.nameOf q :=
  nameOf_modifyBlock _ _ (by intro; rfl) q

theorem nameOf_conclude (b : Builder) (t : Terminator) (q : BlockId) :
    (b.conclude t).body.nameOf q = b.body.nameOf q :=
  nameOf_modifyBlock _ _ (by intro; rfl) q

namespace Arranges

variable {names : List String}

theorem draw (h : b.Arranges pending names pending' b') :
    b.Arranges pending names pending' b'.draw :=
  h.extend rfl rfl rfl (fun _ => rfl) (fun _ _ => Iff.rfl) fun _ hq => hq

theorem put (h : b.Arranges pending names pending' b') (hb' : b'.Open pending') {i : Instr}
    (hi : i.isPhi = false) : b.Arranges pending names pending' (b'.put i) := by
  refine h.extend rfl rfl rfl (nameOf_put b' i) ?_ ?_
  · intro p q
    rw [hb'.flow_put]
    exact Iff.rfl
  · intro q hq
    rw [hb'.flow_put]
    exact hq.append hi

theorem putValue (h : b.Arranges pending names pending' b') (hb' : b'.Open pending')
    {i : ValueId → Instr} (hi : ∀ v, (i v).isPhi = false) :
    b.Arranges pending names pending' (b'.putValue i) :=
  h.draw.put hb'.draw (hi _)

theorem addVariable (h : b.Arranges pending names pending' b') (hb' : b'.Open pending')
    (name : String) (ty : Ty) :
    b.Arranges pending names pending' (b'.addVariable name ty) := by
  refine h.extend rfl rfl rfl (nameOf_modifyBlock _ _ (by intro; rfl)) ?_ ?_
  · intro p q
    rw [flow_addVariable hb'.toShaped]
  · intro q hq
    rwa [flow_addVariable hb'.toShaped]

end Arranges

/-! ## The blocks of a conditional -/

theorem nameOf_openBlock (b : Builder) (name : String) (q : BlockId) :
    (b.openBlock name).body.nameOf q =
      if b.nextId = q then some name else b.body.nameOf q := by
  unfold Body.nameOf
  rw [show (b.openBlock name).body.block? q =
    if b.nextId = q then some (.opened q name) else b.body.block? q from
      Body.block?_createBlock b.body name q]
  split <;> rfl

/-- The blocks of a conditional have their names, and the others keep theirs. -/
theorem nameOf_forked (b : Builder) (condition : Operand) (q : BlockId) :
    (b.forked condition).body.nameOf q =
      if q = b.ahead 0 then some "then" else if q = b.ahead 1 then some "else"
      else if q = b.ahead 2 then some "ifend" else b.body.nameOf q := by
  have hsame : (b.forked condition).body.nameOf q = b.widened.body.nameOf q :=
    nameOf_conclude ..
  rw [hsame, widened, nameOf_openBlock, nameOf_openBlock, nameOf_openBlock]
  obtain ⟨n⟩ := q
  simp only [nextId, ahead, openBlock, Body.createBlock, BlockId.mk.injEq]
  -- the blocks are opened one after the other, so their numbers differ
  repeat' split
  all_goals first | rfl | omega

/-- A block that is there is none of those to come. -/
theorem ne_ahead (b : Builder) {q : BlockId} (hq : q.index < b.body.nextBlock) (k : Nat) :
    q ≠ b.ahead k := by
  rintro rfl
  simp only [ahead] at hq
  omega

/-- The first branch comes next in the line. -/
theorem line_forked (h : b.Open pending) (condition : Operand) :
    (b.forked condition).line (b.ahead 1 :: b.ahead 2 :: pending) =
      b.line pending ++ [b.ahead 0] := by
  have hlayout : (b.forked condition).body.layout =
      b.body.layout ++ [b.ahead 0, b.ahead 1, b.ahead 2] := by
    change b.body.layout ++ [_] ++ [_] ++ [_] = _
    simp [ahead, openBlock, Body.createBlock]
  have hold : b.body.layout.filter (fun q => decide (q ∉ b.ahead 1 :: b.ahead 2 :: pending)) =
      b.line pending := by
    refine List.filter_congr ?_
    intro q hq
    have hlt := h.mem_layout.1 hq
    simp [b.ne_ahead hlt]
  have hnew : b.ahead 0 ∉ pending := by
    intro hmem
    exact b.ne_ahead (h.pending_lt hmem) 0 rfl
  rw [line, hlayout, List.filter_append, hold]
  have h₁ : b.ahead 0 ≠ b.ahead 1 := by simp [ahead]
  have h₂ : b.ahead 0 ≠ b.ahead 2 := by simp [ahead]
  simp [hnew, h₁, h₂]

theorem Arranged.forked (ha : b.Arranged pending) (h : b.Open pending) (condition : Operand) :
    (b.forked condition).Arranged (b.ahead 1 :: b.ahead 2 :: pending) where
  last := ⟨b.line pending, line_forked h condition⟩
  edges {p q} he := by
    rw [line_forked h]
    rw [flow_forked h, Flow.edge_close] at he
    simp only [Terminator.successors, List.mem_cons, List.not_mem_nil, or_false] at he
    rcases he with ⟨rfl, rfl | rfl⟩ | ⟨-, he⟩
    · refine .inr ?_
      exact (List.singleton_sublist.2 ha.mem_cursor).append (.refl [b.ahead 0])
    · exact .inl (by simp)
    · rcases ha.edges he with hq | hsub
      · exact .inl (by simp [hq])
      · exact .inr (hsub.trans (List.sublist_append_left ..))
  joins {q} hq hname := by
    rw [line_forked h, List.mem_append, List.mem_singleton] at hq
    rw [nameOf_forked] at hname
    rcases hq with hq | rfl
    · have hlt := (h.mem_line.1 hq).1
      simp only [b.ne_ahead hlt, if_false] at hname
      refine (ha.joins hq hname).of_eq ?_ ?_
      · intro r
        exact ((h.grows_forked condition).keeps h).edge hlt
      · rw [flow_forked h]
        rfl
    · simp at hname

/-- A block that waits comes next in the line when a branch is left for it. -/
theorem line_left {next : BlockId} (ha : b.Arranged (next :: pending))
    (h : b.Open (next :: pending)) (join : BlockId) {layout : List BlockId}
    (hmoved : relocate b.body.layout next b.cursor.block = .ok layout) :
    (b.left join next layout).line pending = b.line (next :: pending) ++ [next] := by
  have hnodup := h.nodup
  simp only [List.nodup_cons, List.mem_cons, not_or] at hnodup
  obtain ⟨⟨hne, hcursor⟩, hnext, -⟩ := hnodup
  obtain ⟨done, hdone⟩ := ha.last
  have hdone' : b.cursor.block ∉ done := by
    have hline : (b.line (next :: pending)).Nodup := h.nodup_layout.filter _
    rw [hdone, List.nodup_append] at hline
    intro hmem
    exact hline.2.2 _ hmem _ (by simp) rfl
  have hrest : (b.body.layout.erase next).filter (fun q => decide (q ∉ pending)) =
      b.line (next :: pending) := by
    rw [h.nodup_layout.erase_eq_filter, List.filter_filter, line]
    refine List.filter_congr ?_
    intro q _
    rw [Bool.eq_iff_iff]
    simp [and_comm]
  change layout.filter _ = _
  rw [relocate_eq (Ne.symm hne) hmoved, filter_insertAfter (by simpa using hcursor)
    (by simpa using hnext), hrest, hdone, insertAfter_append next hdone']
  simp

theorem nameOf_left (b : Builder) (join next : BlockId) (layout : List BlockId) (q : BlockId) :
    (b.left join next layout).body.nameOf q = b.body.nameOf q :=
  nameOf_conclude ..

theorem nameOf_merged (b : Builder) (join : BlockId) (layout : List BlockId)
    (i : ValueId → Instr) (q : BlockId) :
    ((b.left join join layout).putValue i).body.nameOf q = b.body.nameOf q :=
  (nameOf_put (b.left join join layout).draw _ q).trans (nameOf_left b join join layout q)

/-- The edges of a builder that has left a branch. -/
theorem Arranged.edges_left {join next : BlockId} (ha : b.Arranged (next :: pending))
    (h : b.Open (next :: pending)) (hjoin : join ∈ next :: pending) {layout : List BlockId}
    (hmoved : relocate b.body.layout next b.cursor.block = .ok layout) {p q : BlockId}
    (he : (b.left join next layout).flow.Edge p q) :
    q ∈ pending ∨ [p, q].Sublist ((b.left join next layout).line pending) := by
  have hinto {p : BlockId} (hp : p ∈ b.line (next :: pending)) :
      [p, next].Sublist (b.line (next :: pending) ++ [next]) :=
    (List.singleton_sublist.2 hp).append (.refl [next])
  rw [line_left ha h join hmoved]
  rcases (edge_left h).1 he with hold | ⟨rfl, rfl⟩
  · rcases ha.edges hold with hq | hsub
    · rcases List.mem_cons.1 hq with rfl | hq
      · exact .inr (hinto (h.mem_line_of_edge hold))
      · exact .inl hq
    · exact .inr (hsub.trans (List.sublist_append_left ..))
  · rcases List.mem_cons.1 hjoin with rfl | hq
    · exact .inr (hinto ha.mem_cursor)
    · exact .inl hq

/-- A join stays one when a branch is left. -/
theorem Arranged.joins_left {join next : BlockId} (ha : b.Arranged (next :: pending))
    (h : b.Open (next :: pending)) (hjoin : join ∈ next :: pending) (layout : List BlockId)
    {q : BlockId} (hq : q ∈ b.line (next :: pending)) (hname : b.body.nameOf q = some "ifend") :
    (b.left join next layout).flow.Joins q := by
  refine (ha.joins hq hname).of_eq ?_ ?_
  · intro r
    have hne : q ≠ join := by
      rintro rfl
      exact (h.mem_line.1 hq).2 hjoin
    rw [edge_left h]
    simp [hne]
  · rw [h.flow_left]
    rfl

theorem Arranged.left {join next : BlockId} (ha : b.Arranged (next :: pending))
    (h : b.Open (next :: pending)) (hjoin : join ∈ next :: pending) {layout : List BlockId}
    (hmoved : relocate b.body.layout next b.cursor.block = .ok layout)
    (hnext : b.body.nameOf next ≠ some "ifend") :
    (b.left join next layout).Arranged pending where
  last := ⟨_, line_left ha h join hmoved⟩
  edges he := ha.edges_left h hjoin hmoved he
  joins {q} hq hname := by
    rw [line_left ha h join hmoved, List.mem_append, List.mem_singleton] at hq
    rw [nameOf_left] at hname
    rcases hq with hq | rfl
    · exact ha.joins_left h hjoin layout hq hname
    · exact absurd hname hnext

/-- The phi of a conditional makes its last block a join. -/
theorem Arranged.merged {join : BlockId} (ha : b.Arranged (join :: pending))
    (h : b.Open (join :: pending)) {layout : List BlockId}
    (hmoved : relocate b.body.layout join b.cursor.block = .ok layout)
    (hedges : ∃ p p', p ≠ p' ∧ ∀ r, (b.left join join layout).flow.Edge r join ↔ r = p ∨ r = p')
    {i : ValueId → Instr} (hi : ∀ v, (i v).isPhi = true) :
    ((b.left join join layout).putValue i).Arranged pending where
  last := ⟨_, line_left ha h join hmoved⟩
  edges {p q} he := by
    have hleft : (b.left join join layout).Open pending := h.left (relocate_perm hmoved)
    rw [hleft.flow_putValue] at he
    exact ha.edges_left h (by simp) hmoved he
  joins {q} hq hname := by
    have hleft : (b.left join join layout).Open pending := h.left (relocate_perm hmoved)
    change q ∈ (b.left join join layout).line pending at hq
    rw [line_left ha h join hmoved, List.mem_append, List.mem_singleton] at hq
    rw [nameOf_merged] at hname
    rw [hleft.flow_putValue]
    rcases hq with hq | rfl
    · have hne : q ≠ join := by
        rintro rfl
        exact (h.mem_line.1 hq).2 (by simp)
      refine (ha.joins_left h (by simp) layout hq hname).of_eq (fun _ => Iff.rfl) ?_
      exact Flow.code_append_of_ne _ _ _ hne
    · have hempty : (b.left q q layout).flow.code q = [] := by
        rw [h.flow_left]
        exact h.empty q (by simp)
      refine ⟨hedges, i ⟨(b.left q q layout).body.nextValue⟩, [], ?_, hi _, by simp⟩
      change ((b.left q q layout).flow.append q _).code q = _
      rw [Flow.code_append_self, hempty]
      rfl

namespace Arranges

variable {names : List String}

theorem forked (h : b.Arranges pending names pending' b') (hb' : b'.Open pending')
    (condition : Operand) :
    b.Arranges pending (names ++ ["then"]) (b'.ahead 1 :: b'.ahead 2 :: pending')
      (b'.forked condition) := by
  refine h.trans hb' ⟨(hb'.grows_forked condition).blocks, ?_, ?_, h.arranged.forked hb' condition⟩
  · intro q hq
    simp [nameOf_forked, b'.ne_ahead hq]
  · refine ⟨[b'.ahead 0], line_forked hb' condition, ?_⟩
    simp [nameOf_forked]

theorem left {next : BlockId} (h : b.Arranges pending names (next :: pending') b')
    (hb' : b'.Open (next :: pending')) {join : BlockId} (hjoin : join ∈ pending')
    {layout : List BlockId}
    (hmoved : relocate b'.body.layout next b'.cursor.block = .ok layout) {name : String}
    (hname : b'.body.nameOf next = some name) (hne : name ≠ "ifend") :
    b.Arranges pending (names ++ [name]) pending' (b'.left join next layout) := by
  have hleft := h.arranged.left hb' (List.mem_cons_of_mem _ hjoin) hmoved
    (by simpa [hname] using hne)
  refine h.trans hb' ⟨Nat.le_refl _, fun q _ => nameOf_left .., ?_, hleft⟩
  refine ⟨[next], line_left h.arranged hb' join hmoved, ?_⟩
  simp [nameOf_left, hname]

theorem merged {join : BlockId} (h : b.Arranges pending names (join :: pending') b')
    (hb' : b'.Open (join :: pending')) {layout : List BlockId}
    (hmoved : relocate b'.body.layout join b'.cursor.block = .ok layout)
    (hname : b'.body.nameOf join = some "ifend")
    (hedges : ∃ p p', p ≠ p' ∧
      ∀ r, (b'.left join join layout).flow.Edge r join ↔ r = p ∨ r = p')
    {i : ValueId → Instr} (hi : ∀ v, (i v).isPhi = true) :
    b.Arranges pending (names ++ ["ifend"]) pending' ((b'.left join join layout).putValue i) := by
  refine h.trans hb' ⟨Nat.le_refl _, fun q _ => nameOf_merged .., ?_,
    h.arranged.merged hb' hmoved hedges hi⟩
  refine ⟨[join], line_left h.arranged hb' join hmoved, ?_⟩
  simp [nameOf_merged, hname]

end Arranges

end Builder

/-! ## Lowering a form -/

namespace LowerState

variable {pending : List BlockId} {s t u : LowerState} {condition : Operand}

/-- The branches of a conditional end in two blocks, and only they lead to the join. -/
theorem exists_ends (h : s.Sound pending) (hc : condition.Usable s)
    (ht : FirstBranch pending s condition t) {layout layout' : List BlockId}
    (hl : layout.Perm t.builder.body.layout) (hu : SecondBranch pending s t layout u) :
    ∃ p p', p ≠ p' ∧ ∀ r, (u.builder.left (s.builder.ahead 2) (s.builder.ahead 2)
      layout').flow.Edge r (s.builder.ahead 2) ↔ r = p ∨ r = p' := by
  have hwaits : t.current ≠ s.builder.ahead 1 :=
    (ht.sound.opened.pending_ne (q := s.builder.ahead 1) (by simp)).symm
  have hne : t.current ≠ u.current := hu.builder.ne_cursor ht.sound.opened.current_lt hwaits
  exact ⟨t.current, u.current, hne, fun r => edge_joined h hc ht hl hu⟩

/-- A value is computed that is no phi. -/
theorem Sound.arranges_compute (h : s.Sound pending) {b : Builder} {waiting : List BlockId}
    {names : List String} (hb : b.Arranges waiting names pending s.builder) {i : ValueId → Instr}
    (hi : ∀ v, (i v).isPhi = false) :
    b.Arranges waiting names pending (s.compute i).builder :=
  hb.putValue h.opened hi

end LowerState

open Builder in
mutual

/-- **Lowering a form lengthens the line by the blocks of the form.** -/
theorem Form.arranges {pending : List BlockId} {s s' : LowerState} {v : Operand} :
    (f : Form) → Lowered pending f s v s' → s.Sound pending → s.builder.Arranged pending →
      s.builder.Arranges pending f.blockNames pending s'.builder
  | .number _, h, hs, ha => by
    cases h
    exact .refl ha
  | .truth _, h, hs, ha => by
    cases h
    exact .refl ha
  | .text _, h, hs, ha => by
    cases h
    exact .refl ha
  | .reference _, h, hs, ha => by
    cases h with
    | value _ => exact .refl ha
    | load _ _ => exact hs.arranges_compute (.refl ha) fun _ => rfl
  | .arith _ left right, h, hs, ha => by
    cases h with
    | arith hleft hright =>
      have hs₁ := (left.reaches hleft hs).1.sound
      have hs₂ := (right.reaches hright hs₁).1.sound
      have hl := left.arranges hleft hs ha
      have hr := right.arranges hright hs₁ hl.arranged
      exact hs₂.arranges_compute (hl.trans hs₁.opened hr) fun _ => rfl
  | .compare _ left right, h, hs, ha => by
    cases h with
    | compare hleft hright =>
      have hs₁ := (left.reaches hleft hs).1.sound
      have hs₂ := (right.reaches hright hs₁).1.sound
      have hl := left.arranges hleft hs ha
      have hr := right.arranges hright hs₁ hl.arranged
      exact hs₂.arranges_compute (hl.trans hs₁.opened hr) fun _ => rfl
  | .declare name ty init, h, hs, ha => by
    cases h with
    | declare hinit =>
      have hs₁ := (init.reaches hinit hs).1.sound
      have hi := (init.arranges hinit hs ha).addVariable hs₁.opened name ty
      exact hi.put (hs₁.opened.addVariable name ty) rfl
  | .assign _ value, h, hs, ha => by
    cases h with
    | assign hvalue _ _ =>
      have hs₁ := (value.reaches hvalue hs).1.sound
      exact (value.arranges hvalue hs ha).put hs₁.opened rfl
  | .block first rest, h, hs, ha => by
    cases h with
    | block hfirst hrest =>
      have hs₁ := (first.reaches hfirst hs.inner.sound).1.sound
      have hf := first.arranges hfirst hs.inner.sound ha
      have hr := Form.arrangesAll rest hrest hs₁ hf.arranged
      exact hf.trans hs₁.opened hr
  | .print template args, h, hs, ha => by
    cases h with
    | print htemplate hargs =>
      have hs₁ := (template.reaches htemplate hs).1.sound
      have hs₂ := (Form.reachesAll args hargs hs₁).1.sound
      have ht := template.arranges htemplate hs ha
      have hr := Form.arrangesAll args hargs hs₁ ht.arranged
      exact hs₂.arranges_compute (ht.trans hs₁.opened hr) fun _ => rfl
  | .choose condition yes no, h, hs, ha => by
    cases h with
    | @choose _ _ s₁ t u _ _ _ c y n layout layout' hcondition hyes hmoved hno hmoved' =>
      have hl := relocate_perm hmoved
      obtain ⟨hr₁, hc⟩ := condition.reaches hcondition hs
      have hforked := (hr₁.sound.forked hc).sound
      have ht := (yes.reaches hyes hforked).1
      have hsecond := (hr₁.sound.second hc ht hl).sound
      have hu := (no.reaches hno hsecond).1
      have hcond := (condition.arranges hcondition hs ha).forked hr₁.sound.opened c
      have hfirst := yes.arranges hyes hforked hcond.arranged
      -- the names of the blocks that wait, from when they were opened to when their turn comes
      have helse : t.builder.body.nameOf (s₁.builder.ahead 1) = some "else" := by
        rw [hfirst.named _ (s₁.ahead_lt_forked c (by decide))]
        exact (nameOf_forked ..).trans (by simp [ahead])
      have hleft := (hcond.trans hforked.opened hfirst).left ht.sound.opened
        (List.mem_cons_self ..) hmoved helse (by decide)
      have hsnd := no.arranges hno hsecond hleft.arranged
      have hlt := s₁.ahead_lt_forked c (k := 2) (by decide)
      have hifend : u.builder.body.nameOf (s₁.builder.ahead 2) = some "ifend" := by
        rw [hsnd.named _ (Nat.lt_of_lt_of_le hlt hfirst.blocks)]
        refine (nameOf_left ..).trans ((hfirst.named _ hlt).trans ?_)
        exact (nameOf_forked ..).trans (by simp [ahead])
      have hall := (hleft.trans hsecond.opened hsnd).merged hu.sound.opened hmoved' hifend
        (LowerState.exists_ends hr₁.sound hc ht hl hu)
        (i := (.phi · u.builder.signature.ret [(y, t.current), (n, u.current)])) (by intro; rfl)
      have hnames : condition.blockNames ++ ["then"] ++ yes.blockNames ++ ["else"] ++
          no.blockNames ++ ["ifend"] = (Form.choose condition yes no).blockNames := by
        simp [Form.blockNames]
      rw [hnames] at hall
      exact hall
  | .malformed _, h, hs, ha => by cases h

theorem Form.arrangesAll {pending : List BlockId} {s s' : LowerState} {values : List Operand} :
    (forms : List Form) → LoweredAll pending forms s values s' → s.Sound pending →
      s.builder.Arranged pending →
      s.builder.Arranges pending (Form.blockNamesAll forms) pending s'.builder
  | [], h, hs, ha => by
    cases h
    exact .refl ha
  | f :: rest, h, hs, ha => by
    cases h with
    | cons hf hrest =>
      have hs₁ := (f.reaches hf hs).1.sound
      have hfirst := f.arranges hf hs ha
      exact hfirst.trans hs₁.opened (Form.arrangesAll rest hrest hs₁ hfirst.arranged)

end

end SexprSsa
