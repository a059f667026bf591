/-
SexprSsa.Proofs.Slots — the variables of a compiled program and their slots.

The code of a function is read down its layout, block by block. Of what its
instructions and terminators do the addresses are kept and the values left out
(`Body.acts`); the allocations, which are sunk to the top of the entry block
while other code is written, do nothing here.

While a program is lowered, the names, the slots and the code on the line of the
builder are those of the marks that have been met (`Follows`). The line is used
and not the layout, since the blocks that wait lie anywhere in between. Every
step of lowering adds one mark at the end of the text and one act at the end of
the line.

Main statements: `Form.follows`, lowering a form adds its marks, and
`compileExpr_realizes`, the slots and the code of a compiled program are those
of its text.
-/
import SexprSsa.Proofs.ControlShape
import SexprSsa.Proofs.Marks

namespace SexprSsa

/-! ## What code does -/

/-- What an instruction does; an allocation does nothing when it is run. -/
def Instr.act? : Instr → Option Act
  | .alloca .. => none
  | .load _ ty address => some (.load ty address)
  | .store address _ => some (.store address)
  | .arith _ op _ _ => some (.operate op.tag)
  | .compare _ cond _ _ => some (.operate cond.tag)
  | .call _ callee _ => some (.call callee)
  | .phi .. => some .merge

/-- What a terminator does. -/
def Terminator.acts : Terminator → List Act
  | .jump _ => [.jump]
  | .branch .. => [.branch]
  | .ret _ => [.ret]
  | .missing => []

/-- What the instructions of a block do, and then its terminator. -/
def Block.acts (blk : Block) : List Act := blk.instrs.filterMap Instr.act? ++ blk.terminator.acts

/-- What the code of a function does, down the layout. -/
def Body.acts (body : Body) : List Act := body.laidOut.flatMap Block.acts

/-- What the code of a block of the graph does. -/
def Flow.acts (g : Flow) (q : BlockId) : List Act :=
  (g.code q).filterMap Instr.act? ++ (g.exit q).acts

theorem Flow.acts_append_self (g : Flow) {q : BlockId} (h : g.exit q = .missing) (i : Instr) :
    (g.append q i).acts q = g.acts q ++ [i].filterMap Instr.act? := by
  have hexit : (g.append q i).exit q = .missing := h
  rw [acts, acts, code_append_self, h, hexit]
  simp [Terminator.acts]

theorem Flow.acts_append_of_ne (g : Flow) {p q : BlockId} (h : p ≠ q) (i : Instr) :
    (g.append q i).acts p = g.acts p := by
  rw [acts, code_append_of_ne _ _ _ h]
  rfl

theorem Flow.acts_close_self (g : Flow) {q : BlockId} (h : g.exit q = .missing) (t : Terminator) :
    (g.close q t).acts q = g.acts q ++ t.acts := by
  rw [acts, acts, exit_close_self, code_close, h]
  simp [Terminator.acts]

theorem Flow.acts_close_of_ne (g : Flow) {p q : BlockId} (h : p ≠ q) (t : Terminator) :
    (g.close q t).acts p = g.acts p := by
  rw [acts, acts, exit_close_of_ne _ _ _ h, code_close]

namespace Builder

variable {pending : List BlockId} {b : Builder}

/-- What the code does that has been written, down the line. -/
def acts (b : Builder) (pending : List BlockId) : List Act := (b.line pending).flatMap b.flow.acts

/-- A block that waits does nothing so far. -/
theorem Open.acts_pending (h : b.Open pending) {q : BlockId} (hq : q ∈ pending) :
    b.flow.acts q = [] := by
  rw [Flow.acts, h.empty q hq, h.pending_open hq]
  rfl

/-- A number that has not been drawn does nothing. -/
theorem Shaped.acts_fresh (h : b.Shaped) {q : BlockId} (hq : b.body.nextBlock ≤ q.index) :
    b.flow.acts q = [] := by
  rw [Flow.acts, h.code_fresh hq, h.exit_fresh hq]
  rfl

/-- What is done at the end of the block of the cursor is done at the end of the line. -/
theorem Open.acts_current (h : b.Open pending)
    (hlast : ∃ done, b.line pending = done ++ [b.cursor.block]) {g : Flow} {more : List Act}
    (hcurrent : g.acts b.cursor.block = b.flow.acts b.cursor.block ++ more)
    (hother : ∀ q, q ≠ b.cursor.block → g.acts q = b.flow.acts q) :
    (b.line pending).flatMap g.acts = b.acts pending ++ more := by
  obtain ⟨done, hdone⟩ := hlast
  have hline : (b.line pending).Nodup := h.nodup_layout.filter _
  rw [hdone, List.nodup_append] at hline
  have hsame : done.flatMap g.acts = done.flatMap b.flow.acts := by
    refine List.flatMap_congr ?_
    intro q hq
    exact hother q fun hcursor => hline.2.2 q hq b.cursor.block (by simp) hcursor
  rw [acts, hdone, List.flatMap_append, List.flatMap_append, hsame, List.flatMap_singleton,
    List.flatMap_singleton, hcurrent, List.append_assoc]

theorem Open.acts_put (h : b.Open pending)
    (hlast : ∃ done, b.line pending = done ++ [b.cursor.block]) (i : Instr) :
    (b.put i).acts pending = b.acts pending ++ [i].filterMap Instr.act? := by
  change (b.line pending).flatMap (b.put i).flow.acts = _
  rw [h.flow_put]
  exact h.acts_current hlast (b.flow.acts_append_self h.current_open i)
    fun q hq => b.flow.acts_append_of_ne hq i

/-- A slot that is added changes no code but the allocations. -/
theorem Open.acts_addVariable (h : b.Open pending) (name : String) (ty : Ty) :
    (b.addVariable name ty).acts pending = b.acts pending := by
  unfold acts
  rw [flow_addVariable h.toShaped]
  rfl

theorem Open.acts_close (h : b.Open pending)
    (hlast : ∃ done, b.line pending = done ++ [b.cursor.block]) (t : Terminator) :
    (b.line pending).flatMap (b.flow.close b.cursor.block t).acts = b.acts pending ++ t.acts :=
  h.acts_current hlast (b.flow.acts_close_self h.current_open t)
    fun _ hq => b.flow.acts_close_of_ne hq t

theorem Open.acts_forked (h : b.Open pending) (ha : b.Arranged pending) (condition : Operand) :
    (b.forked condition).acts (b.ahead 1 :: b.ahead 2 :: pending) =
      b.acts pending ++ [.branch] := by
  have hfresh : b.body.nextBlock ≤ (b.ahead 0).index := Nat.le_add_right ..
  have hne : b.ahead 0 ≠ b.cursor.block := (b.ne_ahead h.current_lt 0).symm
  have hnew := b.flow.acts_close_of_ne hne (.branch condition (b.ahead 0) (b.ahead 1))
  rw [h.acts_fresh hfresh] at hnew
  rw [acts, line_forked h, flow_forked h, List.flatMap_append, h.acts_close ha.last,
    List.flatMap_singleton, hnew, List.append_nil]
  rfl

theorem Open.acts_left {join next : BlockId} (h : b.Open (next :: pending))
    (ha : b.Arranged (next :: pending)) {layout : List BlockId}
    (hmoved : relocate b.body.layout next b.cursor.block = .ok layout) :
    (b.left join next layout).acts pending = b.acts (next :: pending) ++ [.jump] := by
  have hne : next ≠ b.cursor.block := h.pending_ne (List.mem_cons_self ..)
  have hnext := b.flow.acts_close_of_ne hne (.jump join)
  rw [h.acts_pending (List.mem_cons_self ..)] at hnext
  rw [acts, line_left ha h join hmoved, h.flow_left, List.flatMap_append, h.acts_close ha.last,
    List.flatMap_singleton, hnext, List.append_nil]
  rfl

/-- A block does what it does in the graph, since allocations do nothing. -/
theorem Shaped.acts_block (h : b.Shaped) {q : BlockId} {blk : Block}
    (hblk : b.body.block? q = some blk) : b.flow.acts q = blk.acts := by
  have hexit : b.flow.exit q = blk.terminator := Body.exit_of_block hblk
  have hallocations : (b.body.slots.map StackSlot.allocation).filterMap Instr.act? = [] := by
    simp [List.filterMap_eq_nil_iff, StackSlot.allocation, Instr.act?]
  rw [Flow.acts, Block.acts, hexit, ← Body.code_of_block hblk]
  by_cases hq : q = b.body.entry
  · rw [hq, h.code_entry, List.filterMap_append, hallocations, List.nil_append]
  · rw [Shaped.code_of_ne_entry hq]

/-- What is done down the line when no block waits is what the function does. -/
theorem Shaped.acts_body (h : b.Shaped) : b.body.acts = b.acts [] := by
  rw [Body.acts, acts, line_nil, ← h.laidOut_ids, List.flatMap_map]
  refine List.flatMap_congr ?_
  intro blk hblk
  exact (h.acts_block (h.mem_laidOut.1 hblk)).symm

end Builder

/-! ## Following a text -/

/-- The slots of declared variables: slot `k` is the one of the `k`th of them. -/
def slotsFor (declared : List (String × Ty)) : List StackSlot :=
  declared.mapIdx fun k (name, ty) => ⟨⟨k⟩, name, ty⟩

theorem length_slotsFor (declared : List (String × Ty)) :
    (slotsFor declared).length = declared.length :=
  List.length_mapIdx

theorem getElem?_slotsFor {declared : List (String × Ty)} {k : Nat} {name : String} {ty : Ty}
    (h : declared[k]? = some (name, ty)) : (slotsFor declared)[k]? = some ⟨⟨k⟩, name, ty⟩ := by
  rw [slotsFor, List.getElem?_mapIdx, h]
  rfl

namespace LowerState

variable {options : Options} {before : List Mark} {pending pending' : List BlockId}
  {s s' : LowerState}

/-- After the marks `before`, the names, the slots and the code are those of the text. -/
structure Follows (options : Options) (before : List Mark) (pending : List BlockId)
    (s : LowerState) : Prop where
  names : ∀ name, s.scopes.lookup? name = options.bindingAt before name
  slots : s.builder.body.slots = slotsFor (variablesIn before)
  acts : options.outline? [] before = some (s.builder.acts pending)

namespace Follows

theorem length_slots (h : s.Follows options before pending) :
    s.builder.body.slots.length = (variablesIn before).length := by
  rw [h.slots, length_slotsFor]

/-- The code for a mark is written with the names and the number of slots that the state has. -/
theorem actsAt?_eq (h : s.Follows options before pending) (mark : Mark) :
    options.actsAt? before mark =
      mark.acts? s.scopes.lookup? s.builder.body.slots.length := by
  rw [Options.actsAt?, h.length_slots, ← funext h.names]

/-- A mark that declares nothing, and neither opens nor ends a block. -/
theorem plain (h : s.Follows options before pending) {mark : Mark} {own : List Act}
    (hmark : mark.acts? s.scopes.lookup? s.builder.body.slots.length = some own)
    (hscopes : s'.scopes = s.scopes) (hslots : s'.builder.body.slots = s.builder.body.slots)
    (hacts : s'.builder.acts pending' = s.builder.acts pending ++ own)
    (hplain : mark.isPlain = true) : s'.Follows options (before ++ [mark]) pending' where
  names name := by
    rw [hscopes, options.bindingAt_plain before hplain]
    exact h.names name
  slots := by
    rw [hslots, h.slots, variablesIn_concat (Mark.variable?_of_plain hplain)]
  acts := by
    rw [hacts]
    exact Options.outline?_concat h.acts ((h.actsAt?_eq mark).trans hmark)

/-- An instruction is put at the cursor. -/
theorem put (h : s.Follows options before pending) (hs : s.builder.Open pending)
    (ha : ∃ done, s.builder.line pending = done ++ [s.builder.cursor.block]) (i : Instr)
    (mark : Mark) {act : Act}
    (hmark : mark.acts? s.scopes.lookup? s.builder.body.slots.length = some [act])
    (hi : i.act? = some act) (hplain : mark.isPlain = true) :
    (s.put i).Follows options (before ++ [mark]) pending := by
  refine h.plain hmark rfl rfl ?_ hplain
  refine (hs.acts_put ha i).trans ?_
  simp [hi]

/-- A value is computed at the cursor. -/
theorem compute (h : s.Follows options before pending) (hs : s.builder.Open pending)
    (ha : ∃ done, s.builder.line pending = done ++ [s.builder.cursor.block])
    (i : ValueId → Instr) (mark : Mark) {act : Act}
    (hmark : mark.acts? s.scopes.lookup? s.builder.body.slots.length = some [act])
    (hi : ∀ v, (i v).act? = some act) (hplain : mark.isPlain = true) :
    (s.compute i).Follows options (before ++ [mark]) pending := by
  refine h.plain hmark rfl rfl ?_ hplain
  refine (hs.draw.acts_put ha _).trans ?_
  rw [List.filterMap_cons_some (hi _), List.filterMap_nil]
  rfl

/-- A variable is added, and what it is declared with is stored. -/
theorem declare (h : s.Follows options before pending) (hs : s.builder.Open pending)
    (ha : s.builder.Arranged pending) (name : String) (ty : Ty) (value : Operand) :
    ((s.withVariable name ty).put (.store (.slot s.nextSlot) value)).Follows options
      (before ++ [.declare name ty]) pending where
  names other := by
    refine (Scopes.lookup?_define ..).trans ?_
    rw [options.bindingAt_declare, h.names, nextSlot, h.length_slots]
  slots := by
    change s.builder.body.slots ++ [⟨⟨s.builder.body.slots.length⟩, name, ty⟩] = _
    rw [h.slots, length_slotsFor, variablesIn_declare, slotsFor, slotsFor, List.mapIdx_concat]
  acts := by
    have hopen := hs.addVariable name ty
    have hacts := hopen.acts_put ha.last (.store (.slot s.nextSlot) value)
    rw [hs.acts_addVariable name ty] at hacts
    refine (Options.outline?_concat h.acts (h.actsAt?_eq _)).trans ?_
    exact congrArg some hacts.symm

/-- A block begins. -/
theorem enter (h : s.Follows options before pending) :
    s.inner.Follows options (before ++ [.enter]) pending where
  names name := by
    rw [options.bindingAt_enter, ← h.names]
    exact Scopes.lookup?_push ..
  slots := by
    rw [variablesIn_concat rfl]
    exact h.slots
  acts := by
    refine (Options.outline?_concat h.acts rfl).trans ?_
    rw [List.append_nil]
    rfl

/-- A block ends, and the names refer to what they did before it. -/
theorem leave {marks : List Mark} (h : s.Follows options before pending)
    (h' : s'.Follows options (before ++ [.enter] ++ marks) pending) (hskips : Skipped marks) :
    ({ s' with scopes := s.scopes } : LowerState).Follows options
      (before ++ ([.enter] ++ marks ++ [.leave])) pending where
  names name := by
    rw [options.bindingAt_block before hskips]
    exact h.names name
  slots := by
    rw [← List.append_assoc, ← List.append_assoc, variablesIn_concat rfl]
    exact h'.slots
  acts := by
    rw [← List.append_assoc, ← List.append_assoc]
    refine (Options.outline?_concat h'.acts rfl).trans ?_
    rw [List.append_nil]

/-- The blocks of a conditional are opened. -/
theorem fork (h : s.Follows options before pending) (hs : s.builder.Open pending)
    (ha : s.builder.Arranged pending) (condition : Operand) :
    (s.fork condition).Follows options (before ++ [.branch])
      (s.builder.ahead 1 :: s.builder.ahead 2 :: pending) :=
  h.plain rfl rfl rfl (hs.acts_forked ha condition) rfl

/-- A branch of a conditional is over. -/
theorem jump {next : BlockId} (h : s.Follows options before (next :: pending))
    (hs : s.builder.Open (next :: pending)) (ha : s.builder.Arranged (next :: pending))
    (join : BlockId) {layout : List BlockId}
    (hmoved : relocate s.builder.body.layout next s.current = .ok layout) :
    (s.leave join next layout).Follows options (before ++ [.jump]) pending :=
  h.plain rfl rfl rfl (hs.acts_left ha hmoved) rfl

end Follows

end LowerState

open Builder in
mutual

/-- **Lowering a form adds its marks**: names, slots and code are those of the longer text. -/
theorem Form.follows {options : Options} {before : List Mark} {pending : List BlockId}
    {s s' : LowerState} {v : Operand} : (f : Form) → Lowered pending f s v s' → s.Sound pending →
      s.builder.Arranged pending → s.Follows options before pending →
      s'.Follows options (before ++ f.marks) pending
  | .number _, h, hs, ha, hb => by
    cases h
    simpa only [Form.marks, List.append_nil] using hb
  | .truth _, h, hs, ha, hb => by
    cases h
    simpa only [Form.marks, List.append_nil] using hb
  | .text _, h, hs, ha, hb => by
    cases h
    simpa only [Form.marks, List.append_nil] using ⟨hb.names, hb.slots, hb.acts⟩
  | .reference name, h, hs, ha, hb => by
    simp only [Form.marks]
    cases h with
    | value hname =>
      have hread : Mark.acts? s.scopes.lookup? s.builder.body.slots.length (.read name) =
          some [] := by
        simp [Mark.acts?, hname, Binding.address?]
      exact hb.plain hread rfl rfl (List.append_nil _).symm rfl
    | @load _ _ _ _ address ty hname haddress =>
      have hread : Mark.acts? s.scopes.lookup? s.builder.body.slots.length (.read name) =
          some [.load ty address] := by
        simp [Mark.acts?, hname, haddress]
      exact hb.compute hs.opened ha.last (.load · ty address) (.read name) hread (fun _ => rfl) rfl
  | .arith op left right, h, hs, ha, hb => by
    cases h with
    | @arith _ _ _ _ _ _ _ a b hleft hright =>
      have hs₁ := (left.reaches hleft hs).1.sound
      have hs₂ := (right.reaches hright hs₁).1.sound
      have ha₁ := (left.arranges hleft hs ha).arranged
      have ha₂ := (right.arranges hright hs₁ ha₁).arranged
      have hb₂ := right.follows hright hs₁ ha₁ (left.follows hleft hs ha hb)
      have hop := hb₂.compute hs₂.opened ha₂.last (.arith · op a b) (.operate op.tag) rfl
        (fun _ => rfl) rfl
      simpa only [Form.marks, List.append_assoc] using hop
  | .compare cond left right, h, hs, ha, hb => by
    cases h with
    | @compare _ _ _ _ _ _ _ a b hleft hright =>
      have hs₁ := (left.reaches hleft hs).1.sound
      have hs₂ := (right.reaches hright hs₁).1.sound
      have ha₁ := (left.arranges hleft hs ha).arranged
      have ha₂ := (right.arranges hright hs₁ ha₁).arranged
      have hb₂ := right.follows hright hs₁ ha₁ (left.follows hleft hs ha hb)
      have hop := hb₂.compute hs₂.opened ha₂.last (.compare · cond a b) (.operate cond.tag) rfl
        (fun _ => rfl) rfl
      simpa only [Form.marks, List.append_assoc] using hop
  | .declare name ty init, h, hs, ha, hb => by
    cases h with
    | declare hinit =>
      have hs₁ := (init.reaches hinit hs).1.sound
      have ha₁ := (init.arranges hinit hs ha).arranged
      have hdeclare := (init.follows hinit hs ha hb).declare hs₁.opened ha₁ name ty v
      simpa only [Form.marks, List.append_assoc] using hdeclare
  | .assign name value, h, hs, ha, hb => by
    cases h with
    | @assign _ _ s₁ _ _ _ _ address _ hvalue hname haddress =>
      have hs₁ := (value.reaches hvalue hs).1.sound
      have ha₁ := (value.arranges hvalue hs ha).arranged
      have hmark : Mark.acts? s₁.scopes.lookup? s₁.builder.body.slots.length (.assign name) =
          some [.store address] := by
        simp [Mark.acts?, hname, haddress]
      have hassign := (value.follows hvalue hs ha hb).put hs₁.opened ha₁.last (.store address v)
        (.assign name) hmark rfl rfl
      simpa only [Form.marks, List.append_assoc] using hassign
  | .block first rest, h, hs, ha, hb => by
    cases h with
    | block hfirst hrest =>
      have hs₁ := (first.reaches hfirst hs.inner.sound).1.sound
      have ha₁ := (first.arranges hfirst hs.inner.sound ha).arranged
      have hf := first.follows hfirst hs.inner.sound ha hb.enter
      have hr := Form.followsAll rest hrest hs₁ ha₁ hf
      rw [List.append_assoc _ first.marks] at hr
      simpa only [Form.marks] using hb.leave hr (first.skips.append (Form.skipsAll rest))
  | .print template args, h, hs, ha, hb => by
    cases h with
    | @print _ _ s₁ s₂ _ _ w values htemplate hargs =>
      have hs₁ := (template.reaches htemplate hs).1.sound
      have hs₂ := (Form.reachesAll args hargs hs₁).1.sound
      have ha₁ := (template.arranges htemplate hs ha).arranged
      have ha₂ := (Form.arrangesAll args hargs hs₁ ha₁).arranged
      have hb₂ := Form.followsAll args hargs hs₁ ha₁ (template.follows htemplate hs ha hb)
      have hcall := hb₂.compute hs₂.opened ha₂.last (.call · printName (w :: values)) .print rfl
        (fun _ => rfl) rfl
      simpa only [Form.marks, List.append_assoc] using hcall
  | .choose condition yes no, h, hs, ha, hb => by
    cases h with
    | @choose _ _ s₁ t u _ _ _ c y n layout layout' hcondition hyes hmoved hno hmoved' =>
      have hl := relocate_perm hmoved
      obtain ⟨hr₁, hc⟩ := condition.reaches hcondition hs
      have hforked := (hr₁.sound.forked hc).sound
      have ht := (yes.reaches hyes hforked).1
      have hsecond := (hr₁.sound.second hc ht hl).sound
      have hu := (no.reaches hno hsecond).1
      have ha₁ := (condition.arranges hcondition hs ha).arranged
      have hfirst := yes.arranges hyes hforked (ha₁.forked hr₁.sound.opened c)
      have helse : t.builder.body.nameOf (s₁.builder.ahead 1) = some "else" := by
        rw [hfirst.named _ (s₁.ahead_lt_forked c (by decide))]
        exact (nameOf_forked ..).trans (by simp [ahead])
      have hjoin : s₁.builder.ahead 2 ∈ s₁.builder.ahead 1 :: s₁.builder.ahead 2 :: pending := by
        simp
      have hleft := hfirst.arranged.left ht.sound.opened hjoin hmoved (by simp [helse])
      have hau := (no.arranges hno hsecond hleft).arranged
      -- one mark after the other; the text grows at its end
      have hb₁ := (condition.follows hcondition hs ha hb).fork hr₁.sound.opened ha₁ c
      have hbt := (yes.follows hyes hforked (ha₁.forked hr₁.sound.opened c) hb₁).jump
        ht.sound.opened hfirst.arranged (s₁.builder.ahead 2) hmoved
      have hbu := (no.follows hno hsecond hleft hbt).jump hu.sound.opened hau
        (s₁.builder.ahead 2) hmoved'
      have hjoined : (u.leave (s₁.builder.ahead 2) (s₁.builder.ahead 2) layout').builder.Open
          pending := hu.sound.opened.left (relocate_perm hmoved')
      have hphi := hbu.compute hjoined ⟨_, line_left hau hu.sound.opened _ hmoved'⟩
        (.phi · u.builder.signature.ret [(y, t.current), (n, u.current)]) .merge rfl
        (fun _ => rfl) rfl
      simpa only [Form.marks, List.append_assoc, List.cons_append, List.nil_append] using hphi
  | .malformed _, h, hs, ha, hb => by cases h

theorem Form.followsAll {options : Options} {before : List Mark} {pending : List BlockId}
    {s s' : LowerState} {values : List Operand} : (forms : List Form) →
      LoweredAll pending forms s values s' → s.Sound pending → s.builder.Arranged pending →
      s.Follows options before pending →
      s'.Follows options (before ++ Form.marksAll forms) pending
  | [], h, hs, ha, hb => by
    cases h
    simpa only [Form.marksAll, List.append_nil] using hb
  | f :: rest, h, hs, ha, hb => by
    cases h with
    | cons hf hrest =>
      have hs₁ := (f.reaches hf hs).1.sound
      have ha₁ := (f.arranges hf hs ha).arranged
      have hall := Form.followsAll rest hrest hs₁ ha₁ (f.follows hf hs ha hb)
      simpa only [Form.marksAll, List.append_assoc] using hall

end

/-! ## Compiled programs -/

/-- No two declarations come after the same number of others. -/
theorem variablesIn_apart {marks before before' after after' : List Mark} {name name' : String}
    {ty ty' : Ty} (h : marks = before ++ .declare name ty :: after)
    (h' : marks = before' ++ .declare name' ty' :: after')
    (hcount : (variablesIn before).length = (variablesIn before').length) : before = before' := by
  rcases List.append_eq_append_iff.1 (h.symm.trans h') with ⟨more, rfl, hrest⟩ | ⟨more, rfl, hrest⟩
  all_goals
    cases more with
    | nil => simp
    | cons mark more =>
      obtain ⟨rfl, -⟩ := List.cons.inj hrest
      simp [variablesIn, Mark.variable?] at hcount

/-- After what it does for the marks `before`, the code of a function does `acts`. -/
def Body.Continues (body : Body) (options : Options) (before : List Mark) (acts : List Act) :
    Prop :=
  ∃ first last, options.outline? [] before = some first ∧ body.acts = first ++ acts ++ last

/-- The slots and the code of a body are those of the text of a program. -/
structure Body.Realizes (body : Body) (options : Options) (program : Expr) : Prop where
  /-- One slot for each variable, in the order in which the declarations are complete. -/
  slots : body.slots = slotsFor (variablesIn program.marks)
  /-- The slots are allocated at the top of the entry block, in their order. -/
  allocations : ∃ rest, body.code body.entry = body.slots.map StackSlot.allocation ++ rest ∧
    ∀ i ∈ rest, i.isAlloca = false
  elsewhere : ∀ q, q ≠ body.entry → ∀ i ∈ body.code q, i.isAlloca = false
  /-- The code does what the text says, in the order of the text, and then it returns. -/
  outlined : ∃ acts, options.outline? [] program.marks = some acts ∧ body.acts = acts ++ [.ret]

namespace Body.Realizes

variable {body : Body} {options : Options} {program : Expr} {before part after : List Mark}

/-- Every part of the text has its part of the code, at the same place. -/
theorem continues (h : body.Realizes options program)
    (hmarks : program.marks = before ++ part ++ after) :
    ∃ own, options.outline? before part = some own ∧ body.Continues options before own := by
  obtain ⟨acts, houtline, hacts⟩ := h.outlined
  rw [hmarks, options.outline?_append, options.outline?_append] at houtline
  simp only [Option.bind_eq_bind, Option.bind_eq_some_iff, Option.pure_def, Option.some.injEq,
    List.nil_append] at houtline
  obtain ⟨_, ⟨first, hfirst, own, hown, rfl⟩, last, -, rfl⟩ := houtline
  exact ⟨own, hown, first, last ++ [.ret], hfirst, by simp [hacts]⟩

/-- What the code has to do for a mark it does at the place of the mark. -/
theorem continues_mark {mark : Mark} {own : List Act} (h : body.Realizes options program)
    (hmarks : program.marks = before ++ mark :: after)
    (hown : options.actsAt? before mark = some own) : body.Continues options before own := by
  have hparts : program.marks = before ++ [mark] ++ after := by simp [hmarks]
  obtain ⟨own', hown', hcontinues⟩ := h.continues hparts
  rw [options.outline?_singleton, hown] at hown'
  cases hown'
  exact hcontinues

/-- A variable has the slot whose number is the count of the variables before it. -/
theorem slot_of_declare {name : String} {ty : Ty} (h : body.Realizes options program)
    (hmarks : program.marks = before ++ .declare name ty :: after) :
    body.slots[(variablesIn before).length]? =
      some ⟨⟨(variablesIn before).length⟩, name, ty⟩ := by
  rw [h.slots]
  refine getElem?_slotsFor ?_
  rw [hmarks, variablesIn_append, List.getElem?_append_right (Nat.le_refl _), Nat.sub_self]
  rfl

/-- The slot that a name refers to has the name. -/
theorem slot_of_inForce {name : String} {k : SlotId} {ty : Ty} (h : body.Realizes options program)
    (hmarks : program.marks = before ++ after)
    (hname : inForce? name 0 before.reverse = some (.slot k ty)) :
    body.slots[k.index]? = some ⟨k, name, ty⟩ := by
  rw [h.slots]
  refine getElem?_slotsFor ?_
  have hbefore := variablesIn_of_inForce hname
  rw [hmarks, variablesIn_append]
  rw [List.getElem?_append_left (List.getElem?_eq_some_iff.1 hbefore).1, hbefore]

/-- The store of a declaration comes after the code for what the variable is declared with, and
goes to the slot of the variable. -/
theorem declared {init : List Mark} {name : String} {ty : Ty} (h : body.Realizes options program)
    (hmarks : program.marks = before ++ init ++ .declare name ty :: after) :
    ∃ own, options.outline? before init = some own ∧ body.Continues options before
      (own ++ [.store (.slot ⟨(variablesIn (before ++ init)).length⟩)]) := by
  have hparts : program.marks = before ++ (init ++ [.declare name ty]) ++ after := by
    simp [hmarks]
  obtain ⟨acts, houtline, hcontinues⟩ := h.continues hparts
  rw [options.outline?_append, options.outline?_singleton] at houtline
  simp only [Option.bind_eq_bind, Option.bind_eq_some_iff, Option.pure_def, Option.some.injEq]
    at houtline
  obtain ⟨own, hown, store, hstore, rfl⟩ := houtline
  cases hstore
  exact ⟨own, hown, hcontinues⟩

/-- A variable is read from the slot of the declaration in force. -/
theorem read {name : String} {k : SlotId} {ty : Ty} (h : body.Realizes options program)
    (hname : inForce? name 0 before.reverse = some (.slot k ty))
    (hmarks : program.marks = before ++ .read name :: after) :
    body.Continues options before [.load ty (.slot k)] := by
  refine h.continues_mark hmarks ?_
  rw [Options.actsAt?, Mark.acts?, options.bindingAt_of_inForce before hname]
  rfl

/-- A variable is assigned in the slot of the declaration in force. -/
theorem assigned {name : String} {k : SlotId} {ty : Ty} (h : body.Realizes options program)
    (hname : inForce? name 0 before.reverse = some (.slot k ty))
    (hmarks : program.marks = before ++ .assign name :: after) :
    body.Continues options before [.store (.slot k)] := by
  refine h.continues_mark hmarks ?_
  rw [Options.actsAt?, Mark.acts?, options.bindingAt_of_inForce before hname]
  rfl

end Body.Realizes

/-- Before the program the names are those that the options give, and there are no slots. -/
theorem Options.Ready.follows {options : Options} {prepared : Module × Scopes}
    (h : options.Ready prepared) : (options.start prepared).Follows options [] [] where
  names name := by
    obtain ⟨scopes, hprepared, hentry⟩ := h.configured
    change prepared.2.lookup? name = options.binding? name
    rw [hentry, Scopes.lookup?_define, hprepared.names, Options.binding?]
  slots := rfl
  acts := by
    change some [] = some (Builder.acts (.start options.signature) [])
    simp [Builder.acts, Builder.flow_start, Flow.acts, Terminator.acts]

namespace Compiled

variable {options : Options} {program : Expr} {m : Module} {prepared : Module × Scopes}
  {v : Operand} {t : LowerState}

theorem follows (h : Compiled options program m prepared v t) :
    t.Follows options program.marks [] := by
  rw [HasForm.marks_eq _ (h.lowered.hasForm program)]
  exact Form.follows _ h.lowered h.ready.sound (.start options.signature) h.ready.follows

theorem realizes (h : Compiled options program m prepared v t) :
    t.returned.builder.body.Realizes options program where
  slots := h.follows.slots
  allocations := ⟨_, h.finished.code_entry, fun _ hi => h.finished.sound.plain hi⟩
  elsewhere q hq i hi := by
    rw [← Builder.Shaped.code_of_ne_entry hq] at hi
    exact h.finished.sound.plain hi
  outlined := by
    refine ⟨t.builder.acts [], h.follows.acts, ?_⟩
    have hopen := h.reaches.sound.opened
    have harranged := (Form.arranges _ h.lowered h.ready.sound (.start options.signature)).arranged
    rw [h.finished.acts_body]
    change (t.builder.line []).flatMap (t.builder.conclude _).flow.acts = _
    rw [hopen.flow_conclude]
    exact hopen.acts_close harranged.last _

end Compiled

/-- **Every variable of a program has a slot of its own, and the code uses the slots that the text
says.** The slots are the variables in the order in which their declarations are complete, allocated
at the top of the entry block and nowhere else. The store of a declaration comes after the code of
what the variable is declared with, and a name is read and assigned in the slot of the declaration
that is in force. -/
theorem compileExpr_realizes {options : Options} {program : Expr} {m : Module}
    (h : compileExpr options program = .ok m) :
    ∃ body, m.func? options.entry = some ⟨options.signature, some body⟩ ∧
      body.Realizes options program ∧
      (∀ before init name ty after k, program.marks = before ++ init ++ .declare name ty :: after →
        k = (variablesIn (before ++ init)).length →
        body.slots[k]? = some ⟨⟨k⟩, name, ty⟩ ∧
          ∃ own, options.outline? before init = some own ∧
            body.Continues options before (own ++ [.store (.slot ⟨k⟩)])) ∧
      (∀ before name k ty mark after, program.marks = before ++ mark :: after →
        inForce? name 0 before.reverse = some (.slot k ty) →
        body.slots[k.index]? = some ⟨k, name, ty⟩ ∧
          (mark = .read name → body.Continues options before [.load ty (.slot k)]) ∧
          (mark = .assign name → body.Continues options before [.store (.slot k)])) ∧
      ∀ before before' name name' ty ty' after after',
        program.marks = before ++ .declare name ty :: after →
        program.marks = before' ++ .declare name' ty' :: after' →
        (variablesIn before).length = (variablesIn before').length → before = before' := by
  obtain ⟨prepared, v, t, hc⟩ := compileExpr_compiled h
  refine ⟨t.returned.builder.body, hc.func?_entry, hc.realizes, ?_, ?_, ?_⟩
  · intro before init name ty after k hmarks hk
    subst hk
    exact ⟨hc.realizes.slot_of_declare hmarks, hc.realizes.declared hmarks⟩
  · intro before name k ty mark after hmarks hname
    refine ⟨hc.realizes.slot_of_inForce hmarks hname, ?_, ?_⟩
    · intro hread
      subst hread
      exact hc.realizes.read hname hmarks
    · intro hassign
      subst hassign
      exact hc.realizes.assigned hname hmarks
  · intro before before' name name' ty ty' after after' hmarks hmarks' hcount
    exact variablesIn_apart hmarks hmarks' hcount

/-- `(begin (var x (+ (var y 1) y)) (begin (var (x string) "a") (set x "b"))
  (if (< x 2) (var z x) (set x y)) (printf "%d" x))` -/
def nestedVariables : Expr :=
  .list [.symbol "begin",
    .list [.symbol "var", .symbol "x",
      .list [.symbol "+", .list [.symbol "var", .symbol "y", .number 1], .symbol "y"]],
    .list [.symbol "begin",
      .list [.symbol "var", .list [.symbol "x", .symbol "string"], .text "a"],
      .list [.symbol "set", .symbol "x", .text "b"]],
    .list [.symbol "if", .list [.symbol "<", .symbol "x", .number 2],
      .list [.symbol "var", .symbol "z", .symbol "x"],
      .list [.symbol "set", .symbol "x", .symbol "y"]],
    .list [.symbol "printf", .text "%d", .symbol "x"]]

/-- The variable `y` is complete before the variable `x` around it, and the inner `x` has a slot and
a type of its own. -/
theorem compileExpr_realizes_nestedVariables :
    ∃ m body, compileExpr .standard nestedVariables = .ok m ∧
      m.func? Options.standard.entry = some ⟨Options.standard.signature, some body⟩ ∧
      body.slots = [⟨⟨0⟩, "y", .i32⟩, ⟨⟨1⟩, "x", .i32⟩, ⟨⟨2⟩, "x", .bytes⟩, ⟨⟨3⟩, "z", .i32⟩] ∧
      body.acts = [.store (.slot ⟨0⟩), .load .i32 (.slot ⟨0⟩), .operate "+", .store (.slot ⟨1⟩),
        .store (.slot ⟨2⟩), .store (.slot ⟨2⟩), .load .i32 (.slot ⟨1⟩), .operate "<", .branch,
        .load .i32 (.slot ⟨1⟩), .store (.slot ⟨3⟩), .jump, .load .i32 (.slot ⟨0⟩),
        .store (.slot ⟨1⟩), .jump, .merge, .load .i32 (.slot ⟨1⟩), .call printName, .ret] := by
  obtain ⟨m, hm⟩ := exists_of_isOk (x := compileExpr .standard nestedVariables)
    (by decide +kernel)
  obtain ⟨body, hbody, hrealizes, -⟩ := compileExpr_realizes hm
  obtain ⟨acts, houtline, hacts⟩ := hrealizes.outlined
  refine ⟨m, body, hm, hbody, ?_, ?_⟩
  · rw [hrealizes.slots]
    decide +kernel
  · rw [hacts]
    refine Option.some.inj ?_
    change Option.map (· ++ [.ret]) (some acts) = _
    rw [← houtline]
    decide +kernel

end SexprSsa
