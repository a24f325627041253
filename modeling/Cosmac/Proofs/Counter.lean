import Cosmac.Proofs.Passes
import Mathlib.Data.List.Chain

/-!
# The location counter in both passes

Behind a statement that is no origin the location counter depends on the text, on the counter before
and on the room in the layout, and on nothing else (`Operation.follow`): an error or a change of
size moves the coding pass as far as the layout went (`Coding.pc_step`).  An origin goes to the
value that its expression has in the pass at hand (`Statement.leave`).

From statement to statement each pass goes where the one before leaves it (`Passes.isChain_run`), so
the counters of the two passes can part only at an origin.  `starts_code_eq` says that they never do
if every origin has the same value in both passes, or is in error in both.
-/

namespace Cosmac

/-! ### Words -/

@[simp] theorem word_word (n : Int) : word (word n) = word n := by
  unfold word
  omega

theorem word_add_congr {m n : Int} (h : word m = word n) (k : Int) :
    word (m + k) = word (n + k) := by
  unfold word at h ⊢
  omega

theorem word_nextPage (n : Int) : word (highByte n * 0x100) = highByte n * 0x100 := by
  unfold word highByte
  omega

/-! ### One statement -/

/-- The location counter behind a statement with this operation and size that is no origin. -/
def Operation.follow (operation : Operation) (size : Nat) (pc : Int) : Int :=
  match operation with
  | .page => highByte (pc + 0x100) * 0x100
  | _ => word (pc + size)

/-- The location counter behind a statement is a word. -/
@[simp] theorem Operation.word_follow (operation : Operation) (size : Nat) (pc : Int) :
    word (operation.follow size pc) = operation.follow size pc := by
  unfold Operation.follow
  split
  · exact word_nextPage _
  · exact word_word _

/-- The location counter behind a statement as a pass read it, with this room in the layout. -/
def Statement.leave (s : Statement) (room : Nat) (pc : Int) : Int :=
  if s.reading.status = .origin then word s.reading.value
  else s.shape.operation.follow room pc

@[simp] theorem Statement.word_leave (s : Statement) (room : Nat) (pc : Int) :
    word (s.leave room pc) = s.leave room pc := by
  unfold Statement.leave
  split
  · exact word_word _
  · exact Operation.word_follow _ room pc

/-- A statement moves the location counter as its text says, also if it is in error. -/
theorem Context.pc_move (c c' : Context) (s : Statement) (hword : word c'.pc = c'.pc) :
    (c'.move (s.parse c)).pc = (s.parse c).leave (s.parse c).reading.size c'.pc := by
  have hstatus := s.status_parse c
  have hsize := s.size_parse_eq_zero c
  unfold Context.move Statement.leave Operation.follow
  show _ = if _ then _ else match s.shape.operation with | .page => _ | _ => _
  cases hop : s.shape.operation with
  | page =>
    rw [s.status_parse_page c hop]
    rfl
  | equate operand fault =>
    rw [hop] at hstatus hsize
    -- an equate leaves the counter alone, and its size is 0
    rcases hstatus with hstatus | ⟨d, hstatus⟩
    · rw [hstatus, hsize rfl]
      show c'.pc = word (c'.pc + (0 : Nat))
      rw [Int.natCast_zero, Int.add_zero, hword]
    · rw [hstatus]
      rfl
  | _ =>
    rw [hop] at hstatus
    rcases hstatus with hstatus | ⟨d, hstatus⟩ <;> rw [hstatus] <;> rfl

@[simp] theorem Layout.pc_bindLabel (c : Context) (s : Statement) : (c.bindLabel s).pc = c.pc := by
  unfold Context.bindLabel
  split <;> rfl

/-- In the layout a statement goes as far as its own size. -/
theorem Layout.pc_next {c : Context} {s : Statement} (hword : word c.pc = c.pc) :
    (next c s).pc = (s.parse c).leave (s.parse c).reading.size c.pc := by
  unfold next
  rw [Context.pc_move c _ s (by rw [pc_bindLabel]; exact hword), pc_bindLabel]

/-- **In the coding pass a statement moves the counter as far as in the layout**, whether it is in
error, has changed its size or gives its code. -/
theorem Coding.pc_step {c : Context} {s : Statement} {n : Nat} (hword : word c.pc = c.pc)
    (hends : s.ends = false) (hroom : s.shape.operation.takesRoom = false → n = 0) :
    (step c (some n) s).2.pc = (step c (some n) s).1.statement.leave n c.pc := by
  have hcheck : (checkDefinition c (s.parse c)).2.pc = c.pc := by
    rw [checkDefinition_snd]
  rcases step_cases c (some n) s with
    ⟨d, hd, hstep⟩ | ⟨hfinish, _⟩ | ⟨_, room, hlayout, hsize, hstep⟩ | ⟨_, hsize, hstep⟩
  · -- an error goes as far as the layout went; a page is never in error
    rw [hstep]
    show word (c.pc + n) = s.shape.operation.follow n c.pc
    unfold Operation.follow
    split
    · rename_i hpage
      rw [s.status_parse_page c hpage] at hd
      cases hd
    · rfl
  · rw [s.status_parse_eq_finish_iff c, hends] at hfinish
    cases hfinish
  · -- only a statement that takes room can change its size, so it is neither origin nor page
    obtain rfl := Option.some.inj hlayout
    have htakes : s.shape.operation.takesRoom = true := by
      by_contra hnot
      rw [Bool.not_eq_true] at hnot
      exact hsize ((hroom hnot).trans (s.size_parse_eq_zero c hnot).symm)
    have horigin : (s.parse c).reading.status ≠ .origin := by
      intro h
      have := s.isOrigin_of_status_parse c h
      revert htakes this
      cases s.shape.operation <;> exact nofun
    rw [hstep]
    show word ((checkDefinition c (s.parse c)).2.pc + n)
      = if (s.parse c).reading.status = .origin then _ else s.shape.operation.follow n c.pc
    rw [hcheck, if_neg horigin]
    unfold Operation.follow
    split
    · rename_i hpage
      rw [hpage] at htakes
      cases htakes
    · rfl
  · rw [hstep, hsize n rfl]
    show ((checkDefinition c (s.parse c)).2.move (s.parse c)).pc = _
    rw [Context.pc_move c _ s (by rw [hcheck]; exact hword), hcheck]
    rfl

/-! ### Both passes -/

namespace Passes

/-- The second pair stands where each pass went from the first. -/
structure Adjacent (p q : Pair) : Prop where
  /-- In the layout. -/
  layout : q.1.before.pc = p.1.statement.leave p.1.statement.reading.size p.1.before.pc
  /-- In the coding pass, with the room of the layout. -/
  coding : q.2.start = p.2.statement.leave p.1.statement.reading.size p.2.start

variable {c₁ c₂ : Context}

/-- Each pass starts where its context does. -/
theorem head_run (ss : List Statement) :
    ∀ p ∈ (run c₁ c₂ ss).head?, p.1.before.pc = c₁.pc ∧ p.2.start = c₂.pc := by
  intro p hp
  cases ss with
  | nil => cases hp
  | cons s rest =>
    rw [run] at hp
    obtain rfl := Option.some.inj hp
    exact ⟨rfl, Coding.start_step ..⟩

/-- **From statement to statement each pass goes where the statement before leaves it.** -/
theorem isChain_run (ss : List Statement) (hword₁ : word c₁.pc = c₁.pc)
    (hword₂ : word c₂.pc = c₂.pc) : (run c₁ c₂ ss).IsChain Adjacent := by
  induction ss generalizing c₁ c₂ with
  | nil => exact List.isChain_nil
  | cons s rest ih =>
    cases hends : s.ends with
    | true =>
      rw [run_cons_of_ends c₁ c₂ rest hends]
      exact List.isChain_singleton _
    | false =>
      have hpc₁ := Layout.pc_next (s := s) hword₁
      have hpc₂ : (next c₁ c₂ s).pc = _ :=
        Coding.pc_step hword₂ hends (s.size_parse_eq_zero c₁)
      rw [run_cons c₁ c₂ rest hends, List.isChain_cons]
      refine ⟨fun q hq => ?_, ih ?_ ?_⟩
      · obtain ⟨hbefore, hstart⟩ := head_run rest q hq
        refine ⟨hbefore.trans hpc₁, hstart.trans (hpc₂.trans ?_)⟩
        show _ = (pair c₁ c₂ s).2.statement.leave _ (Coding.step c₂ _ s).1.start
        rw [Coding.start_step]
        rfl
      · rw [hpc₁, Statement.word_leave]
      · rw [hpc₂, Statement.word_leave]

/-- **The passes meet at a statement** if they start together and each statement before it leaves
them in the same place. -/
theorem before_pc_eq_start {front back : List Pair} {q : Pair}
    (hchain : (front ++ q :: back).IsChain Adjacent)
    (hhead : ∀ p ∈ (front ++ q :: back).head?, p.1.before.pc = p.2.start)
    (hleave : ∀ p ∈ front, ∀ n pc, p.1.statement.leave n pc = p.2.statement.leave n pc) :
    q.1.before.pc = q.2.start := by
  induction front with
  | nil => exact hhead q rfl
  | cons p rest ih =>
    rw [List.cons_append, List.isChain_cons] at hchain
    -- the passes meet at the next statement, so the rest of the chain starts together
    refine ih hchain.2 (fun r hr => ?_) fun r hr => hleave r (List.mem_cons_of_mem _ hr)
    have hadjacent := hchain.1 r hr
    rw [hadjacent.layout, hadjacent.coding, hhead p rfl, hleave p (List.mem_cons_self ..)]

/-- If the statement is an origin, it has the same value in both passes, or is in error in both. -/
def OriginAgrees (p : Pair) : Prop :=
  p.1.statement.shape.operation.isOrigin = true →
    (p.1.statement.reading.status = .origin ∧ p.2.statement.reading.status = .origin ∧
      p.1.statement.reading.value = p.2.statement.reading.value) ∨
    (p.1.statement.reading.status.error?.isSome = true ∧
      p.2.statement.reading.status.error?.isSome = true)

instance (p : Pair) : Decidable (OriginAgrees p) :=
  inferInstanceAs (Decidable (_ → _))

/-- A statement that is an origin in neither pass leaves both in the same place. -/
theorem leave_eq_of_ne {s : Statement}
    (h₁ : (pair c₁ c₂ s).1.statement.reading.status ≠ .origin)
    (h₂ : (pair c₁ c₂ s).2.statement.reading.status ≠ .origin) (n : Nat) (pc : Int) :
    (pair c₁ c₂ s).1.statement.leave n pc = (pair c₁ c₂ s).2.statement.leave n pc := by
  have hshape : (pair c₁ c₂ s).2.statement.shape = (pair c₁ c₂ s).1.statement.shape :=
    Statement.shape_eq_of_unread_eq (Coding.unread_step ..)
  unfold Statement.leave
  rw [hshape, if_neg h₁, if_neg h₂]

/-- Where an origin agrees in both passes, the statement leaves them in the same place. -/
theorem leave_eq_of_originAgrees {s : Statement} (hagrees : OriginAgrees (pair c₁ c₂ s)) (n : Nat)
    (pc : Int) :
    (pair c₁ c₂ s).1.statement.leave n pc = (pair c₁ c₂ s).2.statement.leave n pc := by
  by_cases horigin : s.shape.operation.isOrigin = true
  · rcases hagrees horigin with ⟨h₁, h₂, hvalue⟩ | ⟨h₁, h₂⟩
    · unfold Statement.leave
      rw [if_pos h₁, if_pos h₂, hvalue]
    · apply leave_eq_of_ne
      · intro h
        rw [h] at h₁
        cases h₁
      · intro h
        rw [h] at h₂
        cases h₂
  · -- a statement with another operation is no origin in either pass
    apply leave_eq_of_ne
    · exact fun h => horigin (s.isOrigin_of_status_parse c₁ h)
    · intro h
      exact horigin (s.isOrigin_of_status_parse c₂ ((Coding.status_step_eq_iff c₂ _ s rfl).mp h))

end Passes

namespace Assembly

variable {a : Assembly}

theorem head_passes : ∀ p ∈ a.passes.head?, p.1.before.pc = 0 ∧ p.2.start = 0 := by
  rw [passes_eq]
  exact Passes.head_run _

theorem isChain_passes (a : Assembly) : a.passes.IsChain Passes.Adjacent := by
  rw [passes_eq]
  exact Passes.isChain_run _ rfl rfl

/-- The passes of an assembly meet at a statement if all before it leave them in the same place. -/
theorem before_pc_eq_start {front back : List Passes.Pair} {q : Passes.Pair}
    (hpasses : a.passes = front ++ q :: back)
    (hleave : ∀ p ∈ front, ∀ n pc, p.1.statement.leave n pc = p.2.statement.leave n pc) :
    q.1.before.pc = q.2.start := by
  have hchain := a.isChain_passes
  have hhead := head_passes (a := a)
  rw [hpasses] at hchain hhead
  exact Passes.before_pc_eq_start hchain
    (fun p hp => (hhead p hp).1.trans (hhead p hp).2.symm) hleave

/-- **Errors and changes of size never shift addresses.**  If every origin has the same value in
both passes, or is in error in both, then the coding pass finds every statement, up to the end of
the program, where the layout put it. -/
theorem starts_code_eq (s : Assembler) (lines : List Text)
    (horigins : ∀ p ∈ (s.seed.load lines).passes, Passes.OriginAgrees p) :
    (s.seed.load lines).layout.codeRun.1.map (·.start)
      = (s.seed.load lines).layoutRun.1.map (·.before.pc) := by
  rw [← map_snd_passes, ← map_fst_passes, List.map_map, List.map_map]
  refine List.map_congr_left fun p hp => ?_
  obtain ⟨front, back, hpasses⟩ := List.append_of_mem hp
  refine (before_pc_eq_start hpasses fun q hq => ?_).symm
  have hq : q ∈ (s.seed.load lines).passes := by
    rw [hpasses]
    exact List.mem_append_left _ hq
  obtain ⟨c₁, c₂, st, rfl, _⟩ := exists_of_mem_passes hq
  exact Passes.leave_eq_of_originAgrees (horigins _ hq)

/-- Errors, a change of size, a duplicate and an origin in error, with a predefined symbol. -/
theorem starts_code_eq_mixed :
    let s : Assembler := { defines := [("BASE".toList, 0x0100)] }
    let lines := ["ORG BASE", "DC FF00", "FF00: NOP", "X: LDI #ZZ", "X: BR #0010", "ORG", "PAGE",
      "BASE: LBR NOWHERE", "END"].map String.toList
    (∀ p ∈ (s.seed.load lines).passes, Passes.OriginAgrees p) ∧
      (s.seed.load lines).layout.codeRun.1.map (·.start)
        = (s.seed.load lines).layoutRun.1.map (·.before.pc) :=
  ⟨by decide +kernel, starts_code_eq _ _ (by decide +kernel)⟩

end Assembly

end Cosmac
