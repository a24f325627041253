import Cosmac.Proofs.Completion
import Cosmac.Proofs.Images

/-!
# The listing of a program

The listing is made by walking over the source lines and taking the steps of each line off the
front of the trace.  Since the statements of a program stand in the order of its lines
(`Statement.inOrder_ofSource`), what is taken for line `n` are all the steps of line `n`, and
`listing_generate` gives the whole listing in closed form: line `n` shows the steps with that
number, and its address is the location counter behind all steps with a lower number.  Put together
again, the lines give back the trace (`flatMap_listing`).

`listing_shows_image` reads off this form that the listing and the image hold the same code, each
byte of a line at the address that the listing shows for it.
-/

namespace Cosmac

/-! ### Lists in order -/

/-- On a list whose front satisfies `p` and whose rest does not, cutting is filtering. -/
theorem span_eq_filter {α : Type} {p : α → Bool} {l : List α}
    (h : l.Pairwise fun x y => p y = true → p x = true) :
    l.takeWhile p = l.filter p ∧ l.dropWhile p = l.filter fun x => !p x := by
  induction l with
  | nil => exact ⟨rfl, rfl⟩
  | cons a rest ih =>
    obtain ⟨hhead, htail⟩ := List.pairwise_cons.mp h
    cases ha : p a with
    | true =>
      obtain ⟨htake, hdrop⟩ := ih htail
      simp [ha, htake, hdrop]
    | false =>
      -- the elements behind one without `p` have no `p` either
      have hrest : ∀ x ∈ rest, p x = false := by
        intro x hx
        by_contra hpx
        rw [hhead x hx (by simpa using hpx)] at ha
        cases ha
      have hnone : rest.filter p = [] := by
        simpa [List.filter_eq_nil_iff] using hrest
      have hall : rest.filter (fun x => !p x) = rest := by
        simpa [List.filter_eq_self] using hrest
      simp [ha, hnone, hall]

namespace Statement

/-- The line of each statement, for lines that are numbered from `k` on. -/
def lineNumbers (lines : List Text) (k : Nat) : List Int :=
  ((lines.zipIdx k).flatMap fun (line, number) =>
    numberedTexts (Text.dropTerminator line) number).map Prod.snd

@[simp] theorem map_line_ofSource (lines : List Text) :
    (ofSource lines).map (·.line) = lineNumbers lines 1 := by
  unfold ofSource lineNumbers
  dsimp only
  rw [List.map_map]
  conv_rhs => rw [← List.zipIdx_map_fst 0 (List.flatMap _ _), List.map_map]
  rfl

@[simp] theorem lineNumbers_cons (line : Text) (rest : List Text) (k : Nat) :
    lineNumbers (line :: rest) k
      = (splitLine (Text.dropTerminator line)).map (fun _ => (k : Int))
        ++ lineNumbers rest (k + 1) := by
  unfold lineNumbers
  rw [List.zipIdx_cons, List.flatMap_cons, List.map_append]
  unfold numberedTexts
  rw [List.map_map]
  rfl

/-- Line numbers do not decrease and stay within the lines of the source. -/
theorem lineNumbers_inOrder (lines : List Text) (k : Nat) :
    (lineNumbers lines k).Pairwise (· ≤ ·) ∧
      ∀ n ∈ lineNumbers lines k, (k : Int) ≤ n ∧ n < k + lines.length := by
  induction lines generalizing k with
  | nil => exact ⟨List.Pairwise.nil, fun _ h => absurd h List.not_mem_nil⟩
  | cons line rest ih =>
    obtain ⟨hsorted, hrange⟩ := ih (k + 1)
    have hline : ∀ n ∈ (splitLine (Text.dropTerminator line)).map (fun _ => (k : Int)), n = k := by
      intro n hn
      obtain ⟨_, _, rfl⟩ := List.mem_map.mp hn
      rfl
    rw [lineNumbers_cons, List.pairwise_append, List.length_cons]
    refine ⟨⟨List.pairwise_of_forall_mem_list fun m hm n hn => ?_, hsorted, fun m hm n hn => ?_⟩,
      fun n hn => ?_⟩
    · exact Int.le_of_eq ((hline m hm).trans (hline n hn).symm)
    · -- the other lines come behind this one
      have := hline m hm
      have := hrange n hn
      omega
    · rcases List.mem_append.mp hn with hn | hn
      · have := hline n hn
        omega
      · have := hrange n hn
        omega

/-- **The statements of a program stand in the order of its lines.** -/
theorem inOrder_ofSource (lines : List Text) :
    (ofSource lines).Pairwise (fun s s' => s.line ≤ s'.line) ∧
      ∀ s ∈ ofSource lines, 1 ≤ s.line ∧ s.line ≤ lines.length := by
  obtain ⟨hsorted, hrange⟩ := lineNumbers_inOrder lines 1
  rw [← map_line_ofSource] at hsorted hrange
  refine ⟨List.pairwise_map.mp hsorted, fun s hs => ?_⟩
  have := hrange s.line (List.mem_map_of_mem hs)
  omega

end Statement

namespace Coding

/-- The steps stand in the order of their lines. -/
def InOrder (steps : List Step) : Prop :=
  steps.Pairwise fun st st' => st.statement.line ≤ st'.statement.line

/-- The steps of a run stand in the order of their lines. -/
theorem line_run (c : Context) (layout : List Nat) (lines : List Text) :
    InOrder (run c layout (Statement.ofSource lines)).1 ∧
      ∀ st ∈ (run c layout (Statement.ofSource lines)).1,
        1 ≤ st.statement.line ∧ st.statement.line ≤ lines.length := by
  obtain ⟨hsorted, hrange⟩ := Statement.inOrder_ofSource lines
  have hreached := Statement.prefix_reach (Statement.ofSource lines)
  have hlines := congrArg (List.map (·.line)) (unread_run c layout (Statement.ofSource lines))
  rw [List.map_map, List.map_map] at hlines
  constructor
  · have hreach := List.pairwise_map (R := (· ≤ ·)) |>.mpr (hsorted.sublist hreached.sublist)
    exact List.pairwise_map.mp (hlines.symm ▸ hreach)
  · intro st hst
    have hmem : st.statement.line ∈ (Statement.reach (Statement.ofSource lines)).map (·.line) :=
      hlines ▸ List.mem_map_of_mem hst
    obtain ⟨s, hs, hline⟩ := List.mem_map.mp hmem
    rw [← hline]
    exact hrange s (hreached.sublist.mem hs)

/-- **Every step starts where the one before it stops.** -/
theorem isChain_run (c : Context) (layout : List Nat) (ss : List Statement) :
    (run c layout ss).1.IsChain (fun st st' => st.stop = st'.start) ∧
      ∀ st ∈ (run c layout ss).1.head?, st.start = c.pc := by
  induction ss generalizing c layout with
  | nil => exact ⟨List.isChain_nil, fun _ h => by cases h⟩
  | cons s rest ih =>
    have hhead : ∀ st ∈ some (step c layout.head? s).1, st.start = c.pc := by
      intro st hst
      obtain rfl := Option.some.inj hst
      exact start_step ..
    cases hends : s.ends with
    | true =>
      rw [run_cons_of_ends c layout rest hends]
      exact ⟨List.isChain_singleton _, hhead⟩
    | false =>
      obtain ⟨hchain, hnext⟩ := ih (step c layout.head? s).2 layout.tail
      rw [run_cons c layout rest hends]
      refine ⟨List.isChain_cons.mpr ⟨fun st hst => ?_, hchain⟩, hhead⟩
      rw [stop_step, hnext st hst]

/-- Only the last step can end the program. -/
theorem getLast_of_isEnd (c : Context) (layout : List Nat) (ss : List Statement) :
    ∀ st ∈ (run c layout ss).1, st.statement.isEnd = true →
      (run c layout ss).1.getLast? = some st := by
  induction ss generalizing c layout with
  | nil => exact fun _ h => absurd h List.not_mem_nil
  | cons s rest ih =>
    intro st hst hend
    cases hends : s.ends with
    | true =>
      rw [run_cons_of_ends c layout rest hends] at hst ⊢
      rw [List.mem_singleton.mp hst]
      rfl
    | false =>
      rw [run_cons c layout rest hends] at hst ⊢
      rcases List.mem_cons.mp hst with rfl | hst
      · -- this step does not end the program
        rw [isEnd_step, hends] at hend
        cases hend
      · rw [List.getLast?_cons, ih _ _ st hst hend]
        rfl

/-! ### The steps of a line -/

/-- The steps of a source line. -/
def stepsOn (steps : List Step) (number : Int) : List Step :=
  steps.filter (·.statement.line == number)

/-- The steps of all other source lines. -/
def stepsOff (steps : List Step) (number : Int) : List Step :=
  steps.filter fun st => !(st.statement.line == number)

/-- The location counter behind all steps before a source line; `address` is for none. -/
def counterBefore (steps : List Step) (number : Int) (address : Int) : Int :=
  ((steps.filter (·.statement.line < number)).getLast?.map (·.stop)).getD address

section Lines

variable {steps : List Step} {number : Int}

theorem stepsOn_filter {p : Step → Bool}
    (h : ∀ st ∈ steps, st.statement.line = number → p st = true) :
    stepsOn (steps.filter p) number = stepsOn steps number := by
  unfold stepsOn
  rw [List.filter_filter]
  refine List.filter_congr fun st hst => ?_
  cases hline : st.statement.line == number with
  | true => exact h st hst (beq_iff_eq.mp hline)
  | false => rfl

theorem stepsOn_stepsOff {n : Int} (h : n ≠ number) :
    stepsOn (stepsOff steps number) n = stepsOn steps n := by
  refine stepsOn_filter fun st _ hline => ?_
  simp only [Bool.not_eq_true', beq_eq_false_iff_ne]
  omega

theorem InOrder.stepsOff (horder : InOrder steps) (number : Int) :
    InOrder (stepsOff steps number) :=
  horder.filter _

variable (horder : InOrder steps)

include horder

section First

variable (hfrom : ∀ st ∈ steps, number ≤ st.statement.line)

include hfrom

/-- The steps of the first line stand in front. -/
theorem span_line : steps.takeWhile (·.statement.line == number) = stepsOn steps number ∧
    steps.dropWhile (·.statement.line == number) = stepsOff steps number := by
  refine span_eq_filter (horder.imp_of_mem fun {st st'} hst hst' hle heq => ?_)
  have := hfrom st hst
  rw [beq_iff_eq] at heq ⊢
  omega

theorem stepsOn_append_stepsOff : stepsOn steps number ++ stepsOff steps number = steps := by
  obtain ⟨htake, hdrop⟩ := span_line horder hfrom
  rw [← htake, ← hdrop, List.takeWhile_append_dropWhile]

omit horder in
theorem lt_of_mem_stepsOff : ∀ st ∈ stepsOff steps number, number + 1 ≤ st.statement.line := by
  intro st hst
  obtain ⟨hmem, hne⟩ := List.mem_filter.mp hst
  have := hfrom st hmem
  simp only [Bool.not_eq_true', beq_eq_false_iff_ne] at hne
  omega

omit horder in
/-- Nothing stands before the first line. -/
theorem counterBefore_first (address : Int) : counterBefore steps number address = address := by
  have hnone : steps.filter (·.statement.line < number) = [] := by
    refine List.filter_eq_nil_iff.mpr fun st hst hlt => ?_
    have := hfrom st hst
    have := of_decide_eq_true hlt
    omega
  unfold counterBefore
  rw [hnone]
  rfl

/-- The last step of a line tells where the lines behind it start. -/
theorem counterBefore_stepsOff {n : Int} (h : number < n) (address : Int) :
    counterBefore (stepsOff steps number) n
        (((stepsOn steps number).getLast?.map (·.stop)).getD address)
      = counterBefore steps n address := by
  have hon : (stepsOn steps number).filter (·.statement.line < n) = stepsOn steps number := by
    refine List.filter_eq_self.mpr fun st hst => decide_eq_true ?_
    have := beq_iff_eq.mp (List.mem_filter.mp hst).2
    omega
  unfold counterBefore
  conv_rhs => rw [← stepsOn_append_stepsOff horder hfrom]
  rw [List.filter_append, hon, List.getLast?_append, Option.map_or, Option.getD_or]

end First

/-- **The lines, put together, give back all steps.** -/
theorem flatMap_stepsOn {first count : Nat}
    (hfrom : ∀ st ∈ steps, (first : Int) ≤ st.statement.line)
    (hto : ∀ st ∈ steps, st.statement.line < first + count) :
    (List.range' first count).flatMap (fun n : Nat => stepsOn steps n) = steps := by
  induction count generalizing first steps with
  | zero =>
    cases steps with
    | nil => rfl
    | cons st rest =>
      have := hfrom st (List.mem_cons_self ..)
      have := hto st (List.mem_cons_self ..)
      omega
  | succ count ih =>
    have hlater : ∀ st ∈ stepsOff steps first, ((first + 1 : Nat) : Int) ≤ st.statement.line :=
      lt_of_mem_stepsOff hfrom
    have hrest := ih (horder.stepsOff _) hlater fun st hst => by
      have := hto st (List.mem_of_mem_filter hst)
      omega
    rw [List.range'_succ, List.flatMap_cons]
    conv_rhs => rw [← stepsOn_append_stepsOff horder hfrom, ← hrest]
    congr 1
    refine List.flatMap_congr fun n hn => (stepsOn_stepsOff ?_).symm
    have := List.mem_range'_1.mp hn
    omega

/-- The steps of a line stand together, behind the steps of the lines before it. -/
theorem exists_append_stepsOn (number : Int) : ∃ behind,
    steps = steps.filter (·.statement.line < number) ++ (stepsOn steps number ++ behind) := by
  have hspan := span_eq_filter (p := fun st : Step => decide (st.statement.line < number))
    (horder.imp fun hle hlt => by rw [decide_eq_true_eq] at hlt ⊢; omega)
  have hfrom : ∀ st ∈ steps.filter fun st => !decide (st.statement.line < number),
      number ≤ st.statement.line := by
    intro st hst
    have hnot := (List.mem_filter.mp hst).2
    simp only [Bool.not_eq_true', decide_eq_false_iff_not] at hnot
    omega
  have hon : stepsOn (steps.filter fun st => !decide (st.statement.line < number)) number
      = stepsOn steps number := by
    refine stepsOn_filter fun st _ hline => ?_
    simp only [Bool.not_eq_true', decide_eq_false_iff_not]
    omega
  refine ⟨stepsOff (steps.filter fun st => !decide (st.statement.line < number)) number, ?_⟩
  conv_lhs => rw [← List.takeWhile_append_dropWhile
    (p := fun st : Step => decide (st.statement.line < number)) (l := steps), hspan.1, hspan.2]
  rw [← hon, stepsOn_append_stepsOff (horder.filter _) hfrom]

section Chain

variable (hchain : steps.IsChain fun st st' => st.stop = st'.start)

include hchain

theorem isChain_stepsOn (number : Int) :
    (stepsOn steps number).IsChain fun st st' => st.stop = st'.start := by
  obtain ⟨behind, hsplit⟩ := exists_append_stepsOn horder number
  rw [hsplit] at hchain
  exact (List.isChain_append.mp (List.isChain_append.mp hchain).2.1).1

/-- **The first step of a line starts where the steps before the line stop.** -/
theorem start_stepsOn (number : Int) {address : Int}
    (hhead : ∀ st ∈ steps.head?, st.start = address) :
    ∀ st ∈ (stepsOn steps number).head?, st.start = counterBefore steps number address := by
  intro st hst
  obtain ⟨behind, hsplit⟩ := exists_append_stepsOn horder number
  have hfirst : st ∈ (stepsOn steps number ++ behind).head? :=
    List.mem_head?_append_of_mem_head? hst
  rw [hsplit] at hchain hhead
  unfold counterBefore
  cases hlast : (steps.filter (·.statement.line < number)).getLast? with
  | none =>
    rw [List.getLast?_eq_none_iff.mp hlast, List.nil_append] at hhead
    exact hhead st hfirst
  | some last => exact ((List.isChain_append.mp hchain).2.2 last hlast st hfirst).symm

end Chain

end Lines

/-! ### The bytes of a line -/

/-- The statement is no origin and no page, is not in error and has kept its size. -/
structure Step.Plain (st : Step) : Prop where
  /-- It does not set the location counter. -/
  origin : st.statement.reading.status ≠ .origin
  /-- It does not go to the next page. -/
  page : st.statement.reading.status ≠ .page
  /-- It is not in error. -/
  error : st.statement.reading.status.error? = none
  /-- It has the size of the layout. -/
  size : ∀ d ∈ st.errors, d.kind ≠ .sizeChanged

/-- A plain step stops behind its code. -/
theorem stop_step_of_plain {c : Context} {layout : Option Nat} {s : Statement}
    (h : (step c layout s).1.Plain) :
    word (step c layout s).1.stop
      = word ((step c layout s).1.start + (step c layout s).1.code.length) := by
  have hpc : (checkDefinition c (s.parse c)).2.pc = c.pc := by
    rw [checkDefinition_snd]
  rcases step_cases c layout s with
    ⟨d, _, hstep⟩ | ⟨_, hstep⟩ | ⟨_, room, _, _, hstep⟩ | ⟨hnone, _, hstep⟩ <;> rw [hstep] at h ⊢
  · -- a step in error is not plain
    cases h.error
  · show word (checkDefinition c (s.parse c)).2.pc = word (c.pc + (0 : Nat))
    rw [hpc, Int.natCast_zero, Int.add_zero]
  · -- nor is a step with another size than in the layout
    exact absurd rfl (h.size _ (List.mem_append_right _ (List.mem_singleton_self _)))
  · show word ((checkDefinition c (s.parse c)).2.move (s.parse c)).pc
      = word (c.pc + (s.parse c).reading.code.length)
    have hsize : (s.parse c).reading.size = (s.parse c).reading.code.length :=
      Reading.size_ofText c s.text hnone
    have hcode : (s.parse c).reading.code = (s.parse c).reading.encode :=
      Reading.code_ofText c s.text
    have horigin : (s.parse c).reading.status ≠ .origin := h.origin
    have hpage : (s.parse c).reading.status ≠ .page := h.page
    unfold Context.move
    split
    · exact absurd ‹_› horigin
    · exact absurd ‹_› hpage
    · -- an equate stays where it is and has no code
      rename_i hequate
      have hnil : (s.parse c).reading.code = [] := by
        rw [hcode]
        unfold Reading.encode
        rw [hequate]
      rw [hnil, hpc]
      simp
    · show word (word (_ + _)) = _
      rw [word_word, hpc, hsize]

/-- **Plain steps that follow one another fill consecutive addresses**, modulo 65536. -/
theorem word_of_getElem_placed {steps : List Step}
    (hchain : steps.IsChain fun st st' => st.stop = st'.start)
    (hstop : ∀ st ∈ steps, word st.stop = word (st.start + st.code.length)) {address : Int}
    (hhead : ∀ st ∈ steps.head?, word st.start = word address) {k : Nat} {e : Int × UInt8}
    (h : (steps.flatMap Step.placed)[k]? = some e) : word e.1 = word (address + k) := by
  induction steps generalizing address k with
  | nil => cases h
  | cons st rest ih =>
    obtain ⟨hnext, hrest⟩ := List.isChain_cons.mp hchain
    have hstart := hhead st rfl
    have hlength : st.placed.length = st.code.length := List.length_mapIdx
    rw [List.flatMap_cons, List.getElem?_append, hlength] at h
    split_ifs at h with hk
    · -- the byte is one of this step
      unfold Step.placed Chunk.placed at h
      rw [List.getElem?_mapIdx] at h
      obtain ⟨b, _, rfl⟩ := Option.map_eq_some_iff.mp h
      exact word_add_congr hstart k
    · -- behind this step everything stands as many bytes further on
      have hshift : ∀ st' ∈ rest.head?, word st'.start = word (address + st.code.length) := by
        intro st' hst'
        rw [← hnext st' hst', hstop st (List.mem_cons_self ..)]
        exact word_add_congr hstart _
      rw [ih hrest (fun st' hst' => hstop st' (List.mem_cons_of_mem _ hst')) hshift h]
      congr 1
      omega

end Coding

namespace Assembly

open Coding

/-- **The listing in closed form.** -/
theorem listingFrom_eq {steps : List Step} (horder : InOrder steps) {number : Nat}
    (hfrom : ∀ st ∈ steps, (number : Int) ≤ st.statement.line) (lines : List Text) (address : Int) :
    listingFrom number lines steps address
      = (lines.zipIdx number).map fun (source, n) =>
          listingLine n source (stepsOn steps n) (counterBefore steps n address) := by
  induction lines generalizing number steps address with
  | nil => rfl
  | cons source rest ih =>
    obtain ⟨htake, hdrop⟩ := span_line horder hfrom
    have hlater : ∀ st ∈ stepsOff steps number, ((number + 1 : Nat) : Int) ≤ st.statement.line :=
      lt_of_mem_stepsOff hfrom
    have hrest := ih (horder.stepsOff _) hlater
      (((stepsOn steps number).getLast?.map (·.stop)).getD address)
    rw [listingFrom, htake, hdrop, List.zipIdx_cons, List.map_cons]
    dsimp only
    rw [counterBefore_first hfrom]
    refine congrArg (_ :: ·) (hrest.trans (List.map_congr_left fun e he => ?_))
    have hn := (List.mem_zipIdx he).1
    dsimp only
    rw [stepsOn_stepsOff (by omega), counterBefore_stepsOff horder hfrom (by omega)]

/-! ### The listing of a run -/

variable (a : Assembly) (lines : List Text)

theorem inOrder_codeRun : InOrder (a.load lines).layout.codeRun.1 ∧
    ∀ st ∈ (a.load lines).layout.codeRun.1,
      1 ≤ st.statement.line ∧ st.statement.line ≤ (a.load lines).source.length := by
  rw [codeRun_layout]
  exact line_run ..

theorem isChain_codeRun :
    a.codeRun.1.IsChain (fun st st' => st.stop = st'.start) ∧
      ∀ st ∈ a.codeRun.1.head?, st.start = 0 :=
  isChain_run ..

/-- The number of lines that are listed. -/
def lastLine : Nat :=
  listedLines (a.load lines).source.length (a.load lines).layout.codeRun.1

/-- Every step stands on a line that is listed. -/
theorem line_le_lastLine :
    ∀ st ∈ (a.load lines).layout.codeRun.1, st.statement.line ≤ a.lastLine lines := by
  obtain ⟨horder, hrange⟩ := a.inOrder_codeRun lines
  intro st hst
  unfold lastLine listedLines
  generalize (a.load lines).layout.codeRun.1 = steps at horder hrange hst
  cases hlast : steps.getLast? with
  | none =>
    rw [List.getLast?_eq_none_iff.mp hlast] at hst
    cases hst
  | some last =>
    obtain ⟨front, rfl⟩ := List.getLast?_eq_some_iff.mp hlast
    have hle : st.statement.line ≤ last.statement.line := by
      rcases List.mem_append.mp hst with hst | hst
      · exact (List.pairwise_append.mp horder).2.2 st hst last (List.mem_singleton_self last)
      · exact Int.le_of_eq (by rw [List.mem_singleton.mp hst])
    have := hrange st hst
    dsimp only
    split_ifs <;> omega

theorem lastLine_le : a.lastLine lines ≤ (a.load lines).source.length := by
  obtain ⟨_, hrange⟩ := a.inOrder_codeRun lines
  unfold lastLine listedLines
  cases hlast : (a.load lines).layout.codeRun.1.getLast? with
  | none => exact Nat.le_refl _
  | some last =>
    have := hrange last (List.mem_of_getLast? hlast)
    dsimp only
    split_ifs <;> omega

/-- **The listing of a program**: line `n` shows the steps with that number, from the location
counter behind all steps before it. -/
theorem listing_generate : (a.generate lines).listing
    = (((a.load lines).source.take (a.lastLine lines)).zipIdx 1).map fun (source, n) =>
        listingLine n source (stepsOn (a.load lines).layout.codeRun.1 n)
          (counterBefore (a.load lines).layout.codeRun.1 n 0) := by
  obtain ⟨horder, hrange⟩ := a.inOrder_codeRun lines
  have hfrom : ∀ st ∈ (a.load lines).layout.codeRun.1, ((1 : Nat) : Int) ≤ st.statement.line :=
    fun st hst => (hrange st hst).1
  exact listingFrom_eq horder hfrom _ 0

theorem length_listing : (a.generate lines).listing.length = a.lastLine lines := by
  rw [listing_generate, List.length_map, List.length_zipIdx, List.length_take,
    Nat.min_eq_left (a.lastLine_le lines)]

theorem exists_of_mem_listing {l : ListingLine} (hl : l ∈ (a.generate lines).listing) :
    ∃ (n : Nat) (source : Text),
      l = listingLine n source (stepsOn (a.load lines).layout.codeRun.1 n)
        (counterBefore (a.load lines).layout.codeRun.1 n 0) := by
  rw [listing_generate] at hl
  obtain ⟨⟨source, n⟩, _, rfl⟩ := List.mem_map.mp hl
  exact ⟨n, source, rfl⟩

/-- **The lines of a listing, put together, give back the trace.** -/
theorem flatMap_listing {β : Type} {g : ListingLine → List β} {f : Step → List β}
    (h : ∀ (n : Nat) (source : Text) (address : Int),
      g (listingLine n source (stepsOn (a.load lines).layout.codeRun.1 n) address)
        = (stepsOn (a.load lines).layout.codeRun.1 n).flatMap f) :
    (a.generate lines).listing.flatMap g = (a.load lines).layout.codeRun.1.flatMap f := by
  obtain ⟨horder, hrange⟩ := a.inOrder_codeRun lines
  have hlast := a.line_le_lastLine lines
  have hlines : (a.generate lines).listing.flatMap g
      = (List.range' 1 (a.lastLine lines)).flatMap fun n : Nat =>
          (stepsOn (a.load lines).layout.codeRun.1 n).flatMap f := by
    rw [← length_listing, listing_generate, List.length_map, List.length_zipIdx,
      ← List.zipIdx_map_snd, List.flatMap_map, List.flatMap_map]
    exact List.flatMap_congr fun e _ => h e.2 e.1 _
  rw [hlines, ← List.flatMap_assoc, flatMap_stepsOn horder]
  · exact fun st hst => (hrange st hst).1
  · intro st hst
    have := hlast st hst
    omega

/-- The listing shows the source with the code of the image: where the code of each line stands, and
all of it. -/
structure ListingShows (steps : List Step) (done : Assembly) : Prop where
  /-- The steps are those of the statements up to the end of the program. -/
  reached : steps.map (·.statement.unread)
    = (Statement.reach (Statement.ofSource done.source)).map Statement.unread
  /-- The lines are source lines from the first on. -/
  source : done.listing.map (·.source) = done.source.take done.listing.length
  /-- They are numbered from 1 on. -/
  numbers : done.listing.map (·.line) = (List.range' 1 done.listing.length).map Int.ofNat
  /-- The last one is the line with the end of the program. -/
  ends : ∀ st ∈ steps, st.statement.isEnd = true → done.listing.length = st.statement.line
  /-- Without an end, all source lines are listed. -/
  whole : (∀ st ∈ steps, st.statement.isEnd = false) → done.listing.length = done.source.length
  /-- The address of a line is the location counter behind all statements on the lines before. -/
  address : ∀ l ∈ done.listing, l.address = counterBefore steps l.line 0
  /-- The lines hold the bytes of the image, in the same order. -/
  code : done.listing.flatMap (·.code) = done.image.chunks.flatMap (·.bytes)
  /-- The bytes of the image, with their addresses, are those of the steps on each line. -/
  placed : done.image.placed
    = done.listing.flatMap fun l => (stepsOn steps l.line).flatMap Step.placed
  /-- The code of a line are the bytes of its steps. -/
  bytes : ∀ l ∈ done.listing, l.code = ((stepsOn steps l.line).flatMap Step.placed).map Prod.snd
  /-- Byte `k` of a plain line was emitted at the address of the line plus `k`, modulo 65536. -/
  consecutive : ∀ l ∈ done.listing, (∀ st ∈ stepsOn steps l.line, st.Plain) →
    ∀ (k : Nat) (e : Int × UInt8), ((stepsOn steps l.line).flatMap Step.placed)[k]? = some e →
      word e.1 = word (l.address + k)

theorem address_listing : ∀ l ∈ (a.generate lines).listing,
    l.address = counterBefore (a.load lines).layout.codeRun.1 l.line 0 := by
  intro l hl
  obtain ⟨n, source, rfl⟩ := a.exists_of_mem_listing lines hl
  obtain ⟨hchain, hhead⟩ := (a.load lines).layout.isChain_codeRun
  have hstart := start_stepsOn (a.inOrder_codeRun lines).1 hchain n hhead
  show ((stepsOn _ _).head?.map (·.start)).getD _ = _
  cases hfirst : (stepsOn (a.load lines).layout.codeRun.1 n).head? with
  | none => rfl
  | some st => exact hstart st hfirst

theorem stop_codeRun_of_plain :
    ∀ st ∈ a.codeRun.1, st.Plain → word st.stop = word (st.start + st.code.length) :=
  Coding.forall_run (I := fun _ => True) (Q := fun _ => True)
    (fun _ _ _ _ _ => ⟨stop_step_of_plain, trivial⟩) trivial fun _ _ => trivial

/-- **The listing and the image tell the same story.** -/
theorem listing_shows_image :
    ListingShows (a.load lines).layout.codeRun.1 (a.generate lines) where
  reached := by
    rw [codeRun_layout]
    exact Coding.unread_run ..
  source := by
    rw [length_listing, listing_generate, List.map_map]
    exact List.zipIdx_map_fst 1 _
  numbers := by
    have hcount : ((a.load lines).source.take (a.lastLine lines)).length = a.lastLine lines := by
      rw [List.length_take, Nat.min_eq_left (a.lastLine_le lines)]
    rw [length_listing, listing_generate, List.map_map]
    conv_rhs => rw [← hcount, ← List.zipIdx_map_snd, List.map_map]
    rfl
  ends := by
    intro st hst hend
    have hline := ((a.inOrder_codeRun lines).2 st hst).1
    have hlast := getLast_of_isEnd _ _ _ st hst hend
    have hlisted : a.lastLine lines = st.statement.line.toNat := by
      unfold lastLine listedLines codeRun
      rw [hlast]
      exact if_pos hend
    rw [length_listing, hlisted]
    omega
  whole := by
    intro hnone
    rw [length_listing]
    unfold lastLine listedLines
    cases hlast : (a.load lines).layout.codeRun.1.getLast? with
    | none => rfl
    | some last =>
      dsimp only
      rw [hnone last (List.mem_of_getLast? hlast)]
      rfl
  address := a.address_listing lines
  code := by
    have hcode := a.flatMap_listing lines (g := (·.code)) (f := (·.code)) fun _ _ _ => rfl
    exact hcode.trans (flatMap_imageOf _).symm
  placed := by
    refine (placed_imageOf _).trans (a.flatMap_listing lines fun n _ _ => ?_).symm
    rfl
  bytes := by
    intro l hl
    obtain ⟨n, source, rfl⟩ := a.exists_of_mem_listing lines hl
    rw [List.map_flatMap]
    exact List.flatMap_congr fun st _ => (Chunk.map_snd_placed ⟨st.start, st.code⟩).symm
  consecutive := by
    intro l hl hplain k e he
    obtain ⟨hchain, hhead⟩ := (a.load lines).layout.isChain_codeRun
    have horder := (a.inOrder_codeRun lines).1
    refine word_of_getElem_placed (isChain_stepsOn horder hchain _) (fun st hst => ?_)
      (fun st hst => ?_) he
    · exact (a.load lines).layout.stop_codeRun_of_plain st (List.mem_of_mem_filter hst)
        (hplain st hst)
    · rw [start_stepsOn horder hchain _ hhead st hst, a.address_listing lines l hl]

end Assembly

end Cosmac
