import Cosmac.Proofs.Listing

/-!
# Where a line is cut

The scan of a line carries a flag that every quote turns over.  What it cuts can be said without the
scan, by positions alone: a position is outside the strings if the number of quotes before it is
even, a comment starts at two dots outside, and a semicolon outside separates two statements.

* `Text.statements`: the statements of a line, said by positions;
* `Statement.pieces_step`: what the scan does at one position;
* `Statement.pieces_drop`: from any position up to the comment on, the scan cuts at the separators;
* `Statement.statements_by_position`: the statements of a line, and of a program.
-/

namespace Cosmac

namespace Text

/-! ### Positions of a line -/

/-- The number of quotes before the position is even. -/
def isOutside (text : Text) (k : Nat) : Bool := (text.take k).count '\'' % 2 == 0

/-- Two dots outside the strings start a comment. -/
def startsComment (text : Text) (k : Nat) : Bool :=
  text[k]? == some '.' && text[k + 1]? == some '.' && text.isOutside k

/-- A semicolon outside the strings separates statements. -/
def separates (text : Text) (k : Nat) : Bool := text[k]? == some ';' && text.isOutside k

/-- The first position at which a comment starts, the length of the line if there is none. -/
def commentStart (text : Text) : Nat :=
  ((List.range text.length).find? text.startsComment).getD text.length

/-- The separators before the comment. -/
def separators (text : Text) : List Nat := (List.range text.commentStart).filter text.separates

/-- The text from `start` to `stop`, cut at positions.  What stands at a cut belongs to no part. -/
def cutAt (text : Text) (start stop : Nat) : List Nat → List Text
  | [] => [(text.take stop).drop start]
  | cut :: cuts => (text.take cut).drop start :: cutAt text (cut + 1) stop cuts

/-- The parts of a line before its comment that are not blank. -/
def statements (text : Text) : List Text :=
  (text.cutAt 0 text.commentStart text.separators).filter (!allBlank ·)

variable {text : Text} {k : Nat} {c : Char}

theorem isOutside_succ (h : text[k]? = some c) :
    text.isOutside (k + 1) = if c = '\'' then !text.isOutside k else text.isOutside k := by
  unfold isOutside
  rw [List.take_add_one, h, List.count_append]
  by_cases hc : c = '\''
  · rw [if_pos hc, hc, Option.toList_some, List.count_singleton_self, Bool.eq_iff_iff]
    simp only [beq_iff_eq, Bool.not_eq_true', beq_eq_false_iff_ne]
    omega
  · simp [hc]

/-- Up to the start of the comment no comment starts, and there one does unless the line ends. -/
theorem commentStart_spec (text : Text) :
    text.commentStart ≤ text.length ∧
      (text.commentStart < text.length → text.startsComment text.commentStart = true) ∧
      ∀ k < text.commentStart, text.startsComment k = false := by
  unfold commentStart
  cases hfind : (List.range text.length).find? text.startsComment with
  | none => simpa using List.find?_range_eq_none.mp hfind
  | some start =>
    obtain ⟨hstarts, hmem, hbefore⟩ := List.find?_range_eq_some.mp hfind
    have hlength := List.mem_range.mp hmem
    simp only [Option.getD_some]
    exact ⟨by omega, fun _ => hstarts, by simpa using hbefore⟩

theorem commentStart_eq (hle : k ≤ text.commentStart) (h : text.startsComment k = true) :
    text.commentStart = k := by
  obtain ⟨-, -, hbefore⟩ := text.commentStart_spec
  by_contra hne
  simp [hbefore k (by omega)] at h

theorem lt_commentStart (hle : k ≤ text.commentStart) (hk : k < text.length)
    (h : text.startsComment k = false) : k < text.commentStart := by
  obtain ⟨-, hstarts, -⟩ := text.commentStart_spec
  by_contra hge
  have heq : text.commentStart = k := by omega
  rw [heq] at hstarts
  simp [hstarts hk] at h

/-- The character at the start of the first part, which does not end there, can be put before it. -/
theorem cutAt_eq_consFirst {start stop : Nat} {cuts : List Nat} (hc : text[start]? = some c)
    (hstop : start < stop) (hcuts : ∀ cut ∈ cuts, start < cut) :
    text.cutAt start stop cuts = Statement.consFirst c (text.cutAt (start + 1) stop cuts) := by
  have hpart : ∀ m, start < m → (text.take m).drop start = c :: (text.take m).drop (start + 1) := by
    intro m hm
    rw [List.drop_eq_getElem?_toList_append, List.getElem?_take_of_lt hm, hc]
    rfl
  cases cuts with
  | nil => rw [cutAt, cutAt, hpart stop hstop, Statement.consFirst]
  | cons cut more =>
    rw [cutAt, cutAt, hpart cut (hcuts cut (List.mem_cons_self ..)), Statement.consFirst]

end Text

/-! ### The scan -/

namespace Statement

open Text

variable {text : Text} {start : Nat} {c : Char}

/-- **What the scan does at one position**: it ends at a comment, cuts at a separator, and takes any
other character to the part that it is in. -/
theorem pieces_step (hc : text[start]? = some c) :
    pieces (!text.isOutside start) (text.drop start) =
      if text.startsComment start then [[]]
      else if text.separates start then
        [] :: pieces (!text.isOutside (start + 1)) (text.drop (start + 1))
      else consFirst c (pieces (!text.isOutside (start + 1)) (text.drop (start + 1))) := by
  have hdrop : text.drop start = c :: text.drop (start + 1) := by
    rw [List.drop_eq_getElem?_toList_append, hc]
    rfl
  rw [hdrop, pieces, isOutside_succ hc, List.head?_drop]
  unfold startsComment separates
  rw [hc]
  by_cases hquote : c = '\''
  · simp [hquote]
  · cases text.isOutside start with
    | false => simp [hquote]
    | true => simp [hquote]

/-- **The scan cuts at the separators**, from any position up to the comment on. -/
theorem pieces_drop (h : start ≤ text.commentStart) :
    pieces (!text.isOutside start) (text.drop start) =
      text.cutAt start text.commentStart
        ((List.range' start (text.commentStart - start)).filter text.separates) := by
  -- on the number of positions behind `start`
  induction hn : text.length - start generalizing start with
  | zero =>
    have hend : text.commentStart = start := by
      have := text.commentStart_spec.1
      omega
    rw [List.drop_eq_nil_of_le (by omega), hend, Nat.sub_self]
    simp [pieces, cutAt]
  | succ n ih =>
    have hlt : start < text.length := by omega
    obtain ⟨c, hc⟩ : ∃ c, text[start]? = some c := ⟨text[start], List.getElem?_eq_getElem hlt⟩
    rw [pieces_step hc]
    cases hcomment : text.startsComment start with
    | true => simp [commentStart_eq h hcomment, cutAt]
    | false =>
      have hbefore := lt_commentStart h hlt hcomment
      obtain ⟨m, hm⟩ : ∃ m, text.commentStart - start = m + 1 :=
        ⟨text.commentStart - start - 1, by omega⟩
      have hrest := @ih (start + 1) hbefore (by omega)
      rw [show text.commentStart - (start + 1) = m by omega] at hrest
      rw [hm, List.range'_succ, List.filter_cons, hrest]
      cases text.separates start with
      | true => simp [cutAt]
      | false =>
        have hbehind : ∀ cut ∈ (List.range' (start + 1) m).filter text.separates, start < cut := by
          intro cut hcut
          have := (List.mem_range'_1.mp (List.mem_filter.mp hcut).1).1
          omega
        simp [cutAt_eq_consFirst hc hbefore hbehind]

theorem numberedTexts_eq (line : Text) (number : Int) :
    numberedTexts line number = line.statements.map fun text => (text, number) := by
  have hpieces := pieces_drop (Nat.zero_le line.commentStart)
  have houtside : line.isOutside 0 = true := by simp [isOutside]
  rw [houtside, Bool.not_true, List.drop_zero, Nat.sub_zero, ← List.range_eq_range'] at hpieces
  rw [numberedTexts, splitLine, hpieces]
  rfl

/-! ### Programs -/

/-- The texts of a program with the numbers of their lines. -/
theorem map_text_line_ofSource (lines : List Text) :
    (ofSource lines).map (fun s => (s.text, s.line)) =
      (lines.zipIdx 1).flatMap fun (line, number) =>
        (dropTerminator line).statements.map fun text => (text, (number : Int)) := by
  unfold ofSource
  simp only [numberedTexts_eq]
  rw [List.map_map]
  exact List.zipIdx_map_fst 0 _

@[simp] theorem map_index_ofSource (lines : List Text) :
    (ofSource lines).map (·.index) = List.range (ofSource lines).length := by
  unfold ofSource
  simp only
  rw [List.map_map, List.length_map, List.length_zipIdx, List.range_eq_range']
  exact List.zipIdx_map_snd 0 _

/-- **A line is cut at the semicolons outside its strings, up to the first two dots outside them**,
and what is not blank is a statement.  The statements of a program are those of its lines, numbered
from 0 in the order of the lines. -/
theorem statements_by_position (line : Text) (number : Int) (lines : List Text) :
    numberedTexts line number = line.statements.map (fun text => (text, number)) ∧
      (ofSource lines).map (fun s => (s.text, s.line)) =
        ((lines.zipIdx 1).flatMap fun (line, number) =>
          (dropTerminator line).statements.map fun text => (text, (number : Int))) ∧
      (ofSource lines).map (·.index) = List.range (ofSource lines).length ∧
      (ofSource lines).Pairwise (fun s s' => s.line ≤ s'.line) :=
  ⟨numberedTexts_eq line number, map_text_line_ofSource lines, map_index_ofSource lines,
    (inOrder_ofSource lines).1⟩

/-- The quote in the comment has no partner, and the dot behind `NOP` stands alone. -/
example : Text.statements "DC T'a;..b''c'; NOP.; .. x;'".toList
    = ["DC T'a;..b''c'".toList, " NOP.".toList] := by
  decide

end Statement

end Cosmac
