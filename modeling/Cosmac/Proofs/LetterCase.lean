import Cosmac.Assembler
import Cosmac.Proofs.Capitals

/-!
# Programs in capitals

Since no reader sees the case of letters, writing a program in capitals is a change of its texts
alone.  It can be made before or after the statements are split off (`Statement.ofSource_capitals`),
before or after each pass (`Layout.run_capitals`, `Coding.run_capitals`), and so before or after all
of it (`Assembly.generate_capitals`): what is printed differs in the source text of the listing and
in nothing else.
-/

namespace Cosmac

open Text (capitals)

/-! ### Lines -/

namespace Text

@[simp] theorem allBlank_capitals (t : Text) : allBlank (capitals t) = allBlank t := by
  unfold allBlank capitals
  rw [List.all_map]
  simp [Function.comp_def]

@[simp] theorem dropTerminator_capitals (t : Text) :
    dropTerminator (capitals t) = capitals (dropTerminator t) := by
  have hend : ∀ c : Char, (c.toUpper == '\r' || c.toUpper == '\n') = (c == '\r' || c == '\n') :=
    apply_toUpper (f := fun c => c == '\r' || c == '\n') (by decide +kernel)
  have hreverse : ∀ t : Text, (capitals t).reverse = capitals t.reverse :=
    fun _ => List.map_reverse.symm
  unfold dropTerminator dropTail
  rw [hreverse, dropWhile_capitals hend, hreverse]

end Text

namespace Statement

@[simp] theorem consFirst_capitals (c : Char) (texts : List Text) :
    consFirst c.toUpper (texts.map capitals) = (consFirst c texts).map capitals := by
  cases texts <;> rfl

/-- Quotes, dots and semicolons have no case, so a line is cut at the same places. -/
@[simp] theorem pieces_capitals (quoted : Bool) (t : Text) :
    pieces quoted (capitals t) = (pieces quoted t).map capitals := by
  induction t generalizing quoted with
  | nil => rfl
  | cons c rest ih =>
    show pieces quoted (c.toUpper :: capitals rest) = _
    unfold pieces
    simp only [Text.toUpper_eq_iff (by decide : '\''.isAlpha = false),
      Text.toUpper_eq_iff (by decide : '.'.isAlpha = false),
      Text.toUpper_eq_iff (by decide : ';'.isAlpha = false),
      Text.head?_capitals (by decide : '.'.isAlpha = false), ih, consFirst_capitals]
    split_ifs <;> rfl

@[simp] theorem splitLine_capitals (line : Text) :
    splitLine (capitals line) = (splitLine line).map capitals := by
  unfold splitLine
  rw [pieces_capitals, List.filter_map]
  simp [Function.comp_def]

/-- The statement with its text in capitals. -/
def capitals (s : Statement) : Statement := { s with text := Text.capitals s.text }

/-- **A program in capitals has the same statements, in capitals.** -/
@[simp] theorem ofSource_capitals (lines : List Text) :
    ofSource (lines.map Text.capitals) = (ofSource lines).map capitals := by
  have htexts : ∀ (line : Text) (number : Int),
      numberedTexts (Text.dropTerminator (Text.capitals line)) number
        = (numberedTexts (Text.dropTerminator line) number).map (Prod.map Text.capitals id) := by
    intro line number
    unfold numberedTexts
    rw [Text.dropTerminator_capitals, splitLine_capitals, List.map_map, List.map_map]
    rfl
  unfold ofSource
  simp only [List.zipIdx_map, List.flatMap_map, Prod.map_fst, Prod.map_snd, id, htexts]
  rw [← List.map_flatMap, List.zipIdx_map, List.map_map, List.map_map]
  rfl

/-- A statement in capitals is read as it was. -/
@[simp] theorem parse_capitals (c : Context) (s : Statement) :
    s.capitals.parse c = (s.parse c).capitals := by
  unfold parse capitals Reading.ofText
  simp

@[simp] theorem ends_capitals (s : Statement) : s.capitals.ends = s.ends := by
  have hshape : s.capitals.shape = s.shape := Shape.read_capitals s.text
  unfold ends
  rw [hshape]

end Statement

/-! ### Passes -/

/-- The step with the text of its statement in capitals. -/
def Layout.Step.capitals (st : Step) : Step := { st with statement := st.statement.capitals }

/-- **The first pass does not see the case of letters.** -/
@[simp] theorem Layout.run_capitals (c : Context) (ss : List Statement) :
    run c (ss.map Statement.capitals) = ((run c ss).1.map Step.capitals, (run c ss).2) := by
  induction ss generalizing c with
  | nil => rfl
  | cons s rest ih =>
    have hends' := s.ends_capitals
    rw [List.map_cons]
    cases hends : s.ends with
    | true =>
      rw [run_cons_of_ends c rest hends, run_cons_of_ends c _ (hends'.trans hends),
        Statement.parse_capitals]
      rfl
    | false =>
      have hnext : next c s.capitals = next c s := by
        unfold next
        rw [Statement.parse_capitals]
        rfl
      rw [run_cons c rest hends, run_cons c _ (hends'.trans hends), Statement.parse_capitals, hnext,
        ih]
      rfl

namespace Coding

/-- The step with the text of its statement in capitals. -/
def Step.capitals (st : Step) : Step := { st with statement := st.statement.capitals }

theorem Step.keeps_capitals : Step.Keeps Step.capitals :=
  ⟨fun _ => rfl, fun _ => rfl, fun _ => rfl, fun _ => rfl, fun _ => rfl⟩

@[simp] theorem codedStep_capitals (c : Context) (layout : Option Nat) (s : Statement) :
    codedStep c layout s.capitals
      = ((codedStep c layout s).1.capitals, (codedStep c layout s).2) := by
  have hcheck : checkDefinition c s.capitals = checkDefinition c s := rfl
  have hreading : s.capitals.reading = s.reading := rfl
  unfold codedStep
  rw [hcheck, hreading]
  dsimp only
  split_ifs <;> rfl

/-- A step of the final pass in capitals is the same but for its text. -/
@[simp] theorem step_capitals (c : Context) (layout : Option Nat) (s : Statement) :
    step c layout s.capitals = ((step c layout s).1.capitals, (step c layout s).2) := by
  have hreading : (s.parse c).capitals.reading = (s.parse c).reading := rfl
  unfold step
  rw [Statement.parse_capitals]
  dsimp only
  rw [hreading, codedStep_capitals]
  cases (s.parse c).reading.status <;> rfl

/-- **The final pass does not see the case of letters.** -/
@[simp] theorem run_capitals (c : Context) (layout : List Nat) (ss : List Statement) :
    run c layout (ss.map Statement.capitals)
      = ((run c layout ss).1.map Step.capitals, (run c layout ss).2) := by
  induction ss generalizing c layout with
  | nil => rfl
  | cons s rest ih =>
    have hends' := s.ends_capitals
    rw [List.map_cons]
    cases hends : s.ends with
    | true =>
      rw [run_cons_of_ends c layout rest hends, run_cons_of_ends c layout _ (hends'.trans hends),
        step_capitals]
      rfl
    | false =>
      rw [run_cons c layout rest hends, run_cons c layout _ (hends'.trans hends), step_capitals, ih]
      rfl

end Coding

/-! ### Programs -/

/-- The listing line with its source text in capitals. -/
def ListingLine.capitals (l : ListingLine) : ListingLine :=
  { l with source := Text.capitals l.source }

namespace Assembly

/-- The assembly with the source and its statements in capitals. -/
def capitals (a : Assembly) : Assembly :=
  { a with
    source := a.source.map Text.capitals
    statements := a.statements.map Statement.capitals }

@[simp] theorem load_capitals (a : Assembly) (lines : List Text) :
    a.load (lines.map Text.capitals) = (a.load lines).capitals := by
  have hsource : (lines.map Text.capitals).map Text.dropTerminator
      = (lines.map Text.dropTerminator).map Text.capitals := by
    rw [List.map_map, List.map_map]
    exact List.map_congr_left fun line _ => Text.dropTerminator_capitals line
  unfold load
  rw [hsource]
  dsimp only
  rw [Statement.ofSource_capitals]
  rfl

@[simp] theorem replaceReached_capitals (a : Assembly) (reached : List Statement) :
    a.capitals.replaceReached (reached.map Statement.capitals)
      = (a.replaceReached reached).map Statement.capitals := by
  unfold replaceReached capitals
  rw [List.length_map, List.map_append, List.map_drop]

/-- Capitals can be put before or after the first pass. -/
@[simp] theorem layout_capitals (a : Assembly) : a.capitals.layout = a.layout.capitals := by
  have hrun : a.capitals.layoutRun
      = (a.layoutRun.1.map Layout.Step.capitals, a.layoutRun.2) := Layout.run_capitals ..
  have hreached : (a.layoutRun.1.map Layout.Step.capitals).map (·.statement)
      = (a.layoutRun.1.map (·.statement)).map Statement.capitals := by
    rw [List.map_map, List.map_map]
    rfl
  unfold layout
  rw [hrun]
  dsimp only
  rw [hreached, replaceReached_capitals, List.map_map, List.any_map]
  rfl

/-- The listing shows the source as it was written. -/
theorem listingFrom_capitals (number : Int) (lines : List Text) (steps : List Coding.Step)
    (address : Int) : listingFrom number (lines.map Text.capitals) steps address
      = (listingFrom number lines steps address).map ListingLine.capitals := by
  induction lines generalizing number steps address with
  | nil => rfl
  | cons source rest ih =>
    rw [List.map_cons, listingFrom, listingFrom, ih]
    rfl

@[simp] theorem listedLines_capitals (lineCount : Nat) (steps : List Coding.Step) :
    listedLines lineCount (steps.map Coding.Step.capitals) = listedLines lineCount steps := by
  unfold listedLines
  rw [List.getLast?_map]
  cases steps.getLast? <;> rfl

/-- Capitals can be put before or after the final pass; the listing changes with the source. -/
@[simp] theorem code_capitals (a : Assembly) :
    a.capitals.code
      = { a.code.capitals with listing := a.code.listing.map ListingLine.capitals } := by
  have hrun : a.capitals.codeRun = (a.codeRun.1.map Coding.Step.capitals, a.codeRun.2) :=
    Coding.run_capitals ..
  have hstatements : (a.codeRun.1.map Coding.Step.capitals).map (·.statement)
      = (a.codeRun.1.map (·.statement)).map Statement.capitals := by
    rw [List.map_map, List.map_map]
    rfl
  have hkeeps := Coding.Step.keeps_capitals
  unfold code
  rw [hrun]
  dsimp only
  rw [hstatements, replaceReached_capitals, imageOf_map hkeeps, errors_map hkeeps,
    listingFrom_map hkeeps, listedLines_capitals]
  unfold capitals
  dsimp only
  rw [List.length_map, ← List.map_take, listingFrom_capitals]

/-- **A program in capitals gives the same results**, with the source in capitals. -/
theorem generate_capitals (a : Assembly) (lines : List Text) :
    a.generate (lines.map Text.capitals)
      = { (a.generate lines).capitals with
          listing := (a.generate lines).listing.map ListingLine.capitals } := by
  unfold generate
  simp

/-- A listing line shows a line of the source. -/
theorem source_mem_of_mem_listingFrom {number : Int} {lines : List Text} {steps : List Coding.Step}
    {address : Int} {l : ListingLine} (h : l ∈ listingFrom number lines steps address) :
    l.source ∈ lines := by
  induction lines generalizing number steps address with
  | nil => cases h
  | cons source rest ih =>
    rcases List.mem_cons.mp h with rfl | h
    · exact List.mem_cons_self ..
    · exact List.mem_cons_of_mem _ (ih h)

end Assembly

namespace Text

/-- The text has only characters below 128. -/
def IsAscii (t : Text) : Prop := ∀ c ∈ t, c.toNat < 128

instance (t : Text) : Decidable t.IsAscii := List.decidableBAll _ t

theorem mem_of_mem_dropTerminator {t : Text} {c : Char} (h : c ∈ dropTerminator t) : c ∈ t := by
  unfold dropTerminator dropTail at h
  exact List.mem_reverse.mp ((List.dropWhile_sublist _).subset (List.mem_reverse.mp h))

/-- On ASCII texts, upper case is capitals. -/
theorem upper_of_isAscii {t : Text} (h : t.IsAscii) : upper t = capitals t := by
  induction t with
  | nil => rfl
  | cons c rest ih =>
    have hc : upperChar c = [c.toUpper] := if_pos (h c (List.mem_cons_self ..))
    have hrest := ih fun d hd => h d (List.mem_cons_of_mem _ hd)
    unfold upper at hrest ⊢
    rw [List.flatMap_cons, hc, hrest]
    rfl

end Text

namespace Assembler

/-- **The assembler does not see the case of letters**: with the source in upper case the image, the
symbol table, the errors and the warnings are the same, and the listing shows the same with the
source in upper case. -/
theorem assembleLines_upper (s : Assembler) (lines : List Text)
    (hascii : ∀ line ∈ lines, line.IsAscii) :
    let mixed := (s.assembleLines lines).1.assembly
    let upper := (s.assembleLines (lines.map Text.upper)).1.assembly
    upper.image = mixed.image ∧ upper.context.symbols = mixed.context.symbols ∧
      upper.report = mixed.report ∧
      upper.listing = mixed.listing.map fun l => { l with source := Text.upper l.source } := by
  intro mixed upper
  have hlines : lines.map Text.upper = lines.map Text.capitals :=
    List.map_congr_left fun line hline => Text.upper_of_isAscii (hascii line hline)
  have hupper : upper = { mixed.capitals with
      listing := mixed.listing.map ListingLine.capitals } := by
    show s.seed.generate (lines.map Text.upper) = _
    rw [hlines]
    exact s.seed.generate_capitals lines
  -- beyond ASCII, upper case and capitals differ; the source has nothing there
  have hsource : ∀ l ∈ mixed.listing, l.source.IsAscii := by
    intro l hl
    have hmem := List.mem_of_mem_take (Assembly.source_mem_of_mem_listingFrom hl)
    obtain ⟨line, hline, hdrop⟩ := List.mem_map.mp hmem
    rw [← hdrop]
    exact fun c hc => hascii line hline c (Text.mem_of_mem_dropTerminator hc)
  rw [hupper]
  refine ⟨rfl, rfl, rfl, List.map_congr_left fun l hl => ?_⟩
  rw [Text.upper_of_isAscii (hsource l hl)]
  rfl

/-- A program in mixed case with a predefined symbol, strings, a comment, an unclosed literal and a
label that is defined twice; both errors are reported alike. -/
theorem assembleLines_upper_errors :
    let s := ({} : Assembler).define "Base".toList 0x20
    let lines := ["Loop: ldi a.0(Table) ; br loop .. Comment", "tablE: dc t'aBc', x'fF', base",
      "lOOP = 1; dc t'open", "end"].map String.toList
    let mixed := (s.assembleLines lines).1.assembly
    let upper := (s.assembleLines (lines.map Text.upper)).1.assembly
    (∀ line ∈ lines, Text.IsAscii line) ∧ mixed.report.errorCount = 2 ∧ mixed.image.byteCount = 9 ∧
      upper.image = mixed.image ∧ upper.context.symbols = mixed.context.symbols ∧
      upper.report = mixed.report ∧
      upper.listing = mixed.listing.map fun l => { l with source := Text.upper l.source } :=
  ⟨by decide, by decide +kernel, by decide +kernel, assembleLines_upper _ _ (by decide)⟩

end Assembler

end Cosmac
