import Cosmac.Proofs.Images
import Cosmac.Proofs.PrintedProgram

/-!
# Assembling a disassembly

A disassembly that is assembled again gives the data back.

* `generate_sourceLines`: without labels it always does; an instruction that the data cut off is one
  error, and its bytes are missing;
* `assembleText_sourceText_iff`: with labels it does exactly if no label is the name of a register
  that an instruction uses, unless the register has the number of the label's address modulo 16.

Where the data fit into memory the addresses do not wrap (`Adjoining`), so the code is one chunk.
-/

namespace Cosmac

/-! ### Results of the passes -/

namespace Assembly

theorem image_layout_code (a : Assembly) :
    a.layout.code.image = imageOf (a.passes.map Prod.snd) := by
  rw [map_snd_passes]
  rfl

end Assembly

theorem Layout.symbols_run_of_unlabelled {ss : List Statement} (h : ∀ s ∈ ss, s.shape.label = none)
    (c : Context) : (run c ss).2.symbols = c.symbols := by
  induction ss generalizing c with
  | nil => rfl
  | cons s rest ih =>
    have hbind : c.bindLabel (s.parse c) = c := by
      unfold Context.bindLabel
      rw [s.label_parse, h s (List.mem_cons_self ..)]
    cases hends : s.ends with
    | true => rw [run_cons_of_ends c rest hends, hbind]
    | false =>
      rw [run_cons c rest hends]
      dsimp only
      rw [ih fun s hs => h s (List.mem_cons_of_mem _ hs), symbols_next, hbind]

namespace Disassembly

/-! ### Addresses that do not wrap -/

/-- Every instruction stands behind the one before it, without wrapping around. -/
def Adjoining : Int → List Disassembled → Prop
  | _, [] => True
  | address, d :: rest => d.address = address ∧ Adjoining (address + d.size) rest

theorem adjoining_of_consecutive {address : Int} {instructions : List Disassembled}
    (hconsecutive : Consecutive address instructions) (hwhole : ∀ d ∈ instructions, d.Whole)
    (haddress : 0 ≤ address)
    (hfits : address + (instructions.flatMap (·.raw)).length ≤ 0x10000) :
    Adjoining address instructions := by
  induction instructions generalizing address with
  | nil => trivial
  | cons d rest ih =>
    have hlength := (hwhole d (List.mem_cons_self ..)).length_raw
    rw [List.flatMap_cons, List.length_append, hlength] at hfits
    refine ⟨hconsecutive.1, ?_⟩
    cases rest with
    | nil => trivial
    | cons next more =>
      -- another byte follows, so the counter has not reached the end of memory
      have hpos := (hwhole next (by simp)).raw_pos
      have hword : word (address + d.size) = address + d.size := by
        rw [List.flatMap_cons, List.length_append] at hfits
        unfold word
        omega
      have hnext := hconsecutive.2
      rw [hword] at hnext
      exact ih hnext (fun d hd => hwhole d (List.mem_cons_of_mem _ hd)) (by omega) (by omega)

theorem le_address_of_adjoining {address : Int} {instructions : List Disassembled}
    (h : Adjoining address instructions) : ∀ d ∈ instructions, address ≤ d.address := by
  induction instructions generalizing address with
  | nil => exact fun _ hd => absurd hd List.not_mem_nil
  | cons d rest ih =>
    intro e he
    rcases List.mem_cons.mp he with rfl | he
    · exact Int.le_of_eq h.1.symm
    · have hle := ih h.2 e he
      omega

theorem nodup_address_of_adjoining {address : Int} {instructions : List Disassembled}
    (h : Adjoining address instructions) (hwhole : ∀ d ∈ instructions, d.Whole) :
    (instructions.map (·.address)).Nodup := by
  induction instructions generalizing address with
  | nil => exact List.nodup_nil
  | cons d rest ih =>
    rw [List.map_cons, List.nodup_cons]
    refine ⟨fun hmem => ?_, ih h.2 fun e he => hwhole e (List.mem_cons_of_mem _ he)⟩
    obtain ⟨e, he, heq⟩ := List.mem_map.mp hmem
    have hle := le_address_of_adjoining h.2 e he
    have hd := hwhole d (List.mem_cons_self ..)
    have hpos := hd.raw_pos
    have hlength := hd.length_raw
    have haddress := h.1
    omega

/-! ### The code of shown instructions -/

section Shown

variable {label : Disassembled → Option Text} {t : SymbolTable} {shown : List Passes.Pair}
  {instructions : List Disassembled}
  (hshown : List.Forall₂ (Passes.Shows label t) shown instructions)
  (hwhole : ∀ d ∈ instructions, d.Whole)

include hshown hwhole

theorem contiguous_of_shows (hclean : ∀ p ∈ shown, p.2.errors = []) {address : Int}
    (hadjoining : Adjoining address instructions) {rest : List Coding.Step}
    (hrest : ∀ st ∈ rest, st.code = []) :
    Assembly.Contiguous address (shown.map Prod.snd ++ rest) := by
  induction hshown generalizing address with
  | nil => exact Assembly.contiguous_of_code_nil hrest address
  | @cons p d shown instructions hp _ ih =>
    have hlength := Passes.length_code_of_shows hp (hwhole d (List.mem_cons_self ..))
      (hclean p (List.mem_cons_self ..))
    refine ⟨fun _ => (Passes.start_of_shows hp).trans hadjoining.1, ?_⟩
    rw [hlength]
    exact ih (fun d hd => hwhole d (List.mem_cons_of_mem _ hd))
      (fun p hp => hclean p (List.mem_cons_of_mem _ hp)) hadjoining.2

/-- Without errors the instructions have as many bytes as before, so the same bytes in all are the
same bytes in each. -/
theorem gives_of_flatMap_eq (hclean : ∀ p ∈ shown, p.2.errors = [])
    (hcode : shown.flatMap (·.2.code) = instructions.flatMap (·.raw)) :
    List.Forall₂ Passes.Gives shown instructions := by
  induction hshown with
  | nil => exact .nil
  | @cons p d shown instructions hp _ ih =>
    have hd := hwhole d (List.mem_cons_self ..)
    have herrors := hclean p (List.mem_cons_self ..)
    have hlength : p.2.code.length = d.raw.length := by
      rw [hd.length_raw]
      exact Passes.length_code_of_shows hp hd herrors
    rw [List.flatMap_cons, List.flatMap_cons] at hcode
    obtain ⟨hhead, htail⟩ := List.append_inj hcode hlength
    exact .cons ⟨herrors, hhead⟩ (ih (fun d hd => hwhole d (List.mem_cons_of_mem _ hd))
      (fun p hp => hclean p (List.mem_cons_of_mem _ hp)) htail)

end Shown

theorem flatMap_of_gives {shown : List Passes.Pair} {instructions : List Disassembled}
    (h : List.Forall₂ Passes.Gives shown instructions) :
    shown.flatMap (·.2.errors) = [] ∧
      shown.flatMap (·.2.code) = instructions.flatMap (·.raw) := by
  induction h with
  | nil => exact ⟨rfl, rfl⟩
  | cons hp _ ih =>
    constructor
    · rw [List.flatMap_cons, hp.errors, ih.1, List.append_nil]
    · rw [List.flatMap_cons, List.flatMap_cons, hp.code, ih.2]

section Results

variable {a : Assembly} {first : Passes.Pair} {shown rest : List Passes.Pair}
  (hpasses : a.passes = first :: (shown ++ rest)) (hfirst : Passes.Silent first)

include hpasses hfirst

theorem errors_of_passes :
    a.layout.code.report.errors
      = shown.flatMap (·.2.errors) ++ rest.flatMap (·.2.errors) := by
  rw [a.errors_passes, hpasses, List.flatMap_cons, hfirst.errors, List.flatMap_append]
  rfl

variable (hrest : ∀ p ∈ rest, p.2.code = [])

include hrest

theorem bytes_of_passes :
    a.layout.code.image.chunks.flatMap (·.bytes) = shown.flatMap (·.2.code) := by
  have hnil : rest.flatMap (·.2.code) = [] := List.flatMap_eq_nil_iff.mpr hrest
  rw [a.image_layout_code, Assembly.flatMap_imageOf, List.flatMap_map, hpasses, List.flatMap_cons,
    hfirst.code, List.flatMap_append, hnil, List.append_nil]
  rfl

/-- **Instructions in their places make one chunk**, if none of them is in error. -/
theorem flatten_of_passes {label : Disassembled → Option Text} {t : SymbolTable}
    {instructions : List Disassembled}
    (hshown : List.Forall₂ (Passes.Shows label t) shown instructions)
    (hwhole : ∀ d ∈ instructions, d.Whole) (hclean : ∀ p ∈ shown, p.2.errors = [])
    {address : Int} (hadjoining : Adjoining address instructions) (fill : Int) :
    a.layout.code.image.flatten fill = shown.flatMap (·.2.code) := by
  have hcontiguous : Assembly.Contiguous address (a.passes.map Prod.snd) := by
    rw [hpasses, List.map_cons, List.map_append]
    refine ⟨fun hne => absurd hfirst.code hne, ?_⟩
    rw [hfirst.code, List.length_nil, Int.natCast_zero, Int.add_zero]
    exact contiguous_of_shows hshown hwhole hclean hadjoining (List.forall_mem_map.mpr hrest)
  have hbytes := bytes_of_passes hpasses hfirst hrest
  rw [a.image_layout_code] at hbytes ⊢
  rw [Assembly.flatMap_imageOf] at hbytes
  rw [Assembly.imageOf_contiguous hcontiguous, Image.flatten_single, hbytes]

end Results

/-! ### Without labels -/

/-- The instructions as the lines of a program. -/
def sourceLines (address : Int) (instructions : List Disassembled) : List Text :=
  ("ORG #".toList ++ Numeral.hex 4 address) :: instructions.map (·.source) ++ ["END".toList]

/-- Without labels every whole instruction gives its own bytes. -/
theorem gives_of_unlabelled {shown : List Passes.Pair} {instructions : List Disassembled}
    (hshown : List.Forall₂ (Passes.Shows (fun _ => none) {}) shown instructions)
    (hwhole : ∀ d ∈ instructions, d.Whole) : List.Forall₂ Passes.Gives shown instructions := by
  -- there is no label that could be a duplicate, and no symbol that could be a register
  refine List.forall₂_iff_zip.mpr ⟨hshown.length_eq, fun {p d} hzip => ?_⟩
  have hp := (List.forall₂_iff_zip.mp hshown).2 hzip
  have hbinds : ({} : SymbolTable).Binds p.1.statement := by
    unfold SymbolTable.Binds
    rw [hp.shape]
    exact nofun
  exact (Passes.gives_iff_of_shows hp (hwhole d (List.of_mem_zip hzip).2) hbinds nofun).mpr
    fun _ symbol hsymbol => nomatch hsymbol

section Unlabelled

variable {address : Int} (haddress : 0 ≤ address) (hlast : address ≤ 0xFFFF)

include haddress hlast

theorem symbols_unlabelled {instructions : List Disassembled}
    (hprintable : ∀ d ∈ instructions, d.Printable) :
    (program 0 (fun _ => []) address instructions).layoutRun.2.symbols = {} := by
  have hfront : ∀ _ : Disassembled, Front [] none := fun _ => .blank 0
  have hlabels : ∀ s ∈ (program 0 (fun _ => []) address instructions).statements,
      s.shape.label = none := by
    rw [statements_program hfront haddress hlast 0 hprintable]
    intro s hs
    rcases List.mem_append.mp hs with hs | hs
    · rcases List.mem_cons.mp hs with rfl | hs
      · rw [shape_originStatement haddress hlast]
      · obtain ⟨i, hi, rfl⟩ := List.mem_mapIdx.mp hs
        rw [shape_statementAt hfront (hprintable _ (List.getElem_mem hi))]
    · rw [List.mem_singleton.mp hs, shape_finishStatement]
  unfold Assembly.layoutRun
  rw [Layout.symbols_run_of_unlabelled hlabels]
  rfl

/-- The program of whole instructions. -/
theorem code_whole {instructions : List Disassembled} (hwhole : ∀ d ∈ instructions, d.Whole)
    (hconsecutive : Consecutive address instructions) :
    let done := (program 0 (fun _ => []) address instructions).layout.code
    done.report.errors = [] ∧
      done.image.chunks.flatMap (·.bytes) = instructions.flatMap (·.raw) ∧
      (address + (instructions.flatMap (·.raw)).length ≤ 0x10000 →
        ∀ fill, done.image.flatten fill = instructions.flatMap (·.raw)) := by
  intro done
  have hfront : ∀ _ : Disassembled, Front [] none := fun _ => .blank 0
  have hsymbols := symbols_unlabelled haddress hlast fun d hd => (hwhole d hd).printable
  obtain ⟨first, last, shown, hpasses, hfirst, hsilent, hshown⟩ :=
    passes_whole hfront haddress hlast 0 hwhole hconsecutive
  rw [hsymbols] at hshown
  obtain ⟨hclean, hraw⟩ := flatMap_of_gives (gives_of_unlabelled hshown hwhole)
  have hrest : ∀ p ∈ [last], p.2.code = [] := List.forall_mem_singleton.mpr hsilent.code
  refine ⟨?_, ?_, fun hfits fill => ?_⟩
  · rw [errors_of_passes hpasses hfirst, hclean, List.nil_append, List.flatMap_singleton]
    exact hsilent.errors
  · rw [bytes_of_passes hpasses hfirst hrest, hraw]
  · rw [flatten_of_passes hpasses hfirst hrest hshown hwhole (List.flatMap_eq_nil_iff.mp hclean)
      (adjoining_of_consecutive hconsecutive hwhole haddress hfits) fill, hraw]

/-- The program of whole instructions and one that the data cut off. -/
theorem code_cut {whole : List Disassembled} (hwhole : ∀ d ∈ whole, d.Whole)
    (hconsecutive : Consecutive address whole) {d : Disassembled} (hprintable : d.Printable)
    {i : Instruction}
    (hoperation : d.operation = .instruction i (.broken ⟨none, .missingExpression⟩) {}) :
    let done := (program 0 (fun _ => []) address (whole ++ [d])).layout.code
    done.report.errors
        = [(Diagnostic.ofKind .missingExpression).atLine (whole.length + 2)] ∧
      done.image.chunks.flatMap (·.bytes) = whole.flatMap (·.raw) := by
  intro done
  have hfront : ∀ _ : Disassembled, Front [] none := fun _ => .blank 0
  have hprintables : ∀ e ∈ whole ++ [d], e.Printable := by
    intro e he
    rcases List.mem_append.mp he with he | he
    · exact (hwhole e he).printable
    · rw [List.mem_singleton.mp he]
      exact hprintable
  obtain ⟨first, shown, c₁, c₂, hpasses, hfirst, hshown⟩ :=
    passes_program hfront haddress hlast 0 hprintables hwhole hconsecutive
  rw [symbols_unlabelled haddress hlast hprintables] at hshown
  obtain ⟨hclean, hraw⟩ := flatMap_of_gives (gives_of_unlabelled hshown hwhole)
  -- behind the whole instructions come the one that is cut off and the end
  let s := statementAt (fun _ => []) (0 + whole.length) d
  have hshape : s.shape = ⟨none, d.operation⟩ := shape_statementAt hfront hprintable _
  rw [List.mapIdx_cons, List.mapIdx_nil, List.singleton_append, Passes.run_cons c₁ c₂ _
    (Statement.ends_of_takesRoom (Statement.takesRoom_printed hshape))] at hpasses
  rw [hoperation] at hshape
  obtain ⟨last, hfinish, hsilent⟩ :=
    run_finishStatement (Layout.next c₁ s) (Passes.next c₁ c₂ s) 0 (whole ++ [d]).length
  rw [hfinish] at hpasses
  have hmissing := Coding.step_missing c₂ (some (s.parse c₁).reading.size) hshape
  have hline : s.line = whole.length + 2 := by
    show ((0 + whole.length : Nat) : Int) + 2 = _
    rw [Nat.zero_add]
  have hrest : ∀ p ∈ [Passes.pair c₁ c₂ s, last], p.2.code = [] :=
    List.forall_mem_cons.mpr ⟨hmissing.2, List.forall_mem_singleton.mpr hsilent.code⟩
  refine ⟨?_, ?_⟩
  · rw [errors_of_passes hpasses hfirst, hclean, List.nil_append, List.flatMap_cons,
      List.flatMap_singleton, hsilent.errors, List.append_nil, ← hline]
    exact hmissing.1
  · rw [bytes_of_passes hpasses hfirst hrest, hraw]

end Unlabelled

theorem consecutive_of_append {address : Int} {front back : List Disassembled}
    (h : Consecutive address (front ++ back)) : Consecutive address front := by
  induction front generalizing address with
  | nil => trivial
  | cons d rest ih => exact ⟨h.1, ih h.2⟩

/-- **A disassembly gives the data back when it is assembled.**  Only the last instruction can be
cut off.  If it is not, there is no error and the code is the data, in one piece where the data fit
into memory.  If it is, its missing operand is the one error, and the code is the data without
it. -/
theorem generate_sourceLines (names : AddressNames) (data : List UInt8) {base : Int}
    (hbase : 0 ≤ base) (hlast : base ≤ 0xFFFF) :
    let instructions := disassemble names {} base data
    let done := ({} : Assembly).generate (sourceLines base instructions)
    (∀ d ∈ instructions.dropLast, d.IsComplete) ∧
    ((∀ d ∈ instructions, d.IsComplete) →
      done.report.errors = [] ∧ done.image.chunks.flatMap (·.bytes) = data ∧
        (base + data.length ≤ 0x10000 → ∀ fill, done.image.flatten fill = data)) ∧
    ∀ d, instructions.getLast? = some d → ¬d.IsComplete →
      done.report.errors
          = [(Diagnostic.ofKind .missingExpression).atLine (instructions.length + 1)] ∧
        done.image.chunks.flatMap (·.bytes) ++ d.raw = data := by
  intro instructions done
  have hconsecutive : Consecutive base instructions := consecutive_disassemble base data
  have hraw : instructions.flatMap (·.raw) = data := flatMap_raw_disassemble base data
  have hfront : ∀ d ∈ instructions.dropLast, d.Whole := whole_dropLast_disassemble base data
  refine ⟨fun d hd => (hfront d hd).isComplete, fun hcomplete => ?_, fun d hd hcut => ?_⟩
  · have hwhole : ∀ d ∈ instructions, d.Whole := fun d hd =>
      whole_of_mem_disassemble hd (hcomplete d hd)
    rw [← hraw]
    exact code_whole hbase hlast hwhole hconsecutive
  · have hsplit : instructions.dropLast ++ [d] = instructions := List.dropLast_append_getLast? d hd
    have hmem : d ∈ instructions := List.mem_of_getLast? hd
    obtain ⟨i, hoperation⟩ := operation_of_mem_disassemble hmem hcut
    rw [← hsplit] at hconsecutive
    have hcode := code_cut hbase hlast hfront (consecutive_of_append hconsecutive)
      (printable_of_mem_disassemble hmem) hoperation
    rw [hsplit] at hcode
    have hlength : (instructions.length : Int) + 1 = instructions.dropLast.length + 2 := by
      rw [← congrArg List.length hsplit, List.length_append, List.length_singleton]
      omega
    refine ⟨?_, ?_⟩
    · rw [hlength]
      exact hcode.1
    · rw [← hraw, ← hsplit, List.flatMap_append, List.flatMap_singleton]
      exact congrArg (· ++ d.raw) hcode.2

/-- A branch at the end of memory, data, a register behind the wrap, and a long branch cut off. -/
theorem generate_sourceLines_wrapped :
    let data : List UInt8 := [0x30, 0x02, 0x68, 0x15, 0xC0, 0x01]
    let instructions := disassemble {} {} 0xFFFD data
    let done := ({} : Assembly).generate (sourceLines 0xFFFD instructions)
    ((0 : Int) ≤ 0xFFFD ∧ (0xFFFD : Int) ≤ 0xFFFF) ∧
      done.report.errors = [(Diagnostic.ofKind .missingExpression).atLine 5] ∧
      done.image.chunks.flatMap (·.bytes) ++ [0xC0, 0x01] = data := by
  intro data instructions done
  have hlast : ∃ d, instructions.getLast? = some d ∧ ¬d.IsComplete ∧ d.raw = [0xC0, 0x01] := by
    decide +kernel
  have hlength : instructions.length = 4 := by decide +kernel
  obtain ⟨d, hd, hcut, hraw⟩ := hlast
  have hdone := (generate_sourceLines {} data (show (0 : Int) ≤ 0xFFFD by decide)
    (by decide)).2.2 d hd hcut
  rw [hraw] at hdone
  refine ⟨by decide, ?_, hdone.2⟩
  rw [hdone.1]
  show [(Diagnostic.ofKind .missingExpression).atLine ((instructions.length : Int) + 1)] = _
  rw [hlength]
  rfl

/-! ### With labels -/

/-- Every name is an identifier, and stands for one address. -/
structure Distinct (names : AddressNames) : Prop where
  /-- Names are identifiers. -/
  identifier : ∀ address name, names.get? address = some name → name.IsIdentifier
  /-- No two addresses have the same name. -/
  injective : ∀ address address' name, names.get? address = some name →
    names.get? address' = some name → address = address'

theorem distinct_of_entries {entries : List (Int × Text)}
    (hidentifier : ∀ entry ∈ entries, entry.2.IsIdentifier)
    (hnodup : (entries.map (·.2)).Nodup) : Distinct ⟨entries⟩ := by
  have hmem : ∀ address name, (⟨entries⟩ : AddressNames).get? address = some name →
      (address, name) ∈ entries := by
    intro address name hname
    obtain ⟨front, back, hentries, -⟩ := List.lookup_eq_some_iff.mp hname
    have hentries : entries = front ++ (address, name) :: back := hentries
    rw [hentries]
    exact List.mem_append_right _ (List.mem_cons_self ..)
  constructor
  · exact fun address name hname => hidentifier _ (hmem address name hname)
  · intro address address' name hname hname'
    have hsame := List.inj_on_of_nodup_map hnodup (hmem _ _ hname) (hmem _ _ hname') rfl
    exact congrArg Prod.fst hsame

/-- No label has the name of a register that an instruction uses, unless its address ends with the
number of that register. -/
def RegistersHold (names : AddressNames) (instructions : List Disassembled) : Prop :=
  ∀ d ∈ instructions, d.kind = .register ∨ d.kind = .nonzeroRegister →
    ∀ e ∈ instructions, names.get? e.address = some d.operandText →
      d.operand = some (e.address % 16)

instance (names : AddressNames) (instructions : List Disassembled) :
    Decidable (RegistersHold names instructions) :=
  inferInstanceAs (Decidable (∀ d ∈ _, _ → ∀ e ∈ _, _ → _))

/-- The label field of an instruction. -/
def labelField (names : AddressNames) (d : Disassembled) : Text :=
  Text.padRight labelWidth (((label? names d).map (· ++ ":".toList)).getD [])

theorem sourceText_eq_unlines (names : AddressNames) (address : Int)
    (instructions : List Disassembled) :
    sourceText names address instructions
      = Text.unlines (rows labelWidth (labelField names) address instructions) := by
  show Text.unlines (_ :: instructions.map _ ++ _) = Text.unlines (_ :: instructions.map _ ++ _)
  refine congrArg (fun body => Text.unlines (_ :: body ++ _)) (List.map_congr_left fun d _ => ?_)
  unfold labelField
  cases label? names d <;> rfl

theorem front_labelField {names : AddressNames} (hnames : Distinct names) (d : Disassembled) :
    Front (labelField names d) (names.get? d.address) := by
  unfold labelField label? Text.padRight
  cases hname : names.get? d.address with
  | none => exact .blank 7
  | some name =>
    have hidentifier := hnames.identifier d.address name hname
    have hne : name.isEmpty = false := by
      cases name with
      | nil => exact hidentifier.elim
      | cons => rfl
    rw [Option.filter_some, hne]
    show Front (name ++ ":".toList ++ List.replicate _ ' ') (some name)
    rw [List.append_assoc]
    exact .label hidentifier _

/-- The passes over a program of instructions that have their names as labels. -/
structure Labelled (names : AddressNames) (a : Assembly) (first last : Passes.Pair)
    (shown : List Passes.Pair) (instructions : List Disassembled) : Prop where
  /-- There are no symbols before the program. -/
  empty : a.context.symbols = {}
  /-- The instructions stand between an origin and an end. -/
  passes : a.passes = first :: (shown ++ [last])
  /-- The origin is silent. -/
  first : Passes.Silent first
  /-- So is the end. -/
  last : Passes.Silent last
  /-- Every instruction stands at its address, with its name as label. -/
  shown : List.Forall₂ (Passes.Shows (fun d => names.get? d.address) a.layoutRun.2.symbols) shown
    instructions
  /-- The instructions are whole. -/
  whole : ∀ d ∈ instructions, d.Whole
  /-- They have different addresses. -/
  nodup : (instructions.map (·.address)).Nodup
  /-- Names are identifiers, and stand for one address each. -/
  names : Distinct names

namespace Labelled

variable {names : AddressNames} {a : Assembly} {first last : Passes.Pair}
  {shown : List Passes.Pair} {instructions : List Disassembled}
  (h : Labelled names a first last shown instructions)

include h

theorem shows {x : Passes.Pair × Disassembled} (hx : x ∈ shown.zip instructions) :
    Passes.Shows (fun d => names.get? d.address) a.layoutRun.2.symbols x.1 x.2 :=
  (List.forall₂_iff_zip.mp h.shown).2 hx

theorem binds {x : Passes.Pair × Disassembled} (hx : x ∈ shown.zip instructions) :
    a.layoutRun.2.symbols.Binds x.1.1.statement := by
  have hmem : x.1 ∈ a.passes := by
    rw [h.passes]
    exact List.mem_cons_of_mem _ (List.mem_append_left _ (List.of_mem_zip hx).1)
  exact Layout.binds_run _ _ _ (Assembly.fst_mem_of_mem_passes hmem)

/-- An address has one instruction, with one statement. -/
theorem eq_of_address_eq {x y : Passes.Pair × Disassembled} (hx : x ∈ shown.zip instructions)
    (hy : y ∈ shown.zip instructions) (haddress : x.2.address = y.2.address) : x = y := by
  have hnodup := h.nodup
  rw [← List.map_snd_zip (Nat.le_of_eq h.shown.length_eq.symm), List.map_map] at hnodup
  exact List.inj_on_of_nodup_map hnodup hx hy haddress

/-- **Every symbol of the table is the label of an instruction**, and has its address. -/
theorem lookup_label {m : Text} (hm : m.IsName) {symbol : Symbol}
    (hsymbol : a.layoutRun.2.symbols.lookup m = some symbol) :
    ∃ x ∈ shown.zip instructions, names.get? x.2.address = some m ∧
      symbol.index = x.1.1.statement.index ∧ symbol.value = some x.2.address := by
  rcases Layout.lookup_run (a.context.reset .first) a.statements hsymbol with
    ⟨old, hold, _⟩ | ⟨st, hst, hdefines⟩
  · have hold : a.context.symbols.lookup m = some old := hold
    rw [h.empty] at hold
    cases hold
  · have hst : st ∈ a.layoutRun.1 := hst
    rw [← a.map_fst_passes] at hst
    obtain ⟨p, hp, rfl⟩ := List.mem_map.mp hst
    obtain ⟨name, hlabel, hupper⟩ := hdefines.label
    have hword := a.word_before_passes p hp
    -- the origin and the end have no label
    have hmem : p ∈ shown := by
      rw [h.passes] at hp
      rcases List.mem_cons.mp hp with rfl | hp
      · rw [h.first.label] at hlabel
        cases hlabel
      · rcases List.mem_append.mp hp with hp | hp
        · exact hp
        · rw [List.mem_singleton.mp hp, h.last.label] at hlabel
          cases hlabel
    rw [← List.map_fst_zip (Nat.le_of_eq h.shown.length_eq)] at hmem
    obtain ⟨x, hx, rfl⟩ := List.mem_map.mp hmem
    have hshows := h.shows hx
    have hname : names.get? x.2.address = some name := by
      rw [← hlabel]
      exact (Passes.label_of_shows hshows).symm
    -- a name is its own upper case, so it is found as it is written
    have hidentifier := h.names.identifier _ _ hname
    rw [Text.upper_of_isName hidentifier.isName, Text.upper_of_isName hm] at hupper
    refine ⟨x, hx, hupper ▸ hname, hdefines.index, ?_⟩
    rw [hdefines.value, Passes.definedValue_of_shows hshows, Option.map_some, ← hshows.before,
      hword]

/-- No label is a duplicate, so an instruction gives its own bytes exactly if no symbol gives its
register another number. -/
theorem gives_iff {x : Passes.Pair × Disassembled} (hx : x ∈ shown.zip instructions) :
    Passes.Gives x.1 x.2 ↔ x.2.Intact a.layoutRun.2.symbols := by
  refine Passes.gives_iff_of_shows (h.shows hx) (h.whole _ (List.of_mem_zip hx).2) (h.binds hx) ?_
  intro name symbol hname hsymbol
  have hidentifier := h.names.identifier _ _ hname
  obtain ⟨y, hy, hname', hindex, -⟩ := h.lookup_label hidentifier.isName hsymbol
  have haddress := h.names.injective _ _ _ hname' hname
  rw [hindex, h.eq_of_address_eq hy hx haddress]

theorem forall_gives_iff :
    List.Forall₂ Passes.Gives shown instructions
      ↔ ∀ d ∈ instructions, d.Intact a.layoutRun.2.symbols := by
  rw [List.forall₂_iff_zip]
  constructor
  · rintro ⟨-, hgives⟩ d hd
    rw [← List.map_snd_zip (Nat.le_of_eq h.shown.length_eq.symm)] at hd
    obtain ⟨x, hx, rfl⟩ := List.mem_map.mp hd
    exact (h.gives_iff hx).mp (hgives hx)
  · intro hintact
    exact ⟨h.shown.length_eq, fun hx => (h.gives_iff hx).mpr (hintact _ (List.of_mem_zip hx).2)⟩

/-- **The symbols leave the registers alone** exactly if the labels do. -/
theorem intact_iff_registersHold :
    (∀ d ∈ instructions, d.Intact a.layoutRun.2.symbols) ↔ RegistersHold names instructions := by
  constructor
  · intro hintact d hd hkind e he hname
    rw [← List.map_snd_zip (Nat.le_of_eq h.shown.length_eq.symm)] at he
    obtain ⟨x, hx, rfl⟩ := List.mem_map.mp he
    have hshape := (h.shows hx).shape
    obtain ⟨symbol, hsymbol⟩ := Option.isSome_iff_exists.mp
      (h.binds hx d.operandText (by rw [hshape]; exact hname))
    -- the symbol of that name has the address of the label
    obtain ⟨y, _, hname', _, hvalue⟩ :=
      h.lookup_label (h.names.identifier _ _ hname).isName hsymbol
    rw [h.names.injective _ _ _ hname' hname] at hvalue
    obtain ⟨v, hv, hoperand⟩ := hintact d hd hkind symbol hsymbol
    rw [hoperand, Option.some.inj (hv.symm.trans hvalue)]
  · intro hhold d hd hkind symbol hsymbol
    have hname := (h.whole d hd).isName_operandText hkind
    obtain ⟨x, hx, hname', -, hvalue⟩ := h.lookup_label hname hsymbol
    exact ⟨x.2.address, hvalue, hhold d hd hkind x.2 (List.of_mem_zip hx).2 hname'⟩

end Labelled

/-- The program of labelled instructions. -/
theorem labelled_program {names : AddressNames} (hnames : Distinct names) {address : Int}
    (haddress : 0 ≤ address) (hlast : address ≤ 0xFFFF) {instructions : List Disassembled}
    (hwhole : ∀ d ∈ instructions, d.Whole) (hconsecutive : Consecutive address instructions)
    (hadjoining : Adjoining address instructions) :
    ∃ first last shown, Labelled names (program labelWidth (labelField names) address instructions)
      first last shown instructions := by
  obtain ⟨first, last, shown, hpasses, hfirst, hsilent, hshown⟩ :=
    passes_whole (front_labelField hnames) haddress hlast labelWidth hwhole hconsecutive
  exact ⟨first, last, shown, rfl, hpasses, hfirst, hsilent, hshown, hwhole,
    nodup_address_of_adjoining hadjoining hwhole, hnames⟩

/-- **A disassembly with labels gives the data back when it is assembled**, without an error,
exactly if no label has the name of a register that an instruction uses, unless its address ends
with the number of that register. -/
theorem assembleText_sourceText_iff {names : AddressNames} (hnames : Distinct names)
    (data : List UInt8) {base : Int} (hbase : 0 ≤ base) (hlast : base ≤ 0xFFFF)
    (hfits : base + data.length ≤ 0x10000)
    (hcomplete : ∀ d ∈ disassemble names {} base data, d.IsComplete) :
    let instructions := disassemble names {} base data
    let done := (({} : Assembler).assembleText (sourceText names base instructions)).1
    (done.assembly.report.errorCount = 0 ∧ done.code = data)
      ↔ RegistersHold names instructions := by
  intro instructions done
  have hconsecutive : Consecutive base instructions := consecutive_disassemble base data
  have hraw : instructions.flatMap (·.raw) = data := flatMap_raw_disassemble base data
  have hwhole : ∀ d ∈ instructions, d.Whole := fun d hd =>
    whole_of_mem_disassemble hd (hcomplete d hd)
  have hadjoining : Adjoining base instructions :=
    adjoining_of_consecutive hconsecutive hwhole hbase (by rw [hraw]; exact hfits)
  obtain ⟨first, last, shown, hlabelled⟩ :=
    labelled_program hnames hbase hlast hwhole hconsecutive hadjoining
  have hassembly : done.assembly
      = (program labelWidth (labelField names) base instructions).layout.code := by
    have hrows := isRow_rows (front_labelField hnames) hbase hlast labelWidth
      fun d hd => (hwhole d hd).printable
    show ({} : Assembly).generate (Text.splitLines (sourceText names base instructions)) = _
    rw [sourceText_eq_unlines, Text.splitLines_unlines fun row hrow => (hrows row hrow).1]
    rfl
  have hcodeEq : done.code = done.assembly.image.flatten 0 := rfl
  have hcount : done.assembly.report.errorCount = 0 ↔ shown.flatMap (·.2.errors) = [] := by
    show done.assembly.report.errors.length = 0 ↔ _
    rw [hassembly, errors_of_passes hlabelled.passes hlabelled.first, List.flatMap_singleton,
      hlabelled.last.errors, List.append_nil, List.length_eq_zero_iff]
  have hrest : ∀ p ∈ [last], p.2.code = [] := List.forall_mem_singleton.mpr hlabelled.last.code
  have hflatten : shown.flatMap (·.2.errors) = [] → done.code = shown.flatMap (·.2.code) := by
    intro hclean
    rw [hcodeEq, hassembly]
    exact flatten_of_passes hlabelled.passes hlabelled.first hrest hlabelled.shown hwhole
      (List.flatMap_eq_nil_iff.mp hclean) hadjoining 0
  rw [← hlabelled.intact_iff_registersHold, ← hlabelled.forall_gives_iff, hcount]
  constructor
  · rintro ⟨hclean, hdata⟩
    refine gives_of_flatMap_eq hlabelled.shown hwhole (List.flatMap_eq_nil_iff.mp hclean) ?_
    rw [← hflatten hclean, hdata, hraw]
  · intro hgives
    obtain ⟨hclean, hbytes⟩ := flatMap_of_gives hgives
    exact ⟨hclean, by rw [hflatten hclean, hbytes, hraw]⟩

/-- A label `R2` at address 2 does no harm to register 2. -/
theorem assembleText_sourceText_harmless :
    let names : AddressNames := ⟨[(0, "START".toList), (2, "R2".toList)]⟩
    let data : List UInt8 := [0x15, 0x68, 0x12, 0x30, 0x00]
    let instructions := disassemble names {} 0 data
    let done := (({} : Assembler).assembleText (sourceText names 0 instructions)).1
    Distinct names ∧ (∀ d ∈ instructions, d.IsComplete) ∧ RegistersHold names instructions ∧
      done.assembly.report.errorCount = 0 ∧ done.code = data := by
  intro names data instructions done
  have hnames : Distinct names := distinct_of_entries (by decide) (by decide)
  have hcomplete : ∀ d ∈ instructions, d.IsComplete := by decide +kernel
  have hhold : RegistersHold names instructions := by decide +kernel
  have hiff := assembleText_sourceText_iff hnames data (Int.le_refl 0) (by decide) (by decide)
    hcomplete
  exact ⟨hnames, hcomplete, hhold, hiff.mpr hhold⟩

/-- A label `R5` at address 0 takes the place of register 5: there is no error, and the code is that
of register 0. -/
theorem not_assembleText_sourceText_register :
    let names : AddressNames := ⟨[(0, "R5".toList)]⟩
    let instructions := disassemble names {} 0 [0x15]
    let done := (({} : Assembler).assembleText (sourceText names 0 instructions)).1
    Distinct names ∧ (∀ d ∈ instructions, d.IsComplete) ∧
      done.assembly.report.errorCount = 0 ∧ done.code = [0x10] := by
  intro names instructions done
  have hnames : Distinct names := distinct_of_entries (by decide) (by decide)
  have hcomplete : ∀ d ∈ instructions, d.IsComplete := by decide +kernel
  have hdone : done.assembly.report.errorCount = 0 ∧ done.code = [0x10] := by decide +kernel
  exact ⟨hnames, hcomplete, hdone⟩

end Disassembly

end Cosmac
