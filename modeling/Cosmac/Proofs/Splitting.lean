import Cosmac.Proofs.Grammar
import Cosmac.Statement.Split

/-!
# The statements of a line and the grammar

A line is cut at its semicolons and at `..` by a scan that knows of quotes and of nothing else.  It
takes every quote for the start or the end of a string.  The readers take a doubled quote for a
character of the string, and the dot in `A.0(` for a part of a form.  Both agree on where a
statement ends, and this module proves it along the grammar:

* `Text.Seamless`: the scan goes through the text without a cut and leaves it between no quotes;
* `Token.Spells.seamless`, `Expr.Spells.seamless`, `Text.IsDataList.seamless`,
  `Text.IsOperation.seamless`, `Text.IsStatement.seamless`: what the grammar derives is seamless,
  level by level;
* `Statement.splitLine_intercalate`: seamless texts with semicolons between them are cut into just
  these texts.

A text that is read without error in any context is one of the grammar for the symbols of that
context (`Reading.exists_isStatement`), since an error of the first pass is an error of the last.
-/

namespace Cosmac

/-! ### Seamless texts -/

namespace Text

/-- The scan for statements goes through the text without a cut, whatever stands behind it. -/
def Seamless (t : Text) : Prop :=
  ∀ rest : Text, Statement.pieces false (t ++ rest)
    = t.foldr Statement.consFirst (Statement.pieces false rest)

theorem seamless_nil : Seamless [] := fun _ => rfl

/-- Texts without a cut can be put together. -/
theorem Seamless.append {t u : Text} (ht : t.Seamless) (hu : u.Seamless) :
    Seamless (t ++ u) := by
  intro rest
  rw [List.append_assoc, ht, hu, List.foldr_append]

theorem Seamless.cons {c : Char} {t : Text} (hc : Seamless [c]) (ht : t.Seamless) :
    Seamless (c :: t) :=
  hc.append ht

/-- The character means nothing to the scan. -/
def IsPlain (c : Char) : Prop := c ≠ '\'' ∧ c ≠ '.' ∧ c ≠ ';'

instance (c : Char) : Decidable (IsPlain c) := inferInstanceAs (Decidable (_ ∧ _))

/-- A plain character is not a cut. -/
theorem seamless_singleton {c : Char} (h : IsPlain c) : Seamless [c] := by
  intro rest
  obtain ⟨hquote, hdot, hsemicolon⟩ := h
  simp [Statement.pieces, hquote, hdot, hsemicolon]

theorem seamless_of_isPlain {t : Text} (h : ∀ c ∈ t, IsPlain c) : t.Seamless := by
  induction t with
  | nil => exact seamless_nil
  | cons c rest ih =>
    have hrest := ih fun d hd => h d (List.mem_cons_of_mem _ hd)
    exact (seamless_singleton (h c (List.mem_cons_self ..))).cons hrest

/-- A single dot starts no comment. -/
theorem seamless_dot {c : Char} (h : IsPlain c) : Seamless ['.', c] := by
  intro rest
  have hrest := seamless_singleton h rest
  obtain ⟨_, hdot, _⟩ := h
  rw [List.singleton_append] at hrest
  simp [Statement.pieces, hdot, ← hrest]

/-- Between quotes nothing is cut, and a doubled quote leaves the string and enters it again. -/
theorem pieces_doubled (body rest : Text) :
    Statement.pieces true (Token.doubled body ++ '\'' :: rest)
      = (Token.doubled body).foldr Statement.consFirst
          (Statement.consFirst '\'' (Statement.pieces false rest)) := by
  induction body with
  | nil => simp [Token.doubled, Statement.pieces]
  | cons c body ih =>
    have hdoubled : Token.doubled (c :: body)
        = (if c = '\'' then ['\'', '\''] else [c]) ++ Token.doubled body :=
      List.flatMap_cons ..
    rw [hdoubled]
    -- a quote that is doubled, or any other character
    by_cases hc : c = '\''
    · simp [hc, Statement.pieces, ih]
    · simp [hc, Statement.pieces, ih]

/-- A string is not cut, whatever stands in it. -/
theorem seamless_quoted (body : Text) : Seamless ('\'' :: Token.doubled body ++ ['\'']) := by
  intro rest
  have hinside := pieces_doubled body rest
  simp [Statement.pieces, hinside]

theorem isPlain_of_isWordChar {c : Char} (h : Token.isWordChar c = true) : IsPlain c := by
  have hmark : c ∉ marks := fun hmem => by simp [isWordChar_of_mem_marks hmem] at h
  refine ⟨?_, ?_, ?_⟩ <;> rintro rfl <;> exact hmark (by decide)

theorem seamless_of_isRun {t : Text} (h : Token.IsRun t) : t.Seamless :=
  seamless_of_isPlain fun c hc => isPlain_of_isWordChar (h c hc)

theorem Blanks.seamless {b : Text} (h : b.Blanks) : b.Seamless := by
  refine seamless_of_isPlain fun c hc => ?_
  rcases isSpace_iff.mp (h c hc) with rfl | rfl <;> decide

end Text

/-! ### Tokens and expressions -/

/-- **No token is cut.** -/
theorem Token.Spells.seamless {p : Text} {token : Token} (h : Token.Spells p token) :
    p.Seamless := by
  cases h with
  | @word c more hletter hword _ =>
    have hc := Text.isPlain_of_isWordChar (Token.isWordChar_of_isAlpha hletter)
    exact (Text.seamless_singleton hc).cons (Text.seamless_of_isRun hword)
  | decimal hword _ => exact Text.seamless_of_isRun hword
  | hex hword _ =>
    exact (Text.seamless_singleton (by decide)).cons (Text.seamless_of_isRun hword)
  | @literal mark body _ hliteral =>
    have hmark := Token.isWordChar_of_isAlpha hliteral.isAlpha
    exact (Text.seamless_singleton (Text.isPlain_of_isWordChar hmark)).cons
      (Text.seamless_quoted body)

theorem Term.Spells.seamless {p : Text} {term : Term} (h : Term.Spells p term) : p.Seamless := by
  cases h with
  | here => exact Text.seamless_singleton (by decide)
  | constant htoken _ _ => exact htoken.seamless
  | character htoken => exact htoken.seamless
  | name htoken => exact htoken.seamless

namespace Expr

theorem OffsetSpells.seamless {q : Text} {offset : Option Int} (h : OffsetSpells q offset) :
    q.Seamless := by
  cases h with
  | nothing => exact Text.seamless_nil
  | plus htoken _ _ => exact (Text.seamless_singleton (by decide)).cons htoken.seamless
  | minus htoken _ _ => exact (Text.seamless_singleton (by decide)).cons htoken.seamless

/-- The dot of a form stands alone, so it starts no comment. -/
theorem Opens.seamless {o : Text} {selector : Selector} (h : Opens o selector) : o.Seamless := by
  have hletter : ∀ {a : Char}, a.toUpper = 'A' → Text.Seamless [a] := by
    intro a ha
    have hword := Token.isWordChar_of_isAlpha (isAlpha_of_toUpper_eq ha)
    exact Text.seamless_singleton (Text.isPlain_of_isWordChar hword)
  have hparen : Text.Seamless ['('] := Text.seamless_singleton (by decide)
  cases h with
  | address ha => exact (hletter ha).cons hparen
  | low ha => exact (hletter ha).cons ((Text.seamless_dot (c := '0') (by decide)).append hparen)
  | high ha => exact (hletter ha).cons ((Text.seamless_dot (c := '1') (by decide)).append hparen)

/-- No expression is cut. -/
theorem Spells.seamless {p : Text} {e : Expr} (h : Expr.Spells p e) : p.Seamless := by
  cases h with
  | plain hterm hoffset => exact hterm.seamless.append hoffset.seamless
  | form hopen hbefore hterm hoffset hafter =>
    have hinside := (hopen.seamless.append hbefore.seamless).append hterm.seamless
    have hclose : Text.Seamless [')'] := Text.seamless_singleton (by decide)
    exact ((hinside.append hoffset.seamless).append hafter.seamless).append hclose

end Expr

theorem RegisterTerm.Spells.seamless {p : Text} {term : RegisterTerm}
    (h : RegisterTerm.Spells p term) : p.Seamless := by
  cases h with
  | value htoken _ => exact htoken.seamless
  | name htoken => exact htoken.seamless

/-! ### Operands and statements -/

namespace Text

variable {symbols : SymbolTable}

theorem IsItem.seamless {p : Text} (h : p.IsItem) : p.Seamless := by
  cases h with
  | string h => exact h.seamless
  | expression h => exact h.seamless

/-- No data list is cut. -/
theorem IsDataList.seamless {t : Text} (h : t.IsDataList) : t.Seamless := by
  induction h with
  | last hbefore hitem hafter =>
    exact hbefore.seamless.append (hitem.seamless.append hafter.seamless)
  | cons hbefore hitem hafter _ ih =>
    have hcomma := (seamless_singleton (c := ',') (by decide)).cons ih
    exact hbefore.seamless.append (hitem.seamless.append (hafter.seamless.append hcomma))

theorem IsTrailer.seamless {t : Text} (h : t.IsTrailer) : t.Seamless := by
  cases h with
  | nothing h => exact h.seamless
  | data hb h =>
    exact hb.seamless.append ((seamless_singleton (c := ',') (by decide)).cons h.seamless)

theorem IsOperand.seamless {kind : OperandKind} {t : Text} (h : t.IsOperand symbols kind) :
    t.Seamless := by
  cases h with
  | none => exact seamless_nil
  | register _ hb hterm _ => exact hb.seamless.append hterm.seamless
  | expression _ hb hexpr => exact hb.seamless.append hexpr.seamless

theorem IsLast.seamless {t : Text} (h : t.IsLast) : t.Seamless := by
  obtain ⟨hbefore, hexpr, hafter⟩ := h
  exact hbefore.seamless.append (hexpr.seamless.append hafter.seamless)

theorem IsOperands.seamless {name t : Text} {status : Status} {mnemonic : Option Text}
    (h : IsOperands symbols name t status mnemonic) : t.Seamless := by
  cases h with
  | data h => exact h.seamless
  | origin h => exact h.seamless
  | page h => exact h.seamless
  | finish h => exact h.seamless
  | instruction _ hoperand htrailer => exact hoperand.seamless.append htrailer.seamless

/-- No operation is cut, whatever its operands are. -/
theorem IsOperation.seamless {t : Text} {status : Status} {mnemonic : Option Text}
    (h : t.IsOperation symbols status mnemonic) : t.Seamless := by
  cases h with
  | data h => exact (seamless_singleton (by decide)).cons h.seamless
  | named hname _ h => exact hname.seamless.append h.seamless

/-- Blanks and semicolons of which the first that is not blank is no semicolon are blanks. -/
theorem Leads.blanks {lead t : Text} (h : lead.Leads)
    (hstart : (skipSpaces (lead ++ t)).head? ≠ some ';') : lead.Blanks := by
  induction lead with
  | nil => exact blanks_nil
  | cons c rest ih =>
    have hc : isSpace c = true := by
      -- a blank, a tab or a semicolon, and the last would be the first thing that is not blank
      rcases h c (List.mem_cons_self ..) with rfl | rfl | rfl
      · decide
      · decide
      · exact absurd rfl hstart
    have hskip : skipSpaces (c :: rest ++ t) = skipSpaces (rest ++ t) := by
      simp [skipSpaces, hc]
    rw [hskip] at hstart
    exact List.forall_mem_cons.mpr ⟨hc, ih (fun d hd => h d (List.mem_cons_of_mem _ hd)) hstart⟩

/-- **The scan does not cut a statement**, semicolons before it apart. -/
theorem IsStatement.seamless {t : Text} {status : Status} {label mnemonic : Option Text}
    (h : t.IsStatement symbols status label mnemonic)
    (hstart : (skipSpaces t).head? ≠ some ';') : t.Seamless := by
  cases h with
  | empty hlead =>
    rw [← List.append_nil t] at hstart
    exact (hlead.blanks hstart).seamless
  | equate hlead hname hb hvalue =>
    have hequals := (seamless_singleton (c := '=') (by decide)).cons hvalue.seamless
    exact (hlead.blanks hstart).seamless.append
      (hname.seamless.append (hb.seamless.append hequals))
  | unlabelled hlead h => exact (hlead.blanks hstart).seamless.append h.seamless
  | label hlead hlabel hb =>
    have hcolon := (seamless_singleton (c := ':') (by decide)).cons hb.seamless
    exact (hlead.blanks hstart).seamless.append (hlabel.seamless.append hcolon)
  | labelled hlead hlabel hb h =>
    have hcolon := (seamless_singleton (c := ':') (by decide)).cons
      (hb.seamless.append h.seamless)
    exact (hlead.blanks hstart).seamless.append (hlabel.seamless.append hcolon)

end Text

/-- **A text that is read without error is a statement** for the symbols that it was read with. -/
theorem Reading.exists_isStatement {c : Context} {t : Text}
    (h : (Reading.ofText c t).status.error? = none) :
    ∃ status label mnemonic, t.IsStatement c.symbols status label mnemonic := by
  have htidy := Shape.tidy_read t
  have hgrows : Context.Grows { c with pass := .first } c :=
    ⟨rfl, SymbolTable.Le.refl _, fun _ _ _ hlookup => hlookup⟩
  -- what is wrong in the first pass is still wrong later
  have hfirst : ((Shape.read t).resolve { c with pass := .first }).status.error? = none := by
    by_contra hfailed
    have hlater := Shape.failed_of_grows hgrows rfl htidy (Option.ne_none_iff_isSome.mp hfailed)
    unfold Reading.ofText at h
    simp [h] at hlater
  have haccepted := (Shape.error_resolve_first rfl htidy).mp hfirst
  exact ⟨_, _, _, Shape.isStatement_of_read ⟨haccepted, rfl, rfl, rfl⟩⟩

/-! ### Lines -/

namespace Statement

/-- What is put before the first piece, character by character, is put before it as a whole. -/
@[simp] theorem foldr_consFirst (t piece : Text) (pieces : List Text) :
    t.foldr consFirst (piece :: pieces) = (t ++ piece) :: pieces := by
  induction t with
  | nil => rfl
  | cons c rest ih => simp [ih, consFirst]

/-- A seamless text up to a semicolon is a piece of its own. -/
theorem pieces_append {t : Text} (h : t.Seamless) (rest : Text) :
    pieces false (t ++ ';' :: rest) = t :: pieces false rest := by
  have hcut : pieces false (';' :: rest) = [] :: pieces false rest := by simp [pieces]
  rw [h, hcut, foldr_consFirst, List.append_nil]

theorem pieces_of_seamless {t : Text} (h : t.Seamless) : pieces false t = [t] := by
  have hpieces := h []
  rwa [pieces, foldr_consFirst, List.append_nil] at hpieces

/-- Seamless texts between semicolons are the pieces. -/
theorem pieces_intercalate {ts : List Text} (h : ∀ t ∈ ts, t.Seamless) (hne : ts ≠ []) :
    pieces false ([';'].intercalate ts) = ts := by
  induction ts with
  | nil => exact absurd rfl hne
  | cons t rest ih =>
    have ht := h t (List.mem_cons_self ..)
    cases rest with
    | nil => simpa using pieces_of_seamless ht
    | cons u more =>
      have hrest := ih (fun v hv => h v (List.mem_cons_of_mem _ hv)) (by simp)
      rw [List.intercalate_cons_cons, List.append_assoc, List.singleton_append, pieces_append ht,
        hrest]

theorem splitLine_intercalate {ts : List Text} (h : ∀ t ∈ ts, t.Seamless)
    (hblank : ∀ t ∈ ts, Text.allBlank t = false) : splitLine ([';'].intercalate ts) = ts := by
  by_cases hne : ts = []
  · subst hne
    rfl
  · rw [splitLine, pieces_intercalate h hne, List.filter_eq_self]
    intro t ht
    simp [hblank t ht]

/-- **Statements that are read without error, with semicolons between them, are cut into just these
statements.** -/
theorem numberedTexts_intercalate (ts : List Text) (number : Int)
    (hblank : ∀ t ∈ ts, Text.allBlank t = false)
    (hstart : ∀ t ∈ ts, (Text.skipSpaces t).head? ≠ some ';')
    (hread : ∀ t ∈ ts, ∃ c : Context, (Reading.ofText c t).status.error? = none) :
    numberedTexts ([';'].intercalate ts) number = ts.map fun t => (t, number) := by
  have hseamless : ∀ t ∈ ts, t.Seamless := by
    intro t ht
    obtain ⟨c, herror⟩ := hread t ht
    obtain ⟨_, _, _, hstatement⟩ := Reading.exists_isStatement herror
    exact hstatement.seamless (hstart t ht)
  rw [numberedTexts, splitLine_intercalate hseamless hblank]

/-- Strings that hold semicolons, dots and quotes, forms with dots, and a label alone, all read in
the final pass. -/
theorem numberedTexts_intercalate_quoted :
    let c : Context := { symbols := ⟨[{ name := "TABLE".toList, value := some 0x1234 }]⟩,
                         pc := 0x10, pass := .final }
    let ts := ["  Msg: DC T'it''s; a..b', a.1( Table+1 ),X'0F' ", "loop:", " K = T''''-B'101'",
      "LDI A.0(TABLE), T';', T'..'", "OUT 7", "end "].map String.toList
    (∀ t ∈ ts, Text.allBlank t = false) ∧ (∀ t ∈ ts, (Text.skipSpaces t).head? ≠ some ';') ∧
      (∀ t ∈ ts, (Reading.ofText c t).status.error? = none) ∧
      numberedTexts ([';'].intercalate ts) 3 = ts.map fun t => (t, 3) := by
  intro c ts
  have hblank : ∀ t ∈ ts, Text.allBlank t = false := by decide +kernel
  have hstart : ∀ t ∈ ts, (Text.skipSpaces t).head? ≠ some ';' := by decide +kernel
  have hread : ∀ t ∈ ts, (Reading.ofText c t).status.error? = none := by decide +kernel
  exact ⟨hblank, hstart, hread,
    numberedTexts_intercalate ts 3 hblank hstart fun t ht => ⟨c, hread t ht⟩⟩

end Statement

end Cosmac
