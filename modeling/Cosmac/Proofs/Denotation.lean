import Cosmac.Cursor
import Cosmac.Proofs.Extension
import Cosmac.Proofs.Spelling

/-!
# The meaning of expressions

What an expression stands for in the first pass, where a name without a value counts as 0, as
relations that know nothing of evaluation:

* `Term.Denotes`: the location counter, constants, characters and names, one case for each;
* `Expr.Denotes`: a term with an offset, and the forms around one.

With the grammar of `Expr.Spells` they describe the evaluator completely (`Expr.evaluate_iff`): it
takes a whole text exactly if the text is spelled as an expression, behind blanks, and then it gives
what that expression denotes.

An evaluator runs on a cursor.  As long as the cursor has not been set before the start of its text,
it takes its tokens from what lies ahead as from any text (`Cursor.scan_eq_next`), so everything
else here is about texts.
-/

namespace Cosmac

/-! ### Scanning at a cursor -/

@[simp] theorem slice_middle {α : Type} (front middle back : List α) :
    slice (front ++ (middle ++ back)) front.length (front ++ middle).length = middle := by
  unfold slice placeOf
  rw [if_neg (by omega), if_neg (by omega), Int.toNat_natCast, Int.toNat_natCast,
    ← List.append_assoc, List.take_left, List.drop_left]

namespace Cursor

/-- The word at a cursor is the one that the text ahead starts with. -/
theorem wordIn_eq_takeWhile {text rest : Text} (h : rest <:+ text) :
    wordIn text rest = rest.takeWhile Token.isWordChar := by
  obtain ⟨front, rfl⟩ := h
  have hrest : rest.takeWhile Token.isWordChar ++ rest.dropWhile Token.isWordChar = rest :=
    List.takeWhile_append_dropWhile
  unfold wordIn
  generalize rest.takeWhile Token.isWordChar = word at hrest ⊢
  generalize rest.dropWhile Token.isWordChar = behind at hrest ⊢
  subst hrest
  have hstart : ((front ++ (word ++ behind)).length - (word ++ behind).length : Int)
      = (front.length : Int) := by
    simp
  have hstop : ((front ++ (word ++ behind)).length - behind.length : Int)
      = ((front ++ word).length : Int) := by
    simp only [List.length_append]
    omega
  dsimp only
  rw [hstart, hstop, slice_middle]

/-- **What lies ahead of a cursor is scanned like any text.** -/
theorem scan_eq_next {text rest : Text} (h : rest <:+ text) : scan text rest = Token.next rest := by
  unfold scan
  split
  · rfl
  · rfl
  · rename_i digits
    rw [wordIn_eq_takeWhile ((List.suffix_cons '#' digits).trans h)]
    rfl
  · -- no other token starts here, so this is a word
    rename_i hnil hquote hmark
    rw [wordIn_eq_takeWhile h]
    unfold Token.next
    split
    · exact (hnil rfl).elim
    · exact (hquote _ rfl).elim
    · exact (hmark _ rfl).elim
    · rfl

@[simp] theorem rest_mk (front ahead : Text) : rest ⟨front ++ ahead, front.length⟩ = ahead := by
  have hplace : (placeOf (front ++ ahead).length (front.length : Int)).toNat = front.length := by
    unfold placeOf
    rw [if_neg (by omega), Int.toNat_natCast]
  unfold rest
  dsimp only
  rw [if_neg (by omega), hplace, List.drop_left]

/-- **A cursor takes the token that lies ahead**, and stops behind it. -/
theorem next_mk (front : Text) {taken behind : Text} {token : Token}
    (h : Token.next (taken ++ behind) = (token, behind)) :
    next ⟨front ++ (taken ++ behind), front.length⟩
      = (token, ⟨front ++ (taken ++ behind), (front ++ taken).length⟩) := by
  have hposition : (front.length : Int) + ((taken ++ behind).length - behind.length : Nat)
      = (front ++ taken).length := by
    rw [List.length_append, List.length_append]
    omega
  unfold next moveTo skip
  rw [rest_mk, scan_eq_next (List.suffix_append front (taken ++ behind)), h]
  dsimp only
  rw [hposition]

end Cursor

section Scanner

variable {scan : Token.Scanner} {t rest : Text}
  (hscan : ∀ ahead, ahead <:+ t → scan ahead = Token.next ahead) (hrest : rest <:+ t)

include hscan hrest

theorem Term.read_scan : Term.read rest scan = Term.read rest := by
  unfold Term.read
  rw [hscan rest hrest]

namespace Expr

theorem readConstant_scan : readConstant rest scan = readConstant rest := by
  unfold readConstant
  rw [hscan rest hrest]

theorem readOffset_scan : readOffset rest scan = readOffset rest := by
  unfold readOffset
  split
  · rw [readConstant_scan hscan ((List.suffix_cons ..).trans hrest)]
  · rw [readConstant_scan hscan ((List.suffix_cons ..).trans hrest)]
  · rfl

theorem readTail_scan (selector : Selector) :
    readTail selector rest scan = readTail selector rest := by
  unfold readTail
  rw [readOffset_scan hscan hrest]

end Expr

end Scanner

namespace Expr

/-- An expression is evaluated in the same way at a cursor and from a text. -/
@[simp]
theorem evaluate_scan (c : Context) (t : Text) : evaluate c t (Cursor.scan t) = evaluate c t := by
  have hscan : ∀ ahead, ahead <:+ t → Cursor.scan t ahead = Token.next ahead :=
    fun ahead h => Cursor.scan_eq_next h
  have hskip : ∀ {u : Text}, u <:+ t → Text.skipSpaces u <:+ t :=
    fun h => (List.dropWhile_suffix _).trans h
  unfold evaluate readHead
  cases hselector : readSelector (Text.skipSpaces t) with
  | mk read inside =>
  cases read with
  | error kind => rfl
  | ok selector =>
  -- what stands behind the selector is a part of the text
  have hinside : inside <:+ t := by
    rcases opens_of_readSelector hselector with ⟨_, rfl⟩ | ⟨o, ho, _⟩
    · exact hskip List.suffix_rfl
    · have hopened : inside <:+ Text.skipSpaces t := ⟨o, ho.symm⟩
      exact hopened.trans (hskip List.suffix_rfl)
  dsimp only
  rw [Term.read_scan hscan (hskip hinside)]
  cases hterm : Term.read (Text.skipSpaces inside) with
  | mk read behind =>
  cases read with
  | error kind => rfl
  | ok term =>
  obtain ⟨p, hp, _⟩ := Term.spells_of_read hterm
  -- so is what stands behind the term
  have htaken : behind <:+ Text.skipSpaces inside := ⟨p, hp.symm⟩
  dsimp only
  rw [readTail_scan hscan (htaken.trans (hskip hinside))]

/-- Evaluating a text is reading it and evaluating what was read. -/
theorem evaluate_eq_ok_iff {c : Context} {t rest : Text} {v : Value} :
    evaluate c t = (.ok v, rest) ↔ ∃ e, Expr.read t = (.ok e, rest) ∧ e.eval c = .ok v := by
  constructor
  · intro h
    unfold evaluate at h
    split at h
    · cases (Prod.mk.inj h).1
    · rename_i selector term afterTerm hhead
      split at h
      · cases (Prod.mk.inj h).1
      · -- the term has a value, and its offset is read last
        rename_i w hw
        split at h <;> rename_i htail
        · cases (Prod.mk.inj h).1
        · obtain ⟨rfl, rfl⟩ := read_inj h
          refine ⟨⟨selector, term, _⟩, read_eq_ok.mpr ⟨afterTerm, hhead, htail⟩, ?_⟩
          simp [eval, hw]
  · rintro ⟨⟨selector, term, offset⟩, hread, heval⟩
    obtain ⟨afterTerm, hhead, htail⟩ := read_eq_ok.mp hread
    unfold eval at heval
    unfold evaluate
    rw [hhead]
    dsimp only at heval ⊢
    split at heval <;> rename_i hterm
    · cases heval
    · obtain rfl := Except.ok.inj heval
      rw [htail]

end Expr

/-! ### Meaning -/

/-- What a term stands for in the first pass: its value, its number of bytes, that it is no address,
and whether it rests on a name without a value. -/
inductive Term.Denotes (symbols : SymbolTable) (pc : Int) : Term → Value → Prop
  /-- The location counter is a word of two bytes. -/
  | here : Denotes symbols pc .here ⟨pc, 2, false, false⟩
  /-- A constant takes two bytes if it does not fit into one. -/
  | constant {n : Nat} :
      Denotes symbols pc (.constant n) ⟨n, if 255 < n then 2 else 1, false, false⟩
  /-- The first character of a string is a byte. -/
  | character {b : Nat} : Denotes symbols pc (.character b) ⟨b, 1, false, false⟩
  /-- A symbol stands for its value, and takes one byte whatever that is. -/
  | symbol {w : Text} {s : Symbol} {n : Int} (hlookup : symbols.lookup w = some s)
      (hvalue : s.value = some n) : Denotes symbols pc (.name w) ⟨n, 1, false, false⟩
  /-- A name that is no symbol, but a hexadecimal number, stands for that constant. -/
  | hexWord {w : Text} {v : Value} (hlookup : symbols.lookup w = none) (hhex : Token.IsHex w)
      (h : Denotes symbols pc (.constant (Token.number 16 w)) v) : Denotes symbols pc (.name w) v
  /-- Any other name counts as 0 until it has a value. -/
  | unknown {w : Text} (hsymbol : ∀ s, symbols.lookup w = some s → s.value = none)
      (hhex : symbols.lookup w = none → ¬ Token.IsHex w) :
      Denotes symbols pc (.name w) ⟨0, 1, false, true⟩

/-- What an expression stands for in the first pass. -/
inductive Expr.Denotes (symbols : SymbolTable) (pc : Int) : Expr → Value → Prop
  /-- A term alone. -/
  | term {term : Term} {v : Value} (h : term.Denotes symbols pc v) :
      Denotes symbols pc ⟨.plain, term, none⟩ v
  /-- A term with an offset is a word of two bytes. -/
  | offset {term : Term} {n : Int} {v : Value} (h : term.Denotes symbols pc v) :
      Denotes symbols pc ⟨.plain, term, some n⟩
        ⟨(v.value + n) % 0x10000, 2, false, v.unresolved⟩
  /-- The address, two bytes. -/
  | address {term : Term} {offset : Option Int} {v : Value}
      (h : Denotes symbols pc ⟨.plain, term, offset⟩ v) :
      Denotes symbols pc ⟨.address, term, offset⟩ ⟨v.value, 2, true, v.unresolved⟩
  /-- The low byte. -/
  | low {term : Term} {offset : Option Int} {v : Value}
      (h : Denotes symbols pc ⟨.plain, term, offset⟩ v) :
      Denotes symbols pc ⟨.low, term, offset⟩ ⟨v.value % 0x100, 1, false, v.unresolved⟩
  /-- The high byte. -/
  | high {term : Term} {offset : Option Int} {v : Value}
      (h : Denotes symbols pc ⟨.plain, term, offset⟩ v) :
      Denotes symbols pc ⟨.high, term, offset⟩ ⟨v.value / 0x100 % 0x100, 1, false, v.unresolved⟩

section Meaning

variable {symbols : SymbolTable} {pc : Int}

theorem Term.denotes_ofNat (n : Nat) :
    Term.Denotes symbols pc (.constant n) (Value.ofNat n) := by
  have hsize : ((Token.width n : Nat) : Int) = if 255 < n then 2 else 1 := by
    unfold Token.width
    split_ifs <;> rfl
  unfold Value.ofNat
  rw [hsize]
  exact .constant

theorem Term.Denotes.eq_ofNat {n : Nat} {v : Value}
    (h : Term.Denotes symbols pc (.constant n) v) : v = Value.ofNat n := by
  cases h with
  | constant =>
    unfold Value.ofNat Token.width
    split_ifs <;> rfl

theorem Term.Denotes.addressOf {term : Term} {v : Value} (h : term.Denotes symbols pc v) :
    v.addressOf = false := by
  cases h with
  | hexWord _ _ h =>
    rw [h.eq_ofNat]
    rfl
  | _ => rfl

/-- **A name means what the table says**, and without an entry what its spelling says. -/
theorem Context.nameValue_eq_ok_iff {w : Text} (hname : w.IsName) {v : Value} :
    (⟨symbols, pc, .first⟩ : Context).nameValue w = .ok v ↔
      Term.Denotes symbols pc (.name w) v := by
  have hundefined : ∀ w, (⟨symbols, pc, .first⟩ : Context).undefined w
      = .ok ⟨0, 1, false, true⟩ := fun _ => rfl
  unfold nameValue
  dsimp only
  cases hlookup : symbols.lookup w with
  | some s =>
    -- a symbol hides a hexadecimal number of the same spelling
    dsimp only
    cases hvalue : s.value with
    | some n =>
      constructor
      · rintro ⟨⟩
        exact .symbol hlookup hvalue
      · intro h
        cases h with
        | symbol hlookup' hvalue' => simp_all
        | hexWord hlookup' => simp_all
        | unknown hsymbol => simp_all
    | none =>
      rw [hundefined]
      constructor
      · rintro ⟨⟩
        exact .unknown (by simp_all) (by simp_all)
      · intro h
        cases h with
        | symbol hlookup' hvalue' => simp_all
        | hexWord hlookup' => simp_all
        | unknown => rfl
  | none =>
    dsimp only
    have hhexWord := Token.isHexWord_of_isName hname
    split_ifs with hhex
    · constructor
      · rintro ⟨⟩
        exact .hexWord hlookup (hhexWord.mp hhex) (Term.denotes_ofNat _)
      · intro h
        cases h with
        | symbol hlookup' => simp_all
        | hexWord _ _ h => rw [h.eq_ofNat]
        | unknown _ hnot => exact absurd (hhexWord.mp hhex) (hnot hlookup)
    · rw [hundefined]
      constructor
      · rintro ⟨⟩
        exact .unknown (by simp_all) fun _ h => hhex (hhexWord.mpr h)
      · intro h
        cases h with
        | symbol hlookup' => simp_all
        | hexWord _ h => exact absurd (hhexWord.mpr h) hhex
        | unknown => rfl

/-- A term means what it stands for. -/
theorem Term.eval_eq_ok_iff {term : Term} (htidy : term.Tidy) {v : Value} :
    term.eval ⟨symbols, pc, .first⟩ = .ok v ↔ term.Denotes symbols pc v := by
  cases term with
  | here =>
    constructor
    · rintro ⟨⟩
      exact .here
    · rintro ⟨⟩
      rfl
  | constant n =>
    constructor
    · rintro ⟨⟩
      exact denotes_ofNat n
    · intro h
      rw [h.eq_ofNat]
      rfl
  | character b =>
    constructor
    · rintro ⟨⟩
      exact .character
    · rintro ⟨⟩
      rfl
  | name w => exact Context.nameValue_eq_ok_iff htidy

/-- **An expression means what its term, its offset and its form say.** -/
theorem Expr.eval_eq_ok_iff {e : Expr} (htidy : e.term.Tidy) {v : Value} :
    e.eval ⟨symbols, pc, .first⟩ = .ok v ↔ e.Denotes symbols pc v := by
  obtain ⟨selector, term, offset⟩ := e
  have hplain : ∀ {v : Value}, Denotes symbols pc ⟨.plain, term, offset⟩ v ↔
      ∃ w, term.eval ⟨symbols, pc, .first⟩ = .ok w ∧ v = w.shift offset := by
    intro v
    constructor
    · intro h
      cases h with
      | term h => exact ⟨v, (Term.eval_eq_ok_iff htidy).mpr h, rfl⟩
      | @offset _ n w h =>
        refine ⟨w, (Term.eval_eq_ok_iff htidy).mpr h, ?_⟩
        rw [Value.shift, h.addressOf]
        rfl
    · rintro ⟨w, hw, rfl⟩
      have hdenotes := (Term.eval_eq_ok_iff htidy).mp hw
      cases offset with
      | none => exact .term hdenotes
      | some n =>
        have hshift := Denotes.offset (n := n) hdenotes
        rwa [← hdenotes.addressOf] at hshift
  have heval : eval ⟨symbols, pc, .first⟩ ⟨selector, term, offset⟩ = .ok v ↔
      ∃ w, Denotes symbols pc ⟨.plain, term, offset⟩ w ∧ v = selector.select w := by
    simp only [hplain]
    unfold eval
    dsimp only
    cases term.eval ⟨symbols, pc, .first⟩ with
    | error d => simp
    | ok w => simp [eq_comm]
  rw [heval]
  -- a form selects from what stands inside it
  cases selector with
  | plain => simp [Selector.select]
  | address =>
    constructor
    · rintro ⟨w, hw, rfl⟩
      exact .address hw
    · rintro ⟨⟩
      exact ⟨_, ‹_›, rfl⟩
  | low =>
    constructor
    · rintro ⟨w, hw, rfl⟩
      exact .low hw
    · rintro ⟨⟩
      exact ⟨_, ‹_›, rfl⟩
  | high =>
    constructor
    · rintro ⟨w, hw, rfl⟩
      exact .high hw
    · rintro ⟨⟩
      exact ⟨_, ‹_›, rfl⟩

end Meaning

/-- **The evaluator takes the expressions of the grammar and gives what they denote.**  In the first
pass it succeeds at the end of a text exactly if the text is blanks and a spelled expression, and
then its result is what that expression denotes. -/
theorem Expr.evaluate_iff (symbols : SymbolTable) (pc : Int) (t : Text) :
    ((∃ v, evaluate ⟨symbols, pc, .first⟩ t (Cursor.scan t) = (.ok v, [])) ↔
      ∃ b p e, b.Blanks ∧ t = b ++ p ∧ Spells p e) ∧
    ∀ b p e v, b.Blanks → t = b ++ p → Spells p e →
      (evaluate ⟨symbols, pc, .first⟩ t (Cursor.scan t) = (.ok v, []) ↔
        e.Denotes symbols pc v) := by
  rw [evaluate_scan]
  have hread : ∀ {b p : Text} {e : Expr}, b.Blanks → t = b ++ p → Spells p e →
      Expr.read t = (.ok e, []) := by
    rintro b p e hb rfl h
    rw [← List.append_nil p]
    exact read_of_spells hb h fun _ h => nomatch h
  constructor
  · constructor
    · rintro ⟨v, h⟩
      obtain ⟨e, hread, _⟩ := evaluate_eq_ok_iff.mp h
      obtain ⟨b, p, hb, ht, hspells⟩ := spells_of_read hread
      exact ⟨b, p, e, hb, by rwa [List.append_nil] at ht, hspells⟩
    · rintro ⟨b, p, e, hb, ht, hspells⟩
      obtain ⟨v, hv⟩ := eval_first (c := ⟨symbols, pc, .first⟩) rfl e
      exact ⟨v, evaluate_eq_ok_iff.mpr ⟨e, hread hb ht hspells, hv⟩⟩
  · intro b p e v hb ht hspells
    have he := hread hb ht hspells
    have htidy : e.term.Tidy := by
      have htidy := tidy_read t
      rwa [he] at htidy
    rw [evaluate_eq_ok_iff, ← eval_eq_ok_iff htidy]
    constructor
    · rintro ⟨e', he', hv⟩
      obtain ⟨rfl, _⟩ := read_inj (he'.symm.trans he)
      exact hv
    · exact fun hv => ⟨e, he, hv⟩

/-- The high byte of a hexadecimal word with an offset. -/
example : Expr.evaluate {} " a.1( c0de-D'16' )".toList = (.ok ⟨0xC0, 1, false, false⟩, []) := by
  decide +kernel

end Cosmac
