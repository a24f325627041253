import Cosmac.Proofs.Denotation
import Cosmac.Proofs.Grammar
import Cosmac.Proofs.Parts

/-!
# String literals

A string is written between quotes behind `T`, with every quote in it doubled (`Text.literal`).  The
scanner cannot know a closing quote before it has seen the character behind it, so what it takes is
stated with the text that follows:

* `Token.next_literal`: a literal is taken as a whole and gives the string in upper case, unless a
  quote follows it;
* `Token.next_opened`: without its closing quote the literal takes everything and is malformed;
* `DataList.read_literals`: literals with commas between them are read as the items of a data list,
  whatever commas, semicolons or quotes stand inside.

The main statement is `Reading.literals_round_trip`.
-/

namespace Cosmac

/-! ### Writing a string -/

namespace Text

/-- The text behind the mark and the opening quote, its quotes doubled. -/
def opened (s : Text) : Text := 'T' :: '\'' :: Token.doubled s

/-- The text as a string literal. -/
def literal (s : Text) : Text := opened s ++ ['\'']

theorem spells_literal {s : Text} (hs : s ≠ []) : Token.Spells (literal s) (.string (upper s)) :=
  @Token.Spells.literal 'T' s (.string (upper s)) (.string fun h => hs (upper_eq_nil h))

end Text

/-! ### Scanning a literal -/

namespace Token

/-- **A literal is scanned**, where no quote follows it. -/
theorem next_literal {s rest : Text} (hs : s ≠ []) (hrest : ∀ c ∈ rest.head?, c ≠ '\'') :
    next (Text.literal s ++ rest) = (.string (Text.upper s), rest) := by
  have hspan : quotedSpan (doubled s ++ ['\''] ++ rest) = ⟨s, true, rest⟩ := by
    rw [List.append_assoc]
    exact quotedSpan_doubled s hrest
  have hstring : Literal 'T' (Text.upper s) (.string (Text.upper s)) :=
    .string fun h => hs (Text.upper_eq_nil h)
  have hmarked := next_marked (by decide : 'T'.isAlpha = true) (doubled s ++ ['\''] ++ rest)
  rw [hspan] at hmarked
  exact hmarked.trans (congrArg (·, rest) (ofLiteral_of_literal hstring))

/-- **A literal without its closing quote is malformed**, up to the end of the text. -/
@[simp]
theorem next_opened (s : Text) : next (Text.opened s) = (.malformed .missingQuote s, []) := by
  have hmarked := next_marked (by decide : 'T'.isAlpha = true) (doubled s)
  rw [quotedSpan_unclosed] at hmarked
  exact hmarked

end Token

/-! ### Data lists of literals -/

/-- The text as an item of a data list. -/
def Item.ofText (s : Text) : Item := .string (Text.upper s)

theorem DataList.read_literals {ss : List Text} (hne : ss ≠ []) (hs : ∀ s ∈ ss, s ≠ []) :
    DataList.read ([','].intercalate (ss.map Text.literal)) = ⟨ss.map Item.ofText, none⟩ := by
  induction ss with
  | nil => exact absurd rfl hne
  | cons s rest ih =>
    have hspells := Text.spells_literal (hs s (List.mem_cons_self ..))
    cases rest with
    | nil =>
      have hread : Item.read (Text.skipSpaces (Text.literal s)) = (.ok (Item.ofText s), []) := by
        rw [hspells.begins.skipSpaces_eq]
        have hitem := Item.read_of_spells hspells (Text.blanks_nil.closes)
        rwa [List.append_nil] at hitem
      rw [List.map_singleton, List.intercalate_singleton]
      exact read_last hread rfl
    | cons next more =>
      -- the comma ends the literal, and the list goes on behind it
      have hrest := ih (List.cons_ne_nil _ _) fun u hu => hs u (List.mem_cons_of_mem _ hu)
      rw [List.map_cons, List.map_cons, List.intercalate_cons_cons, List.append_assoc,
        List.singleton_append, ← List.map_cons]
      generalize [','].intercalate ((next :: more).map Text.literal) = list at hrest ⊢
      have hread : Item.read (Text.skipSpaces (Text.literal s ++ ',' :: list))
          = (.ok (Item.ofText s), ',' :: list) := by
        rw [(hspells.begins.append _).skipSpaces_eq]
        exact Item.read_of_spells hspells (Text.blanks_nil.closes_comma list)
      rw [read_cons hread rfl, hrest]
      rfl

namespace Reading

/-- The bytes of a text, one for each character. -/
def lowBytes (t : Text) : List UInt8 := t.map fun char => byte char.toNat

/-- The statement whose data are these strings. -/
def dataOf (ss : List Text) : Text := "DC ".toList ++ [','].intercalate (ss.map Text.literal)

theorem head_literals {ss : List Text} (hne : ss ≠ []) :
    ∃ more, [','].intercalate (ss.map Text.literal) = 'T' :: more := by
  obtain ⟨s, rest, rfl⟩ := List.exists_cons_of_ne_nil hne
  cases rest with
  | nil => exact ⟨_, List.intercalate_singleton⟩
  | cons next more => exact ⟨_, List.intercalate_cons_cons⟩

theorem read_dataOf {ss : List Text} (hne : ss ≠ []) (hs : ∀ s ∈ ss, s ≠ []) :
    Shape.read (dataOf ss) = ⟨none, .data ⟨ss.map Item.ofText, none⟩⟩ := by
  have hlist := DataList.read_literals hne hs
  obtain ⟨more, hhead⟩ := head_literals hne
  unfold dataOf
  rw [hhead] at hlist ⊢
  have hbegins : Shape.BeginsOperands ('T' :: more) := by
    intro c hc
    obtain rfl := Option.some.inj hc
    decide
  have hread := Shape.read_unlabelled (by decide : Text.IsIdentifier "DC".toList) hbegins 0
  rw [← hlist]
  exact hread

/-- **Data are the bytes of their strings, one after another.** -/
theorem code_dataOf (c : Context) {ss : List Text} (hne : ss ≠ []) (hs : ∀ s ∈ ss, s ≠ []) :
    (ofText c (dataOf ss)).status = .data ∧
      (ofText c (dataOf ss)).code = ss.flatMap fun s => lowBytes (Text.upper s) := by
  have hbytes : (ss.map Item.ofText).map (Item.bytes c)
      = (ss.map fun s => lowBytes (Text.upper s)).map Except.ok := by
    rw [List.map_map, List.map_map]
    rfl
  have hdata : addData c ⟨ss.map Item.ofText, none⟩ {}
      = (append {} (ss.map fun s => lowBytes (Text.upper s)).flatten, none) :=
    addData_eq_ok_iff.mpr ⟨rfl, _, hbytes, rfl⟩
  have hsettled : ofText c (dataOf ss)
      = settle .data (append {} (ss.map fun s => lowBytes (Text.upper s)).flatten, none) := by
    unfold ofText
    rw [read_dataOf hne hs, ← hdata]
    rfl
  rw [hsettled]
  exact ⟨rfl, rfl⟩

/-- **String literals are read back.**  At a cursor, a literal that no quote follows gives its
string in upper case, and the cursor then stands just behind it; without the closing quote it is
malformed and the cursor stands at the end of the text; and as data, literals give the low bytes of
the characters of their strings, in upper case. -/
theorem literals_round_trip :
    (∀ front s rest : Text, s ≠ [] → (∀ c ∈ rest.head?, c ≠ '\'') →
      Cursor.next ⟨front ++ (s.literal ++ rest), front.length⟩
        = (.string s.upper, ⟨front ++ (s.literal ++ rest), (front ++ s.literal).length⟩)) ∧
    (∀ front s : Text,
      Cursor.next ⟨front ++ s.opened, front.length⟩
        = (.malformed .missingQuote s, ⟨front ++ s.opened, (front ++ s.opened).length⟩)) ∧
    ∀ (c : Context) (ss : List Text), ss ≠ [] → (∀ s ∈ ss, s ≠ []) →
      (ofText c (dataOf ss)).status = .data ∧
      (ofText c (dataOf ss)).code = ss.flatMap fun s => lowBytes s.upper := by
  refine ⟨fun front s rest hs hrest => ?_, fun front s => ?_, fun c ss => code_dataOf c⟩
  · exact Cursor.next_mk front (Token.next_literal hs hrest)
  · have hnext : Token.next (s.opened ++ []) = (.malformed .missingQuote s, []) := by
      rw [List.append_nil]
      exact Token.next_opened s
    have hmoved := Cursor.next_mk front hnext
    rwa [List.append_nil] at hmoved

/-- A string of commas, semicolons, periods and quotes, the last of them at its end; and the same
string behind another as data. -/
theorem literals_round_trip_quotes :
    let s := "a,;..''".toList
    s ≠ [] ∧ (∀ c ∈ "+1".toList.head?, c ≠ '\'') ∧
    Cursor.next ⟨"X=T'a,;..'''''+1".toList, 2⟩
      = (.string "A,;..''".toList, ⟨"X=T'a,;..'''''+1".toList, 14⟩) ∧
    (ofText {} "DC T'''',T'a,;..'''''".toList).code
      = [0x27, 0x41, 0x2C, 0x3B, 0x2E, 0x2E, 0x27, 0x27] := by
  intro s
  obtain ⟨hnext, -, hcode⟩ := literals_round_trip
  have hs : s ≠ [] := by decide
  have hrest : ∀ c ∈ "+1".toList.head?, c ≠ '\'' := by
    intro c hc
    obtain rfl : '+' = c := Option.some.inj hc
    decide
  exact ⟨hs, hrest, hnext "X=".toList s "+1".toList hs hrest,
    (hcode {} ["'".toList, s] (by decide) (by decide)).2⟩

end Reading

end Cosmac
