import Cosmac.Command.Disassemble
import Cosmac.Proofs.Conversion
import Cosmac.Proofs.Range
import Cosmac.Proofs.Utf8
import Cosmac.SymbolReport

/-!
# Symbol files

The assembler writes its symbols to a file, in columns, and the disassembler reads names for
addresses from such a file, by fields.  The two are separate: a name is cut to the width of its
column, what has no value is written as words, and the reader takes every row of three fields with a
number in the middle.

* `Text.fields_append_cons`: a blank divides the fields of a text;
* `SymbolRecord.fields_row`: the fields of a row, which are three if the symbol has a value and four
  if it has none;
* `AddressNames.insertRow_row`: what the reader does at a row;
* `SymbolReport.names_of_file`: the names that are read from a file are the first ones, cut to eight
  characters, for the values of the symbols.
-/

namespace Cosmac

namespace Text

/-! ### Characters of a name -/

/-- No character lies in ranges that are apart from its own. -/
theorem inRanges_eq_false {ranges others : List (Nat × Nat)}
    (hapart : (ranges.all fun r => others.all fun o => decide (r.2 < o.1) || decide (o.2 < r.1))
      = true) {c : Char} (h : inRanges ranges c = true) : inRanges others c = false := by
  obtain ⟨r, hr, hin⟩ := List.any_eq_true.mp h
  rw [inRanges, List.any_eq_false]
  intro o ho hin'
  have hapart := List.all_eq_true.mp (List.all_eq_true.mp hapart r hr) o ho
  simp only [Bool.and_eq_true, Bool.or_eq_true, decide_eq_true_eq] at hin hin' hapart
  omega

/-- No letter and no digit of any script is blank. -/
theorem isBlank_of_isAlphanumeric {c : Char} (h : isAlphanumeric c = true) : isBlank c = false := by
  -- beyond ASCII two tables of ranges are compared
  rcases Bool.or_eq_true_iff.mp h with hascii | hrange
  · have hlt : c.toNat < 128 := by
      have hc : (c.isAlpha || c.isDigit) = true := hascii
      rcases Bool.or_eq_true_iff.mp hc with hc | hc
      · exact Token.toNat_of_isAlpha hc
      · exact Nat.lt_of_le_of_lt (Char.isDigit_iff_toNat.mp hc).2 (by decide)
    revert hascii
    refine of_forall_lt hlt ?_
    decide +kernel
  · exact inRanges_eq_false (by decide +kernel) hrange

theorem isLineBreak_of_isBlank {c : Char} (h : isBlank c = false) : isLineBreak c = false := by
  simp only [isBlank, isLineBreak, inRanges, blankRanges, List.any_cons, List.any_nil,
    Bool.or_eq_false_iff, Bool.and_eq_false_iff, decide_eq_false_iff_not, and_true] at h ⊢
  omega

/-- A capital letter, and then letters and digits of any script. -/
def IsSymbolName : Text → Prop
  | [] => False
  | c :: rest => c.isUpper = true ∧ ∀ d ∈ rest, isAlphanumeric d = true

instance : (t : Text) → Decidable t.IsSymbolName
  | [] => inferInstanceAs (Decidable False)
  | c :: rest =>
    -- named, since there is also an instance that goes through all characters
    have := List.decidableBAll (isAlphanumeric · = true) rest
    inferInstanceAs (Decidable (c.isUpper = true ∧ _))

/-! ### Fields -/

/-- Some characters, none of them blank. -/
structure IsSolid (t : Text) : Prop where
  ne_nil : t ≠ []
  not_blank : ∀ c ∈ t, isBlank c = false

theorem IsSymbolName.isSolid_take {t : Text} (h : t.IsSymbolName) {width : Nat}
    (hwidth : 0 < width) : IsSolid (t.take width) := by
  cases t with
  | nil => exact h.elim
  | cons c rest =>
    refine ⟨by simp; omega, fun d hd => ?_⟩
    rcases List.mem_cons.mp (List.mem_of_mem_take hd) with rfl | hd
    · exact isBlank_of_isNameChar (by simp [Token.isNameChar, h.1])
    · exact isBlank_of_isAlphanumeric (h.2 d hd)

/-- A character that is not blank starts a field of its own, or goes to the field behind it. -/
theorem fields_cons {a : Char} (ha : isBlank a = false) (rest : Text) :
    fields (a :: rest) =
      if rest.head?.all isBlank then [a] :: fields rest
      else Statement.consFirst a (fields rest) := by
  cases rest with
  | nil => simp [fields, ha]
  | cons b more =>
    conv => lhs; unfold fields
    cases fields (b :: more) <;> cases hb : isBlank b <;> simp [ha, hb, Statement.consFirst]

theorem fields_ne_nil {a : Char} (ha : isBlank a = false) (rest : Text) :
    fields (a :: rest) ≠ [] := by
  rw [fields_cons ha]
  cases fields rest <;> split <;> simp [Statement.consFirst]

/-- **A blank divides the fields of a text.** -/
theorem fields_append_cons {c : Char} (hc : isBlank c = true) (t u : Text) :
    fields (t ++ c :: u) = fields t ++ fields u := by
  induction t with
  | nil => simp [fields, hc]
  | cons a rest ih =>
    cases ha : isBlank a with
    | true => simp [fields, ha, ih]
    | false =>
      rw [List.cons_append, fields_cons ha, fields_cons ha, ih]
      cases rest with
      | nil => simp [fields, hc]
      | cons b more =>
        cases hb : isBlank b with
        | true => simp [hb]
        | false =>
          -- the field that starts at `b` takes `a` as well
          obtain ⟨field, others, hfields⟩ := List.exists_cons_of_ne_nil (fields_ne_nil hb more)
          simp [hb, hfields, Statement.consFirst]

@[simp] theorem fields_spaces_append (n : Nat) (t : Text) :
    fields (List.replicate n ' ' ++ t) = fields t := by
  induction n with
  | zero => simp
  | succ n ih =>
    rw [List.replicate_succ, List.cons_append, ← ih]
    exact fields_append_cons (by decide) [] _

/-- A text without blanks is one field. -/
theorem IsSolid.fields_eq {t : Text} (h : t.IsSolid) : fields t = [t] := by
  obtain ⟨hne, hsolid⟩ := h
  induction t with
  | nil => exact absurd rfl hne
  | cons a rest ih =>
    rw [fields_cons (hsolid a (List.mem_cons_self ..))]
    cases rest with
    | nil => simp [fields]
    | cons b more =>
      have hb := hsolid b (by simp)
      rw [ih (by simp) fun c hc => hsolid c (List.mem_cons_of_mem _ hc)]
      simp [hb, Statement.consFirst]

/-! ### Lines -/

theorem isLine_of_solid_or_space {t : Text} (h : ∀ c ∈ t, isBlank c = false ∨ c = ' ') :
    t.IsLine := by
  intro c hc
  rcases h c hc with hsolid | rfl
  · exact isLineBreak_of_isBlank hsolid
  · decide

theorem unifyNewlines_eq {t : Text} (h : '\r' ∉ t) : unifyNewlines t = t := by
  fun_induction unifyNewlines t with
  | case1 => rfl
  | case2 rest ih => simp at h
  | case3 rest _ ih => simp at h
  | case4 c rest _ _ ih => rw [ih fun hmem => h (List.mem_cons_of_mem _ hmem)]

theorem unifyNewlines_unlines {lines : List Text} (h : ∀ line ∈ lines, line.IsLine) :
    unifyNewlines (unlines lines) = unlines lines := by
  refine unifyNewlines_eq fun hmem => ?_
  obtain ⟨line, hline, hreturn⟩ := List.mem_flatMap.mp hmem
  rcases List.mem_append.mp hreturn with hreturn | hreturn
  · exact absurd (h line hline _ hreturn) (by decide)
  · simp at hreturn

@[simp] theorem take_padRight (width : Nat) (t : Text) :
    (padRight width t).take width = t.take width ++ List.replicate (width - t.length) ' ' := by
  rw [padRight, List.take_append, List.take_replicate, Nat.min_self]

end Text

/-! ### Rows -/

namespace Numeral

/-- A word in hexadecimal digits is one field, and is read back. -/
theorem hex_of_isWord {n : Int} (h : IsWord n) :
    (hex 4 n).IsSolid ∧ integer? 16 (hex 4 n) = some n := by
  obtain ⟨k, rfl, hk⟩ := h.exists_nat
  obtain ⟨hword, hdigits, hvalue⟩ := number_hex (by decide : 4 ≤ 4) hk
  have hname : Text.IsName (hex 4 k) := fun c hc => isNameChar_of_isHexDigit (hdigits c hc)
  refine ⟨⟨?_, fun c hc => Text.isBlank_of_isNameChar (hname c hc)⟩, ?_⟩
  · intro hnil
    rw [hnil] at hword
    exact absurd hword (by decide)
  · rw [Token.integer?_hexWord hname hword, hvalue]

theorem isSolid_decimal {n : Int} (h : 0 ≤ n) : (decimal n).IsSolid := by
  obtain ⟨k, rfl⟩ := Int.eq_ofNat_of_zero_le h
  refine ⟨Nat.toDigits_ne_nil, fun c hc => Text.isBlank_of_isNameChar ?_⟩
  have hdigit := Nat.isDigit_of_mem_toDigits (by decide) (by decide) hc
  simp [Token.isNameChar, hdigit]

end Numeral

namespace SymbolRecord

/-- What a row holds behind the column of the name. -/
def columns (r : SymbolRecord) : Text :=
  if r.resolved then
    Numeral.hex 4 r.value ++ ' ' ::
      (List.replicate (5 - (Numeral.decimal r.value).length) ' ' ++ Numeral.decimal r.value)
  else "not yet known".toList

/-- The record can be written to a symbol file: its name can stand in a program, and its value, if
it has one, is a word. -/
structure IsWritable (r : SymbolRecord) : Prop where
  name : r.name.IsSymbolName
  value : r.resolved = true → IsWord r.value

/-- A row has up to eight characters of the name, a blank, and the value in its columns. -/
theorem row_eq (r : SymbolRecord) :
    r.row = r.name.take 8 ++ ' ' :: (List.replicate (8 - r.name.length) ' ' ++ r.columns) := by
  have hspaces : ∀ (n : Nat) (t : Text),
      List.replicate n ' ' ++ ' ' :: t = ' ' :: (List.replicate n ' ' ++ t) := by
    intro n t
    rw [← List.singleton_append, ← List.append_assoc, ← List.replicate_succ', List.replicate_succ]
    rfl
  unfold row columns
  rw [Text.take_padRight]
  cases r.resolved with
  | true =>
    simp only [if_true, Numeral.decimalSpaces, Text.padLeft, List.append_assoc, hspaces,
      List.cons_append, List.append_nil]
    rfl
  | false =>
    simp only [Bool.false_eq_true, if_false, List.append_assoc]
    rw [show " not yet known".toList = ' ' :: "not yet known".toList from rfl, hspaces]
    rfl

variable {r : SymbolRecord} (h : r.IsWritable)

include h

/-- **The fields of a row**: the name, and the value in two forms or three words. -/
theorem fields_row : Text.fields r.row = r.name.take 8 ::
    if r.resolved then [Numeral.hex 4 r.value, Numeral.decimal r.value]
    else ["not".toList, "yet".toList, "known".toList] := by
  have hname := (h.name.isSolid_take (by decide : 0 < 8)).fields_eq
  rw [row_eq, Text.fields_append_cons (by decide), hname, Text.fields_spaces_append,
    List.singleton_append]
  unfold columns
  cases hresolved : r.resolved with
  | true =>
    have hvalue := h.value hresolved
    rw [if_pos rfl, if_pos rfl, Text.fields_append_cons (by decide),
      (Numeral.hex_of_isWord hvalue).1.fields_eq, Text.fields_spaces_append,
      (Numeral.isSolid_decimal hvalue.1).fields_eq, List.singleton_append]
  | false =>
    have hwords : Text.fields "not yet known".toList
        = ["not".toList, "yet".toList, "known".toList] := by decide
    rw [if_neg Bool.false_ne_true, if_neg Bool.false_ne_true, hwords]

/-- A row stays on one line. -/
theorem isLine_row : r.row.IsLine := by
  have hspaces : ∀ n : Nat, ∀ c ∈ List.replicate n ' ', Text.isBlank c = false ∨ c = ' ' :=
    fun n c hc => Or.inr (List.eq_of_mem_replicate hc)
  have hsolid : ∀ t : Text, t.IsSolid → ∀ c ∈ t, Text.isBlank c = false ∨ c = ' ' :=
    fun t ht c hc => Or.inl (ht.not_blank c hc)
  have hcolumns : ∀ c ∈ r.columns, Text.isBlank c = false ∨ c = ' ' := by
    unfold columns
    cases hresolved : r.resolved with
    | true =>
      have hvalue := h.value hresolved
      rw [if_pos rfl, List.forall_mem_append, List.forall_mem_cons, List.forall_mem_append]
      exact ⟨hsolid _ (Numeral.hex_of_isWord hvalue).1, Or.inr rfl, hspaces _,
        hsolid _ (Numeral.isSolid_decimal hvalue.1)⟩
    | false =>
      rw [if_neg Bool.false_ne_true]
      have hall : ("not yet known".toList.all fun c => !Text.isBlank c || c == ' ') = true := by
        decide
      simpa using List.all_eq_true.mp hall
  refine Text.isLine_of_solid_or_space ?_
  rw [row_eq, List.forall_mem_append, List.forall_mem_cons, List.forall_mem_append]
  exact ⟨hsolid _ (h.name.isSolid_take (by decide)), Or.inr rfl, hspaces _, hcolumns⟩

end SymbolRecord

/-! ### Names of addresses -/

namespace AddressNames

theorem mem_keys_iff (names : AddressNames) (v : Int) :
    v ∈ names.entries.map Prod.fst ↔ (names.get? v).isSome := by
  rw [get?, List.lookup_isSome_iff, List.mem_map]
  simp only [beq_iff_eq, eq_comm (a := v)]

/-- The first name that an address gets is the one that it keeps. -/
@[simp] theorem get?_insertNew (names : AddressNames) (address : Int) (name : Text) (v : Int) :
    (names.insertNew address name).get? v
      = (names.get? v).or (if address = v then some name else none) := by
  unfold insertNew
  cases hget : names.get? address with
  | some old =>
    by_cases hv : address = v
    · subst hv
      simp [hget]
    · simp [hv]
  | none =>
    have hlast : [(address, name)].lookup v = if address = v then some name else none := by
      by_cases hv : address = v
      · simp [hv]
      · simp [hv, List.lookup_cons, beq_eq_false_iff_ne.mpr (Ne.symm hv)]
    simp [get?, List.lookup_append, hlast]

theorem nodup_insertNew {names : AddressNames} (h : (names.entries.map Prod.fst).Nodup)
    (address : Int) (name : Text) :
    ((names.insertNew address name).entries.map Prod.fst).Nodup := by
  unfold insertNew
  by_cases hknown : (names.get? address).isSome = true
  · rwa [if_pos hknown]
  · -- the new address was not among the old ones
    rw [if_neg hknown, List.map_append]
    rw [← mem_keys_iff] at hknown
    refine List.nodup_append.mpr ⟨h, List.nodup_singleton _, fun v hv w hw => ?_⟩
    rintro rfl
    obtain rfl : v = address := List.mem_singleton.mp hw
    exact hknown hv

/-- Adds the name that a symbol gives to its value. -/
def insertRecord (names : AddressNames) (r : SymbolRecord) : AddressNames :=
  if r.resolved then names.insertNew r.value (r.name.take 8) else names

/-- **What the reader does at a row**: a symbol with a value names it, unless it has a name. -/
theorem insertRow_row (names : AddressNames) {r : SymbolRecord} (h : r.IsWritable) :
    names.insertRow r.row = names.insertRecord r := by
  unfold insertRow insertRecord
  rw [r.fields_row h]
  cases hresolved : r.resolved with
  | true => simp only [if_true, (Numeral.hex_of_isWord (h.value hresolved)).2]
  | false => rfl

theorem get?_insertRecord (names : AddressNames) (r : SymbolRecord) (v : Int) :
    (names.insertRecord r).get? v
      = (names.get? v).or (if r.resolved && r.value == v then some (r.name.take 8) else none) := by
  unfold insertRecord
  cases r.resolved with
  | true => simp
  | false => simp

/-- **The first symbol with a value names it**, unless it had a name before. -/
theorem get?_foldl_insertRecord (records : List SymbolRecord) (names : AddressNames) (v : Int) :
    (records.foldl insertRecord names).get? v
      = (names.get? v).or
        ((records.find? fun r => r.resolved && r.value == v).map (·.name.take 8)) := by
  induction records generalizing names with
  | nil => simp
  | cons r rest ih =>
    rw [List.foldl_cons, ih, get?_insertRecord, Option.or_assoc, List.find?_cons]
    cases r.resolved && r.value == v with
    | true => simp
    | false => simp

theorem nodup_foldl_insertRecord (records : List SymbolRecord) {names : AddressNames}
    (h : (names.entries.map Prod.fst).Nodup) :
    ((records.foldl insertRecord names).entries.map Prod.fst).Nodup := by
  induction records generalizing names with
  | nil => exact h
  | cons r rest ih =>
    rw [List.foldl_cons]
    refine ih ?_
    unfold insertRecord
    cases r.resolved with
    | true => exact nodup_insertNew h ..
    | false => exact h

end AddressNames

/-! ### Files -/

namespace SymbolReport

/-- The names in a file are given by its symbols one after the other. -/
theorem namesOf_file {records : List SymbolRecord} (h : ∀ r ∈ records, r.IsWritable) :
    Command.Disassemble.namesOf (Text.encodeUtf8 (file records))
      = .ok (records.foldl AddressNames.insertRecord {}) := by
  have hlines : ∀ line ∈ records.map SymbolRecord.row, line.IsLine :=
    List.forall_mem_map.mpr fun r hr => r.isLine_row (h r hr)
  have hfold : records.foldl (fun names r => names.insertRow r.row) {}
      = records.foldl AddressNames.insertRecord {} :=
    List.foldl_ext _ _ _ fun names r hr => names.insertRow_row (h r hr)
  unfold Command.Disassemble.namesOf
  rw [Text.decodeUtf8_encodeUtf8, file, ← hfold]
  show Except.ok (AddressNames.ofSymbolFile _) = _
  rw [Text.unifyNewlines_unlines hlines, AddressNames.ofSymbolFile,
    Text.splitLines_unlines_of_isLine hlines, List.foldl_map]

/-- **A symbol file is read back as the names of the values**: each value of a symbol, and nothing
else, has a name, which is that of the first symbol with the value, cut to eight characters. -/
theorem names_of_file (records : List SymbolRecord)
    (hnames : ∀ r ∈ records, r.name.IsSymbolName)
    (hvalues : ∀ r ∈ records, r.resolved = true → 0 ≤ r.value ∧ r.value ≤ 0xFFFF) :
    ∃ names, Command.Disassemble.namesOf (Text.encodeUtf8 (file records)) = .ok names ∧
      (names.entries.map Prod.fst).Nodup ∧
      (∀ v, v ∈ names.entries.map Prod.fst ↔ ∃ r ∈ records, r.resolved = true ∧ r.value = v) ∧
      ∀ v, names.get? v
        = (records.find? fun r => r.resolved && r.value == v).map (·.name.take 8) := by
  have hwritable : ∀ r ∈ records, r.IsWritable := fun r hr =>
    ⟨hnames r hr, fun hresolved => ⟨(hvalues r hr hresolved).1, by
      have := (hvalues r hr hresolved).2
      omega⟩⟩
  have hget : ∀ v, (records.foldl AddressNames.insertRecord {}).get? v
      = (records.find? fun r => r.resolved && r.value == v).map (·.name.take 8) :=
    fun v => AddressNames.get?_foldl_insertRecord records {} v
  refine ⟨_, namesOf_file hwritable, AddressNames.nodup_foldl_insertRecord records List.nodup_nil,
    fun v => ?_, hget⟩
  rw [AddressNames.mem_keys_iff, hget, Option.isSome_map, List.find?_isSome]
  simp

/-- Two names for one value, of which the second and a symbol without a value are left out, a name
that is too long for its column, and one with a letter beyond ASCII. -/
theorem names_of_file_shared :
    let records : List SymbolRecord :=
      [⟨"START".toList, true, 0x100⟩, ⟨"COUNT".toList, false, 0⟩, ⟨"ALIAS".toList, true, 0x100⟩,
        ⟨"INTERRUPT1".toList, true, 0xFFFF⟩, ⟨"Zéro".toList, true, 0⟩]
    (∀ r ∈ records, r.name.IsSymbolName) ∧
      (∀ r ∈ records, r.resolved = true → 0 ≤ r.value ∧ r.value ≤ 0xFFFF) ∧
      ∃ names, Command.Disassemble.namesOf (Text.encodeUtf8 (file records)) = .ok names ∧
        names.get? 0x100 = some "START".toList ∧ names.get? 0xFFFF = some "INTERRUP".toList ∧
        names.get? 0 = some "Zéro".toList ∧ names.get? 1 = none := by
  intro records
  have hnames : ∀ r ∈ records, r.name.IsSymbolName := by decide +kernel
  have hvalues : ∀ r ∈ records, r.resolved = true → 0 ≤ r.value ∧ r.value ≤ 0xFFFF := by
    decide +kernel
  obtain ⟨names, hread, -, -, hget⟩ := names_of_file records hnames hvalues
  refine ⟨hnames, hvalues, names, hread, ?_⟩
  rw [hget, hget, hget, hget]
  decide +kernel

end SymbolReport

end Cosmac
