import Cosmac.Listing
import Cosmac.Proofs.HexFile

/-!
# The rows of a listing line

A row is an address, the digits of up to seven bytes, a semicolon, the number of the line and in the
first row its text.  Blanks at the end are cut off, but the semicolon is none, so what stands before
it stays (`ListingLine.codeRow_eq`).  The code can therefore be read from the rows of a line, up to
the first semicolon of each, whatever the text of the line is (`ListingLine.rows_show_code`).
-/

namespace Cosmac

/-! ### Rows of fixed length -/

@[simp]
theorem flatten_rowsOf {α : Type} (size : Nat) (l : List α) : (rowsOf size l).flatten = l := by
  induction l using rowsOf.induct size with
  | case1 => rw [rowsOf]; rfl
  | case2 a rest ih =>
    rw [rowsOf, List.flatten_cons, ih, List.cons_append, List.take_append_drop]

/-- The number of rows is the number of elements over the size of a row, rounded up. -/
theorem length_rowsOf {α : Type} {size : Nat} (hsize : 0 < size) (l : List α) :
    (rowsOf size l).length = (l.length + (size - 1)) / size := by
  induction l using rowsOf.induct size with
  | case1 =>
    rw [rowsOf]
    simp only [List.length_nil, Nat.zero_add]
    exact (Nat.div_eq_of_lt (by omega)).symm
  | case2 a rest ih =>
    have hrest : (rest.length - (size - 1) + (size - 1)) / size = rest.length / size := by
      by_cases hle : size - 1 ≤ rest.length
      · rw [Nat.sub_add_cancel hle]
      · rw [Nat.div_eq_of_lt (by omega), Nat.div_eq_of_lt (by omega)]
    rw [rowsOf, List.length_cons, ih, List.length_drop, hrest, List.length_cons,
      show rest.length + 1 + (size - 1) = rest.length + size by omega, Nat.add_div_right _ hsize]

namespace Text

/-- What stands before a character that is not blank is not cut off. -/
theorem stripRight_append_cons {c : Char} (hc : isBlank c = false) (t u : Text) :
    stripRight (t ++ c :: u) = t ++ c :: stripRight u := by
  unfold stripRight dropTail
  rw [List.reverse_append, List.reverse_cons, List.append_assoc, List.dropWhile_append]
  cases hrest : u.reverse.dropWhile isBlank with
  | nil => simp [hc]
  | cons d more => simp

end Text

/-- A word is printed in four digits, which have its value. -/
theorem Numeral.hex_word (n : Int) :
    (hex 4 (word n)).length = 4 ∧ (∀ c ∈ hex 4 (word n), Token.isHexDigit c = true) ∧
      (Token.number 16 (hex 4 (word n)) : Int) = word n := by
  obtain ⟨k, hk, hlt⟩ := (isWord_word n).exists_nat
  obtain ⟨-, hdigits, hvalue⟩ := number_hex (by decide : 4 ≤ 4) hlt
  rw [hk]
  refine ⟨?_, hdigits, by rw [hvalue]⟩
  rw [hex_four, hex_two (by omega), hex_two (by omega)]
  rfl

/-! ### Code rows -/

namespace ListingLine

/-- What a row holds from its sixth column on, up to the first semicolon. -/
def codeField (row : Text) : Text := (row.drop 5).takeWhile (· != ';')

/-- The row starts with an address in four digits, and has a field for code. -/
structure StartsAt (row : Text) (address : Int) : Prop where
  length : (row.take 4).length = 4
  digits : ∀ c ∈ row.take 4, Token.isHexDigit c = true
  value : (Token.number 16 (row.take 4) : Int) = address % 0x10000
  closed : ';' ∈ row.drop 5

variable (l : ListingLine)

@[simp] theorem flatten_codeRows : l.codeRows.flatten = l.code := by
  have hflatten := flatten_rowsOf bytesPerRow l.code
  unfold codeRows
  cases hrows : rowsOf bytesPerRow l.code with
  | nil =>
    rw [hrows] at hflatten
    exact hflatten
  | cons row more => rwa [hrows] at hflatten

@[simp] theorem length_codeRows : l.codeRows.length = max 1 ((l.code.length + 6) / 7) := by
  have hlength := length_rowsOf (by decide : 0 < bytesPerRow) l.code
  unfold codeRows
  cases hrows : rowsOf bytesPerRow l.code with
  | nil =>
    rw [hrows] at hlength
    show 1 = max 1 ((l.code.length + (bytesPerRow - 1)) / bytesPerRow)
    rw [← hlength]
    rfl
  | cons row more =>
    rw [hrows] at hlength
    show (row :: more).length = max 1 ((l.code.length + (bytesPerRow - 1)) / bytesPerRow)
    rw [← hlength, List.length_cons]
    omega

/-- **The parts of a row**: address, code and what stands behind the semicolon. -/
theorem codeRow_eq (k : Nat) (bytes : List UInt8) :
    ∃ tail, l.codeRow k bytes =
      Numeral.hex 4 (word (l.address + (7 * k : Nat))) ++
        ' ' :: (Numeral.hexBytes bytes ++ ';' :: tail) := by
  unfold codeRow
  generalize hrest : List.replicate (2 * (bytesPerRow - bytes.length)) ' ' ++ [' '] ++
    Numeral.decimalZeros 4 l.line ++ (if k = 0 then ' ' :: l.source else []) = rest
  have hstrip := Text.stripRight_append_cons (by decide : Text.isBlank ';' = false)
    (Numeral.hex 4 (word (l.address + (7 * k : Nat))) ++ ' ' :: Numeral.hexBytes bytes) rest
  refine ⟨Text.stripRight rest, Eq.trans ?_ (hstrip.trans ?_)⟩
  · rw [← hrest]
    simp only [List.append_assoc, List.cons_append]
    rfl
  · simp only [List.append_assoc, List.cons_append]

section CodeRow

variable {l} {k : Nat} {bytes : List UInt8}

theorem drop_codeRow :
    ∃ tail, (l.codeRow k bytes).drop 5 = Numeral.hexBytes bytes ++ ';' :: tail := by
  obtain ⟨tail, hrow⟩ := l.codeRow_eq k bytes
  have hlength := (Numeral.hex_word (l.address + (7 * k : Nat))).1
  refine ⟨tail, ?_⟩
  rw [hrow, List.drop_append, hlength, List.drop_eq_nil_of_le (by omega)]
  rfl

theorem startsAt_codeRow : StartsAt (l.codeRow k bytes) (l.address + (7 * k : Nat)) := by
  obtain ⟨tail, hrow⟩ := l.codeRow_eq k bytes
  obtain ⟨hlength, hdigits, hvalue⟩ := Numeral.hex_word (l.address + (7 * k : Nat))
  have htake : (l.codeRow k bytes).take 4 = Numeral.hex 4 (word (l.address + (7 * k : Nat))) := by
    rw [hrow, List.take_left' hlength]
  obtain ⟨rest, hdrop⟩ := @drop_codeRow l k bytes
  exact ⟨by rw [htake, hlength], by rwa [htake], by rwa [htake], by simp [hdrop]⟩

@[simp] theorem codeField_codeRow : codeField (l.codeRow k bytes) = Numeral.hexBytes bytes := by
  obtain ⟨tail, hdrop⟩ := @drop_codeRow l k bytes
  rw [codeField, hdrop]
  refine Token.takeWhile_run (fun c hc => ?_) (fun c hc => ?_)
  · -- no digit is a semicolon
    have hdigit := Numeral.isHexDigit_of_mem_hexBytes hc
    rw [bne_iff_ne]
    rintro rfl
    exact absurd hdigit (by decide)
  · obtain rfl := Option.some.inj hc
    decide

end CodeRow

theorem flatMap_codeField (rows : List (List UInt8)) (start : Nat) :
    ((rows.zipIdx start).map fun (bytes, k) => l.codeRow k bytes).flatMap codeField
      = Numeral.hexBytes rows.flatten := by
  induction rows generalizing start with
  | nil => rfl
  | cons bytes more ih =>
    rw [List.zipIdx_cons, List.map_cons, List.flatMap_cons, ih, codeField_codeRow,
      List.flatten_cons, Numeral.hexBytes, Numeral.hexBytes, Numeral.hexBytes, List.flatMap_append]

/-- **The rows of a line lose no code.**  There is a row for every seven bytes, and one if there are
none, before the diagnostics.  Every row starts with the address of its first byte, and the digits
in the code fields of all rows are the code. -/
theorem rows_show_code :
    ∃ shown, l.rows = shown ++ l.diagnostics.map (">>> ".toList ++ ·) ∧
      shown.length = max 1 ((l.code.length + 6) / 7) ∧
      (∀ k row, shown[k]? = some row → StartsAt row (l.address + (7 * k : Nat))) ∧
      IntelHex.bytes? (shown.flatMap codeField) = some l.code := by
  refine ⟨_, rfl, ?_, fun k row hrow => ?_, ?_⟩
  · rw [List.length_map, List.length_zipIdx, length_codeRows]
  · rw [List.getElem?_map, List.getElem?_zipIdx, Option.map_map] at hrow
    obtain ⟨bytes, -, rfl⟩ := Option.map_eq_some_iff.mp hrow
    rw [Function.comp, Nat.zero_add]
    exact startsAt_codeRow
  · rw [flatMap_codeField, flatten_codeRows, IntelHex.bytes?_hexBytes]

/-- Seven bytes fill the first row, and the text behind it holds semicolons. -/
example : rows ⟨0xFFFA, [1, 2, 3, 4, 5, 6, 7, 0xFF], 3, "DC 1;;".toList, ["Unknown".toList]⟩
    = ["FFFA 01020304050607; 0003 DC 1;;".toList, "0001 FF;             0003".toList,
      ">>> Unknown".toList] := by
  decide +kernel

end ListingLine

end Cosmac
