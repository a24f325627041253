import Cosmac.IntelHex
import Cosmac.Proofs.Range
import Cosmac.Proofs.SourceText
import Mathlib.Algebra.GroupWithZero.Nat

/-!
# Loading Intel HEX

A loader for Intel HEX files, written from the format.  A line is a colon and pairs of digits; the
pairs are bytes, and the bytes are a record if the length is right and all of them sum to 0 modulo
256 (`Record.ofLine?`).  A file is data records and one end record, the last (`load`).  The data go
into a memory of 65536 bytes, where the lowest address follows the highest and what is loaded later
counts.

A printed record is read back (`Record.ofLine?_line`), and the file of an image loads as its chunks
written one after another, whatever their addresses and lengths (`load?_render`): cutting a chunk
into records changes nothing (`Memory.write_rowsOf`).
-/

namespace Cosmac

/-! ### Digits and rows -/

namespace Numeral

theorem hex_succ {width : Nat} (hwidth : 0 < width) (n : Nat) :
    hex (width + 1) n = hex width (n / 16 : Nat) ++ [(n % 16).digitChar.toUpper] := by
  have hhex : ∀ width n : Nat, hex width n
      = List.replicate (width - (hexDigits n).length) '0' ++ hexDigits n := fun _ _ => rfl
  rw [hhex, hhex]
  by_cases hlt : n < 16
  · have hzeros : List.replicate (width - 1) '0' ++ ['0'] = List.replicate width '0' := by
      rw [← List.replicate_succ', Nat.sub_add_cancel hwidth]
    rw [Nat.div_eq_of_lt hlt, Nat.mod_eq_of_lt hlt, hexDigits_of_lt hlt]
    show List.replicate (width + 1 - 1) '0' ++ _ = List.replicate (width - 1) '0' ++ ['0'] ++ _
    rw [hzeros, Nat.add_sub_cancel]
  · rw [hexDigits_of_le (Nat.le_of_not_lt hlt), List.length_append, List.length_singleton,
      Nat.add_sub_add_right, List.append_assoc]

/-- A byte has one digit for each half of it. -/
theorem hex_two {n : Nat} (h : n < 0x100) :
    hex 2 n = [(n / 16).digitChar.toUpper, (n % 16).digitChar.toUpper] := by
  have hhigh : n / 16 < 16 := by omega
  have hone : hex 1 (n / 16 : Nat) = hexDigits (n / 16) := by
    show List.replicate (1 - (hexDigits (n / 16)).length) '0' ++ hexDigits (n / 16) = _
    rw [hexDigits_of_lt hhigh]
    rfl
  rw [hex_succ Nat.one_pos, hone, hexDigits_of_lt hhigh]
  rfl

/-- The last two digits are those of the low byte. -/
theorem hex_four (n : Nat) :
    hex 4 n = hex 2 (n / 0x100 : Nat) ++ hex 2 (n % 0x100 : Nat) := by
  have hmiddle : n % 0x100 / 16 = n / 16 % 16 := by omega
  have hlow : n % 0x100 % 16 = n % 16 := by omega
  rw [hex_succ (by decide : 0 < 3), hex_succ (by decide : 0 < 2), Nat.div_div_eq_div_mul,
    hex_two (Nat.mod_lt n (by decide)), hmiddle, hlow, List.append_assoc]
  rfl

theorem isHexDigit_of_mem_hexBytes {bytes : List UInt8} {c : Char} (hc : c ∈ hexBytes bytes) :
    Token.isHexDigit c = true := by
  obtain ⟨b, -, hdigit⟩ := List.mem_flatMap.mp hc
  have hlt : b.toNat < 0x10000 := Nat.lt_trans b.toNat_lt (by decide)
  exact (number_hex (by decide : 2 ≤ 4) hlt).2.1 c hdigit

end Numeral

/-- No row is longer than the size of rows. -/
theorem length_le_of_mem_rowsOf {α : Type} {size : Nat} (hsize : 0 < size) {l : List α} :
    ∀ row ∈ rowsOf size l, row.length ≤ size := by
  induction l using rowsOf.induct size with
  | case1 =>
    rw [rowsOf]
    exact fun _ h => absurd h List.not_mem_nil
  | case2 a rest ih =>
    rw [rowsOf]
    intro row hrow
    rcases List.mem_cons.mp hrow with rfl | hrow
    · rw [List.length_cons, List.length_take]
      omega
    · exact ih row hrow

/-! ### Memory -/

/-- A memory of 65536 bytes, of which some have been loaded. -/
abbrev Memory := Int → Option UInt8

namespace Memory

/-- Nothing has been loaded. -/
def empty : Memory := fun _ => none

/-- Loads bytes one after another, from an address on. -/
def write (m : Memory) (address : Int) : List UInt8 → Memory
  | [] => m
  | b :: rest => write (fun a => if a = word address then some b else m a) (address + 1) rest

/-- Addresses that are the same word are the same place. -/
theorem write_congr (m : Memory) {address place : Int} (h : word address = word place)
    (bytes : List UInt8) : m.write address bytes = m.write place bytes := by
  induction bytes generalizing m address place with
  | nil => rfl
  | cons b rest ih =>
    rw [write, write, h]
    exact ih _ (word_add_congr h 1)

@[simp] theorem write_append (m : Memory) (address : Int) (bytes more : List UInt8) :
    m.write address (bytes ++ more)
      = (m.write address bytes).write (address + bytes.length) more := by
  induction bytes generalizing m address with
  | nil =>
    rw [List.nil_append, List.length_nil, Int.natCast_zero, Int.add_zero]
    rfl
  | cons b rest ih =>
    have hplace : address + (b :: rest).length = address + 1 + rest.length := by
      rw [List.length_cons]
      omega
    rw [List.cons_append, write, ih, hplace]
    rfl

/-- **Rows of bytes, each at its own address, load as the bytes in one piece.** -/
theorem write_rowsOf {size : Nat} (hsize : 0 < size) (address : Int) (bytes : List UInt8)
    (m : Memory) (k : Nat) :
    ((rowsOf size bytes).zipIdx k).foldl
        (fun m row => m.write (address + (size * row.2 : Nat)) row.1) m
      = m.write (address + (size * k : Nat)) bytes := by
  induction bytes using rowsOf.induct size generalizing m k with
  | case1 =>
    rw [rowsOf]
    rfl
  | case2 a rest ih =>
    rw [rowsOf, List.zipIdx_cons, List.foldl_cons, ih]
    have hsplit : a :: rest = (a :: rest.take (size - 1)) ++ rest.drop (size - 1) := by
      rw [List.cons_append, List.take_append_drop]
    rw [hsplit, write_append]
    show (m.write (address + (size * k : Nat)) (a :: rest.take (size - 1))).write _ _ = _
    by_cases hlast : rest.length ≤ size - 1
    · -- this was the last row
      rw [List.drop_eq_nil_of_le hlast]
      rfl
    · -- a row before the last one is full
      have hlength : (a :: rest.take (size - 1)).length = size := by
        rw [List.length_cons, List.length_take]
        omega
      rw [hlength, Nat.mul_succ, Int.natCast_add, ← Int.add_assoc]

end Memory

namespace IntelHex

/-! ### Records -/

/-- What a line of a file says. -/
structure Record where
  /-- Where the data belong. -/
  address : Int
  /-- The type. -/
  type : Nat
  /-- The data. -/
  data : List UInt8
  deriving DecidableEq, Repr

/-- The bytes that are written with two digits each. -/
def bytes? : Text → Option (List UInt8)
  | [] => some []
  | [_] => none
  | high :: low :: rest =>
    if Token.isHexDigit high && Token.isHexDigit low then
      (bytes? rest).map (UInt8.ofNat (Token.number 16 [high, low]) :: ·)
    else none

namespace Record

/-- The record with these bytes: length, address, type, data and checksum. -/
def ofBytes? (bytes : List UInt8) : Option Record :=
  match bytes with
  | length :: high :: low :: type :: rest =>
    if rest.length = length.toNat + 1 ∧ (bytes.map (·.toNat)).sum % 0x100 = 0 then
      some ⟨(0x100 * high.toNat + low.toNat : Nat), type.toNat, rest.dropLast⟩
    else none
  | _ => none

/-- The record that a line is. -/
def ofLine? : Text → Option Record
  | ':' :: digits => (bytes? digits).bind ofBytes?
  | _ => none

/-- The fields of the record have room in its line. -/
structure Fits (r : Record) : Prop where
  address : IsWord r.address
  type : r.type < 0x100
  data : r.data.length < 0x100

/-- The line of a record. -/
def line (r : Record) : Text := record r.address r.type r.data

end Record

@[simp]
theorem bytes?_hexBytes (data : List UInt8) : bytes? (Numeral.hexBytes data) = some data := by
  induction data with
  | nil => rfl
  | cons b rest ih =>
    have hlt : b.toNat < 0x100 := b.toNat_lt
    obtain ⟨-, hdigits, hvalue⟩ :=
      Numeral.number_hex (by decide : 2 ≤ 4) (Nat.lt_trans hlt (by decide : 0x100 < 0x10000))
    rw [Numeral.hex_two hlt] at hdigits hvalue
    have hhigh := hdigits _ (List.mem_cons_self ..)
    have hlow := hdigits _ (List.mem_cons_of_mem _ (List.mem_cons_self ..))
    have hbytes : Numeral.hexBytes (b :: rest) = (b.toNat / 16).digitChar.toUpper ::
        (b.toNat % 16).digitChar.toUpper :: Numeral.hexBytes rest := by
      show Numeral.hex 2 b.toNat ++ Numeral.hexBytes rest = _
      rw [Numeral.hex_two hlt]
      rfl
    rw [hbytes, bytes?, hhigh, hlow, ih, hvalue]
    simp

namespace Record

/-- The bytes of a record. -/
def bytes (r : Record) : List UInt8 :=
  byte r.data.length :: byte (highByte r.address) :: byte (lowByte r.address) :: byte r.type ::
    (r.data ++ [checksum r.address r.type r.data])

theorem toNat_byte_natCast {n : Nat} (h : n < 0x100) : (byte n).toNat = n := by
  have hvalue := toNat_byte n
  unfold lowByte at hvalue
  omega

theorem hexByte_byte {n : Nat} (h : n < 0x100) : Numeral.hexByte (byte n) = Numeral.hex 2 n := by
  unfold Numeral.hexByte
  rw [toNat_byte_natCast h]

/-- The line of a record has a colon and its bytes with two digits each. -/
theorem line_eq {r : Record} (h : r.Fits) : r.line = ':' :: Numeral.hexBytes r.bytes := by
  obtain ⟨n, hn⟩ := Int.eq_ofNat_of_zero_le h.address.1
  have hlt : n / 0x100 < 0x100 := by
    have := h.address.2
    omega
  have hhigh : highByte r.address = (n / 0x100 : Nat) := by
    rw [hn]
    unfold highByte
    omega
  have hlow : lowByte r.address = (n % 0x100 : Nat) := by
    rw [hn]
    unfold lowByte
    omega
  have hdata : ∀ data : List UInt8, Numeral.hexBytes (data ++ [checksum r.address r.type r.data])
      = Numeral.hexBytes data ++ Numeral.hexByte (checksum r.address r.type r.data) := by
    intro data
    simp [Numeral.hexBytes]
  have hbytes : Numeral.hexBytes r.bytes
      = Numeral.hex 2 r.data.length ++ (Numeral.hex 4 r.address ++ (Numeral.hex 2 r.type ++
        (Numeral.hexBytes r.data ++ Numeral.hexByte (checksum r.address r.type r.data)))) := by
    show Numeral.hexByte _ ++ (Numeral.hexByte _ ++ (Numeral.hexByte _ ++
      (Numeral.hexByte _ ++ Numeral.hexBytes (r.data ++ [_])))) = _
    rw [hdata, hhigh, hlow, hexByte_byte h.data, hexByte_byte hlt,
      hexByte_byte (Nat.mod_lt n (by decide)),
      hexByte_byte h.type, ← List.append_assoc (Numeral.hex 2 (n / 0x100 : Nat)),
      ← Numeral.hex_four, ← hn]
  rw [hbytes]
  unfold line record
  simp only [List.append_assoc]
  rfl

/-- The checksum is made from the sum of the bytes. -/
@[simp] theorem byteSum_eq_sum (data : List UInt8) : byteSum data = (data.map (·.toNat)).sum := by
  induction data with
  | nil => rfl
  | cons b rest ih =>
    rw [List.map_cons, List.sum_cons, ← ih]
    rfl

/-- The fields are found again in the bytes, and the checksum is right. -/
theorem ofBytes?_bytes {r : Record} (h : r.Fits) : ofBytes? r.bytes = some r := by
  have hlength := toNat_byte_natCast h.data
  have htype := toNat_byte_natCast h.type
  have hhigh := toNat_byte (highByte r.address)
  have hlow := toNat_byte (lowByte r.address)
  have haddress :
      ((0x100 * (byte (highByte r.address)).toNat + (byte (lowByte r.address)).toNat : Nat) : Int)
        = r.address := by
    have hword := h.address
    unfold IsWord at hword
    unfold lowByte highByte at *
    omega
  -- the checksum is what the other bytes lack to a multiple of 256
  have hsum : (r.bytes.map (·.toNat)).sum % 0x100 = 0 := by
    have hcheck : ((checksum r.address r.type r.data).toNat : Int)
        = lowByte (-(r.data.length + highByte r.address + lowByte r.address + r.type
          + byteSum r.data)) := toNat_byte _
    rw [byteSum_eq_sum] at hcheck
    simp only [bytes, List.map_cons, List.map_append, List.map_nil, List.sum_cons, List.sum_append,
      List.sum_nil, hlength, htype]
    unfold lowByte highByte at *
    omega
  have hrest : (r.data ++ [checksum r.address r.type r.data]).length
      = (byte r.data.length).toNat + 1 := by
    rw [hlength, List.length_append, List.length_singleton]
  show (if (r.data ++ [_]).length = _ ∧ (r.bytes.map (·.toNat)).sum % 0x100 = 0 then
    some (Record.mk _ _ (r.data ++ [_]).dropLast) else none) = some r
  rw [if_pos ⟨hrest, hsum⟩, haddress, htype, List.dropLast_concat]

/-- **A printed record is read back.** -/
theorem ofLine?_line {r : Record} (h : r.Fits) : ofLine? r.line = some r := by
  rw [line_eq h, ofLine?, bytes?_hexBytes]
  exact ofBytes?_bytes h

theorem isRow_line {r : Record} (h : r.Fits) : r.line.IsRow := by
  rw [line_eq h]
  intro c hc
  rcases List.mem_cons.mp hc with rfl | hc
  · decide
  · have hname : Text.IsName (Numeral.hexBytes r.bytes) := fun d hd =>
      Numeral.isNameChar_of_isHexDigit (Numeral.isHexDigit_of_mem_hexBytes hd)
    exact Text.isRow_of_isName hname c hc

end Record

/-! ### Files -/

/-- The records of a file, if each of its lines is one. -/
def records? (t : Text) : Option (List Record) := (Text.splitLines t).mapM Record.ofLine?

/-- Loads data records up to the end record, which has no data and is the last. -/
def load (m : Memory) : List Record → Option Memory
  | [] => none
  | [last] => if last.type = endType ∧ last.data = [] then some m else none
  | r :: rest => if r.type = dataType then load (m.write r.address r.data) rest else none

/-- The memory that a file describes. -/
def load? (t : Text) : Option Memory := (records? t).bind (load .empty)

/-- The data records of a chunk. -/
def dataRecords (c : Chunk) : List Record :=
  (rowsOf recordSize c.bytes).zipIdx.map fun row =>
    ⟨word (c.address + (recordSize * row.2 : Nat)), dataType, row.1⟩

/-- The end record. -/
def endRecord (start : Int) : Record := ⟨word start, endType, []⟩

theorem fits_dataRecords (c : Chunk) : ∀ r ∈ dataRecords c, r.Fits := by
  intro r hr
  obtain ⟨row, hrow, rfl⟩ := List.mem_map.mp hr
  have hlength := length_le_of_mem_rowsOf (by decide : 0 < recordSize) _
    (List.fst_mem_of_mem_zipIdx hrow)
  exact ⟨isWord_word _, (by decide : dataType < 0x100), Nat.lt_of_le_of_lt hlength (by decide)⟩

theorem fits_endRecord (start : Int) : (endRecord start).Fits :=
  ⟨isWord_word start, (by decide : endType < 0x100), Nat.zero_lt_succ _⟩

/-- A file has the data records of its chunks and an end record. -/
theorem render_eq (chunks : List Chunk) (start : Int) :
    render chunks start
      = Text.unlines ((chunks.flatMap dataRecords ++ [endRecord start]).map Record.line) := by
  have hchunk : ∀ c, (dataRecords c).map Record.line = chunkRecords c := fun c => List.map_map ..
  rw [List.map_append, List.map_flatMap, List.flatMap_congr fun c _ => hchunk c]
  rfl

theorem records?_lines {rs : List Record} (h : ∀ r ∈ rs, r.Fits) :
    records? (Text.unlines (rs.map Record.line)) = some rs := by
  unfold records?
  rw [Text.splitLines_unlines fun row hrow => ?rows]
  case rows =>
    obtain ⟨r, hr, rfl⟩ := List.mem_map.mp hrow
    exact Record.isRow_line (h r hr)
  induction rs with
  | nil => rfl
  | cons r rest ih =>
    rw [List.map_cons, List.mapM_cons, Record.ofLine?_line (h r (List.mem_cons_self ..)),
      ih fun r hr => h r (List.mem_cons_of_mem _ hr)]
    rfl

/-- Data records are loaded in their order. -/
theorem load_append {rs : List Record} (h : ∀ r ∈ rs, r.type = dataType) (m : Memory)
    (start : Int) : load m (rs ++ [endRecord start])
      = some (rs.foldl (fun m r => m.write r.address r.data) m) := by
  induction rs generalizing m with
  | nil => rfl
  | cons r rest ih =>
    have hload : ∀ next more, load m (r :: next :: more)
        = if r.type = dataType then load (m.write r.address r.data) (next :: more) else none :=
      fun _ _ => rfl
    have hrest := ih (fun r hr => h r (List.mem_cons_of_mem _ hr)) (m.write r.address r.data)
    cases rest with
    | nil =>
      rw [List.cons_append, List.nil_append, hload, if_pos (h r (List.mem_cons_self ..))]
      exact hrest
    | cons next more =>
      rw [List.cons_append, List.cons_append, hload, if_pos (h r (List.mem_cons_self ..))]
      exact hrest

@[simp] theorem foldl_dataRecords (m : Memory) (c : Chunk) :
    (dataRecords c).foldl (fun m r => m.write r.address r.data) m = m.write c.address c.bytes := by
  have hrows := Memory.write_rowsOf (by decide : 0 < recordSize) c.address c.bytes m 0
  rw [Nat.mul_zero, Int.natCast_zero, Int.add_zero] at hrows
  rw [← hrows]
  unfold dataRecords
  rw [List.foldl_map]
  congr 1
  funext m row
  exact m.write_congr (word_word _) row.1

/-! ### The file of an image -/

section File

variable (chunks : List Chunk) (start : Int)

theorem type_dataRecords : ∀ r ∈ chunks.flatMap dataRecords, r.type = dataType := by
  intro r hr
  obtain ⟨c, -, hr⟩ := List.mem_flatMap.mp hr
  obtain ⟨row, -, rfl⟩ := List.mem_map.mp hr
  rfl

theorem fits_records : ∀ r ∈ chunks.flatMap dataRecords ++ [endRecord start], r.Fits := by
  intro r hr
  rcases List.mem_append.mp hr with hr | hr
  · obtain ⟨c, -, hr⟩ := List.mem_flatMap.mp hr
    exact fits_dataRecords c r hr
  · rw [List.mem_singleton.mp hr]
    exact fits_endRecord start

/-- **The data records load as the chunks**, into any memory. -/
theorem foldl_records (m : Memory) :
    (chunks.flatMap dataRecords).foldl (fun m r => m.write r.address r.data) m
      = chunks.foldl (fun m c => m.write c.address c.bytes) m := by
  rw [List.foldl_flatMap]
  simp

/-- **The file of an image loads as its chunks, one after another.** -/
theorem load?_render :
    load? (render chunks start)
      = some (chunks.foldl (fun m c => m.write c.address c.bytes) .empty) := by
  unfold load?
  rw [render_eq, records?_lines (fits_records chunks start), Option.bind_some,
    load_append (type_dataRecords chunks), foldl_records]

end File

end IntelHex

end Cosmac
