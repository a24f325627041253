import Cosmac.Proofs.HexFile
import Mathlib.Data.List.Forall2

/-!
# The records of an Intel HEX file

What a line of a file says, as a relation that knows nothing of the printer (`Record.Spells`): a
colon and then, with two digits for each byte, the length of the data, the address, the type, the
data and a checksum.  The loader takes a line exactly if it spells a record (`Record.spells_iff`).

`IntelHex.lines_render` is the main statement.  Every line of the file of an image spells a record;
all but the last are data records of one to sixteen bytes, the last is the end record with the start
address; and the data records, loaded in order into any memory, leave what the chunks would leave.
-/

namespace Cosmac

theorem length_pos_of_mem_rowsOf {α : Type} {size : Nat} {l : List α} :
    ∀ row ∈ rowsOf size l, 1 ≤ row.length := by
  induction l using rowsOf.induct size with
  | case1 =>
    rw [rowsOf]
    exact fun _ h => absurd h List.not_mem_nil
  | case2 a rest ih =>
    rw [rowsOf]
    exact List.forall_mem_cons.mpr ⟨Nat.succ_pos _, ih⟩

namespace IntelHex

/-! ### What a line says -/

/-- The line spells the record: its length byte is the length of the data, the address has its high
byte first, and with the checksum all bytes sum to 0 modulo 256. -/
inductive Record.Spells : Text → Record → Prop
  | intro {digits : Text} {length high low type check : UInt8} {data : List UInt8}
      (hdigits : bytes? digits = some (length :: high :: low :: type :: (data ++ [check])))
      (hlength : length.toNat = data.length)
      (hsum :
        ((length :: high :: low :: type :: (data ++ [check])).map (·.toNat)).sum % 0x100 = 0) :
      Spells (':' :: digits) ⟨(0x100 * high.toNat + low.toNat : Nat), type.toNat, data⟩

theorem Record.exists_of_ofBytes? {bytes : List UInt8} {r : Record}
    (h : ofBytes? bytes = some r) :
    ∃ length high low type check : UInt8,
      bytes = length :: high :: low :: type :: (r.data ++ [check]) ∧
      length.toNat = r.data.length ∧ (bytes.map (·.toNat)).sum % 0x100 = 0 ∧
      r.address = (0x100 * high.toNat + low.toNat : Nat) ∧ r.type = type.toNat := by
  unfold ofBytes? at h
  split at h
  next length high low type rest =>
    split at h
    next hchecked =>
      obtain rfl := Option.some.inj h
      -- there is room for the checksum, which is the last of the bytes
      have hne : rest ≠ [] := List.ne_nil_of_length_pos (by omega)
      have hrest : rest.dropLast ++ [rest.getLast hne] = rest := List.dropLast_concat_getLast hne
      refine ⟨length, high, low, type, rest.getLast hne, ?_, ?_, hchecked.2, rfl, rfl⟩
      · rw [hrest]
      · show length.toNat = rest.dropLast.length
        rw [List.length_dropLast, hchecked.1, Nat.add_sub_cancel]
    next => cases h
  next => cases h

/-- **A line is read as a record exactly if it spells it.** -/
theorem Record.spells_iff {line : Text} {r : Record} : Spells line r ↔ ofLine? line = some r := by
  constructor
  · intro h
    cases h with
    | @intro digits length high low type check data hdigits hlength hsum =>
      have hroom : (data ++ [check]).length = length.toNat + 1 := by
        rw [List.length_append, List.length_singleton, hlength]
      rw [ofLine?, hdigits, Option.bind_some]
      show (if (data ++ [check]).length = length.toNat + 1 ∧ _ then
        some (Record.mk _ _ (data ++ [check]).dropLast) else none) = _
      rw [if_pos ⟨hroom, hsum⟩, List.dropLast_concat]
  · intro h
    unfold ofLine? at h
    split at h
    next digits =>
      obtain ⟨bytes, hbytes, hr⟩ := Option.bind_eq_some_iff.mp h
      obtain ⟨length, high, low, type, check, rfl, hlength, hsum, haddress, htype⟩ :=
        exists_of_ofBytes? hr
      obtain ⟨address, kind, data⟩ := r
      subst haddress htype
      exact .intro hbytes hlength hsum
    next => cases h

/-! ### The lines of a file -/

theorem length_dataRecords (chunks : List Chunk) :
    ∀ r ∈ chunks.flatMap dataRecords, 1 ≤ r.data.length ∧ r.data.length ≤ recordSize := by
  intro r hr
  obtain ⟨c, -, hr⟩ := List.mem_flatMap.mp hr
  obtain ⟨row, hrow, rfl⟩ := List.mem_map.mp hr
  have hmem := List.fst_mem_of_mem_zipIdx hrow
  exact ⟨length_pos_of_mem_rowsOf _ hmem, length_le_of_mem_rowsOf (by decide) _ hmem⟩

theorem forall₂_spells_line {rs : List Record} (h : ∀ r ∈ rs, r.Fits) :
    List.Forall₂ Record.Spells (rs.map Record.line) rs := by
  rw [List.forall₂_map_left_iff, List.forall₂_same]
  exact fun r hr => Record.spells_iff.mpr (Record.ofLine?_line (h r hr))

/-- **The file of an image is made of records and loads as the image.**  Its lines spell data
records of one to sixteen bytes and behind them the end record with the start address; the data
records leave in any memory what the chunks leave there, where addresses count modulo 65536. -/
theorem lines_render (chunks : List Chunk) (start : Int) :
    ∃ data : List Record,
      List.Forall₂ Record.Spells (Text.splitLines (render chunks start))
        (data ++ [⟨start % 0x10000, 1, []⟩]) ∧
      (∀ r ∈ data, r.type = 0 ∧ 1 ≤ r.data.length ∧ r.data.length ≤ 16) ∧
      ∀ m : Memory, data.foldl (fun m r => m.write r.address r.data) m
        = chunks.foldl (fun m c => m.write c.address c.bytes) m := by
  have hfits := fits_records chunks start
  refine ⟨chunks.flatMap dataRecords, ?_, fun r hr => ?_, foldl_records chunks⟩
  · have hrows : ∀ row ∈ (chunks.flatMap dataRecords ++ [endRecord start]).map Record.line,
        row.IsRow :=
      List.forall_mem_map.mpr fun r hr => Record.isRow_line (hfits r hr)
    rw [render_eq, Text.splitLines_unlines hrows]
    exact forall₂_spells_line hfits
  · exact ⟨type_dataRecords chunks r hr, length_dataRecords chunks r hr⟩

end IntelHex

end Cosmac
