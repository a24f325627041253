import Cosmac.Proofs.Encoding

/-!
# How a disassembly covers the data

The instructions of a disassembly lie side by side in the data.  The offset of an instruction is the
number of bytes before it (`offsetOf`), and the data behind that offset start with the instruction
(`exists_drop_offsetOf`).  So it is the one that decoding at the offset finds, and its address is
the offset counted from the first address (`address_getElem`).

Limits only leave out instructions at the end.  Where they exclude an instruction they exclude all
behind it (`Limits.Admits.of_add`), so that stopping at the first one excluded is the same as
filtering the whole disassembly (`run_eq_filter`).
-/

namespace Cosmac

/-! ### Limits -/

/-- Filtering by position, element by element. -/
theorem map_fst_filter_zipIdx_cons {α : Type} (p : Nat → Bool) (a : α) (l : List α) :
    ((a :: l).zipIdx.filter fun x => p x.2).map Prod.fst =
      (if p 0 then [a] else []) ++ (l.zipIdx.filter fun x => p (x.2 + 1)).map Prod.fst := by
  rw [List.zipIdx_cons, List.zipIdx_succ, List.filter_cons, List.filter_map]
  split <;> simp [Function.comp_def]

namespace Limits

/-- Both numbers are below their limits, where there are limits. -/
def Admits (limits : Limits) (index offset : Nat) : Prop :=
  (∀ n ∈ limits.count, (index : Int) < n) ∧ ∀ n ∈ limits.maxBytes, (offset : Int) < n

theorem below_iff (n : Nat) (limit : Option Int) :
    below n limit = true ↔ ∀ m ∈ limit, (n : Int) < m := by
  cases limit <;> simp [below]

theorem allow_iff (limits : Limits) (index offset : Nat) :
    limits.allow index offset = true ↔ limits.Admits index offset := by
  rw [allow, Bool.and_eq_true, below_iff, below_iff, Admits]

instance (limits : Limits) (index offset : Nat) : Decidable (limits.Admits index offset) :=
  decidable_of_iff _ (limits.allow_iff index offset)

/-- What is admitted later is admitted earlier. -/
theorem Admits.of_add {limits : Limits} {index offset i o : Nat}
    (h : limits.Admits (index + i) (offset + o)) : limits.Admits index offset := by
  refine ⟨fun n hn => ?_, fun n hn => ?_⟩
  · have := h.1 n hn
    omega
  · have := h.2 n hn
    omega

end Limits

/-! ### One instruction -/

namespace Disassembled

/-- The instruction has fewer bytes than its opcode asks for. -/
def IsCut (d : Disassembled) : Prop :=
  ∃ i, Instruction.ofOpcode? d.opcode.toNat = some i ∧ d.raw.length < i.size

section Decode

variable (names : AddressNames) (address : Int) (opcode : UInt8) (rest : List UInt8)

@[simp] theorem length_raw_decode : (decode names address opcode rest).raw.length
    = (decode names address opcode rest).size := by
  rcases decode_cases names address opcode rest with
    ⟨_, hdecode⟩ | ⟨i, _, _, hdecode⟩ | ⟨i, operands, _, hlength, _, hdecode⟩ <;> rw [hdecode]
  · rfl
  · rfl
  · exact hlength

theorem size_decode_bounds : 1 ≤ (decode names address opcode rest).size ∧
    (decode names address opcode rest).size ≤ 3 := by
  constructor
  · rcases decode_cases names address opcode rest with
      ⟨_, hdecode⟩ | ⟨i, _, _, hdecode⟩ | ⟨i, operands, _, hlength, _, hdecode⟩ <;> rw [hdecode]
    · exact Nat.le_refl 1
    · exact Nat.le_add_left 1 _
    · show 1 ≤ i.size
      omega
  · refine Nat.le_trans (size_decode_le rest) ?_
    cases (decode names address opcode rest).kind <;> decide

/-- The instructions that the data cut off are marked as incomplete, and no others. -/
theorem isComplete_decode_iff : (decode names address opcode rest).IsComplete
    ↔ ¬(decode names address opcode rest).IsCut := by
  rcases decode_cases names address opcode rest with
    ⟨hfound, hdecode⟩ | ⟨i, hfound, hshort, hdecode⟩ | ⟨i, operands, hfound, hlength, _, hdecode⟩
    <;> rw [hdecode]
  · refine iff_of_true (Whole.data address opcode hfound).isComplete ?_
    rintro ⟨i, hi, -⟩
    rw [show (dataByte address opcode).opcode = opcode from rfl, hfound] at hi
    cases hi
  · exact iff_of_false (fun hcomplete => hcomplete rfl) fun hcut => hcut ⟨i, hfound, hshort⟩
  · refine iff_of_true (whole_complete hfound hlength).isComplete ?_
    rintro ⟨j, hj, hless⟩
    obtain rfl : i = j := Option.some.inj (hfound.symm.trans hj)
    have hraw : (complete names i address opcode operands).raw.length = i.size := hlength
    omega

end Decode

end Disassembled

/-! ### All instructions -/

namespace Disassembly

open Disassembled

/-- The offset of the instruction at a position: the number of bytes before it. -/
def offsetOf (instructions : List Disassembled) (k : Nat) : Nat :=
  ((instructions.take k).flatMap (·.raw)).length

@[simp] theorem offsetOf_zero (instructions : List Disassembled) : offsetOf instructions 0 = 0 := by
  simp [offsetOf]

@[simp] theorem offsetOf_cons_succ (d : Disassembled) (more : List Disassembled) (k : Nat) :
    offsetOf (d :: more) (k + 1) = d.raw.length + offsetOf more k := by
  simp [offsetOf]

variable {names : AddressNames}

/-- **Stopping at a limit is filtering**: what is left out stands at the end. -/
theorem run_eq_filter (limits : Limits) (index offset : Nat) (address : Int) (data : List UInt8) :
    run names limits index offset address data =
      ((run names {} index offset address data).zipIdx.filter fun x =>
        limits.allow (index + x.2)
          (offset + offsetOf (run names {} index offset address data) x.2)).map Prod.fst := by
  induction index, offset, address, data using run.induct names limits with
  | case1 index offset address => simp [run]
  | case2 index offset address opcode rest hallow d ih =>
    have hrun : run names limits index offset address (opcode :: rest)
        = d :: run names limits (index + 1) (offset + d.size) (word (address + d.size))
          (rest.drop (d.size - 1)) := by
      rw [run, if_pos hallow]
    rw [hrun, ih, run_cons]
    generalize run names {} (index + 1) (offset + d.size) (word (address + d.size))
      (rest.drop (d.size - 1)) = more
    have hsplit := map_fst_filter_zipIdx_cons
      (fun k => limits.allow (index + k) (offset + offsetOf (d :: more) k)) d more
    have hshift : ∀ k, limits.allow (index + (k + 1)) (offset + offsetOf (d :: more) (k + 1))
        = limits.allow (index + 1 + k) (offset + d.size + offsetOf more k) := by
      intro k
      rw [offsetOf_cons_succ, length_raw_decode, Nat.add_assoc, Nat.add_comm 1 k, Nat.add_assoc]
    simp only [hshift, offsetOf_zero, Nat.add_zero, hallow, if_true] at hsplit
    exact hsplit.symm
  | case3 index offset address opcode rest hallow =>
    rw [run, if_neg hallow, eq_comm, List.map_eq_nil_iff, List.filter_eq_nil_iff]
    intro x _ hlater
    rw [Limits.allow_iff] at hallow hlater
    exact hallow hlater.of_add

/-- The data behind the offset of an instruction start with it. -/
theorem exists_drop_offsetOf (address : Int) (data : List UInt8) :
    ∀ k d, (disassemble names {} address data)[k]? = some d →
      ∃ opcode rest, data.drop (offsetOf (disassemble names {} address data) k) = opcode :: rest ∧
        d = decode names d.address opcode rest := by
  refine disassemble_induction
    (P := fun _ data ds => ∀ k d, ds[k]? = some d →
      ∃ opcode rest, data.drop (offsetOf ds k) = opcode :: rest ∧
        d = decode names d.address opcode rest) (fun _ k d hd => by simp at hd) ?_ address data
  intro address opcode rest more ih k d hd
  cases k with
  | zero =>
    obtain rfl := Option.some.inj hd
    exact ⟨opcode, rest, by rw [offsetOf_zero, List.drop_zero], by simp⟩
  | succ k =>
    obtain ⟨opcode', rest', hdrop, hdecode⟩ := ih k d hd
    refine ⟨opcode', rest', ?_, hdecode⟩
    rw [← raw_decode names address opcode rest, offsetOf_cons_succ, List.drop_length_add_append]
    exact hdrop

/-- The address of an instruction is its offset counted from the first address. -/
theorem address_getElem (address : Int) (data : List UInt8) :
    ∀ k d, (disassemble names {} address data)[k]? = some d → d.address =
      if k = 0 then address
      else word (address + offsetOf (disassemble names {} address data) k) := by
  refine disassemble_induction
    (P := fun address _ ds => ∀ k d, ds[k]? = some d → d.address =
      if k = 0 then address else word (address + offsetOf ds k)) (fun _ k d hd => by simp at hd) ?_
    address data
  intro address opcode rest more ih k d hd
  cases k with
  | zero =>
    obtain rfl := Option.some.inj hd
    exact address_decode ..
  | succ k =>
    rw [ih k d hd, offsetOf_cons_succ, length_raw_decode, if_neg (Nat.succ_ne_zero k)]
    cases k with
    | zero => rw [if_pos rfl, offsetOf_zero, Nat.add_zero]
    | succ k =>
      rw [if_neg (Nat.succ_ne_zero k)]
      unfold word
      omega

/-- The place of an instruction in the data. -/
structure Tiles (names : AddressNames) (address : Int) (data : List UInt8)
    (all : List Disassembled) (k : Nat) (d : Disassembled) : Prop where
  /-- Its size is the number of its bytes. -/
  size_eq : d.size = d.raw.length
  size_pos : 1 ≤ d.size
  size_le : d.size ≤ 3
  /-- It is found at its offset. -/
  found : decodeAt names d.address data (offsetOf all k) = .ok d
  /-- Its address, a word behind the first instruction. -/
  address_eq : d.address = if k = 0 then address else (address + offsetOf all k) % 0x10000
  /-- It is shown as incomplete if the data cut it off. -/
  marked_iff : d.operandText = "???".toList ↔ d.IsCut
  /-- Only the last instruction is cut off. -/
  last : d.IsCut → k + 1 = all.length

theorem tiles_getElem {address : Int} {data : List UInt8} {k : Nat} {d : Disassembled}
    (hd : (disassemble names {} address data)[k]? = some d) :
    Tiles names address data (disassemble names {} address data) k d := by
  obtain ⟨opcode, rest, hdrop, hdecode⟩ := exists_drop_offsetOf address data k d hd
  have hlength := length_raw_decode names d.address opcode rest
  obtain ⟨hpos, hle⟩ := size_decode_bounds names d.address opcode rest
  have hcut := isComplete_decode_iff names d.address opcode rest
  rw [← hdecode] at hlength hpos hle hcut
  refine ⟨hlength.symm, hpos, hle, ?_, address_getElem address data k d hd, ?_, fun h => ?_⟩
  · rw [decodeAt_of_drop names d.address hdrop, ← hdecode]
  · rw [← not_iff_not]
    exact hcut
  · -- an instruction that is not the last is whole
    by_contra hlast
    obtain ⟨hk, rfl⟩ := List.getElem?_eq_some_iff.mp hd
    have hmem := List.getElem_mem (l := (disassemble names {} address data).dropLast) (n := k)
      (by rw [List.length_dropLast]; omega)
    rw [List.getElem_dropLast] at hmem
    exact hcut.mp (whole_dropLast_disassemble address data _ hmem).isComplete h

theorem length_disassemble_le (address : Int) (data : List UInt8) :
    (disassemble names {} address data).length ≤ data.length := by
  refine disassemble_induction (P := fun _ data ds => ds.length ≤ data.length)
    (fun _ => Nat.le_refl 0) ?_ address data
  intro address opcode rest more ih
  rw [List.length_drop] at ih
  rw [List.length_cons, List.length_cons]
  omega

/-- **A disassembly tiles the data.**  With limits it holds the instructions that they admit. -/
theorem disassembly_tiles (names : AddressNames) (limits : Limits) (address : Int)
    (data : List UInt8) :
    let all := disassemble names {} address data
    disassemble names limits address data =
        (all.zipIdx.filter fun x => limits.Admits x.2 (offsetOf all x.2)).map Prod.fst ∧
      all.flatMap (·.raw) = data ∧ all.length ≤ data.length ∧
      ∀ k d, all[k]? = some d → Tiles names address data all k d := by
  intro all
  refine ⟨?_, flatMap_raw_disassemble address data, length_disassemble_le address data,
    fun k d hd => tiles_getElem hd⟩
  have hfilter := @run_eq_filter names limits 0 0 address data
  simp only [Nat.zero_add] at hfilter
  rw [disassemble, hfilter]
  congr 2
  funext x
  rw [Bool.eq_iff_iff, Limits.allow_iff, decide_eq_true_iff]
  rfl

/-- An instruction at the end of memory, a byte of data behind the wrap, and a long branch that is
cut off; with at most three bytes, the first two of them. -/
theorem disassembly_tiles_wrapped :
    let data : List UInt8 := [0xF8, 0x05, 0x68, 0xC0, 0x12]
    let all := disassemble {} {} 0xFFFE data
    ∃ d, all[2]? = some d ∧ Tiles {} 0xFFFE data all 2 d ∧ d.address = 1 ∧ d.IsCut ∧
      disassemble {} { count := some 9, maxBytes := some 3 } 0xFFFE data = all.take 2 := by
  intro data all
  obtain ⟨d, hd, hmark⟩ : ∃ d, all[2]? = some d ∧ d.operandText = "???".toList := by
    decide +kernel
  have htiles := disassembly_tiles {} { count := some 9, maxBytes := some 3 } 0xFFFE data
  have hplace := htiles.2.2.2 2 d hd
  refine ⟨d, hd, hplace, ?_, hplace.marked_iff.mp hmark, ?_⟩
  · rw [hplace.address_eq]
    decide +kernel
  · rw [htiles.1]
    decide +kernel

end Disassembly

end Cosmac
