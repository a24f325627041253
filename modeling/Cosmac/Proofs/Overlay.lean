import Cosmac.Proofs.Memory
import Mathlib.Data.List.Chain
import Mathlib.Order.Bounds.Defs

/-!
# Code laid over code

An image is built by adding code piece by piece, in any order and at any addresses
(`Image.ofEmissions`).  Only code that continues the last chunk is joined to it, so pieces may
overlap, go backwards or leave gaps.  Main facts:

* `Image.joined_ofEmissions`: chunks are never empty, and none continues the one before it;
* `Image.covers_ofEmissions`: the chunks cover the addresses that the pieces cover;
* `Image.isLeast_start`, `Image.isGreatest_stop`: the flat image runs from the first to the last of
  these addresses;
* `Image.flatten_isOverlay`: at each of its addresses it has the byte of the last piece that covers
  it, and `fill` if none does.
-/

namespace Cosmac

/-! ### Covered addresses -/

namespace Chunk

/-- One of the bytes stands at the address. -/
def Covers (c : Chunk) (n : Int) : Prop := c.address ≤ n ∧ n < c.stop

instance (c : Chunk) (n : Int) : Decidable (c.Covers n) :=
  inferInstanceAs (Decidable (_ ∧ _))

/-- An address is covered exactly if a byte is placed there. -/
theorem covers_iff_mem_placed {c : Chunk} {n : Int} :
    c.Covers n ↔ ∃ entry ∈ c.placed, entry.1 = n := by
  constructor
  · rintro ⟨hlow, hhigh⟩
    have hbound : (n - c.address).toNat < c.bytes.length := by
      unfold stop at hhigh
      omega
    refine ⟨_, List.mem_mapIdx.mpr ⟨(n - c.address).toNat, hbound, rfl⟩, ?_⟩
    dsimp only
    omega
  · rintro ⟨entry, hentry, rfl⟩
    exact mem_placed hentry

theorem covers_address {c : Chunk} (h : c.bytes ≠ []) : c.Covers c.address := by
  have hlength := List.length_pos_iff.mpr h
  unfold Covers stop
  omega

theorem covers_last {c : Chunk} (h : c.bytes ≠ []) : c.Covers (c.stop - 1) := by
  have hlength := List.length_pos_iff.mpr h
  unfold Covers stop
  omega

end Chunk

/-- Of the pieces of code, the last that covers the address has the byte there. -/
def LastPut (emissions : List Chunk) (n : Int) (b : UInt8) : Prop :=
  ∃ front e back, emissions = front ++ e :: back ∧
    e.Covers n ∧ e.bytes[(n - e.address).toNat]? = some b ∧ ∀ later ∈ back, ¬ later.Covers n

section LastPut

variable {emissions : List Chunk} {n : Int}

theorem not_covers_of_lastByte (h : lastByte (· == n) (emissions.flatMap Chunk.placed) = none) :
    ∀ e ∈ emissions, ¬ e.Covers n := by
  intro e he hcovers
  obtain ⟨entry, hentry, hn⟩ := Chunk.covers_iff_mem_placed.mp hcovers
  have hno := lastByte_eq_none_iff.mp h entry (List.mem_flatMap.mpr ⟨e, he, hentry⟩)
  exact ne_of_beq_false hno hn

/-- The last byte at an address belongs to the last piece that covers it. -/
theorem lastPut_of_lastByte {b : UInt8}
    (h : lastByte (· == n) (emissions.flatMap Chunk.placed) = some b) : LastPut emissions n b := by
  induction emissions with
  | nil => cases h
  | cons e rest ih =>
    rw [List.flatMap_cons, lastByte_append, Option.or_eq_some_iff] at h
    rcases h with hlater | ⟨hnone, hhere⟩
    · -- a later piece covers the address
      obtain ⟨front, e', back, rfl, hlast⟩ := ih hlater
      exact ⟨e :: front, e', back, rfl, hlast⟩
    · -- this piece is the last to cover it
      refine ⟨[], e, rest, rfl, ?_, ?_, not_covers_of_lastByte hnone⟩
      · obtain ⟨front, m, back, hplaced, hm, _⟩ := lastByte_eq_some_iff.mp hhere
        have hmem : (m, b) ∈ e.placed := by simp [hplaced]
        exact Chunk.covers_iff_mem_placed.mpr ⟨_, hmem, beq_iff_eq.mp hm⟩
      · rw [Image.lastByte_placed, Option.ite_none_left_eq_some] at hhere
        exact hhere.2

end LastPut

namespace Image

/-! ### Chunks -/

/-- No chunk is empty, and none starts where the one before it stops. -/
structure Joined (image : Image) : Prop where
  nonempty : ∀ c ∈ image.chunks, c.bytes ≠ []
  apart : image.chunks.IsChain fun c next => c.stop ≠ next.address

theorem joined_emit {image : Image} (h : image.Joined) (address : Int) (code : List UInt8) :
    (image.emit address code).Joined := by
  unfold emit
  split_ifs with hempty
  · exact h
  · have hcode : code ≠ [] := by simpa using hempty
    have hnonempty := h.nonempty
    have hapart := h.apart
    rcases push_cases ⟨address, code⟩ image.chunks with
      ⟨hnew, hlast⟩ | ⟨front, last, hsplit, hstop, hjoin⟩
    · -- the code does not continue the last chunk, so it is a new one
      constructor
      · rw [hnew]
        simpa [hcode, or_imp, forall_and] using hnonempty
      · rw [hnew, List.isChain_append]
        exact ⟨hapart, List.isChain_singleton _, by simpa using hlast⟩
    · -- the last chunk grows, and still starts where it did
      rw [hsplit] at hnonempty hapart
      constructor
      · rw [hjoin]
        simpa [hcode, or_imp, forall_and] using fun c hc => hnonempty c (List.mem_append_left _ hc)
      · rw [List.isChain_append] at hapart
        rw [hjoin, List.isChain_append]
        exact ⟨hapart.1, List.isChain_singleton _, by simpa using hapart.2.2⟩

theorem joined_ofEmissions (emissions : List Chunk) : (ofEmissions emissions).Joined := by
  induction emissions using List.reverseRecOn with
  | nil => exact ⟨by simp [ofEmissions], List.isChain_nil⟩
  | append_singleton emissions e ih =>
    rw [ofEmissions_concat]
    exact joined_emit ih e.address e.bytes

/-- There are no chunks exactly if no code was added. -/
theorem chunks_ofEmissions_eq_nil_iff (emissions : List Chunk) :
    (ofEmissions emissions).chunks = [] ↔ ∀ e ∈ emissions, e.bytes = [] := by
  have hbytes := flatMap_ofEmissions emissions
  constructor
  · intro h
    rw [h, List.flatMap_nil] at hbytes
    exact List.flatMap_eq_nil_iff.mp hbytes.symm
  · intro h
    rw [List.flatMap_eq_nil_iff.mpr h, List.flatMap_eq_nil_iff] at hbytes
    refine List.eq_nil_iff_forall_not_mem.mpr fun c hc => ?_
    exact (joined_ofEmissions emissions).nonempty c hc (hbytes c hc)

/-! ### Bounds -/

/-- Joining chunks covers no address that was not covered, and leaves none out. -/
theorem covers_ofEmissions {emissions : List Chunk} {n : Int} :
    (∃ c ∈ (ofEmissions emissions).chunks, c.Covers n) ↔ ∃ e ∈ emissions, e.Covers n := by
  have hcovers : ∀ chunks : List Chunk,
      (∃ c ∈ chunks, c.Covers n) ↔ ∃ entry ∈ chunks.flatMap Chunk.placed, entry.1 = n := by
    intro chunks
    simp only [Chunk.covers_iff_mem_placed, List.mem_flatMap]
    tauto
  rw [hcovers emissions, ← placed_ofEmissions]
  exact hcovers _

variable {image : Image}

/-- The flat image starts at the first covered address. -/
theorem isLeast_start (h : image.Joined) (hne : image.chunks ≠ []) :
    IsLeast {n | ∃ c ∈ image.chunks, c.Covers n} image.start := by
  constructor
  · rw [start_eq]
    cases hleast : (image.chunks.map Chunk.address).min? with
    | none => exact absurd (List.map_eq_nil_iff.mp (List.min?_eq_none_iff.mp hleast)) hne
    | some least =>
      obtain ⟨c, hc, rfl⟩ := List.mem_map.mp (List.min?_eq_some_iff.mp hleast).1
      exact ⟨c, hc, Chunk.covers_address (h.nonempty c hc)⟩
  · rintro n ⟨c, hc, hcovers⟩
    exact Int.le_trans (start_le hc) hcovers.1

/-- The flat image stops behind the last covered address. -/
theorem isGreatest_stop (h : image.Joined) (hne : image.chunks ≠ []) :
    IsGreatest {n | ∃ c ∈ image.chunks, c.Covers n} (image.stop - 1) := by
  constructor
  · rw [stop_eq]
    cases hgreatest : (image.chunks.map Chunk.stop).max? with
    | none => exact absurd (List.map_eq_nil_iff.mp (List.max?_eq_none_iff.mp hgreatest)) hne
    | some greatest =>
      obtain ⟨c, hc, rfl⟩ := List.mem_map.mp (List.max?_eq_some_iff.mp hgreatest).1
      exact ⟨c, hc, Chunk.covers_last (h.nonempty c hc)⟩
  · rintro n ⟨c, hc, hcovers⟩
    exact Int.le_sub_one_of_lt (Int.lt_of_lt_of_le hcovers.2 (le_stop hc))

/-! ### The flat image -/

theorem length_foldl_overlay {start : Int} {chunks : List Chunk} {bytes : List UInt8}
    (h : ∀ c ∈ chunks, start ≤ c.address ∧ c.stop ≤ start + bytes.length) :
    (chunks.foldl (fun bytes c => overlay bytes (c.address - start).toNat c.bytes) bytes).length
      = bytes.length := by
  induction chunks generalizing bytes with
  | nil => rfl
  | cons c rest ih =>
    have hroom := fits_of_bounds (h c (List.mem_cons_self ..))
    rw [List.foldl_cons, ih, length_overlay hroom]
    rw [length_overlay hroom]
    exact fun c' hc' => h c' (List.mem_cons_of_mem _ hc')

theorem start_le_stop (image : Image) : image.start ≤ image.stop := by
  cases hchunks : image.chunks with
  | nil => simp [start, stop, hchunks]
  | cons c rest =>
    have hc : c ∈ image.chunks := by simp [hchunks]
    have hlow := start_le hc
    have hhigh := le_stop hc
    unfold Chunk.stop at hhigh
    omega

/-- The flat image has a byte for every address between its bounds. -/
theorem length_flatten (image : Image) (fill : Int) :
    ((image.flatten fill).length : Int) = image.stop - image.start := by
  have hbounds := start_le_stop image
  unfold flatten
  rw [length_foldl_overlay (bounds_of_mem fill), List.length_replicate]
  omega

/-- The byte at an address is that of the last piece which covers it, else `fill`. -/
theorem getElem_flatten_of_placed {emissions : List Chunk}
    (hplaced : image.placed = emissions.flatMap Chunk.placed) (fill : Int) (i : Nat)
    (h : i < (image.flatten fill).length) :
    LastPut emissions (image.start + i) (image.flatten fill)[i] ∨
      (∀ e ∈ emissions, ¬ e.Covers (image.start + i)) ∧ (image.flatten fill)[i] = byte fill := by
  have hlength := length_flatten image fill
  have hbyte := getElem?_flatten image fill (n := image.start + i) (by omega) (by omega)
  have hindex : (image.start + i - image.start).toNat = i := by omega
  rw [hindex, List.getElem?_eq_getElem h, Option.some.injEq, hplaced] at hbyte
  rw [hbyte]
  cases hlast : lastByte (· == image.start + (i : Int)) (emissions.flatMap Chunk.placed) with
  | none => exact Or.inr ⟨not_covers_of_lastByte hlast, rfl⟩
  | some b => exact Or.inl (lastPut_of_lastByte hlast)

/-- **The flat image is its pieces laid over one another.**  Without code it is empty.  With code it
runs from the least to the greatest address that a piece covers, and each of its bytes is that of
the last piece which covers the address, or `fill` where none does.  The chunks are joined, and hold
the bytes of all pieces in order. -/
theorem flatten_isOverlay (emissions : List Chunk) (fill : Int) :
    let image := ofEmissions emissions
    let covered := {n | ∃ e ∈ emissions, e.Covers n}
    ((∀ e ∈ emissions, e.bytes = []) → image.flatten fill = []) ∧
    ((∃ e ∈ emissions, e.bytes ≠ []) →
      IsLeast covered image.start ∧ IsGreatest covered (image.stop - 1)) ∧
    ((image.flatten fill).length : Int) = image.stop - image.start ∧
    (∀ (i : Nat) (_ : i < (image.flatten fill).length),
      LastPut emissions (image.start + i) (image.flatten fill)[i] ∨
        (∀ e ∈ emissions, ¬ e.Covers (image.start + i)) ∧
          (image.flatten fill)[i] = byte fill) ∧
    image.Joined ∧
    image.chunks.flatMap (·.bytes) = emissions.flatMap (·.bytes) := by
  intro image covered
  have hjoined : image.Joined := joined_ofEmissions emissions
  have hcovered : {n | ∃ c ∈ image.chunks, c.Covers n} = covered :=
    Set.ext fun _ => covers_ofEmissions
  refine ⟨fun h => ?_, fun ⟨e, he, hne⟩ => ?_, length_flatten image fill,
    getElem_flatten_of_placed (placed_ofEmissions emissions) fill, hjoined,
    flatMap_ofEmissions emissions⟩
  · have hchunks : image.chunks = [] := (chunks_ofEmissions_eq_nil_iff emissions).mpr h
    simp [flatten, start, stop, hchunks]
  · have hchunks : image.chunks ≠ [] := fun h =>
      hne ((chunks_ofEmissions_eq_nil_iff emissions).mp h e he)
    rw [← hcovered]
    exact ⟨isLeast_start hjoined hchunks, isGreatest_stop hjoined hchunks⟩

/-- A second piece joined to the first, a third laid over both, and a fourth below them. -/
theorem flatten_isOverlay_backwards :
    let emissions : List Chunk := [⟨5, [1, 2]⟩, ⟨7, [3]⟩, ⟨6, [9]⟩, ⟨2, [7]⟩]
    (ofEmissions emissions).chunks = [⟨5, [1, 2, 3]⟩, ⟨6, [9]⟩, ⟨2, [7]⟩] ∧
      (ofEmissions emissions).flatten 0x1FF = [7, 0xFF, 0xFF, 1, 9, 3] ∧
      IsLeast {n | ∃ e ∈ emissions, e.Covers n} 2 ∧
      IsGreatest {n | ∃ e ∈ emissions, e.Covers n} 7 := by
  intro emissions
  have hbounds := (flatten_isOverlay emissions 0x1FF).2.1
    ⟨⟨5, [1, 2]⟩, List.mem_cons_self .., by decide⟩
  exact ⟨by decide, by decide, hbounds⟩

end Image

end Cosmac
