import Cosmac.Text.Uppercase
import Mathlib.Tactic.SplitIfs

/-!
# Upper case is final

`upper_upper`: a text in upper case is its own upper case.  So a name can be stored in upper case
and looked up in upper case again, and the digits of a constant, once in upper case, are the digits
that are checked and converted.

The mapping is a table, and the proof rests on one fact about it: no code point that has another
one as its upper case is itself the upper case of anything (`lowerCodes_upperCodes`).  Both sets
are put into a number, one bit for each code point, so that the whole table is compared at once.
-/

namespace Cosmac.Text

/-- The code points of the run. -/
def CaseRun.codes (run : CaseRun) : List Nat :=
  List.range' run.first ((run.last - run.first) / run.step + 1) run.step

/-- What a run holds is one of its code points. -/
theorem CaseRun.mem_codes_of_holds {run : CaseRun} {n : Nat} (h : run.holds n = true) :
    n ∈ run.codes := by
  simp only [holds, Bool.and_eq_true, decide_eq_true_eq, beq_iff_eq] at h
  obtain ⟨⟨hfirst, hlast⟩, hmod⟩ := h
  obtain ⟨k, hk⟩ := Nat.dvd_of_mod_eq_zero hmod
  refine List.mem_range'.mpr ?_
  -- with step 0 a run holds its first code point alone
  by_cases hstep : run.step = 0
  · refine ⟨0, Nat.succ_pos _, ?_⟩
    rw [hstep, Nat.zero_mul] at hk
    omega
  · refine ⟨k, Nat.lt_succ_of_le ((Nat.le_div_iff_mul_le (by omega)).mpr ?_), by omega⟩
    rw [Nat.mul_comm]
    omega

/-- The code points with another upper case. -/
def lowerCodes : List Nat :=
  List.range' 97 26 ++ expansions.map (·.1) ++ caseRuns.flatMap CaseRun.codes

/-- The code points of those upper cases, and 0, which stands for what is no character. -/
def upperCodes : List Nat :=
  0 :: List.range' 65 26 ++ expansions.flatMap (·.2) ++
    caseRuns.flatMap fun run => run.codes.map fun (n : Nat) => (n + run.shift).toNat

/-- The number with these bits. -/
def bitsOf (codes : List Nat) : Nat := codes.foldr (fun n bits => 1 <<< n ||| bits) 0

/-- The bits of the number are the code points of the set. -/
theorem testBit_bitsOf (codes : List Nat) (n : Nat) :
    (bitsOf codes).testBit n = true ↔ n ∈ codes := by
  unfold bitsOf
  induction codes with
  | nil => simp
  | cons m codes ih =>
    rw [List.foldr_cons, Nat.testBit_or, Bool.or_eq_true, ih, Nat.one_shiftLeft,
      Nat.testBit_two_pow, List.mem_cons, decide_eq_true_eq, eq_comm]

/-- The two sets have no bit in common. -/
theorem lowerCodes_upperCodes : bitsOf lowerCodes &&& bitsOf upperCodes = 0 := by
  decide +kernel

/-- What is the upper case of something has no other upper case itself. -/
theorem not_mem_lowerCodes {n : Nat} (h : n ∈ upperCodes) : n ∉ lowerCodes := by
  intro h'
  have hbit : (bitsOf lowerCodes &&& bitsOf upperCodes).testBit n = true := by
    rw [Nat.testBit_and, (testBit_bitsOf _ n).mpr h, (testBit_bitsOf _ n).mpr h']
    rfl
  rw [lowerCodes_upperCodes, Nat.zero_testBit] at hbit
  cases hbit

/-! ### Characters -/

/-- What holds of all codes below a bound holds of the characters with such codes. -/
@[elab_as_elim]
theorem of_forall_lt {motive : Char → Prop} {bound : Nat} {c : Char} (hc : c.toNat < bound)
    (h : ∀ n < bound, motive (Char.ofNat n)) : motive c := by
  rw [← Char.ofNat_toNat c]
  exact h c.toNat hc

theorem toNat_ofNat (n : Nat) : (Char.ofNat n).toNat = n ∨ (Char.ofNat n).toNat = 0 := by
  unfold Char.ofNat
  by_cases h : n.isValidChar
  · rw [dif_pos h]
    exact Or.inl rfl
  · rw [dif_neg h]
    exact Or.inr rfl

/-- An ASCII letter becomes a capital, and any other ASCII character stays. -/
theorem toUpper_of_ascii {c : Char} (h : c.toNat < 128) :
    c.toUpper = c ∨ c.toUpper.toNat ∈ List.range' 65 26 := by
  refine of_forall_lt h ?_
  decide +kernel

theorem toUpper_of_not_mem {c : Char} (h : c.toNat < 128) (hlower : c.toNat ∉ List.range' 97 26) :
    c.toUpper = c := by
  revert hlower
  refine of_forall_lt h ?_
  decide +kernel

/-- What has no other upper case is its own. -/
theorem upperChar_of_not_mem {c : Char} (h : c.toNat ∉ lowerCodes) : upperChar c = [c] := by
  unfold lowerCodes at h
  rw [List.append_assoc, List.mem_append, List.mem_append, not_or, not_or] at h
  obtain ⟨hascii, hexpansion, hrun⟩ := h
  unfold upperChar
  split_ifs with hsmall
  · -- the ASCII characters that change are the small letters
    rw [toUpper_of_not_mem hsmall hascii]
  · have hnone : expansions.find? (·.1 == c.toNat) = none :=
      List.find?_eq_none.mpr fun e he heq =>
        hexpansion (List.mem_map.mpr ⟨e, he, beq_iff_eq.mp heq⟩)
    have hnone' : caseRuns.find? (·.holds c.toNat) = none :=
      List.find?_eq_none.mpr fun run hmem hholds =>
        hrun (List.mem_flatMap.mpr ⟨run, hmem, CaseRun.mem_codes_of_holds hholds⟩)
    unfold upperBeyondAscii
    rw [hnone, hnone']

theorem upperChar_of_mem_upperCodes {c : Char} (h : c.toNat ∈ upperCodes) : upperChar c = [c] :=
  upperChar_of_not_mem (not_mem_lowerCodes h)

theorem upperChar_ofNat {n : Nat} (h : n ∈ upperCodes) :
    upperChar (Char.ofNat n) = [Char.ofNat n] := by
  refine upperChar_of_mem_upperCodes ?_
  rcases toNat_ofNat n with hn | hn <;> rw [hn]
  · exact h
  · exact List.mem_cons_self ..

/-- The upper case of a character is in upper case. -/
theorem upperChar_of_mem {c d : Char} (h : d ∈ upperChar c) : upperChar d = [d] := by
  have hself : upperChar c = [c] → upperChar d = [d] := by
    intro hc
    rw [hc] at h
    rwa [List.mem_singleton.mp h]
  -- either `c` is its own upper case, or `d` stands in the table
  by_cases hsmall : c.toNat < 128
  · have hupper : upperChar c = [c.toUpper] := if_pos hsmall
    rcases toUpper_of_ascii hsmall with hsame | hcapital
    · exact hself (by rw [hupper, hsame])
    · rw [hupper] at h
      rw [List.mem_singleton.mp h]
      exact upperChar_of_mem_upperCodes
        (List.mem_append_left _ (List.mem_append_left _ (List.mem_cons_of_mem _ hcapital)))
  · have hupper : upperChar c = upperBeyondAscii c := if_neg hsmall
    rw [hupper] at h hself
    unfold upperBeyondAscii at h hself
    cases hexpansion : expansions.find? (·.1 == c.toNat) with
    | some e =>
      -- what a character expands to stands in the table
      rw [hexpansion] at h
      obtain ⟨n, hn, rfl⟩ := List.mem_map.mp h
      refine upperChar_ofNat (List.mem_append_left _ (List.mem_append_right _ ?_))
      exact List.mem_flatMap.mpr ⟨e, List.mem_of_find?_eq_some hexpansion, hn⟩
    | none =>
      rw [hexpansion] at h hself
      cases hrun : caseRuns.find? (·.holds c.toNat) with
      | some run =>
        -- a character of a run is shifted into the upper cases of the run
        rw [hrun] at h
        have hholds := List.find?_some hrun
        rw [List.mem_singleton.mp h]
        refine upperChar_ofNat (List.mem_append_right _ (List.mem_flatMap.mpr ⟨run, ?_, ?_⟩))
        · exact List.mem_of_find?_eq_some hrun
        · exact List.mem_map.mpr ⟨_, CaseRun.mem_codes_of_holds hholds, rfl⟩
      | none =>
        -- a character outside the table is its own upper case
        rw [hrun] at hself
        exact hself rfl

/-- No character vanishes. -/
theorem upperChar_ne_nil (c : Char) : upperChar c ≠ [] := by
  have hexpansions : ∀ e ∈ expansions, e.2 ≠ [] := by decide +kernel
  unfold upperChar
  split_ifs
  · exact List.cons_ne_nil _ _
  · unfold upperBeyondAscii
    cases hexpansion : expansions.find? (·.1 == c.toNat) with
    | some e =>
      exact fun h => hexpansions e (List.mem_of_find?_eq_some hexpansion) (List.map_eq_nil_iff.mp h)
    | none =>
      cases caseRuns.find? (·.holds c.toNat) with
      | some run => exact List.cons_ne_nil _ _
      | none => exact List.cons_ne_nil _ _

/-- Only the empty text has an empty upper case. -/
theorem upper_eq_nil {t : Text} (h : upper t = []) : t = [] := by
  cases t with
  | nil => rfl
  | cons c rest =>
    have hc := List.flatMap_eq_nil_iff.mp h c (List.mem_cons_self ..)
    exact absurd hc (upperChar_ne_nil c)

/-- **A text in upper case is its own upper case.** -/
@[simp] theorem upper_upper (t : Text) : upper (upper t) = upper t := by
  have hfixed : ∀ u : Text, (∀ d ∈ u, upperChar d = [d]) → upper u = u := by
    intro u
    induction u with
    | nil => exact fun _ => rfl
    | cons d rest ih =>
      intro h
      have hrest := ih fun e he => h e (List.mem_cons_of_mem _ he)
      unfold upper at hrest ⊢
      rw [List.flatMap_cons, h d (List.mem_cons_self ..), hrest]
      rfl
  -- the characters of an upper case are in upper case, one by one
  refine hfixed _ fun d hd => ?_
  obtain ⟨c, _, hc⟩ := List.mem_flatMap.mp hd
  exact upperChar_of_mem hc

end Cosmac.Text
