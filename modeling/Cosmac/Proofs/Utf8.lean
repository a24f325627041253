import Cosmac.Text.Encoding

/-!
# Text through a file

Text that is written to a file as UTF-8 is read back from it (`Text.decodeUtf8_encodeUtf8`).  The
reader looks at the first byte of a character to see how many follow, and at the second to refuse
long forms and surrogates.  The bytes of a character pass these checks and give back its number, by
one lemma for each number of bytes; the rest is an induction over the text.
-/

namespace Cosmac.Text

/-! ### Bytes -/

@[simp] theorem toNat_continuation (n : Nat) : (continuation n).toNat = 0x80 + n % 64 := by
  unfold continuation
  rw [UInt8.toNat_ofNat_of_lt']
  show 0x80 + n % 64 < 256
  omega

theorem isContinuation_iff (b : UInt8) :
    isContinuation b = true ↔ 0x80 ≤ b.toNat ∧ b.toNat < 0xC0 := by
  simp [isContinuation, UInt8.le_iff_toNat_le, UInt8.lt_iff_toNat_lt]

@[simp] theorem isContinuation_continuation (n : Nat) : isContinuation (continuation n) = true := by
  rw [isContinuation_iff, toNat_continuation]
  omega

/-- The second byte refuses long forms (behind `E0` and `F0`), surrogates (behind `ED`) and what
lies beyond the last code point (behind `F4`). -/
theorem isSecond_iff (a b : UInt8) : isSecond a b = true ↔ isContinuation b = true ∧
    (a.toNat = 0xE0 → 0xA0 ≤ b.toNat) ∧ (a.toNat = 0xED → b.toNat < 0xA0) ∧
    (a.toNat = 0xF0 → 0x90 ≤ b.toNat) ∧ (a.toNat = 0xF4 → b.toNat < 0x90) := by
  simp [isSecond, UInt8.le_iff_toNat_le, UInt8.lt_iff_toNat_lt, ← UInt8.toNat_inj, and_assoc,
    Decidable.imp_iff_not_or]

/-- A continuation byte carries the six bits that its number had lost. -/
theorem div_mul_add_continuation (n : Nat) : n / 64 * 64 + (continuation n).toNat % 64 = n := by
  rw [toNat_continuation]
  omega

/-! ### Reading one character -/

section Character

variable {n : Nat} (position : Nat) (rest : List UInt8)

/-- One byte is an ASCII character. -/
theorem decodeUtf8From_one (h : n < 0x80) :
    decodeUtf8From position (UInt8.ofNat n :: rest)
      = (Char.ofNat n :: ·) <$> decodeUtf8From (position + 1) rest := by
  have hfirst : (UInt8.ofNat n).toNat = n := UInt8.toNat_ofNat_of_lt' (Nat.lt_trans h (by decide))
  conv => lhs; unfold decodeUtf8From
  simp only [UInt8.lt_iff_toNat_lt, UInt8.reduceToNat, hfirst]
  rw [if_pos h]

/-- Two bytes hold eleven bits. -/
theorem decodeUtf8From_two (hle : 0x80 ≤ n) (hlt : n < 0x800) :
    decodeUtf8From position (UInt8.ofNat (0xC0 + n / 64) :: continuation n :: rest)
      = (Char.ofNat n :: ·) <$> decodeUtf8From (position + 2) rest := by
  have hfirst : (UInt8.ofNat (0xC0 + n / 64)).toNat = 0xC0 + n / 64 :=
    UInt8.toNat_ofNat_of_lt' (show 0xC0 + n / 64 < 256 by omega)
  have hbits : ofBits (n / 64) [continuation n] = Char.ofNat n := by
    simp only [ofBits, List.foldl_cons, List.foldl_nil, div_mul_add_continuation]
  conv => lhs; unfold decodeUtf8From
  simp only [UInt8.lt_iff_toNat_lt, UInt8.reduceToNat, hfirst, isContinuation_continuation,
    Bool.not_true, Bool.false_eq_true, if_false]
  rw [if_neg (by omega), if_neg (by omega), if_pos (by omega), Nat.add_sub_cancel_left, hbits]

/-- Three bytes hold sixteen bits; the second byte passes, since the number is no surrogate. -/
theorem decodeUtf8From_three (hle : 0x800 ≤ n) (hlt : n < 0x10000)
    (hvalid : n < 0xD800 ∨ 0xDFFF < n) :
    decodeUtf8From position
        (UInt8.ofNat (0xE0 + n / 4096) :: continuation (n / 64) :: continuation n :: rest)
      = (Char.ofNat n :: ·) <$> decodeUtf8From (position + 3) rest := by
  have hfirst : (UInt8.ofNat (0xE0 + n / 4096)).toNat = 0xE0 + n / 4096 :=
    UInt8.toNat_ofNat_of_lt' (show 0xE0 + n / 4096 < 256 by omega)
  have hsecond : isSecond (UInt8.ofNat (0xE0 + n / 4096)) (continuation (n / 64)) = true := by
    rw [isSecond_iff, hfirst, toNat_continuation]
    exact ⟨isContinuation_continuation _, by omega⟩
  have hbits : ofBits (n / 4096) [continuation (n / 64), continuation n] = Char.ofNat n := by
    rw [show n / 4096 = n / 64 / 64 by omega]
    simp only [ofBits, List.foldl_cons, List.foldl_nil, div_mul_add_continuation]
  conv => lhs; unfold decodeUtf8From
  simp only [UInt8.lt_iff_toNat_lt, UInt8.reduceToNat, hfirst, hsecond,
    isContinuation_continuation, Bool.not_true, Bool.false_eq_true, if_false]
  rw [if_neg (by omega), if_neg (by omega), if_neg (by omega), if_pos (by omega),
    Nat.add_sub_cancel_left, hbits]

/-- Four bytes hold the numbers up to the last code point. -/
theorem decodeUtf8From_four (hle : 0x10000 ≤ n) (hlt : n < 0x110000) :
    decodeUtf8From position
        (UInt8.ofNat (0xF0 + n / 262144) :: continuation (n / 4096) :: continuation (n / 64) ::
          continuation n :: rest)
      = (Char.ofNat n :: ·) <$> decodeUtf8From (position + 4) rest := by
  have hfirst : (UInt8.ofNat (0xF0 + n / 262144)).toNat = 0xF0 + n / 262144 :=
    UInt8.toNat_ofNat_of_lt' (show 0xF0 + n / 262144 < 256 by omega)
  have hsecond : isSecond (UInt8.ofNat (0xF0 + n / 262144)) (continuation (n / 4096)) = true := by
    rw [isSecond_iff, hfirst, toNat_continuation]
    exact ⟨isContinuation_continuation _, by omega⟩
  have hbits : ofBits (n / 262144) [continuation (n / 4096), continuation (n / 64), continuation n]
      = Char.ofNat n := by
    rw [show n / 262144 = n / 64 / 64 / 64 by omega, show n / 4096 = n / 64 / 64 by omega]
    simp only [ofBits, List.foldl_cons, List.foldl_nil, div_mul_add_continuation]
  conv => lhs; unfold decodeUtf8From
  simp only [UInt8.lt_iff_toNat_lt, UInt8.reduceToNat, hfirst, hsecond,
    isContinuation_continuation, Bool.not_true, Bool.false_eq_true, if_false]
  rw [if_neg (by omega), if_neg (by omega), if_neg (by omega), if_neg (by omega),
    if_pos (by omega), Nat.add_sub_cancel_left, hbits]

end Character

/-- **The bytes of a character are read as this character**, whatever follows. -/
theorem decodeUtf8From_encodeChar (position : Nat) (c : Char) (rest : List UInt8) :
    ∃ next, decodeUtf8From position (encodeChar c ++ rest)
      = (c :: ·) <$> decodeUtf8From next rest := by
  -- the code of a character is no surrogate and not beyond the last
  have hvalid : c.toNat < 0xD800 ∨ 0xDFFF < c.toNat ∧ c.toNat < 0x110000 := c.valid
  suffices hcode : ∃ next, decodeUtf8From position (encodeChar c ++ rest)
      = (Char.ofNat c.toNat :: ·) <$> decodeUtf8From next rest by
    rwa [Char.ofNat_toNat] at hcode
  unfold encodeChar
  dsimp only
  -- the four lengths of a sequence, by the bounds of the encoder
  by_cases h1 : c.toNat < 0x80
  · rw [if_pos h1]
    exact ⟨_, decodeUtf8From_one position rest h1⟩
  rw [if_neg h1]
  by_cases h2 : c.toNat < 0x800
  · rw [if_pos h2]
    exact ⟨_, decodeUtf8From_two position rest (Nat.le_of_not_lt h1) h2⟩
  rw [if_neg h2]
  by_cases h3 : c.toNat < 0x10000
  · rw [if_pos h3]
    exact ⟨_, decodeUtf8From_three position rest (Nat.le_of_not_lt h2) h3 (by omega)⟩
  · rw [if_neg h3]
    exact ⟨_, decodeUtf8From_four position rest (Nat.le_of_not_lt h3) (by omega)⟩

/-! ### Texts -/

/-- The text is read back from any position, which only error messages show. -/
theorem decodeUtf8From_encodeUtf8 (position : Nat) (t : Text) :
    decodeUtf8From position (encodeUtf8 t) = .ok t := by
  induction t generalizing position with
  | nil => rfl
  | cons c rest ih =>
    obtain ⟨next, hnext⟩ := decodeUtf8From_encodeChar position c (encodeUtf8 rest)
    rw [encodeUtf8, List.flatMap_cons]
    exact hnext.trans (by rw [ih]; rfl)

/-- **Text that is written as UTF-8 is read back.** -/
@[simp] theorem decodeUtf8_encodeUtf8 (t : Text) : decodeUtf8 (encodeUtf8 t) = .ok t :=
  decodeUtf8From_encodeUtf8 0 t

end Cosmac.Text
