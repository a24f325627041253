import Cosmac.Proofs.StringLiterals

/-!
# The bytes of a character

A source file has one byte for each character, and a string is meant to have one, too: the code of
the upper case, or the code of the character itself where its upper case is not one such character
(`Text.ownByte`).  What a string does emit are the low bytes of its upper case, and the upper case
of a character need neither be one character nor have a code below 256.

Of the 256 characters three differ (`Text.isSome_latinUpper?`): `ß` emits the two bytes of `SS`, and
`µ` and `ÿ`, whose upper cases lie beyond, emit the low bytes of those.
`Reading.onePerCharacter_iff` is the main statement: a string emits one byte for each character, and
the right one, if and only if none of the three occurs in it.
-/

namespace Cosmac

/-- Lists of at least one element each, put together, have one element for each only if each of them
has just one. -/
theorem flatMap_eq_map_iff {α β : Type} {g : α → List β} {f : α → β} (hg : ∀ a, g a ≠ [])
    (l : List α) : l.flatMap g = l.map f ↔ ∀ a ∈ l, g a = [f a] := by
  have hlength : ∀ l : List α, l.length ≤ (l.flatMap g).length := by
    intro l
    induction l with
    | nil => exact Nat.zero_le _
    | cons a rest ih =>
      have hpos := List.length_pos_of_ne_nil (hg a)
      rw [List.flatMap_cons, List.length_append, List.length_cons]
      omega
  induction l with
  | nil => simp
  | cons a rest ih =>
    rw [List.flatMap_cons, List.map_cons, List.forall_mem_cons]
    constructor
    · intro h
      obtain ⟨b, more, hb⟩ := List.exists_cons_of_ne_nil (hg a)
      rw [hb, List.cons_append] at h
      obtain ⟨rfl, hrest⟩ := List.cons.inj h
      -- nothing is left for a second element
      have hle := hlength rest
      have hsum := congrArg List.length hrest
      rw [List.length_append, List.length_map] at hsum
      obtain rfl : more = [] := List.eq_nil_of_length_eq_zero (by omega)
      exact ⟨hb, ih.mp hrest⟩
    · rintro ⟨ha, hrest⟩
      rw [ha, ih.mpr hrest]
      rfl

namespace Text

/-- The text can stand in a source file: every character has a code below 256. -/
def IsLatin1 (s : Text) : Prop := ∀ c ∈ s, c.toNat < 0x100

instance (s : Text) : Decidable s.IsLatin1 := List.decidableBAll _ s

/-- The upper case of a character, where it is a single one with a code below 256. -/
def latinUpper? (c : Char) : Option Char :=
  match upperChar c with
  | [u] => if u.toNat < 0x100 then some u else none
  | _ => none

theorem upperChar_of_latinUpper? {c u : Char} (h : latinUpper? c = some u) : upperChar c = [u] := by
  unfold latinUpper? at h
  split at h
  · rename_i hupper
    rw [hupper, Option.some.inj (Option.ite_none_right_eq_some.mp h).2]
  · cases h

/-- Of the characters of a source file all but three have such an upper case. -/
theorem isSome_latinUpper? {c : Char} (h : c.toNat < 0x100) :
    (latinUpper? c).isSome ↔
      c ≠ Char.ofNat 0xB5 ∧ c ≠ Char.ofNat 0xDF ∧ c ≠ Char.ofNat 0xFF := by
  refine of_forall_lt h ?_
  decide +kernel

/-- The byte of a character in a string that has one for each: the code of its upper case if that is
a single character with a code below 256, else its own code. -/
def ownByte (c : Char) : UInt8 := UInt8.ofNat ((latinUpper? c).getD c).toNat

/-- The bytes that a character with a code below 256 emits. -/
def emitted (c : Char) : List UInt8 :=
  if c = Char.ofNat 0xB5 then [0x9C]
  else if c = Char.ofNat 0xDF then [0x53, 0x53]
  else if c = Char.ofNat 0xFF then [0x78]
  else [ownByte c]

theorem emitted_ne_nil (c : Char) : emitted c ≠ [] := by
  unfold emitted
  split_ifs <;> exact List.cons_ne_nil _ _

theorem emitted_eq_iff (c : Char) :
    emitted c = [ownByte c] ↔
      c ≠ Char.ofNat 0xB5 ∧ c ≠ Char.ofNat 0xDF ∧ c ≠ Char.ofNat 0xFF := by
  unfold emitted
  split_ifs with hmicro hsharp hdiaeresis
  · subst hmicro
    decide
  · subst hsharp
    decide
  · subst hdiaeresis
    decide
  · exact ⟨fun _ => ⟨hmicro, hsharp, hdiaeresis⟩, fun _ => rfl⟩

end Text

namespace Reading

theorem lowBytes_upperChar {c : Char} (h : c.toNat < 0x100) :
    lowBytes (Text.upperChar c) = Text.emitted c := by
  unfold Text.emitted
  split_ifs with hmicro hsharp hdiaeresis
  · subst hmicro
    decide
  · subst hsharp
    decide
  · subst hdiaeresis
    decide
  · obtain ⟨u, hu⟩ := Option.isSome_iff_exists.mp
      ((Text.isSome_latinUpper? h).mpr ⟨hmicro, hsharp, hdiaeresis⟩)
    unfold Text.ownByte lowBytes
    rw [Text.upperChar_of_latinUpper? hu, hu, List.map_singleton, byte_natCast]
    rfl

theorem lowBytes_upper {s : Text} (h : s.IsLatin1) :
    lowBytes s.upper = s.flatMap Text.emitted := by
  unfold Text.upper lowBytes
  rw [List.map_flatMap]
  exact List.flatMap_congr fun c hc => lowBytes_upperChar (h c hc)

/-- The code has one byte for each character of the string, and the right one. -/
structure OnePerCharacter (s : Text) (code : List UInt8) : Prop where
  /-- There are as many bytes as characters. -/
  length : code.length = s.length
  /-- Each byte is that of its character. -/
  byte : ∀ i < s.length, code[i]? = s[i]?.map Text.ownByte

instance (s : Text) (code : List UInt8) : Decidable (OnePerCharacter s code) :=
  decidable_of_iff (code.length = s.length ∧ ∀ i < s.length, code[i]? = s[i]?.map Text.ownByte)
    ⟨fun h => ⟨h.1, h.2⟩, fun h => ⟨h.length, h.byte⟩⟩

theorem onePerCharacter_iff_map {s : Text} {code : List UInt8} :
    OnePerCharacter s code ↔ code = s.map Text.ownByte := by
  constructor
  · intro h
    refine List.ext_getElem? fun i => ?_
    rw [List.getElem?_map]
    by_cases hi : i < s.length
    · exact h.byte i hi
    · rw [List.getElem?_eq_none (by rw [h.length]; omega), List.getElem?_eq_none (by omega)]
      rfl
  · rintro rfl
    exact ⟨List.length_map .., fun i _ => List.getElem?_map ..⟩

/-- **A string emits one byte for each character exactly without `µ`, `ß` and `ÿ`.**  It is accepted
in any case; `ß` emits two bytes, `µ` and `ÿ` emit bytes of other characters, and every other
character of a source file emits its own byte. -/
theorem onePerCharacter_iff (c : Context) (s : Text) (hne : s ≠ []) (hlatin : s.IsLatin1) :
    (ofText c ("DC ".toList ++ s.literal)).status = .data ∧
    (ofText c ("DC ".toList ++ s.literal)).code = s.flatMap Text.emitted ∧
    (OnePerCharacter s (ofText c ("DC ".toList ++ s.literal)).code ↔
      Char.ofNat 0xB5 ∉ s ∧ Char.ofNat 0xDF ∉ s ∧ Char.ofNat 0xFF ∉ s) := by
  have hsingle : dataOf [s] = "DC ".toList ++ s.literal :=
    congrArg ("DC ".toList ++ ·) List.intercalate_singleton
  obtain ⟨hstatus, hcode⟩ := code_dataOf c (List.cons_ne_nil s [])
    (List.forall_mem_singleton.mpr hne)
  rw [List.flatMap_singleton, lowBytes_upper hlatin] at hcode
  rw [hsingle] at hstatus hcode
  refine ⟨hstatus, hcode, ?_⟩
  rw [hcode, onePerCharacter_iff_map, flatMap_eq_map_iff Text.emitted_ne_nil]
  constructor
  · intro h
    have hother := fun char hchar => (Text.emitted_eq_iff char).mp (h char hchar)
    exact ⟨fun hmem => (hother _ hmem).1 rfl, fun hmem => (hother _ hmem).2.1 rfl,
      fun hmem => (hother _ hmem).2.2 rfl⟩
  · rintro ⟨hmicro, hsharp, hdiaeresis⟩ char hchar
    refine (Text.emitted_eq_iff char).mpr ⟨?_, ?_, ?_⟩
    · exact fun h => hmicro (h ▸ hchar)
    · exact fun h => hsharp (h ▸ hchar)
    · exact fun h => hdiaeresis (h ▸ hchar)

/-- Small letters with and without an accent, and a quote between them. -/
theorem onePerCharacter_iff_accent :
    "é'z".toList ≠ [] ∧ Text.IsLatin1 "é'z".toList ∧
    OnePerCharacter "é'z".toList (ofText {} "DC T'é''z'".toList).code := by
  have hne : "é'z".toList ≠ [] := by decide
  have hlatin : Text.IsLatin1 "é'z".toList := by decide
  exact ⟨hne, hlatin, (onePerCharacter_iff {} "é'z".toList hne hlatin).2.2.mpr (by decide)⟩

/-- One `ß` emits two bytes. -/
theorem not_onePerCharacter_sharp_s :
    "ß".toList ≠ [] ∧ Text.IsLatin1 "ß".toList ∧
    (ofText {} "DC T'ß'".toList).code = [0x53, 0x53] ∧
    ¬ OnePerCharacter "ß".toList (ofText {} "DC T'ß'".toList).code := by
  decide +kernel

end Reading

end Cosmac
