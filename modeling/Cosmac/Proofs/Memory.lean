import Cosmac.Proofs.HexFile
import Cosmac.Proofs.Images
import Mathlib.Tactic.SplitIfs

/-!
# The memory that the files of a program describe

The file in Intel HEX and the binary image are both made of the chunks of the image, and both let
the later of two bytes at one address count (`lastByte`).  They differ in what one address is: the
file takes addresses modulo 65536 (`IntelHex.load?_image`), the binary image takes them as they
are (`Image.getElem?_flatten`).  A chunk may go on beyond the highest address, since the location
counter wraps only between statements.

So the two files describe the same memory except where code runs over the top, and
`Assembler.filesAgree_iff_wrapsHarmlessly` says exactly when they do: if each byte beyond the top
happens to stand in the binary image also at the address to which it wraps.
-/

namespace Cosmac

/-! ### The last byte at an address -/

/-- Of bytes with their addresses, the last whose address satisfies `p`. -/
def lastByte (p : Int → Bool) : List (Int × UInt8) → Option UInt8
  | [] => none
  | (n, b) :: rest => (lastByte p rest).or (if p n then some b else none)

section LastByte

variable {p : Int → Bool} {placed : List (Int × UInt8)}

@[simp] theorem lastByte_append (more : List (Int × UInt8)) :
    lastByte p (placed ++ more) = (lastByte p more).or (lastByte p placed) := by
  induction placed with
  | nil => simp [lastByte]
  | cons entry rest ih =>
    obtain ⟨n, b⟩ := entry
    rw [List.cons_append, lastByte, lastByte, ih, Option.or_assoc]

theorem lastByte_eq_none_iff :
    lastByte p placed = none ↔ ∀ entry ∈ placed, p entry.1 = false := by
  induction placed with
  | nil => simp [lastByte]
  | cons entry rest ih => simp [lastByte, ih, and_comm]

/-- The last byte at an address is there, and none of the bytes behind it has the address. -/
theorem lastByte_eq_some_iff {b : UInt8} :
    lastByte p placed = some b ↔ ∃ front n back,
      placed = front ++ (n, b) :: back ∧ p n = true ∧ ∀ entry ∈ back, p entry.1 = false := by
  constructor
  · intro h
    induction placed with
    | nil => cases h
    | cons entry rest ih =>
      rw [lastByte, Option.or_eq_some_iff] at h
      rcases h with hlater | ⟨hnone, hhere⟩
      · -- a byte behind this one has the address
        obtain ⟨front, n, back, hsplit, hn, hback⟩ := ih hlater
        exact ⟨entry :: front, n, back, by rw [hsplit]; rfl, hn, hback⟩
      · -- this byte is the last with the address
        obtain ⟨n, b'⟩ := entry
        obtain ⟨hn, hb⟩ := Option.ite_none_right_eq_some.mp hhere
        obtain rfl := Option.some.inj hb
        exact ⟨[], n, rest, rfl, hn, lastByte_eq_none_iff.mp hnone⟩
  · rintro ⟨front, n, back, rfl, hn, hback⟩
    rw [lastByte_append, lastByte, lastByte_eq_none_iff.mpr hback, hn]
    rfl

/-- The last byte at its address modulo 65536 is the last at the address itself. -/
theorem lastByte_own {front back : List (Int × UInt8)} {n : Int} {b : UInt8} (hword : word n = n)
    (hback : ∀ later ∈ back, word later.1 ≠ word n) :
    lastByte (· == word n) (front ++ (n, b) :: back) = some b := by
  refine lastByte_eq_some_iff.mpr ⟨front, n, back, rfl, beq_iff_eq.mpr hword.symm, ?_⟩
  intro later hlater
  refine beq_false_of_ne fun heq => hback later hlater ?_
  rw [heq, word_word]

end LastByte

@[simp] theorem Chunk.placed_cons (address : Int) (b : UInt8) (rest : List UInt8) :
    placed ⟨address, b :: rest⟩ = (address, b) :: placed ⟨address + 1, rest⟩ := by
  have happend := placed_append address [b] rest
  simpa [placed] using happend

/-- The bytes of a chunk stand between its bounds. -/
theorem Chunk.mem_placed {c : Chunk} {entry : Int × UInt8} (h : entry ∈ c.placed) :
    c.address ≤ entry.1 ∧ entry.1 < c.stop := by
  obtain ⟨k, hk, rfl⟩ := List.mem_mapIdx.mp h
  unfold stop
  dsimp only
  omega

/-! ### Loaded memory -/

/-- Written bytes replace what the memory held at their addresses. -/
@[simp] theorem Memory.write_apply (m : Memory) (address : Int) (bytes : List UInt8) (a : Int) :
    m.write address bytes a
      = (lastByte (word · == a) (Chunk.placed ⟨address, bytes⟩)).or (m a) := by
  induction bytes generalizing m address with
  | nil => rfl
  | cons b rest ih =>
    rw [write, ih, Chunk.placed_cons, lastByte, Option.or_assoc]
    congr 1
    by_cases ha : a = word address
    · simp [ha]
    · simp [ha, Ne.symm ha]

/-- **The file of an image loads, at each address, the last byte whose address is this modulo
65536.** -/
@[simp] theorem IntelHex.load?_image (image : Image) (start : Int) :
    load? (render image.chunks start)
      = some fun a => lastByte (word · == a) image.placed := by
  have hfold : ∀ (chunks : List Chunk) (m : Memory) (a : Int),
      chunks.foldl (fun m c => m.write c.address c.bytes) m a
        = (lastByte (word · == a) (chunks.flatMap Chunk.placed)).or (m a) := by
    intro chunks
    induction chunks with
    | nil =>
      intro m a
      simp [lastByte]
    | cons c rest ih =>
      intro m a
      rw [List.foldl_cons, ih, Memory.write_apply, List.flatMap_cons, lastByte_append,
        Option.or_assoc]
  rw [load?_render]
  congr 1
  funext a
  rw [hfold]
  exact Option.or_none

/-! ### The flat image -/

namespace Image

theorem start_eq (image : Image) :
    image.start = (image.chunks.map Chunk.address).min?.getD 0 := by
  unfold start
  cases image.chunks with
  | nil => rfl
  | cons chunk rest =>
    rw [List.map_cons, List.min?_cons', List.foldl_map]
    rfl

theorem stop_eq (image : Image) : image.stop = (image.chunks.map Chunk.stop).max?.getD 0 := by
  unfold stop
  cases image.chunks with
  | nil => rfl
  | cons chunk rest =>
    rw [List.map_cons, List.max?_cons', List.foldl_map]
    rfl

variable {image : Image}

theorem start_le {c : Chunk} (h : c ∈ image.chunks) : image.start ≤ c.address := by
  have hmem : c.address ∈ image.chunks.map Chunk.address := List.mem_map.mpr ⟨c, h, rfl⟩
  obtain ⟨least, hleast⟩ := Option.ne_none_iff_exists'.mp
    (mt List.min?_eq_none_iff.mp (List.ne_nil_of_mem hmem))
  rw [start_eq, hleast]
  exact (List.min?_eq_some_iff.mp hleast).2 _ hmem

theorem le_stop {c : Chunk} (h : c ∈ image.chunks) : c.stop ≤ image.stop := by
  have hmem : c.stop ∈ image.chunks.map Chunk.stop := List.mem_map.mpr ⟨c, h, rfl⟩
  obtain ⟨greatest, hgreatest⟩ := Option.ne_none_iff_exists'.mp
    (mt List.max?_eq_none_iff.mp (List.ne_nil_of_mem hmem))
  rw [stop_eq, hgreatest]
  exact (List.max?_eq_some_iff.mp hgreatest).2 _ hmem

theorem mem_placed {entry : Int × UInt8} (h : entry ∈ image.placed) :
    image.start ≤ entry.1 ∧ entry.1 < image.stop := by
  obtain ⟨c, hc, hentry⟩ := List.mem_flatMap.mp h
  obtain ⟨hlow, hhigh⟩ := Chunk.mem_placed hentry
  exact ⟨Int.le_trans (start_le hc) hlow, Int.lt_of_lt_of_le hhigh (le_stop hc)⟩

/-- Code at an address from 0 on wraps to one that lies no higher. -/
theorem wraps_inside (hnonneg : ∀ entry ∈ image.placed, 0 ≤ entry.1)
    {front back : List (Int × UInt8)} {n : Int} {b : UInt8}
    (hplaced : image.placed = front ++ (n, b) :: back) :
    0 ≤ n ∧ image.start ≤ n ∧ word n < image.stop := by
  have hmem : (n, b) ∈ image.placed := by
    rw [hplaced]
    exact List.mem_append_right _ (List.mem_cons_self ..)
  obtain ⟨hlow, hhigh⟩ := mem_placed hmem
  have hpos := hnonneg _ hmem
  dsimp only at hpos hlow hhigh
  refine ⟨hpos, hlow, ?_⟩
  unfold word
  omega

theorem length_overlay {bytes code : List UInt8} {offset : Nat}
    (h : offset + code.length ≤ bytes.length) :
    (overlay bytes offset code).length = bytes.length := by
  unfold overlay
  simp only [List.length_append, List.length_take, List.length_drop]
  omega

/-- Code stands over the bytes from its offset on, and leaves the others. -/
theorem getElem?_overlay {bytes code : List UInt8} {offset : Nat}
    (h : offset + code.length ≤ bytes.length) (i : Nat) :
    (overlay bytes offset code)[i]?
      = (if i < offset then none else code[i - offset]?).or bytes[i]? := by
  have hoffset : (bytes.take offset).length = offset := by
    rw [List.length_take]
    omega
  unfold overlay
  rw [List.append_assoc]
  split_ifs with hbefore
  · -- a byte in front of the code
    rw [List.getElem?_append_left (by omega), List.getElem?_take_of_lt hbefore]
    rfl
  · rw [List.getElem?_append_right (by omega), hoffset]
    by_cases hinside : i - offset < code.length
    · rw [List.getElem?_append_left hinside, List.getElem?_eq_getElem hinside]
      rfl
    · -- a byte behind the code
      rw [List.getElem?_append_right (by omega), List.getElem?_drop,
        List.getElem?_eq_none (Nat.le_of_not_lt hinside)]
      congr 1
      omega

/-- A chunk has one byte at each address between its bounds. -/
theorem lastByte_placed (c : Chunk) (n : Int) :
    lastByte (· == n) c.placed
      = if n < c.address then none else c.bytes[(n - c.address).toNat]? := by
  obtain ⟨address, bytes⟩ := c
  dsimp only
  induction bytes generalizing address with
  | nil => simp [Chunk.placed, lastByte]
  | cons b rest ih =>
    rw [Chunk.placed_cons, lastByte, ih]
    rcases Int.lt_trichotomy n address with hlt | rfl | hgt
    · simp [hlt, Int.ne_of_gt hlt, Int.lt_add_one_of_le (Int.le_of_lt hlt)]
    · simp [Int.lt_add_one_of_le (Int.le_refl n)]
    · have hplace : (n - address).toNat = (n - (address + 1)).toNat + 1 := by omega
      have hhere : (address == n) = false := beq_false_of_ne (Int.ne_of_lt hgt)
      rw [if_neg (Int.not_lt.mpr hgt), if_neg (Int.not_lt.mpr (Int.le_of_lt hgt)), hhere, hplace,
        List.getElem?_cons_succ]
      exact Option.or_none

/-- A chunk between the bounds of the bytes fits into them. -/
theorem fits_of_bounds {start : Int} {c : Chunk} {bytes : List UInt8}
    (h : start ≤ c.address ∧ c.stop ≤ start + bytes.length) :
    (c.address - start).toNat + c.bytes.length ≤ bytes.length := by
  unfold Chunk.stop at h
  omega

/-- Of chunks that are laid over one another, the last one with an address is seen there. -/
theorem getElem?_foldl_overlay {start n : Int} (hn : start ≤ n) {chunks : List Chunk}
    {bytes : List UInt8}
    (h : ∀ c ∈ chunks, start ≤ c.address ∧ c.stop ≤ start + bytes.length) :
    (chunks.foldl (fun bytes c => overlay bytes (c.address - start).toNat c.bytes)
        bytes)[(n - start).toNat]?
      = (lastByte (· == n) (chunks.flatMap Chunk.placed)).or bytes[(n - start).toNat]? := by
  induction chunks generalizing bytes with
  | nil => simp [lastByte]
  | cons c rest ih =>
    have hbounds := h c (List.mem_cons_self ..)
    have hroom := fits_of_bounds hbounds
    have hplace : (if (n - start).toNat < (c.address - start).toNat then none
        else c.bytes[(n - start).toNat - (c.address - start).toNat]?)
          = lastByte (· == n) c.placed := by
      rw [lastByte_placed]
      by_cases hbefore : n < c.address
      · rw [if_pos hbefore, if_pos (by omega)]
      · rw [if_neg hbefore, if_neg (by omega)]
        congr 1
        omega
    rw [List.foldl_cons, ih ?_, getElem?_overlay hroom, hplace, List.flatMap_cons, lastByte_append,
      Option.or_assoc]
    rw [length_overlay hroom]
    exact fun c' hc' => h c' (List.mem_cons_of_mem _ hc')

/-- All chunks lie between the bounds of the flat image. -/
theorem bounds_of_mem (fill : Int) : ∀ c ∈ image.chunks, image.start ≤ c.address ∧
    c.stop ≤ image.start
      + (List.replicate (image.stop - image.start).toNat (byte fill)).length := by
  intro c hc
  have hstop := le_stop hc
  rw [List.length_replicate]
  exact ⟨start_le hc, by omega⟩

/-- **The flat image has, at each address, the last byte with this address.** -/
theorem getElem?_flatten (image : Image) (fill : Int) {n : Int} (hlow : image.start ≤ n)
    (hhigh : n < image.stop) :
    (image.flatten fill)[(n - image.start).toNat]?
      = some ((lastByte (· == n) image.placed).getD (byte fill)) := by
  unfold flatten
  rw [getElem?_foldl_overlay hlow (bounds_of_mem fill), List.getElem?_replicate_of_lt (by omega)]
  exact Option.or_some ..

end Image

/-! ### The files of a program -/

/-- A program puts no byte below address 0. -/
theorem Assembler.nonneg_placed (s : Assembler) (lines : List Text) :
    ∀ entry ∈ (s.seed.generate lines).image.placed, 0 ≤ entry.1 := by
  have hstart : ∀ st ∈ (s.seed.load lines).layout.codeRun.1, IsWord st.start := by
    have hseed : ((s.seed.load lines).context.reset .first).InRange :=
      ⟨isWord_zero, s.inRange_seed⟩
    refine Coding.forall_run (I := Context.InRange) (Q := fun _ => True)
      (fun c layout st hc _ => ⟨?_, Coding.inRange_step hc layout st⟩)
      ⟨isWord_zero, Layout.inRange_run hseed _⟩ fun _ _ => trivial
    rw [Coding.start_step]
    exact hc.pc
  show ∀ entry ∈ (Assembly.imageOf (s.seed.load lines).layout.codeRun.1).placed, 0 ≤ entry.1
  rw [Assembly.placed_imageOf]
  intro entry hentry
  obtain ⟨st, hst, hentry⟩ := List.mem_flatMap.mp hentry
  exact Int.le_trans (hstart st hst).1 (Chunk.mem_placed hentry).1

namespace Assembler

/-- The binary image and the file in Intel HEX describe the same memory: the image holds every
address that the file loads, with the byte that the file has there. -/
def FilesAgree (a : Assembler) : Prop :=
  ∃ m, IntelHex.load? a.intelHex = some m ∧ ∀ address b, m address = some b →
    a.origin ≤ address ∧ a.code[(address - a.origin).toNat]? = some b

/-- Every byte of code beyond the highest address, unless later code takes the address to which it
wraps, stands in the binary image at that address, too: as code, or as the byte for gaps. -/
def WrapsHarmlessly (a : Assembler) : Prop :=
  ∀ front n b back, a.assembly.image.placed = front ++ (n, b) :: back → 0x10000 ≤ n →
    (∀ later ∈ back, word later.1 ≠ word n) →
      a.origin ≤ word n ∧
        (lastByte (· == word n) a.assembly.image.placed).getD (byte a.fill) = b

/-- **The files of a program describe the same memory exactly if its code wraps harmlessly**, above
all if no code goes beyond the highest address. -/
theorem filesAgree_iff_wrapsHarmlessly (s : Assembler) (lines : List Text) :
    (s.assembleLines lines).1.FilesAgree ↔ (s.assembleLines lines).1.WrapsHarmlessly := by
  have hnonneg : ∀ entry ∈ (s.assembleLines lines).1.assembly.image.placed, 0 ≤ entry.1 :=
    s.nonneg_placed lines
  generalize (s.assembleLines lines).1 = done at hnonneg
  have hload : IntelHex.load? done.intelHex
      = some fun a => lastByte (word · == a) done.assembly.image.placed :=
    IntelHex.load?_image ..
  constructor
  · rintro ⟨m, hm, hagree⟩ front n b back hplaced hbeyond hback
    obtain rfl := Option.some.inj (hload.symm.trans hm)
    obtain ⟨hlow, hbyte⟩ := hagree (word n) b
      (lastByte_eq_some_iff.mpr ⟨front, n, back, hplaced, beq_self_eq_true _,
        fun later hlater => beq_false_of_ne (hback later hlater)⟩)
    have hflat := Image.getElem?_flatten done.assembly.image done.fill hlow
      (Image.wraps_inside hnonneg hplaced).2.2
    exact ⟨hlow, Option.some.inj (hflat.symm.trans hbyte)⟩
  · intro hharmless
    refine ⟨_, hload, fun address b hb => ?_⟩
    obtain ⟨front, n, back, hplaced, hn, hback⟩ := lastByte_eq_some_iff.mp hb
    obtain rfl := beq_iff_eq.mp hn
    obtain ⟨hpos, hstart, hstop⟩ := Image.wraps_inside hnonneg hplaced
    suffices h : done.origin ≤ word n ∧
        (lastByte (· == word n) done.assembly.image.placed).getD (byte done.fill) = b by
      refine ⟨h.1, ?_⟩
      rw [← h.2]
      exact Image.getElem?_flatten done.assembly.image done.fill h.1 hstop
    have hlast : ∀ later ∈ back, word later.1 ≠ word n := fun later hlater =>
      ne_of_beq_false (hback later hlater)
    by_cases hbeyond : 0x10000 ≤ n
    · exact hharmless front n b back hplaced hbeyond hlast
    · -- the byte stands at its own address, and no later one does
      have hword : word n = n := isWord_iff.mp ⟨hpos, Int.not_le.mp hbeyond⟩
      rw [hplaced, lastByte_own hword hlast, hword]
      exact ⟨hstart, rfl⟩

/-- Code runs over the top: the file loads the second byte at address 0, which lies below the
origin. -/
theorem not_filesAgree_over_top :
    ¬ (({} : Assembler).assembleLines
      (["ORG #FFFF", "DC 1,2", "END"].map String.toList)).1.FilesAgree := by
  rintro ⟨m, hm, hagree⟩
  have hzero : (IntelHex.load? (({} : Assembler).assembleLines
      (["ORG #FFFF", "DC 1,2", "END"].map String.toList)).1.intelHex).bind (· 0) = some 2 := by
    decide +kernel
  rw [hm] at hzero
  exact absurd (hagree 0 2 hzero).1 (by decide +kernel)

end Assembler

end Cosmac
