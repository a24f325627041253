import Cosmac.Assembly.Basic
import Mathlib.Data.List.Induction
import Mathlib.Tactic.SplitIfs

/-!
# The image of a coding pass

Whatever the addresses, the chunks hold the code of all steps in order (`Assembly.flatMap_imageOf`),
each byte at the address at which its step put it (`Assembly.placed_imageOf`): joining code to a
chunk (`Image.push_cases`) moves nothing.  Where each step starts behind the code of the steps
before it, there is one chunk, and the flat image is that code (`Assembly.imageOf_contiguous`,
`Image.flatten_single`).
-/

namespace Cosmac

/-- The bytes of a chunk, each with its address. -/
def Chunk.placed (c : Chunk) : List (Int × UInt8) := c.bytes.mapIdx fun k b => (c.address + k, b)

@[simp] theorem Chunk.map_snd_placed (c : Chunk) : c.placed.map Prod.snd = c.bytes := by
  apply List.ext_getElem?
  intro k
  simp [placed, Function.comp_def]

/-- More bytes follow at the next addresses. -/
theorem Chunk.placed_append (address : Int) (bytes code : List UInt8) :
    placed ⟨address, bytes ++ code⟩
      = placed ⟨address, bytes⟩ ++ placed ⟨address + bytes.length, code⟩ := by
  unfold placed
  dsimp only
  rw [List.mapIdx_append]
  congr 2
  funext k b
  rw [Nat.add_comm, Int.natCast_add, ← Int.add_assoc]

namespace Image

/-- **What adding code does**: it becomes a chunk of its own, or it is joined to the last chunk. -/
theorem push_cases (code : Chunk) (chunks : List Chunk) :
    (push code chunks = chunks ++ [code] ∧ ∀ last ∈ chunks.getLast?, last.stop ≠ code.address) ∨
    ∃ front last, chunks = front ++ [last] ∧ last.stop = code.address ∧
      push code chunks = front ++ [{ last with bytes := last.bytes ++ code.bytes }] := by
  induction chunks with
  | nil => exact Or.inl ⟨rfl, by simp⟩
  | cons chunk rest ih =>
    cases rest with
    | nil =>
      by_cases hstop : chunk.stop = code.address
      · exact Or.inr ⟨[], chunk, rfl, hstop, if_pos hstop⟩
      · exact Or.inl ⟨if_neg hstop, by simpa using hstop⟩
    | cons next more =>
      have hpush : push code (chunk :: next :: more) = chunk :: push code (next :: more) := rfl
      rcases ih with ⟨hnew, hlast⟩ | ⟨front, last, hsplit, hstop, hjoin⟩
      · refine Or.inl ⟨by rw [hpush, hnew]; rfl, ?_⟩
        rwa [List.getLast?_cons_cons]
      · refine Or.inr ⟨chunk :: front, last, by rw [hsplit]; rfl, hstop, ?_⟩
        rw [hpush, hjoin]
        rfl

/-- Joined or not, code comes behind all bytes. -/
@[simp] theorem flatMap_push (code : Chunk) (chunks : List Chunk) :
    (push code chunks).flatMap (·.bytes) = chunks.flatMap (·.bytes) ++ code.bytes := by
  rcases push_cases code chunks with ⟨hnew, _⟩ | ⟨front, last, rfl, _, hjoin⟩
  · simp [hnew]
  · simp [hjoin]

@[simp] theorem flatMap_emit (image : Image) (address : Int) (code : List UInt8) :
    (image.emit address code).chunks.flatMap (·.bytes)
      = image.chunks.flatMap (·.bytes) ++ code := by
  unfold emit
  split_ifs with hempty
  · rw [List.isEmpty_iff.mp hempty, List.append_nil]
  · exact flatMap_push ..

/-- The bytes of an image in the order in which they were generated, each with its address. -/
def placed (image : Image) : List (Int × UInt8) := image.chunks.flatMap Chunk.placed

@[simp] theorem placed_push (code : Chunk) (chunks : List Chunk) :
    (push code chunks).flatMap Chunk.placed = chunks.flatMap Chunk.placed ++ code.placed := by
  rcases push_cases code chunks with ⟨hnew, _⟩ | ⟨front, last, rfl, hstop, hjoin⟩
  · simp [hnew]
  · -- the code goes on where the chunk stops, so it keeps its place
    have hplace : last.address + last.bytes.length = code.address := hstop
    simp [hjoin, Chunk.placed_append, hplace]

@[simp] theorem placed_emit (image : Image) (address : Int) (code : List UInt8) :
    (image.emit address code).placed = image.placed ++ Chunk.placed ⟨address, code⟩ := by
  unfold emit
  split_ifs with hempty
  · rw [List.isEmpty_iff.mp hempty]
    exact (List.append_nil _).symm
  · exact placed_push ..

/-- The image of code that is added piece by piece. -/
def ofEmissions (emissions : List Chunk) : Image :=
  emissions.foldl (fun image e => image.emit e.address e.bytes) {}

@[simp] theorem ofEmissions_concat (emissions : List Chunk) (e : Chunk) :
    ofEmissions (emissions ++ [e]) = (ofEmissions emissions).emit e.address e.bytes := by
  unfold ofEmissions
  rw [List.foldl_append]
  rfl

@[simp] theorem flatMap_ofEmissions (emissions : List Chunk) :
    (ofEmissions emissions).chunks.flatMap (·.bytes) = emissions.flatMap (·.bytes) := by
  induction emissions using List.reverseRecOn with
  | nil => rfl
  | append_singleton emissions e ih => simp [ih]

/-- **Every byte stands where it was put.** -/
@[simp] theorem placed_ofEmissions (emissions : List Chunk) :
    (ofEmissions emissions).placed = emissions.flatMap Chunk.placed := by
  induction emissions using List.reverseRecOn with
  | nil => rfl
  | append_singleton emissions e ih => simp [ih]

/-- The bytes at one address, if there are any. -/
def single (address : Int) (bytes : List UInt8) : Image :=
  ⟨if bytes.isEmpty then [] else [⟨address, bytes⟩]⟩

/-- Code that goes on where the image stops is joined to it. -/
theorem emit_single (address : Int) (bytes code : List UInt8) {place : Int}
    (h : code ≠ [] → place = address + bytes.length) :
    (single address bytes).emit place code = single address (bytes ++ code) := by
  cases code with
  | nil =>
    rw [List.append_nil]
    rfl
  | cons b more =>
    have hplace := h (List.cons_ne_nil b more)
    cases bytes with
    | nil =>
      -- the image has no code yet, and this is where it starts
      have hplace : place = address := by simpa using hplace
      rw [hplace]
      rfl
    | cons a rest =>
      have hstop : Chunk.stop ⟨address, a :: rest⟩ = place := hplace.symm
      show (⟨push ⟨place, b :: more⟩ [⟨address, a :: rest⟩]⟩ : Image) = _
      rw [push, if_pos hstop]
      rfl

/-- The flat image of one chunk is its bytes. -/
@[simp] theorem flatten_single (address : Int) (bytes : List UInt8) (fill : Int) :
    (single address bytes).flatten fill = bytes := by
  cases bytes with
  | nil => rfl
  | cons b rest =>
    have hlength : (address + (b :: rest).length - address).toNat = (b :: rest).length := by omega
    show overlay (List.replicate (address + (b :: rest).length - address).toNat (byte fill))
      (address - address).toNat (b :: rest) = b :: rest
    rw [hlength, Int.sub_self]
    simp [overlay]

end Image

/-- The bytes that a step puts into the image, each with its address. -/
def Coding.Step.placed (st : Step) : List (Int × UInt8) := Chunk.placed ⟨st.start, st.code⟩

namespace Assembly

open Coding (Step)

theorem imageOf_eq (steps : List Step) :
    imageOf steps = .ofEmissions (steps.map fun st => ⟨st.start, st.code⟩) := by
  unfold imageOf Image.ofEmissions
  rw [List.foldl_map]

@[simp] theorem flatMap_imageOf (steps : List Step) :
    (imageOf steps).chunks.flatMap (·.bytes) = steps.flatMap (·.code) := by
  rw [imageOf_eq, Image.flatMap_ofEmissions, List.flatMap_map]

@[simp] theorem placed_imageOf (steps : List Step) :
    (imageOf steps).placed = steps.flatMap Step.placed := by
  rw [imageOf_eq, Image.placed_ofEmissions, List.flatMap_map]
  rfl

/-- The code of each step stands behind the code of the steps before it. -/
def Contiguous : Int → List Step → Prop
  | _, [] => True
  | address, st :: rest =>
    (st.code ≠ [] → st.start = address) ∧ Contiguous (address + st.code.length) rest

theorem contiguous_of_code_nil {steps : List Step} (h : ∀ st ∈ steps, st.code = [])
    (address : Int) : Contiguous address steps := by
  induction steps generalizing address with
  | nil => trivial
  | cons st rest ih =>
    exact ⟨fun hne => absurd (h st (List.mem_cons_self ..)) hne,
      ih (fun st hst => h st (List.mem_cons_of_mem _ hst)) _⟩

/-- **Code without gaps is one chunk.** -/
theorem imageOf_contiguous {address : Int} {steps : List Step} (h : Contiguous address steps) :
    imageOf steps = .single address (steps.flatMap (·.code)) := by
  have hfold : ∀ bytes : List UInt8, Contiguous (address + bytes.length) steps →
      steps.foldl (fun image s => image.emit s.start s.code) (Image.single address bytes)
        = Image.single address (bytes ++ steps.flatMap (·.code)) := by
    clear h
    induction steps with
    | nil =>
      intro bytes _
      simp
    | cons st rest ih =>
      intro bytes hcontiguous
      rw [List.foldl_cons, Image.emit_single address bytes st.code hcontiguous.1, ih,
        List.flatMap_cons, List.append_assoc]
      rw [List.length_append, Int.natCast_add, ← Int.add_assoc]
      exact hcontiguous.2
  have hall := hfold [] (by simpa using h)
  rw [List.nil_append] at hall
  exact hall

end Assembly

end Cosmac
