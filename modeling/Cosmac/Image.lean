import Cosmac.Word

/-!
# Object image

The code of a program as chunks of bytes, each with its address, in the order in which they were
generated.  Code that continues the last chunk is joined to it.  Flattened, the image runs from
the lowest to the highest address that holds code; where chunks overlap, the later one counts.
-/

namespace Cosmac

/-- Bytes at consecutive addresses. -/
structure Chunk where
  /-- The address of the first byte. -/
  address : Int
  /-- The bytes. -/
  bytes : List UInt8
  deriving DecidableEq, Repr

/-- The address behind the last byte. -/
def Chunk.stop (c : Chunk) : Int := c.address + c.bytes.length

/-- The code of a program. -/
structure Image where
  /-- The chunks, in order of generation. -/
  chunks : List Chunk := []
  deriving DecidableEq, Repr

namespace Image

/-- Adds code to the chunks: to the last one if it continues that, else as a chunk of its own. -/
def push (code : Chunk) : List Chunk → List Chunk
  | [] => [code]
  | [last] =>
    if last.stop = code.address then [{ last with bytes := last.bytes ++ code.bytes }]
    else [last, code]
  | chunk :: chunks => chunk :: push code chunks

/-- Adds code at an address. -/
def emit (image : Image) (address : Int) (code : List UInt8) : Image :=
  if code.isEmpty then image else ⟨push ⟨address, code⟩ image.chunks⟩

/-- The lowest address that holds code, 0 without code. -/
def start (image : Image) : Int :=
  match image.chunks with
  | [] => 0
  | chunk :: chunks => chunks.foldl (fun least c => min least c.address) chunk.address

/-- The address behind the highest that holds code, 0 without code. -/
def stop (image : Image) : Int :=
  match image.chunks with
  | [] => 0
  | chunk :: chunks => chunks.foldl (fun greatest c => max greatest c.stop) chunk.stop

/-- Writes bytes over others, from an offset on. -/
def overlay (bytes : List UInt8) (offset : Nat) (code : List UInt8) : List UInt8 :=
  bytes.take offset ++ code ++ bytes.drop (offset + code.length)

/-- The bytes from the lowest to the highest address, `fill` where there is no code. -/
def flatten (image : Image) (fill : Int) : List UInt8 :=
  image.chunks.foldl (fun bytes c => overlay bytes (c.address - image.start).toNat c.bytes)
    (List.replicate (image.stop - image.start).toNat (byte fill))

/-- The number of bytes generated. -/
def byteCount (image : Image) : Nat := (image.chunks.flatMap (·.bytes)).length

end Image

end Cosmac
