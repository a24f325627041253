import Cosmac.Chunks
import Cosmac.Image
import Cosmac.Numeral.Padded

/-!
# Intel HEX

Object code as text: data records of up to sixteen bytes, and an end record with the start
address.  A record gives its length, address and type, and a checksum that makes all its bytes sum
to 0 modulo 256.
-/

namespace Cosmac.IntelHex

/-- Data bytes of a record, at most. -/
def recordSize : Nat := 16

/-- The type of a data record. -/
def dataType : Nat := 0

/-- The type of the end record. -/
def endType : Nat := 1

/-- The sum of bytes. -/
def byteSum (data : List UInt8) : Nat := data.foldr (fun b sum => b.toNat + sum) 0

/-- The byte that makes the bytes of a record sum to 0. -/
def checksum (address : Int) (type : Nat) (data : List UInt8) : UInt8 :=
  byte (-(data.length + highByte address + lowByte address + type + byteSum data))

/-- A record; the address is a word. -/
def record (address : Int) (type : Nat) (data : List UInt8) : Text :=
  ":".toList ++ Numeral.hex 2 data.length ++ Numeral.hex 4 address ++ Numeral.hex 2 type ++
    Numeral.hexBytes data ++ Numeral.hexByte (checksum address type data)

/-- The data records of a chunk. -/
def chunkRecords (c : Chunk) : List Text :=
  (rowsOf recordSize c.bytes).zipIdx.map fun (data, k) =>
    record (word (c.address + (recordSize * k : Nat))) dataType data

/-- The file of an image. -/
def render (chunks : List Chunk) (start : Int) : Text :=
  Text.unlines (chunks.flatMap chunkRecords ++ [record (word start) endType []])

end Cosmac.IntelHex
