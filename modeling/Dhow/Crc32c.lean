import Dhow.Lib.Bytes

/-!
# CRC32C

The reflected Castagnoli checksum with its eight slicing tables, as `crc32c.rs` folds it over a
byte string. The tables are functions of their index rather than arrays.
-/

namespace Dhow
open Bytes

def crc32cPoly : UInt32 := 0x82F63B78

/-- One shift of the register. -/
def crcShift (crc : UInt32) : UInt32 :=
  if crc &&& 1 ≠ 0 then (crc >>> 1) ^^^ crc32cPoly else crc >>> 1

/-- Entry `n` of the byte-at-a-time table: eight shifts. -/
def makeTable (n : UInt32) : UInt32 :=
  crcShift (crcShift (crcShift (crcShift (crcShift (crcShift (crcShift (crcShift n)))))))

/-- Entry `n` of slicing table `k`: what the byte contributes after `k` more have been
shifted through. -/
def crcTable : ℕ → UInt32 → UInt32
  | 0, n => makeTable n
  | k + 1, n =>
    let previous := crcTable k n
    (previous >>> 8) ^^^ makeTable (previous &&& 0xFF)

/-- The tail loop: one byte at a time. -/
def foldByte (crc : UInt32) (byte : UInt8) : UInt32 :=
  crcTable 0 ((crc ^^^ byte.toUInt32) &&& 0xFF) ^^^ (crc >>> 8)

/-- Folds `data` into the raw register, eight bytes at a time while there are eight to take. -/
def fold (crc : UInt32) : Str → UInt32
  | b₀ :: b₁ :: b₂ :: b₃ :: b₄ :: b₅ :: b₆ :: b₇ :: rest =>
    let crc := crc ^^^ u32At [b₀, b₁, b₂, b₃] 0
    fold
      (crcTable 7 (crc &&& 0xFF) ^^^ crcTable 6 ((crc >>> 8) &&& 0xFF) ^^^
        crcTable 5 ((crc >>> 16) &&& 0xFF) ^^^ crcTable 4 ((crc >>> 24) &&& 0xFF) ^^^
        crcTable 3 b₄.toUInt32 ^^^ crcTable 2 b₅.toUInt32 ^^^
        crcTable 1 b₆.toUInt32 ^^^ crcTable 0 b₇.toUInt32)
      rest
  | rest => rest.foldl foldByte crc

def crc32cDigest (data : Str) : UInt32 :=
  fold 0xFFFFFFFF data ^^^ 0xFFFFFFFF

-- The check value of the algorithm, over the digits one to nine.
example : crc32cDigest [0x31, 0x32, 0x33, 0x34, 0x35, 0x36, 0x37, 0x38, 0x39] = 0xE3069283 := by
  decide +kernel

def crc32cAppend (state : UInt32) (data : Str) : UInt32 :=
  fold (state ^^^ 0xFFFFFFFF) data ^^^ 0xFFFFFFFF

structure Crc32cHasher where
  state : UInt32
  deriving DecidableEq

namespace Crc32cHasher

def new : Crc32cHasher := ⟨0⟩

def update (hasher : Crc32cHasher) (data : Str) : Crc32cHasher := ⟨crc32cAppend hasher.state data⟩

def finalize (hasher : Crc32cHasher) : UInt32 := hasher.state

end Crc32cHasher

end Dhow
