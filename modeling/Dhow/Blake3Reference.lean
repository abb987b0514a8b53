import Dhow.Blake3

/-!
# Reference BLAKE3

The published BLAKE3 function, plain and keyed, as a `Blake3` that computes: the compression
function, the chunk of at most 1024 bytes, and the binary tree over chunks.
-/

namespace Dhow.Blake3Reference
open Bytes

def iv : List UInt32 :=
  [0x6A09E667, 0xBB67AE85, 0x3C6EF372, 0xA54FF53A, 0x510E527F, 0x9B05688C, 0x1F83D9AB, 0x5BE0CD19]

def messagePermutation : List ℕ := [2, 6, 3, 10, 7, 0, 4, 13, 1, 11, 12, 5, 9, 14, 15, 8]

def chunkStart : UInt32 := 1
def chunkEnd : UInt32 := 2
def parent : UInt32 := 4
def root : UInt32 := 8
def keyed : UInt32 := 16

def rotateRight (x : UInt32) (n : UInt32) : UInt32 := (x >>> n) ||| (x <<< (32 - n))

/-- The quarter round on four words of the state. -/
def quarterRound (v : List UInt32) (a b c d : ℕ) (mx my : UInt32) : List UInt32 :=
  let va := v.getD a 0 + v.getD b 0 + mx
  let vd := rotateRight (v.getD d 0 ^^^ va) 16
  let vc := v.getD c 0 + vd
  let vb := rotateRight (v.getD b 0 ^^^ vc) 12
  let va := va + vb + my
  let vd := rotateRight (vd ^^^ va) 8
  let vc := vc + vd
  let vb := rotateRight (vb ^^^ vc) 7
  (((v.set a va).set b vb).set c vc).set d vd

/-- One round: the columns, then the diagonals. -/
def round (v m : List UInt32) : List UInt32 :=
  let w (i : ℕ) := m.getD i 0
  let v := quarterRound v 0 4 8 12 (w 0) (w 1)
  let v := quarterRound v 1 5 9 13 (w 2) (w 3)
  let v := quarterRound v 2 6 10 14 (w 4) (w 5)
  let v := quarterRound v 3 7 11 15 (w 6) (w 7)
  let v := quarterRound v 0 5 10 15 (w 8) (w 9)
  let v := quarterRound v 1 6 11 12 (w 10) (w 11)
  let v := quarterRound v 2 7 8 13 (w 12) (w 13)
  quarterRound v 3 4 9 14 (w 14) (w 15)

def rounds : ℕ → List UInt32 → List UInt32 → List UInt32
  | 0, v, _ => v
  | n + 1, v, m => rounds n (round v m) (messagePermutation.map fun i => m.getD i 0)

/-- What the last compression of a node is applied to. -/
structure Output where
  chaining : List UInt32
  block : List UInt32
  counter : ℕ
  length : ℕ
  flags : UInt32

/-- The first half of the compressed state: the chaining value of the node. -/
def Output.compress (o : Output) (extraFlags : UInt32) (counter : ℕ) : List UInt32 :=
  let v := o.chaining ++ iv.take 4 ++
    [UInt32.ofNat counter, UInt32.ofNat (counter / 2 ^ 32), UInt32.ofNat o.length,
      o.flags ||| extraFlags]
  let v := rounds 7 v o.block
  List.zipWith (· ^^^ ·) (v.take 8) (v.drop 8)

def Output.chainingValue (o : Output) : List UInt32 := o.compress 0 o.counter

/-- The `n` little-endian words of a byte string padded with zeros. -/
def words (n : ℕ) (bytes : Str) : List UInt32 := (List.range n).map fun i => u32At bytes (4 * i)

/-- The blocks of a chunk from its block `i` on, with fuel for the blocks that follow. -/
def chunkFrom (flags : UInt32) (counter : ℕ) : (fuel : ℕ) → (chaining : List UInt32) → (i : ℕ) →
    Str → Output
  | fuel, chaining, i, input =>
    let start := if i = 0 then chunkStart else 0
    let last : Output :=
      ⟨chaining, words 16 (input.take 64), counter, input.length, flags ||| start ||| chunkEnd⟩
    match fuel with
    | 0 => last
    | fuel + 1 =>
      if input.length ≤ 64 then last
      else
        let block : Output :=
          ⟨chaining, words 16 (input.take 64), counter, 64, flags ||| start⟩
        chunkFrom flags counter fuel block.chainingValue (i + 1) (input.drop 64)

/-- The bytes of the left subtree: the largest power of two of whole chunks short of the input. -/
def leftLength (n : ℕ) : ℕ := 1024 * 2 ^ Nat.log2 ((n - 1) / 1024)

def treeFrom (key : List UInt32) (flags : UInt32) : (fuel : ℕ) → (counter : ℕ) → Str → Output
  | 0, counter, input => chunkFrom flags counter 16 key 0 input
  | fuel + 1, counter, input =>
    if input.length ≤ 1024 then chunkFrom flags counter 16 key 0 input
    else
      let n := leftLength input.length
      let left := treeFrom key flags fuel counter (input.take n)
      let right := treeFrom key flags fuel (counter + n / 1024) (input.drop n)
      ⟨key, left.chainingValue ++ right.chainingValue, 0, 64, flags ||| parent⟩

def digest (key : List UInt32) (flags : UInt32) (input : Str) : Arr 32 :=
  let o := treeFrom key flags input.length 0 input
  arrAt 32 ((o.compress root 0).flatMap u32le) 0

/-- BLAKE3 as it is specified. -/
def blake3 : Blake3 where
  hash := digest iv 0
  keyedHash key := digest (words 8 key.toList) keyed

-- The digest of the empty string.
example : (blake3.hash []).toList.take 4 = [0xAF, 0x13, 0x49, 0xB9] := by decide +kernel

end Dhow.Blake3Reference
