import Dhow.Lib.Bytes

/-!
# BLAKE3

The hash functions of the `blake3` crate, which is not part of the repository: a development
over a `Blake3` assumes of it only what its theorems name. A streaming hasher is the string it
has absorbed.
-/

namespace Dhow
open Bytes

structure Blake3 where
  hash : Str → Arr 32
  keyedHash : Arr 32 → Str → Arr 32

def blake3Digest (b3 : Blake3) (data : Str) : Arr 32 := b3.hash data

structure Blake3Hasher where
  state : Str
  deriving DecidableEq

namespace Blake3Hasher

def new : Blake3Hasher := ⟨[]⟩

def update (hasher : Blake3Hasher) (data : Str) : Blake3Hasher := ⟨hasher.state ++ data⟩

def finalize (b3 : Blake3) (hasher : Blake3Hasher) : Arr 32 := b3.hash hasher.state

@[simp] lemma new_state : new.state = [] := rfl

@[simp] lemma update_state (hasher : Blake3Hasher) (data : Str) :
    (hasher.update data).state = hasher.state ++ data := rfl

end Blake3Hasher
end Dhow
