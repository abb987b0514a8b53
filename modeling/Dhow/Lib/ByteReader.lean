import Dhow.Lib.Bytes
import Dhow.Lib.Checked

/-!
# Readers

Code that reads from a stream of bytes, whose state is what is left of the stream, also when the
reading fails.
-/

open Bytes

def ByteReader (ε α : Type) := Str → Checked ε α × Str

namespace ByteReader
variable {ε α β : Type}

def bind (r : ByteReader ε α) (f : α → ByteReader ε β) : ByteReader ε β := fun s =>
  match r s with
  | (.ok a, rest) => f a rest
  | (.error e, rest) => (.error e, rest)

instance : Monad (ByteReader ε) where
  pure a := fun s => (.ok a, s)
  bind := bind

def fail (e : ε) : ByteReader ε α := fun s => (Checked.fail e, s)

/-- A computation that reads nothing. -/
def lift (c : Checked ε α) : ByteReader ε α := fun s => (c, s)

/-- `n` bytes or an error: one when the stream has ended, another when it ends before. -/
def readFull (n : ℕ) (eof unexpected : ε) : ByteReader ε Str := fun s =>
  if n ≤ s.length then (.ok (s.take n), s.drop n)
  else if s = [] then (Checked.fail eof, [])
  else (Checked.fail unexpected, [])

lemma bind_ok {r : ByteReader ε α} {f : α → ByteReader ε β} {a : α} {s rest : Str}
    (h : r s = (.ok a, rest)) : (r >>= f) s = f a rest := by
  change bind r f s = f a rest
  rw [bind, h]

lemma bind_fail {r : ByteReader ε α} {f : α → ByteReader ε β} {e : ε} {s rest : Str}
    (h : r s = (Checked.fail e, rest)) : (r >>= f) s = (Checked.fail e, rest) := by
  change bind r f s = _
  rw [bind, h]
  rfl

@[simp] lemma pure_apply (a : α) (s : Str) : (pure a : ByteReader ε α) s = (.ok a, s) := rfl

lemma readFull_append {n : ℕ} {eof unexpected : ε} {data rest : Str} (h : data.length = n) :
    readFull n eof unexpected (data ++ rest) = (.ok data, rest) := by
  subst h
  rw [readFull, if_pos (by rw [List.length_append]; omega), List.take_left, List.drop_left]

lemma readFull_nil {n : ℕ} {eof unexpected : ε} (h : 0 < n) :
    readFull n eof unexpected [] = (Checked.fail eof, []) := by
  rw [readFull, if_neg (by rw [List.length_nil]; omega), if_pos rfl]

end ByteReader
