import Dhow.Lib.Bytes

/-!
# Writing, with and without a buffer

Computations that write to a destination, which may fail at any write after a part of it. `Emits`
is their logic: a computation that succeeds has written its text, all of it but what it still
holds, and one that fails has written a part of its text from the start on. A buffered writer
holds what it has not yet passed on, whatever the sizes of its writes.
-/

namespace Writing
open Bytes

variable {δ ε α β : Type}

/-- What a destination does with its next write, given the writes it has taken: it takes all of
it, or fails after some of it. -/
abbrev Sink (δ : Type) : Type := List Str → Str → Option (δ × ℕ)

/-- Whether a destination fails at some write. -/
def Sink.Faulty (sink : Sink δ) : Prop := ∃ taken p, sink taken p ≠ none

end Writing

/-- A computation, given the writes that the destination has taken. -/
def Writing (ε α : Type) : Type := List Bytes.Str → Except ε α × List Bytes.Str

namespace Writing
open Bytes

variable {δ ε α β : Type}

instance : Monad (Writing ε) where
  pure a := fun taken => (.ok a, taken)
  bind m f := fun taken =>
    match m taken with
    | (.ok a, taken) => f a taken
    | (.error e, taken) => (.error e, taken)

def throw (e : ε) : Writing ε α := fun taken => (.error e, taken)

def mapError (f : δ → ε) (m : Writing δ α) : Writing ε α := fun taken =>
  match m taken with
  | (.ok a, taken) => (.ok a, taken)
  | (.error e, taken) => (.error (f e), taken)

/-- What a computation that cannot fail came to. -/
def result (m : Writing α α) : List Str → α × List Str := fun taken =>
  match m taken with
  | (.ok a, taken) => (a, taken)
  | (.error a, taken) => (a, taken)

def write (sink : Sink δ) (p : Str) : Writing δ Unit := fun taken =>
  match sink taken p with
  | none => (.ok (), taken ++ [p])
  | some (e, n) => (.error e, taken ++ [p.take n])

/-- `body` for each number below `n`, with what one leaves handed to the next. -/
def forRange (body : ℕ → α → Writing ε α) : ℕ → α → Writing ε α
  | 0, a => pure a
  | n + 1, a => forRange body n a >>= body n

/-! ### The buffer

A buffered writer is what its buffer holds. -/

def bufferSize : ℕ := 4096

/-- It leaves the buffer empty. -/
def flush (sink : Sink δ) (buf : Str) : Writing δ Unit :=
  if buf = [] then pure () else write sink buf

/-- More than the buffer has room for fills it up first, unless it is empty. -/
def bufWrite (sink : Sink δ) (p buf : Str) : Writing δ Str :=
  let available := bufferSize - buf.length
  if p.length ≤ available then pure (buf ++ p)
  else if buf = [] then do
    write sink p
    pure []
  else do
    flush sink (buf ++ p.take available)
    let p := p.drop available
    if p.length ≤ bufferSize then pure p
    else do
      write sink p
      pure []

def bufWriteByte (sink : Sink δ) (c : UInt8) (buf : Str) : Writing δ Str :=
  if buf.length < bufferSize then pure (buf ++ [c])
  else do
    flush sink buf
    pure [c]

/-! ### What is written -/

/-- Where `m` succeeds it has written `text` but for what its result holds back. Where it fails
there is a `fault`, and it has written the start of `text`. -/
def Emits (fault : Prop) (m : Writing ε α) (held : α → Str) (text : Str) : Prop :=
  ∀ taken, ∃ out, (m taken).2.flatten = taken.flatten ++ out ∧
    match (m taken).1 with
    | .ok a => out ++ held a = text
    | .error _ => fault ∧ out <+: text

/-- What a computation adds to the text of the buffer that it starts with. -/
def Fills (fault : Prop) (f : Str → Writing ε α) (held : α → Str) (text : Str) : Prop :=
  ∀ buf, Emits fault (f buf) held (buf ++ text)

section logic
variable {fault : Prop} {m : Writing ε α} {f : α → Writing ε β} {held : α → Str} {kept : β → Str}
  {s t : Str}

lemma emits_pure (a : α) : Emits fault (pure a : Writing ε α) held (held a) := by
  intro taken
  exact ⟨[], (List.append_nil _).symm, rfl⟩

lemma emits_throw (hfault : fault) (e : ε) : Emits fault (throw e : Writing ε α) held s := by
  intro taken
  exact ⟨[], (List.append_nil _).symm, hfault, List.nil_prefix⟩

lemma bind_of_ok {taken taken' : List Str} {a : α} (h : m taken = (.ok a, taken')) :
    (m >>= f) taken = f a taken' := by
  simp only [bind, h]

lemma bind_of_error {taken taken' : List Str} {e : ε} (h : m taken = (.error e, taken')) :
    (m >>= f) taken = (.error e, taken') := by
  simp only [bind, h]

lemma mapError_of_ok {taken taken' : List Str} {a : α} (h : m taken = (.ok a, taken'))
    (g : ε → δ) : m.mapError g taken = (.ok a, taken') := by
  simp only [Writing.mapError, h]

lemma mapError_of_error {taken taken' : List Str} {e : ε} (h : m taken = (.error e, taken'))
    (g : ε → δ) : m.mapError g taken = (.error (g e), taken') := by
  simp only [Writing.mapError, h]

lemma Emits.bind (hm : Emits fault m held s) (hf : ∀ a, Emits fault (f a) kept (held a ++ t)) :
    Emits fault (m >>= f) kept (s ++ t) := by
  intro taken
  obtain ⟨out, hout, hres⟩ := hm taken
  rcases h : m taken with ⟨e | a, taken'⟩
  · rw [h] at hout hres
    rw [bind_of_error h]
    exact ⟨out, hout, hres.1, hres.2.trans (List.prefix_append s t)⟩
  · rw [h] at hout hres
    obtain ⟨out', hout', hres'⟩ := hf a taken'
    have hs : s ++ t = out ++ (held a ++ t) := by
      rw [← List.append_assoc, hres]
    rw [bind_of_ok h]
    refine ⟨out ++ out', by rw [hout', hout, List.append_assoc], ?_⟩
    rcases h' : f a taken' with ⟨e | b, taken''⟩
    · rw [h'] at hres'
      rw [hs]
      exact ⟨hres'.1, (List.prefix_append_right_inj out).mpr hres'.2⟩
    · rw [h'] at hres'
      change out ++ out' ++ kept b = s ++ t
      rw [hs, List.append_assoc, hres']

lemma Emits.mapError (hm : Emits fault m held s) (g : ε → δ) :
    Emits fault (m.mapError g) held s := by
  intro taken
  obtain ⟨out, hout, hres⟩ := hm taken
  rcases h : m taken with ⟨e | a, taken'⟩
  · rw [h] at hout hres
    rw [mapError_of_error h]
    exact ⟨out, hout, hres⟩
  · rw [h] at hout hres
    rw [mapError_of_ok h]
    exact ⟨out, hout, hres⟩

end logic

/-! ### Writes -/

section writes
variable {sink : Sink δ} {fault : Prop}

lemma emits_write (hfault : sink.Faulty → fault) (p : Str) :
    Emits fault (write sink p) (fun _ => []) p := by
  intro taken
  unfold write
  rcases h : sink taken p with _ | ⟨e, n⟩
  · exact ⟨p, by simp, List.append_nil p⟩
  · exact ⟨p.take n, by simp, hfault ⟨taken, p, by simp [h]⟩, List.take_prefix n p⟩

lemma emits_flush (hfault : sink.Faulty → fault) (buf : Str) :
    Emits fault (flush sink buf) (fun _ => []) buf := by
  unfold flush
  split_ifs with h
  · rw [h]
    exact emits_pure ()
  · exact emits_write hfault buf

/-- What is held after everything else has been passed on. -/
lemma Emits.then_hold {m : Writing ε Unit} {s : Str} (hm : Emits fault m (fun _ => []) s)
    (buf : Str) : Emits fault (m >>= fun _ => pure buf) id (s ++ buf) :=
  hm.bind fun _ => emits_pure buf

/-- A write past the buffer. -/
lemma emits_direct (hfault : sink.Faulty → fault) (p : Str) :
    Emits fault (write sink p >>= fun _ => pure []) id p := by
  simpa using (emits_write hfault p).then_hold []

lemma fills_write (hfault : sink.Faulty → fault) (p : Str) :
    Fills fault (bufWrite sink p) id p := by
  intro buf
  have hsplit : buf ++ p = buf ++ p.take (bufferSize - buf.length)
      ++ p.drop (bufferSize - buf.length) := by
    rw [List.append_assoc, List.take_append_drop]
  unfold bufWrite
  dsimp only
  split_ifs with hroom hempty
  · exact emits_pure (buf ++ p)
  · rw [hempty]
    exact emits_direct hfault p
  · rw [hsplit]
    exact (emits_flush hfault _).then_hold _
  · rw [hsplit]
    exact (emits_flush hfault _).bind fun _ => emits_direct hfault _

lemma fills_writeByte (hfault : sink.Faulty → fault) (c : UInt8) :
    Fills fault (bufWriteByte sink c) id [c] := by
  intro buf
  unfold bufWriteByte
  split_ifs
  · exact emits_pure (buf ++ [c])
  · exact (emits_flush hfault buf).then_hold [c]

lemma fills_flush (hfault : sink.Faulty → fault) :
    Fills fault (flush sink) (fun _ => []) [] := by
  intro buf
  rw [List.append_nil]
  exact emits_flush hfault buf

lemma Fills.emits {f : Str → Writing ε α} {held : α → Str} {text : Str}
    (h : Fills fault f held text) : Emits fault (f []) held text := h []

lemma Fills.comp {f : Str → Writing ε Str} {g : Str → Writing ε α} {held : α → Str} {s t : Str}
    (hf : Fills fault f id s) (hg : Fills fault g held t) :
    Fills fault (fun buf => f buf >>= g) held (s ++ t) := by
  intro buf
  rw [← List.append_assoc]
  exact (hf buf).bind hg

lemma Fills.mapError {f : Str → Writing ε α} {held : α → Str} {text : Str}
    (h : Fills fault f held text) (g : ε → δ) :
    Fills fault (fun buf => (f buf).mapError g) held text :=
  fun buf => (h buf).mapError g

lemma Fills.forRange {body : ℕ → Str → Writing ε Str} {text : ℕ → Str}
    (h : ∀ i, Fills fault (body i) id (text i)) (n : ℕ) :
    Fills fault (forRange body n) id ((List.range n).flatMap text) := by
  induction n with
  | zero =>
    intro buf
    rw [List.range_zero, List.flatMap_nil, List.append_nil]
    exact emits_pure buf
  | succ n ih =>
    rw [List.range_succ, List.flatMap_append, List.flatMap_singleton]
    exact ih.comp (h n)

end writes

end Writing
