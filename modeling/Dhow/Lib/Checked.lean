import Mathlib.Algebra.Group.Int.Defs
import Mathlib.Algebra.Group.Nat.Defs
import Mathlib.Data.Int.Basic
import Mathlib.Tactic.Common

/-!
# Code that can panic

Computations that stop in one of two ways short of a result: with an error that the code returns,
or with a panic of the run time, which an index outside its slice, a division by zero, a negative
length and a loop that never ends all count as. `Ends` says that there is no panic, and what
holds of a result or of an error.
-/

inductive Panic
  | index
  | division
  | length
  | endless
  deriving DecidableEq

inductive Stop (ε : Type)
  | panic (p : Panic)
  | fail (e : ε)
  deriving DecidableEq

abbrev Checked (ε α : Type) := Except (Stop ε) α

namespace Checked
variable {ε α β σ : Type}

def fail (e : ε) : Checked ε α := .error (.fail e)

@[simp] lemma ok_bind (a : α) (f : α → Checked ε β) : ((.ok a : Checked ε α) >>= f) = f a := rfl

@[simp] lemma fail_bind (e : ε) (f : α → Checked ε β) : ((fail e : Checked ε α) >>= f) = fail e :=
  rfl

/-! ### Operations -/

def index (xs : List α) (i : ℤ) : Checked ε α :=
  if h : 0 ≤ i ∧ i < xs.length then .ok (xs.get ⟨i.toNat, by omega⟩) else .error (.panic .index)

def store (xs : List α) (i : ℤ) (a : α) : Checked ε (List α) :=
  if 0 ≤ i ∧ i < xs.length then .ok (xs.set i.toNat a) else .error (.panic .index)

/-- The part of a slice from `lo` up to `hi`. -/
def slice (xs : List α) (lo hi : ℤ) : Checked ε (List α) :=
  if 0 ≤ lo ∧ lo ≤ hi ∧ hi ≤ xs.length then .ok ((xs.take hi.toNat).drop lo.toNat)
  else .error (.panic .index)

/-- What is left of an integer in 64 bits with a sign. -/
def int64 (x : ℤ) : ℤ := x.bmod (2 ^ 64)

/-- The most bytes that a slice takes. -/
def maxAlloc : ℕ := 2 ^ 48

/-- A slice of `n` times the same value, of `size` bytes each. -/
def alloc (size : ℕ) (n : ℤ) (a : α) : Checked ε (List α) :=
  if 0 ≤ n ∧ n * size ≤ maxAlloc then .ok (List.replicate n.toNat a) else .error (.panic .length)

/-- The same where the code has kept `n` small. -/
def make (n : ℤ) (a : α) : Checked ε (List α) :=
  if 0 ≤ n then .ok (List.replicate n.toNat a) else .error (.panic .length)

/-- An empty slice with room for `n` elements, which the code has kept few. -/
def makeEmpty (n : ℤ) : Checked ε (List α) := if 0 ≤ n then .ok [] else .error (.panic .length)

/-- Division that truncates toward zero. -/
def quot (a b : ℤ) : Checked ε ℤ :=
  if b = 0 then .error (.panic .division) else .ok (a.tdiv b)

def rem (a b : ℤ) : Checked ε ℤ :=
  if b = 0 then .error (.panic .division) else .ok (a.tmod b)

/-- `body` for each `i` from zero up to `n`. -/
def repeatFor (body : ℕ → σ → Checked ε σ) (s : σ) : ℕ → Checked ε σ
  | 0 => .ok s
  | n + 1 => repeatFor body s n >>= body n

/-- `body` for each element in turn. -/
def forEach (body : α → σ → Checked ε σ) : List α → σ → Checked ε σ
  | [], s => .ok s
  | a :: as, s => body a s >>= forEach body as

/-- The errors of one kind of code as those of another. -/
def mapFail {ε' : Type} (f : ε → ε') : Checked ε α → Checked ε' α
  | .ok a => .ok a
  | .error (.panic p) => .error (.panic p)
  | .error (.fail e) => .error (.fail (f e))

/-- `body` as long as `cond` holds, which is taken for a loop without end when it still holds
after so many passes. -/
def whileLoop (cond : σ → Checked ε Bool) (body : σ → Checked ε σ) : ℕ → σ → Checked ε σ
  | 0, _ => .error (.panic .endless)
  | n + 1, s => do if ← cond s then body s >>= whileLoop cond body n else .ok s

/-- The elements of one slice over those of another. -/
def copy (dst src : List α) : List α := src.take dst.length ++ dst.drop src.length

lemma index_eq {xs : List α} {i : ℤ} {k : ℕ} {a : α} (hi : i = k) (ha : xs[k]? = some a) :
    (index xs i : Checked ε α) = .ok a := by
  obtain ⟨hk, rfl⟩ := List.getElem?_eq_some_iff.mp ha
  subst hi
  rw [index, dif_pos ⟨Int.natCast_nonneg k, Int.ofNat_lt.mpr hk⟩]
  rfl

lemma index_eq_ok_iff {xs : List α} {k : ℕ} {a : α} :
    (index xs k : Checked ε α) = .ok a ↔ xs[k]? = some a := by
  refine ⟨fun h => ?_, index_eq rfl⟩
  rw [index] at h
  split_ifs at h with hk
  cases h
  exact List.getElem?_eq_getElem (Int.ofNat_lt.mp hk.2)

lemma store_eq {xs : List α} {i : ℤ} {k : ℕ} {a : α} (hi : i = k) (hk : k < xs.length) :
    (store xs i a : Checked ε (List α)) = .ok (xs.set k a) := by
  subst hi
  rw [store, if_pos ⟨Int.natCast_nonneg k, Int.ofNat_lt.mpr hk⟩]
  rfl

/-- An index in range gives an element, and one of those before any bound above it. -/
lemma exists_index {xs : List α} {i : ℤ} {n : ℕ} (h₀ : 0 ≤ i) (hi : i < n) (hn : n ≤ xs.length) :
    ∃ a ∈ xs.take n, ∀ ε, (index xs i : Checked ε α) = .ok a := by
  obtain ⟨k, rfl⟩ := Int.eq_ofNat_of_zero_le h₀
  have hk : k < n := Int.ofNat_lt.mp hi
  have ha : xs[k]? = some (xs.get ⟨k, by omega⟩) := List.getElem?_eq_getElem _
  refine ⟨_, List.mem_take_iff_getElem.mpr ⟨k, by omega, rfl⟩, fun ε => index_eq rfl ha⟩

lemma length_store {xs ys : List α} {i : ℤ} {a : α}
    (h : (store xs i a : Checked ε (List α)) = .ok ys) : ys.length = xs.length := by
  rw [store] at h
  split_ifs at h
  cases h
  exact List.length_set

lemma index_store {xs ys : List α} {i : ℤ} {a : α}
    (h : (store xs i a : Checked ε (List α)) = .ok ys) (j : ℤ) :
    (index ys j : Checked ε α) = if j = i then .ok a else index xs j := by
  rw [store] at h
  split_ifs at h with hi
  cases h
  unfold index
  by_cases hj : 0 ≤ j ∧ j < xs.length
  · rw [dif_pos (by simpa using hj), dif_pos hj]
    by_cases hij : j = i
    · subst hij
      simp
    · rw [if_neg hij]
      simp only [List.get_eq_getElem]
      rw [List.getElem_set_ne (by omega)]
  · rw [dif_neg (by simpa using hj), dif_neg hj, if_neg]
    rintro rfl
    exact hj hi

lemma length_slice_le {xs ys : List α} {lo hi : ℤ}
    (h : (slice xs lo hi : Checked ε (List α)) = .ok ys) : ys.length ≤ xs.length := by
  rw [slice] at h
  split_ifs at h
  cases h
  rw [List.length_drop, List.length_take]
  omega

lemma slice_eq {xs : List α} {lo hi : ℤ} {k m : ℕ} (hlo : lo = k) (hhi : hi = m) (hkm : k ≤ m)
    (hm : m ≤ xs.length) : (slice xs lo hi : Checked ε (List α)) = .ok ((xs.take m).drop k) := by
  subst hlo hhi
  rw [slice, if_pos ⟨Int.natCast_nonneg k, Int.ofNat_le.mpr hkm, Int.ofNat_le.mpr hm⟩]
  rfl

lemma make_eq {n : ℤ} {k : ℕ} {a : α} (hn : n = k) :
    (make n a : Checked ε (List α)) = .ok (List.replicate k a) := by
  subst hn
  rw [make, if_pos (Int.natCast_nonneg k)]
  rfl

lemma int64_eq {x : ℤ} (hlo : -2 ^ 63 ≤ x) (hhi : x < 2 ^ 63) : int64 x = x :=
  Int.bmod_eq_of_le (by omega) (by omega)

/-- The length of a slice is a machine integer. -/
lemma int64_of_le_maxAlloc {x : ℤ} (h₀ : 0 ≤ x) (h : x ≤ maxAlloc) : int64 x = x := by
  unfold maxAlloc at h
  exact int64_eq (by omega) (by omega)

lemma alloc_eq {size : ℕ} {n : ℤ} {a : α} (h₀ : 0 ≤ n) (h : n * size ≤ maxAlloc) :
    (alloc size n a : Checked ε (List α)) = .ok (List.replicate n.toNat a) := if_pos ⟨h₀, h⟩

lemma alloc_one_eq {n : ℤ} {a : α} (h₀ : 0 ≤ n) (h : n ≤ maxAlloc) :
    (alloc 1 n a : Checked ε (List α)) = .ok (List.replicate n.toNat a) :=
  alloc_eq h₀ (by omega)

/-! ### Loops over lists -/

lemma forEach_append (body : α → σ → Checked ε σ) (as bs : List α) (s : σ) :
    forEach body (as ++ bs) s = forEach body as s >>= forEach body bs := by
  induction as generalizing s with
  | nil => rfl
  | cons a as ih =>
    rw [List.cons_append, forEach, forEach, bind_assoc]
    congr 1
    funext s'
    exact ih s'

/-- A loop of numbers runs over their list. -/
lemma repeatFor_eq_forEach (body : ℕ → σ → Checked ε σ) (s : σ) (n : ℕ) :
    repeatFor body s n = forEach body (List.range n) s := by
  induction n with
  | zero => rfl
  | succ n ih =>
    rw [repeatFor, ih, List.range_succ, forEach_append]
    congr 1
    funext s'
    rw [forEach, show forEach body [] = Except.ok from funext fun _ => rfl]
    exact (bind_pure (body n s')).symm

/-- A loop in a loop runs over the pairs. -/
lemma forEach_flatMap (body : β → σ → Checked ε σ) (f : α → List β) (as : List α) (s : σ) :
    forEach body (as.flatMap f) s = forEach (fun a s => forEach body (f a) s) as s := by
  induction as generalizing s with
  | nil => rfl
  | cons a as ih =>
    rw [List.flatMap_cons, forEach_append, forEach]
    congr 1
    funext s'
    exact ih s'

lemma forEach_map (body : β → σ → Checked ε σ) (f : α → β) (as : List α) (s : σ) :
    forEach body (as.map f) s = forEach (fun a s => body (f a) s) as s := by
  induction as generalizing s with
  | nil => rfl
  | cons a as ih =>
    rw [List.map_cons, forEach, forEach]
    congr 1
    funext s'
    exact ih s'

/-- A loop that passes over some elements runs over the others. -/
lemma forEach_filter (body : α → σ → Checked ε σ) (p : α → Bool) (as : List α) (s : σ) :
    forEach body (as.filter p) s = forEach (fun a s => if p a then body a s else .ok s) as s := by
  induction as generalizing s with
  | nil => rfl
  | cons a as ih =>
    rw [forEach]
    cases hp : p a with
    | false =>
      rw [List.filter_cons_of_neg (by simp [hp]), ih]
      rfl
    | true =>
      rw [List.filter_cons_of_pos hp, forEach, if_pos rfl]
      congr 1
      funext s'
      exact ih s'

/-- A loop without checks is a fold. -/
lemma forEach_ok (f : σ → α → σ) (as : List α) (s : σ) :
    (forEach (fun a s => .ok (f s a)) as s : Checked ε σ) = .ok (as.foldl f s) := by
  induction as generalizing s with
  | nil => rfl
  | cons a as ih => exact ih (f s a)

lemma forEach_congr {body body' : α → σ → Checked ε σ} {as : List α}
    (h : ∀ a ∈ as, ∀ s, body a s = body' a s) (s : σ) :
    forEach body as s = forEach body' as s := by
  induction as generalizing s with
  | nil => rfl
  | cons a as ih =>
    rw [forEach, forEach, h a (List.mem_cons_self ..)]
    congr 1
    funext s'
    exact ih (fun b hb => h b (List.mem_cons_of_mem a hb)) s'

/-! ### How a computation ends -/

/-- There is no panic: a result satisfies `P`, an error satisfies `E`. -/
inductive Ends (P : α → Prop) (E : ε → Prop) : Checked ε α → Prop
  | ok {a : α} (h : P a) : Ends P E (.ok a)
  | fail {e : ε} (h : E e) : Ends P E (Checked.fail e)

/-- There is a result, and it satisfies `P`. -/
abbrev Gives (P : α → Prop) (c : Checked ε α) : Prop := Ends P (fun _ => False) c

variable {P Q : α → Prop} {E E' : ε → Prop}

lemma Ends.of_ok {a : α} (h : Ends P E (.ok a)) : P a := by
  cases h with
  | ok h => exact h

@[simp] lemma ends_ok_iff {a : α} : Ends P E (.ok a) ↔ P a := ⟨Ends.of_ok, .ok⟩

@[simp] lemma ends_fail_iff {e : ε} : Ends P E (fail e : Checked ε α) ↔ E e := by
  constructor
  · intro h
    cases h with
    | fail h => exact h
  · exact .fail

lemma Ends.ne_panic {c : Checked ε α} (h : Ends P E c) (p : Panic) : c ≠ .error (.panic p) := by
  rintro rfl
  cases h

lemma gives_iff {c : Checked ε α} : Gives P c ↔ ∃ a, c = .ok a ∧ P a := by
  constructor
  · intro h
    cases h with
    | ok h => exact ⟨_, rfl, h⟩
    | fail h => exact h.elim
  · rintro ⟨a, rfl, h⟩
    exact .ok h

lemma gives_eq_iff {c : Checked ε α} {a : α} : Gives (· = a) c ↔ c = .ok a := by
  rw [gives_iff]
  constructor
  · rintro ⟨b, h, rfl⟩
    exact h
  · intro h
    exact ⟨a, h, rfl⟩

lemma Ends.weaken {c : Checked ε α} (h : Ends P E c) (hP : ∀ a, P a → Q a)
    (hE : ∀ e, E e → E' e) : Ends Q E' c := by
  cases h with
  | ok h => exact .ok (hP _ h)
  | fail h => exact .fail (hE _ h)

/-- A computation that gives a result has no error to tell. -/
lemma Gives.ends {c : Checked ε α} (h : Gives P c) (hP : ∀ a, P a → Q a) : Ends Q E c :=
  Ends.weaken h hP fun _ he => he.elim

lemma Ends.bind {c : Checked ε α} {f : α → Checked ε β} {R : β → Prop} (hc : Ends P E c)
    (hf : ∀ a, P a → Ends R E (f a)) : Ends R E (c >>= f) := by
  cases hc with
  | ok h => exact hf _ h
  | fail h => exact .fail h

lemma Gives.bind {c : Checked ε α} {f : α → Checked ε β} {R : β → Prop} (hc : Gives P c)
    (hf : ∀ a, P a → Ends R E (f a)) : Ends R E (c >>= f) :=
  Ends.bind (hc.ends fun _ h => h) hf

lemma Ends.mapFail {ε' : Type} {f : ε → ε'} {E' : ε' → Prop} {c : Checked ε α} (h : Ends P E c)
    (hE : ∀ e, E e → E' (f e)) : Ends P E' (c.mapFail f) := by
  cases h with
  | ok h => exact .ok h
  | fail h => exact .fail (hE _ h)

lemma Ends.ite {p : Prop} [Decidable p] {c d : Checked ε α} (hc : p → Ends P E c)
    (hd : ¬p → Ends P E d) : Ends P E (if p then c else d) := by
  split_ifs with h
  · exact hc h
  · exact hd h

/-! ### Rules for the operations -/

/-- A store in range changes its own element and no other. -/
lemma gives_store {xs : List α} {i : ℤ} {a : α} (h₀ : 0 ≤ i) (hi : i < xs.length) :
    Gives (fun ys => ys.length = xs.length ∧
      ∀ j, (index ys j : Checked ε α) = if j = i then .ok a else index xs j)
      (store xs i a : Checked ε (List α)) := by
  have h : (store xs i a : Checked ε (List α)) = .ok (xs.set i.toNat a) := if_pos ⟨h₀, hi⟩
  rw [h]
  exact .ok ⟨length_store h, index_store h⟩

/-- `I i` holds after `i` passes. -/
lemma ends_repeatFor {body : ℕ → σ → Checked ε σ} {s : σ} (I : ℕ → σ → Prop) (n : ℕ)
    (h₀ : I 0 s) (hstep : ∀ i < n, ∀ s, I i s → Ends (I (i + 1)) E (body i s)) :
    Ends (I n) E (repeatFor body s n) := by
  induction n with
  | zero => exact .ok h₀
  | succ n ih =>
    refine Ends.bind (ih fun i hi => hstep i (by omega)) ?_
    exact hstep n (by omega)

/-- What every pass that gives a result keeps holds of the result. -/
lemma of_repeatFor_eq_ok {body : ℕ → σ → Checked ε σ} {s s' : σ} (I : ℕ → σ → Prop) {n : ℕ}
    (h₀ : I 0 s) (hstep : ∀ i < n, ∀ s s', I i s → body i s = .ok s' → I (i + 1) s')
    (h : repeatFor body s n = .ok s') : I n s' := by
  induction n generalizing s' with
  | zero =>
    cases h
    exact h₀
  | succ n ih =>
    rw [repeatFor] at h
    cases hn : repeatFor body s n with
    | error e =>
      rw [hn] at h
      cases h
    | ok s₁ =>
      rw [hn, ok_bind] at h
      exact hstep n (by omega) s₁ s' (ih (fun i hi => hstep i (by omega)) hn) h

/-- `I done` holds when the elements `done` have had their turn. -/
lemma ends_forEach {body : α → σ → Checked ε σ} (I : List α → σ → Prop) (l : List α) {s : σ}
    (h₀ : I [] s)
    (hstep : ∀ done a rest, l = done ++ a :: rest → ∀ s, I done s →
      Ends (I (done ++ [a])) E (body a s)) :
    Ends (I l) E (forEach body l s) := by
  suffices h : ∀ rest done s, l = done ++ rest → I done s → Ends (I l) E (forEach body rest s) from
    h l [] s rfl h₀
  intro rest
  induction rest with
  | nil =>
    intro done s hl hI
    rw [List.append_nil] at hl
    subst hl
    exact .ok hI
  | cons a rest ih =>
    intro done s hl hI
    refine Ends.bind (hstep done a rest hl s hI) fun s' hs' => ?_
    exact ih (done ++ [a]) s' (by simp [hl]) hs'

/-- `I` is kept by each pass, and `μ`, which bounds the passes left, goes down. -/
lemma ends_whileLoop {cond : σ → Checked ε Bool} {body : σ → Checked ε σ} {Q : σ → Prop}
    (I : σ → Prop) (μ : σ → ℕ)
    (hcond : ∀ s, I s → Ends (fun go => if go then
      Ends (fun s' => I s' ∧ μ s' < μ s) E (body s) else Q s) E (cond s)) {n : ℕ} {s : σ}
    (hs : I s) (hn : μ s < n) : Ends Q E (whileLoop cond body n s) := by
  induction n generalizing s with
  | zero => omega
  | succ n ih =>
    refine Ends.bind (hcond s hs) fun go hgo => ?_
    cases go with
    | false => exact .ok hgo
    | true =>
      refine Ends.bind hgo fun s' h => ?_
      exact ih h.1 (by omega)

end Checked
