import Mathlib.Data.Nat.Notation
import Mathlib.Logic.Function.Basic
import Mathlib.Tactic.Common

/-!
# Computations that may be cut short

Computations over a state that are made of steps. A step may be cut short, with a part of its
work done: it fails and the computation goes on with the error, or the machine crashes and nothing
goes on. `Ensures` says what holds where a computation succeeds and what holds wherever it ends
short of that. As it can end before each of its steps, the latter holds at every instant of it.
-/

/-- How much of its work a step that is cut short has done, and whether the machine crashed. -/
structure Cut where
  done : ℕ
  crash : Bool
  deriving DecidableEq

inductive Outcome (ε α : Type)
  | ok (a : α)
  | error (e : ε)
  | crashed
  deriving DecidableEq

/-- A computation, given for each of its steps to come the cut it meets, if any. After them no
step meets one. -/
def Steps (σ ε α : Type) : Type :=
  List (Option Cut) → σ → Outcome ε α × List (Option Cut) × σ

namespace Steps
variable {σ ε α β : Type}

instance : Monad (Steps σ ε) where
  pure a := fun cuts s => (.ok a, cuts, s)
  bind m f := fun cuts s =>
    match m cuts s with
    | (.ok a, cuts, s) => f a cuts s
    | (.error e, cuts, s) => (.error e, cuts, s)
    | (.crashed, cuts, s) => (.crashed, cuts, s)

def throw (e : ε) : Steps σ ε α := fun cuts s => (.error e, cuts, s)

def mapError {δ : Type} (f : ε → δ) (m : Steps σ ε α) : Steps σ δ α := fun cuts s =>
  match m cuts s with
  | (.ok a, cuts, s) => (.ok a, cuts, s)
  | (.error e, cuts, s) => (.error (f e), cuts, s)
  | (.crashed, cuts, s) => (.crashed, cuts, s)

/-- A part of the state, read without a step. -/
def get (f : σ → α) : Steps σ ε α := fun cuts s => (.ok (f s), cuts, s)

/-- The state changed without a step. -/
def modify (f : σ → σ) : Steps σ ε Unit := fun cuts s => (.ok (), cuts, f s)

/-- A step. It may fail by itself, and where it is cut short it fails with `e` and leaves what
`part` makes of the state. -/
def step (e : ε) (op : σ → Except ε α × σ) (part : ℕ → σ → σ) : Steps σ ε α := fun cuts s =>
  match cuts.head?.join with
  | some c => (if c.crash then .crashed else .error e, cuts.tail, part c.done s)
  | none =>
    match op s with
    | (.ok a, s) => (.ok a, cuts.tail, s)
    | (.error e, s) => (.error e, cuts.tail, s)

/-- A step that changes the state or, cut short, leaves it as it is. -/
def change (e : ε) (f : σ → σ) : Steps σ ε Unit := step e (fun s => (.ok (), f s)) fun _ s => s

/-- A step of which only the failure is seen. -/
def settle (e : ε) : Steps σ ε Unit := change e id

/-- A computation at one place of a state that has many. -/
def focus {ι : Type} [DecidableEq ι] (i : ι) (m : Steps σ ε α) : Steps (ι → σ) ε α := fun cuts s =>
  match m cuts (s i) with
  | (r, cuts, v) => (r, cuts, Function.update s i v)

/-- The states at the instants of a computation, between its steps, amid them and after them. -/
def Instant (m : Steps σ ε α) (s s' : σ) : Prop := ∃ cuts, (m cuts s).2.2 = s'

@[simp] lemma pure_apply (a : α) (cuts : List (Option Cut)) (s : σ) :
    (pure a : Steps σ ε α) cuts s = (.ok a, cuts, s) := rfl

lemma bind_apply (m : Steps σ ε α) (f : α → Steps σ ε β) (cuts : List (Option Cut)) (s : σ) :
    (m >>= f) cuts s = match m cuts s with
      | (.ok a, cuts, s) => f a cuts s
      | (.error e, cuts, s) => (.error e, cuts, s)
      | (.crashed, cuts, s) => (.crashed, cuts, s) := rfl

lemma bind_of_ok {m : Steps σ ε α} {f : α → Steps σ ε β} {cuts cuts' : List (Option Cut)}
    {s s' : σ} {a : α} (h : m cuts s = (.ok a, cuts', s')) : (m >>= f) cuts s = f a cuts' s' := by
  rw [bind_apply, h]

lemma bind_of_error {m : Steps σ ε α} {f : α → Steps σ ε β} {cuts cuts' : List (Option Cut)}
    {s s' : σ} {e : ε} (h : m cuts s = (.error e, cuts', s')) :
    (m >>= f) cuts s = (.error e, cuts', s') := by
  rw [bind_apply, h]

lemma mapError_of_ok {δ : Type} {f : ε → δ} {m : Steps σ ε α} {cuts cuts' : List (Option Cut)}
    {s s' : σ} {a : α} (h : m cuts s = (.ok a, cuts', s')) :
    mapError f m cuts s = (.ok a, cuts', s') := by
  rw [mapError, h]

lemma mapError_of_error {δ : Type} {f : ε → δ} {m : Steps σ ε α} {cuts cuts' : List (Option Cut)}
    {s s' : σ} {e : ε} (h : m cuts s = (.error e, cuts', s')) :
    mapError f m cuts s = (.error (f e), cuts', s') := by
  rw [mapError, h]

lemma mapError_bind {δ : Type} (g : ε → δ) (m : Steps σ ε α) (f : α → Steps σ ε β) :
    mapError g (m >>= f) = mapError g m >>= fun a => mapError g (f a) := by
  funext cuts s
  rw [bind_apply, mapError, bind_apply, mapError]
  rcases m cuts s with ⟨a | e | _, cuts', s'⟩ <;> rfl

lemma mapError_eq_ok_iff {δ : Type} {f : ε → δ} {m : Steps σ ε α} {cuts cuts' : List (Option Cut)}
    {s s' : σ} {a : α} :
    mapError f m cuts s = (.ok a, cuts', s') ↔ m cuts s = (.ok a, cuts', s') := by
  rw [mapError]
  rcases m cuts s with ⟨b | e | _, cuts'', s''⟩ <;> simp

lemma instant_mapError_iff {δ : Type} {f : ε → δ} {m : Steps σ ε α} {s s' : σ} :
    Instant (mapError f m) s s' ↔ Instant m s s' := by
  have hstate : ∀ cuts, (mapError f m cuts s).2.2 = (m cuts s).2.2 := by
    intro cuts
    rw [mapError]
    rcases m cuts s with ⟨a | e | _, cuts', s''⟩ <;> rfl
  simp only [Instant, hstate]

/-! ### Without cuts -/

lemma step_nil (e : ε) (op : σ → Except ε α × σ) (part : ℕ → σ → σ) (s : σ) :
    step e op part [] s = match op s with
      | (.ok a, s) => (.ok a, [], s)
      | (.error e, s) => (.error e, [], s) := rfl

@[simp] lemma change_nil (e : ε) (f : σ → σ) (s : σ) : change e f [] s = (.ok (), [], f s) := rfl

@[simp] lemma settle_nil (e : ε) (s : σ) : settle e [] s = (.ok (), [], s) := rfl

/-! ### The logic -/

/-- From a state with `P` the computation comes to one with `Q` where it succeeds, and to one with
`E` where it is stopped. -/
def Ensures (P : σ → Prop) (m : Steps σ ε α) (Q : α → σ → Prop) (E : σ → Prop) : Prop :=
  ∀ cuts s, P s → match m cuts s with
    | (.ok a, _, s) => Q a s
    | (.error _, _, s) => E s
    | (.crashed, _, s) => E s

section Rules
variable {P P' E E' : σ → Prop} {Q Q' R : α → σ → Prop}

lemma Ensures.weaken {m : Steps σ ε α} (h : Ensures P m Q E) (hP : ∀ s, P' s → P s)
    (hQ : ∀ a s, Q a s → Q' a s) (hE : ∀ s, E s → E' s) : Ensures P' m Q' E' := by
  intro cuts s hs
  have hm := h cuts s (hP s hs)
  rcases hms : m cuts s with ⟨a | e | _, cuts', s'⟩
  · rw [hms] at hm
    exact hQ a s' hm
  · rw [hms] at hm
    exact hE s' hm
  · rw [hms] at hm
    exact hE s' hm

/-- What does not depend on the state is known at once. -/
lemma Ensures.of_and {m : Steps σ ε α} {φ : Prop} (h : φ → Ensures P m Q E) :
    Ensures (fun s => φ ∧ P s) m Q E := fun cuts s hs => h hs.1 cuts s hs.2

lemma Ensures.pure {a : α} (h : ∀ s, P s → Q a s) :
    Ensures P (Pure.pure a : Steps σ ε α) Q E := fun _ s hs => h s hs

lemma Ensures.throw {e : ε} (h : ∀ s, P s → E s) :
    Ensures P (Steps.throw e : Steps σ ε α) Q E := fun _ s hs => h s hs

lemma Ensures.get {f : σ → α} (h : ∀ s, P s → Q (f s) s) :
    Ensures P (Steps.get f : Steps σ ε α) Q E := fun _ s hs => h s hs

lemma Ensures.modify {f : σ → σ} {Q : Unit → σ → Prop} (h : ∀ s, P s → Q () (f s)) :
    Ensures P (Steps.modify f : Steps σ ε Unit) Q E := fun _ s hs => h s hs

lemma Ensures.bind {m : Steps σ ε α} {f : α → Steps σ ε β} {Q : β → σ → Prop}
    (hm : Ensures P m R E) (hf : ∀ a, Ensures (R a) (f a) Q E) : Ensures P (m >>= f) Q E := by
  intro cuts s hs
  have h := hm cuts s hs
  rw [bind_apply]
  rcases hms : m cuts s with ⟨a | e | _, cuts', s'⟩
  · rw [hms] at h
    exact hf a cuts' s' h
  · rw [hms] at h
    exact h
  · rw [hms] at h
    exact h

/-- A step from its outcomes: done, failed by itself, or cut short. -/
lemma Ensures.step {e : ε} {op : σ → Except ε α × σ} {part : ℕ → σ → σ}
    (hok : ∀ s a s', P s → op s = (.ok a, s') → Q a s')
    (herror : ∀ s e s', P s → op s = (.error e, s') → E s')
    (hpart : ∀ s n, P s → E (part n s)) : Ensures P (Steps.step e op part) Q E := by
  intro cuts s hs
  rw [Steps.step]
  cases cuts.head?.join with
  | some c =>
    dsimp only
    split_ifs
    · exact hpart s c.done hs
    · exact hpart s c.done hs
  | none =>
    rcases hop : op s with ⟨e | a, s'⟩
    · exact herror s e s' hs hop
    · exact hok s a s' hs hop

lemma Ensures.change {e : ε} {f : σ → σ} {Q : Unit → σ → Prop} (hf : ∀ s, P s → Q () (f s))
    (hE : ∀ s, P s → E s) : Ensures P (Steps.change e f) Q E :=
  .step (fun s a s' hs h => by cases h; exact hf s hs) (fun s e s' hs h => by cases h)
    fun s n hs => hE s hs

lemma Ensures.settle {e : ε} (hE : ∀ s, P s → E s) :
    Ensures P (Steps.settle e : Steps σ ε Unit) (fun _ => P) E := .change (fun _ hs => hs) hE

lemma Ensures.mapError {δ : Type} {f : ε → δ} {m : Steps σ ε α} (h : Ensures P m Q E) :
    Ensures P (Steps.mapError f m) Q E := by
  intro cuts s hs
  have hm := h cuts s hs
  rw [Steps.mapError]
  rcases hms : m cuts s with ⟨a | e | _, cuts', s'⟩ <;> rw [hms] at hm <;> exact hm

/-- At one place of a state the computation changes nothing else. -/
lemma Ensures.focus {ι : Type} [DecidableEq ι] {i : ι} {m : Steps σ ε α} {s₀ : ι → σ}
    (h : Ensures (· = s₀ i) m Q E) :
    Ensures (· = s₀) (Steps.focus i m) (fun a s => ∃ v, Q a v ∧ s = Function.update s₀ i v)
      fun s => ∃ v, E v ∧ s = Function.update s₀ i v := by
  rintro cuts s rfl
  have hm := h cuts (s i) rfl
  rw [Steps.focus]
  rcases hms : m cuts (s i) with ⟨a | e | _, cuts', v⟩ <;> rw [hms] at hm <;> exact ⟨v, hm, rfl⟩

/-- What holds after a computation and wherever it is stopped holds at its instants. -/
lemma Ensures.instant {m : Steps σ ε α} (h : Ensures P m (fun _ => E) E) {s s' : σ} (hs : P s)
    (hinstant : Instant m s s') : E s' := by
  obtain ⟨cuts, rfl⟩ := hinstant
  have hm := h cuts s hs
  rcases hms : m cuts s with ⟨a | e | _, cuts', s'⟩
  · rw [hms] at hm
    exact hm
  · rw [hms] at hm
    exact hm
  · rw [hms] at hm
    exact hm

end Rules
end Steps
