import Mathlib.Data.List.Induction
import Mathlib.Data.Set.Basic

/-!
# Latched accumulators

A machine consumes inputs one at a time until its state yields a result, and then keeps the
result. When the yield of a state depends only on the set of inputs consumed and survives further
inputs, the latched outcome depends only on the set of inputs offered: their order and their
repetitions do not matter, although the machine stops consuming at a moment that depends on
both.
-/

/-- A machine still consuming, or its result. -/
inductive Latch (σ β : Type)
  | pending (s : σ)
  | done (b : β)

namespace Latch
variable {σ α β : Type} (step : σ → α → σ) (result : σ → Option β)

def isDone : Latch σ β → Bool
  | pending _ => false
  | done _ => true

/-- One input: a pending machine consumes it and may finish. -/
def feed : Latch σ β → α → Latch σ β
  | done b, _ => done b
  | pending s, a =>
    match result (step s a) with
    | some b => done b
    | none => pending (step s a)

/-- The outcome of a sequence of inputs. -/
def run (l : Latch σ β) (as : List α) : Latch σ β := as.foldl (feed step result) l

@[simp] lemma run_nil (l : Latch σ β) : run step result l [] = l := rfl

@[simp] lemma run_append_singleton (l : Latch σ β) (as : List α) (a : α) :
    run step result l (as ++ [a]) = feed step result (run step result l as) a := by
  simp [run]

@[simp] lemma run_done (b : β) (as : List α) : run step result (done b) as = done b := by
  induction as with
  | nil => rfl
  | cons a as ih => exact ih

variable {step result} {init : σ} {G : Set α}

/-- Results survive further inputs from `G`. -/
def Survives (step : σ → α → σ) (result : σ → Option β) (init : σ) (G : Set α) : Prop :=
  ∀ as : List α, (∀ a ∈ as, a ∈ G) → ∀ a ∈ G, (result (as.foldl step init)).isSome →
    (result ((as ++ [a]).foldl step init)).isSome

/-- A pending outcome is the plain fold. -/
lemma run_eq_pending {as : List α} {s : σ} (h : run step result (pending init) as = pending s) :
    s = as.foldl step init := by
  induction as using List.reverseRecOn generalizing s with
  | nil =>
    cases h
    rfl
  | append_singleton as a ih =>
    rw [run_append_singleton] at h
    cases hrun : run step result (pending init) as with
    | done b => simp [hrun, feed] at h
    | pending t =>
      rw [hrun, feed] at h
      split at h
      · cases h
      · cases h
        rw [ih hrun, List.foldl_append, List.foldl_cons, List.foldl_nil]

/-- A done outcome is the result of the fold over some of the inputs. -/
lemma run_eq_done {as : List α} {b : β} (h : run step result (pending init) as = done b) :
    ∃ pre ⊆ as, result (pre.foldl step init) = some b := by
  induction as using List.reverseRecOn with
  | nil => cases h
  | append_singleton as a ih =>
    rw [run_append_singleton] at h
    cases hrun : run step result (pending init) as with
    | done c =>
      rw [hrun] at h
      cases h
      obtain ⟨pre, hpre, hres⟩ := ih hrun
      exact ⟨pre, fun x hx => List.mem_append_left _ (hpre hx), hres⟩
    | pending t =>
      rw [hrun, feed] at h
      split at h
      next c hc =>
        cases h
        refine ⟨as ++ [a], List.Subset.refl _, ?_⟩
        rw [List.foldl_append, List.foldl_cons, List.foldl_nil, ← run_eq_pending hrun, hc]
      · cases h

/-- With surviving results the latch agrees with the unlatched fold. -/
lemma isDone_run_iff (hs : Survives step result init G) {as : List α} (has : ∀ a ∈ as, a ∈ G) :
    (run step result (pending init) as).isDone = true ↔
      as ≠ [] ∧ (result (as.foldl step init)).isSome := by
  induction as using List.reverseRecOn with
  | nil => simp [isDone]
  | append_singleton as a ih =>
    have has' : ∀ x ∈ as, x ∈ G := fun x hx => has x (List.mem_append_left _ hx)
    rw [run_append_singleton]
    cases hrun : run step result (pending init) as with
    | done b =>
      have hsome := hs as has' a (has a (by simp)) ((ih has').mp (by rw [hrun]; rfl)).2
      exact ⟨fun _ => ⟨by simp, hsome⟩, fun _ => rfl⟩
    | pending s =>
      rw [run_eq_pending hrun, feed, List.foldl_append, List.foldl_cons, List.foldl_nil]
      cases hr : result (step (as.foldl step init) a) <;> simp [isDone]

/-- The latched outcome is done with the same inputs, in whatever order and repetition. -/
theorem isDone_run_congr (hs : Survives step result init G)
    (hset : ∀ as bs : List α, (∀ a ∈ as, a ∈ G) → (∀ b ∈ bs, b ∈ G) → (∀ x, x ∈ as ↔ x ∈ bs) →
      result (as.foldl step init) = result (bs.foldl step init))
    {as bs : List α} (has : ∀ a ∈ as, a ∈ G) (hbs : ∀ b ∈ bs, b ∈ G) (h : ∀ x, x ∈ as ↔ x ∈ bs) :
    (run step result (pending init) as).isDone = (run step result (pending init) bs).isDone := by
  have hnil : as ≠ [] ↔ bs ≠ [] := by
    simp only [ne_eq, List.eq_nil_iff_forall_not_mem, h]
  rw [Bool.eq_iff_iff, isDone_run_iff hs has, isDone_run_iff hs hbs, hset as bs has hbs h, hnil]

end Latch
