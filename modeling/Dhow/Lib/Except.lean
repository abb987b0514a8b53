import Mathlib.Data.List.Forall2
import Mathlib.Tactic.Common

/-!
# Loops that may fail

`List.mapM` over `Except` is the loop that pushes the result of each step and stops at the first
error. It succeeds exactly when every step does.
-/

namespace Except
variable {ε α β : Type}

lemma mapM_eq_ok_iff {f : α → Except ε β} {l : List α} {r : List β} :
    l.mapM f = .ok r ↔ List.Forall₂ (fun a b => f a = .ok b) l r := by
  induction l generalizing r with
  | nil =>
    rw [List.mapM_nil, List.forall₂_nil_left_iff]
    exact ⟨fun h => by cases h; rfl, fun h => by subst h; rfl⟩
  | cons a l ih =>
    rw [List.mapM_cons]
    constructor
    · intro h
      cases ha : f a with
      | error e => simp [ha, bind, Except.bind] at h
      | ok b =>
        cases hl : l.mapM f with
        | error e => simp [ha, hl, bind, Except.bind] at h
        | ok bs =>
          simp only [ha, hl, bind, Except.bind, pure, Except.pure, Except.ok.injEq] at h
          subst h
          exact .cons ha (ih.mp hl)
    · intro h
      cases h with
      | cons ha hl => simp [ha, ih.mpr hl, bind, Except.bind, pure, Except.pure]

lemma length_of_mapM {f : α → Except ε β} {l : List α} {r : List β} (h : l.mapM f = .ok r) :
    r.length = l.length := (mapM_eq_ok_iff.mp h).length_eq.symm

lemma getElem?_of_mapM {f : α → Except ε β} {l : List α} {r : List β} (h : l.mapM f = .ok r)
    {i : ℕ} {a : α} (ha : l[i]? = some a) : ∃ b, r[i]? = some b ∧ f a = .ok b := by
  have hf := mapM_eq_ok_iff.mp h
  clear h
  induction hf generalizing i with
  | nil => simp at ha
  | cons hb hl ih =>
    cases i with
    | zero =>
      simp only [List.getElem?_cons_zero, Option.some.injEq] at ha
      subst ha
      exact ⟨_, rfl, hb⟩
    | succ i => exact ih (by simpa using ha)

/-- A result of a successful loop is the result of one of its steps. -/
lemma mem_of_mapM {f : α → Except ε β} {l : List α} {r : List β} (h : l.mapM f = .ok r) {b : β} :
    b ∈ r ↔ ∃ a ∈ l, f a = .ok b := by
  have hf := mapM_eq_ok_iff.mp h
  clear h
  induction hf with
  | nil => simp
  | @cons a b' l r hb hl ih =>
    rw [List.mem_cons]
    constructor
    · rintro (rfl | hb')
      · exact ⟨a, by simp, hb⟩
      · obtain ⟨x, hx, hfx⟩ := ih.mp hb'
        exact ⟨x, by simp [hx], hfx⟩
    · rintro ⟨x, hx, hfx⟩
      rcases List.mem_cons.mp hx with rfl | hx
      · rw [hb] at hfx
        cases hfx
        exact .inl rfl
      · exact .inr (ih.mpr ⟨x, hx, hfx⟩)

/-- A loop succeeds when each of its steps does. -/
lemma exists_mapM_eq_ok {f : α → Except ε β} {l : List α} (h : ∀ a ∈ l, ∃ b, f a = .ok b) :
    ∃ r, l.mapM f = .ok r := by
  induction l with
  | nil => exact ⟨[], mapM_eq_ok_iff.mpr .nil⟩
  | cons a l ih =>
    obtain ⟨b, hb⟩ := h a List.mem_cons_self
    obtain ⟨r, hr⟩ := ih fun x hx => h x (List.mem_cons_of_mem _ hx)
    exact ⟨b :: r, mapM_eq_ok_iff.mpr (.cons hb (mapM_eq_ok_iff.mp hr))⟩

/-- A loop of checks succeeds exactly when every check does. -/
lemma forM_eq_ok_iff {f : α → Except ε PUnit} {l : List α} :
    forM l f = .ok ⟨⟩ ↔ ∀ a ∈ l, f a = .ok ⟨⟩ := by
  induction l with
  | nil => simp [pure, Except.pure]
  | cons a l ih =>
    rw [List.forM_cons, List.forall_mem_cons, ← ih]
    cases ha : f a with
    | error e => simp [bind, Except.bind]
    | ok u => simp [bind, Except.bind]

/-- Two computations that agree up to their errors. -/
lemma toOption_eq_iff {δ : Type} {x : Except ε α} {y : Except δ α} :
    x.toOption = y.toOption ↔
      (∃ a, x = .ok a ∧ y = .ok a) ∨ ∃ e e', x = .error e ∧ y = .error e' := by
  cases x with
  | error e =>
    cases y with
    | error e' => exact ⟨fun _ => .inr ⟨e, e', rfl, rfl⟩, fun _ => rfl⟩
    | ok b => simp [Except.toOption]
  | ok a =>
    cases y with
    | error e' => simp [Except.toOption]
    | ok b => simp [Except.toOption, eq_comm]

end Except
