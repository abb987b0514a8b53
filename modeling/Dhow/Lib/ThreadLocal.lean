import Mathlib.Logic.Function.Basic
import Mathlib.Logic.Relation

/-!
# Values of threads

Routines that a scheduler moves between threads, each of which keeps a value. A routine may lock
itself to a thread for a section, and has the thread to itself until it unlocks; without that
it may be on another thread at each of its accesses. Whatever the schedule, a section comes to what
it would come to alone.
-/

/-- A computation on the value that a thread keeps, one access after the other. -/
inductive Accesses (σ α : Type)
  | done (a : α)
  | access (put : σ → σ) (next : σ → Accesses σ α)

namespace Accesses
variable {σ α β : Type}

/-- The computation with no one else at the value. -/
def run : Accesses σ α → σ → α × σ
  | done a, s => (a, s)
  | access put next, s => (next s).run (put s)

def bind : Accesses σ α → (α → Accesses σ β) → Accesses σ β
  | done a, f => f a
  | access put next, f => access put fun s => (next s).bind f

@[simp] lemma run_done (a : α) (s : σ) : (done a).run s = (a, s) := rfl

@[simp] lemma run_access (put : σ → σ) (next : σ → Accesses σ α) (s : σ) :
    (access put next).run s = (next s).run (put s) := rfl

@[simp] lemma run_bind (m : Accesses σ α) (f : α → Accesses σ β) (s : σ) :
    (m.bind f).run s = (f (m.run s).1).run (m.run s).2 := by
  induction m generalizing s with
  | done a => rfl
  | access put next ih => exact ih s (put s)

end Accesses

/-- What a routine does while it is locked: all of it, and what is left. -/
structure Section (σ : Type) where
  Result : Type
  whole : Accesses σ Result
  rest : Accesses σ Result

namespace Section
variable {σ : Type}

def start {α : Type} (m : Accesses σ α) : Section σ := ⟨α, m, m⟩

/-- With `s` in its thread the section comes to what it would have come to alone. -/
def Undisturbed (c : Section σ) (s : σ) : Prop := ∃ s₀, c.whole.run s₀ = c.rest.run s

end Section

/-- The values of the threads, the threads that routines are locked to, and the sections that are
over, with their results. -/
structure Threads (θ γ σ : Type) where
  kept : θ → σ
  locked : γ → Option (θ × Section σ)
  ended : List ((α : Type) × Accesses σ α × α)

namespace Threads
variable {θ γ σ : Type} [DecidableEq θ] [DecidableEq γ]

def Free (w : Threads θ γ σ) (t : θ) : Prop := ∀ g c, w.locked g ≠ some (t, c)

inductive Step : Threads θ γ σ → Threads θ γ σ → Prop
  | lock {w : Threads θ γ σ} {g : γ} {t : θ} {α : Type} (m : Accesses σ α)
      (hg : w.locked g = none) (ht : w.Free t) :
      Step w { w with locked := Function.update w.locked g (some (t, .start m)) }
  | access {w : Threads θ γ σ} {g : γ} {t : θ} {α : Type} {whole : Accesses σ α} {put : σ → σ}
      {next : σ → Accesses σ α} (hg : w.locked g = some (t, ⟨α, whole, .access put next⟩)) :
      Step w { w with
        kept := Function.update w.kept t (put (w.kept t))
        locked := Function.update w.locked g (some (t, ⟨α, whole, next (w.kept t)⟩)) }
  | unlock {w : Threads θ γ σ} {g : γ} {t : θ} {α : Type} {whole : Accesses σ α} {a : α}
      (hg : w.locked g = some (t, ⟨α, whole, .done a⟩)) :
      Step w { w with
        locked := Function.update w.locked g none
        ended := ⟨α, whole, a⟩ :: w.ended }
  /-- A routine without a lock is on some thread that no one has. -/
  | unlocked {w : Threads θ γ σ} {t : θ} (put : σ → σ) (ht : w.Free t) :
      Step w { w with kept := Function.update w.kept t (put (w.kept t)) }

/-- Threads are locked by one routine at a time, and no section is disturbed. -/
structure Isolated (w : Threads θ γ σ) : Prop where
  alone : ∀ g g' t c c', w.locked g = some (t, c) → w.locked g' = some (t, c') → g = g'
  undisturbed : ∀ g t c, w.locked g = some (t, c) → c.Undisturbed (w.kept t)
  ended_eq : ∀ x ∈ w.ended, ∃ s, x.2.2 = (x.2.1.run s).1

omit [DecidableEq θ] in
lemma update_locked {w : Threads θ γ σ} {g g' : γ} {x y : Option (θ × Section σ)}
    (h : Function.update w.locked g x g' = y) : g' = g ∧ x = y ∨ g' ≠ g ∧ w.locked g' = y := by
  by_cases hg : g' = g
  · subst hg
    rw [Function.update_self] at h
    exact .inl ⟨rfl, h⟩
  · rw [Function.update_of_ne hg] at h
    exact .inr ⟨hg, h⟩

omit [DecidableEq θ] in
/-- A routine that no other shares its thread with may go on to any section there. -/
lemma alone_update {w : Threads θ γ σ} (hw : w.Isolated) {g : γ} {t : θ} {c : Section σ}
    (ht : ∀ g' c', w.locked g' = some (t, c') → g' = g) (g₁ g₂ : γ) (t' : θ) (c₁ c₂ : Section σ)
    (h₁ : Function.update w.locked g (some (t, c)) g₁ = some (t', c₁))
    (h₂ : Function.update w.locked g (some (t, c)) g₂ = some (t', c₂)) : g₁ = g₂ := by
  rcases update_locked h₁ with ⟨rfl, hc₁⟩ | ⟨-, hold₁⟩
  · rcases update_locked h₂ with ⟨rfl, -⟩ | ⟨-, hold₂⟩
    · rfl
    · cases hc₁
      exact (ht g₂ c₂ hold₂).symm
  · rcases update_locked h₂ with ⟨rfl, hc₂⟩ | ⟨-, hold₂⟩
    · cases hc₂
      exact ht g₁ c₁ hold₁
    · exact hw.alone g₁ g₂ t' c₁ c₂ hold₁ hold₂

/-- An access on one thread leaves the sections on others. -/
lemma undisturbed_update {kept : θ → σ} {t t' : θ} {c : Section σ} {s : σ}
    (h : c.Undisturbed (kept t')) (ht : t' ≠ t) :
    c.Undisturbed (Function.update kept t s t') := by
  rwa [Function.update_of_ne ht]

lemma Step.isolated {w w' : Threads θ γ σ} (h : Step w w') (hw : w.Isolated) : w'.Isolated := by
  have ⟨halone, hundisturbed, hended⟩ := hw
  cases h with
  | @lock g t α m hg ht =>
    refine ⟨alone_update hw fun g' c' h => absurd h (ht g' c'), fun g' t' c h => ?_, hended⟩
    rcases update_locked h with ⟨rfl, hc⟩ | ⟨-, hold⟩
    · cases hc
      exact ⟨w.kept t, rfl⟩
    · exact hundisturbed g' t' c hold
  | @access g t α whole put next hg =>
    refine ⟨alone_update hw fun g' c' h => halone g' g t c' _ h hg, fun g' t' c h => ?_, hended⟩
    rcases update_locked h with ⟨rfl, hc⟩ | ⟨hne, hold⟩
    · cases hc
      obtain ⟨s₀, hs₀⟩ := hundisturbed g' t _ hg
      refine ⟨s₀, hs₀.trans ?_⟩
      dsimp only
      rw [Function.update_self, Accesses.run_access]
    · refine undisturbed_update (hundisturbed g' t' c hold) fun ht => hne ?_
      subst ht
      exact halone g' g t' c _ hold hg
  | @unlock g t α whole a hg =>
    refine ⟨fun g₁ g₂ t' c₁ c₂ h₁ h₂ => ?_, fun g' t' c h => ?_, ?_⟩
    · rcases update_locked h₁ with ⟨-, hc₁⟩ | ⟨-, hold₁⟩
      · cases hc₁
      · rcases update_locked h₂ with ⟨-, hc₂⟩ | ⟨-, hold₂⟩
        · cases hc₂
        · exact halone g₁ g₂ t' c₁ c₂ hold₁ hold₂
    · rcases update_locked h with ⟨-, hc⟩ | ⟨-, hold⟩
      · cases hc
      · exact hundisturbed g' t' c hold
    · refine List.forall_mem_cons.mpr ⟨?_, hended⟩
      obtain ⟨s₀, hs₀⟩ := hundisturbed g t _ hg
      exact ⟨s₀, (congrArg Prod.fst hs₀).symm⟩
  | @unlocked t put ht =>
    refine ⟨halone, fun g' t' c h => undisturbed_update (hundisturbed g' t' c h) ?_, hended⟩
    rintro rfl
    exact ht g' c h

/-- Whatever the schedule, the result of a section is what it comes to alone. -/
lemma ended_eq_run {w w' : Threads θ γ σ} (h : Relation.ReflTransGen Step w w')
    (hw : w.Isolated) {α : Type} {m : Accesses σ α} {a : α} (hended : ⟨α, m, a⟩ ∈ w'.ended) :
    ∃ s, a = (m.run s).1 := by
  have hsteps : w'.Isolated := by
    clear hended
    induction h with
    | refl => exact hw
    | tail _ hstep ih => exact hstep.isolated ih
  exact hsteps.ended_eq _ hended

/-- A section can always be brought to its end. -/
lemma exists_ended {w : Threads θ γ σ} {g : γ} {t : θ} {α : Type} {whole rest : Accesses σ α}
    (hg : w.locked g = some (t, ⟨α, whole, rest⟩)) : ∃ w' a, Relation.ReflTransGen Step w w' ∧
      ⟨α, whole, a⟩ ∈ w'.ended ∧ ∀ t' ≠ t, w'.kept t' = w.kept t' := by
  induction rest generalizing w with
  | done a => exact ⟨_, a, .single (.unlock hg), List.mem_cons_self, fun _ _ => rfl⟩
  | access put next ih =>
    obtain ⟨w', a, hsteps, hended, hkept⟩ := ih (w.kept t)
      (w := { w with
        kept := Function.update w.kept t (put (w.kept t))
        locked := Function.update w.locked g (some (t, ⟨α, whole, next (w.kept t)⟩)) })
      (Function.update_self _ _ _)
    exact ⟨w', a, hsteps.head (.access hg), hended, fun t' ht =>
      (hkept t' ht).trans (Function.update_of_ne ht _ _)⟩

end Threads
