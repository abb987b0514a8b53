import Dhow.Lib.Checked

/-!
# Code that is watched

A computation that can panic, with a record of some of what it does, also where it stops short.
-/

structure Recorded (ω ε α : Type) where
  result : Checked ε α
  record : List ω

namespace Recorded
variable {ω ε α β : Type}

def pure (a : α) : Recorded ω ε α := ⟨.ok a, []⟩

def bind (x : Recorded ω ε α) (f : α → Recorded ω ε β) : Recorded ω ε β :=
  match x.result with
  | .ok a => ⟨(f a).result, x.record ++ (f a).record⟩
  | .error stop => ⟨.error stop, x.record⟩

instance : Monad (Recorded ω ε) where
  pure := Recorded.pure
  bind := Recorded.bind

/-- Code that is not worth a record. -/
def lift (c : Checked ε α) : Recorded ω ε α := ⟨c, []⟩

def note (w : ω) : Recorded ω ε Unit := ⟨.ok (), [w]⟩

/-! ### Results -/

@[simp] lemma result_lift (c : Checked ε α) : (lift c : Recorded ω ε α).result = c := rfl

@[simp] lemma result_note (w : ω) : (note w : Recorded ω ε Unit).result = .ok () := rfl

@[simp] lemma result_bind (x : Recorded ω ε α) (f : α → Recorded ω ε β) :
    (x >>= f).result = x.result >>= fun a => (f a).result := by
  change (bind x f).result = _
  unfold bind
  cases x.result <;> rfl

/-! ### Records -/

/-- Everything on record satisfies `W`. -/
def Notes (W : ω → Prop) (x : Recorded ω ε α) : Prop := ∀ w ∈ x.record, W w

variable {W : ω → Prop}

lemma Notes.pure (a : α) : Notes W (Pure.pure a : Recorded ω ε α) := List.forall_mem_nil _

lemma Notes.lift (c : Checked ε α) : Notes W (Recorded.lift c : Recorded ω ε α) :=
  List.forall_mem_nil _

lemma Notes.note {w : ω} (h : W w) : Notes W (Recorded.note w : Recorded ω ε Unit) :=
  List.forall_mem_singleton.mpr h

lemma Notes.bind {x : Recorded ω ε α} {f : α → Recorded ω ε β} (hx : Notes W x)
    (hf : ∀ a, x.result = .ok a → Notes W (f a)) : Notes W (x >>= f) := by
  change ∀ w ∈ (Recorded.bind x f).record, W w
  unfold Recorded.bind
  cases h : x.result with
  | error stop => exact hx
  | ok a => exact List.forall_mem_append.mpr ⟨hx, hf a h⟩

lemma Notes.ite {p : Prop} [Decidable p] {x y : Recorded ω ε α} (hx : p → Notes W x)
    (hy : ¬p → Notes W y) : Notes W (if p then x else y) := by
  split_ifs with h
  · exact hx h
  · exact hy h

end Recorded
