import Dhow.Lib.FileSystem

/-!
# System calls that may fail

Computations over a world of a file system and the faults to come. Each call takes the next
fault, or the absence of one, and a call that fails may leave part of its work behind. `Ensures`
is the logic of such computations, and `Absent` the property that nothing is at a path.
-/

namespace FileSystem
variable {N F : Type}

/-! ### Further operations of a file system -/

def Node.map (g : F → F) : Node F → Node F
  | .file f => .file (g f)
  | n => n

namespace Fs
variable [DecidableEq N]

/-- The data of a file changed in place. -/
def modify (fs : Fs N F) (p : Path N) (g : F → F) : Fs N F where
  nodes := fs.nodes.map fun x => (x.1, if x.1 = p then x.2.map g else x.2)
  nodup := by
    rw [List.map_map]
    exact fs.nodup
  ne_root := by
    intro y hy
    obtain ⟨x, hx, rfl⟩ := List.mem_map.mp hy
    exact fs.ne_root x hx
  closed := by
    intro y hy
    obtain ⟨x, hx, rfl⟩ := List.mem_map.mp hy
    refine (fs.closed x hx).imp id fun hd => List.mem_map.mpr ⟨_, hd, ?_⟩
    simp [Node.map]

/-- A new file that is then changed is the new file as it is changed. -/
lemma create_modify {fs fs' : Fs N F} {p : Path N} {f : F} {g : F → F}
    (h : fs.create p (g f) = .ok fs') :
    ∃ fs₁, fs.create p f = .ok fs₁ ∧ fs₁.modify p g = fs' := by
  obtain ⟨hfree, hdir⟩ := of_create_eq_ok h
  rw [create_eq hfree hdir, Except.ok.injEq] at h
  refine ⟨_, create_eq hfree hdir, ?_⟩
  rw [← h, modify]
  congr 1
  have hne : p ≠ [] := by
    rintro rfl
    cases hfree
  have hid : ∀ x ∈ fs.nodes, (x.1, if x.1 = p then x.2.map g else x.2) = x := by
    intro x hx
    rw [if_neg]
    rintro rfl
    rw [(fs.lookup_eq_some_iff hne).mpr hx] at hfree
    cases hfree
  change (p, if p = p then (Node.file f).map g else .file f) :: _ = (p, .file (g f)) :: fs.nodes
  rw [if_pos rfl, List.map_congr_left hid, List.map_id']
  rfl

lemma lookup_modify (fs : Fs N F) (p q : Path N) (g : F → F) :
    (fs.modify p g).lookup q = (fs.lookup q).map fun n => if q = p then n.map g else n := by
  by_cases hq : q = []
  · rw [hq, lookup_root, lookup_root]
    simp [Node.map]
  · have hfind : ∀ x ∈ fs.nodes.find? (fun x => x.1 = q), x.1 = q := fun x hx => by
      simpa using List.find?_some hx
    rw [lookup, lookup, if_neg hq, if_neg hq, modify, List.find?_map, Option.map_map, Option.map_map]
    exact Option.map_congr fun x hx => by simp [hfind x hx]

lemma lookup_modify_eq_none_iff (fs : Fs N F) (p q : Path N) (g : F → F) :
    (fs.modify p g).lookup q = none ↔ fs.lookup q = none := by
  rw [lookup_modify, Option.map_eq_none_iff]

/-- The subtree at `p` but for the nodes in `stays` and the directories they lie in. -/
def removeExcept (fs : Fs N F) (p : Path N) (stays : List (Path N)) : Fs N F where
  nodes := fs.nodes.filter fun x => ¬p <+: x.1 ∨ ∃ s ∈ stays, x.1 <+: s
  nodup := (List.filter_sublist.map Prod.fst).nodup fs.nodup
  ne_root x hx := fs.ne_root x (List.mem_filter.mp hx).1
  closed := by
    intro x hx
    obtain ⟨hx, hp⟩ := List.mem_filter.mp hx
    refine (fs.closed x hx).imp id fun hd => List.mem_filter.mpr ⟨hd, ?_⟩
    rw [decide_eq_true_eq] at hp ⊢
    rcases hp with hp | ⟨s, hs, hxs⟩
    · exact .inl fun hq => hp (hq.trans (List.dropLast_prefix _))
    · exact .inr ⟨s, hs, (List.dropLast_prefix _).trans hxs⟩

/-- Nothing comes to be at a path by taking nodes away. -/
lemma lookup_eq_none_of_subset {fs fs' : Fs N F} (h : fs'.nodes ⊆ fs.nodes) {q : Path N}
    (hq : fs.lookup q = none) : fs'.lookup q = none := by
  have hne : q ≠ [] := by
    rintro rfl
    cases hq
  cases hn : fs'.lookup q with
  | none => rfl
  | some n =>
    have hmem := h ((fs'.lookup_eq_some_iff hne).mp hn)
    rw [(fs.lookup_eq_some_iff hne).mpr hmem] at hq
    cases hq

/-- A file or an empty directory removed. -/
def remove (fs : Fs N F) (p : Path N) : Except (FsError N) (Fs N F) :=
  if fs.lookup p = none then .error (.notExist p)
  else if ∃ x ∈ fs.nodes, p <+: x.1 ∧ p ≠ x.1 then .error (.invalid p)
  else .ok (fs.removeAll p)

/-- A directory at `p` unless there is one. -/
def ensureDir (fs : Fs N F) (p : Path N) : Except (FsError N) (Fs N F) :=
  match fs.lookup p with
  | some .dir => .ok fs
  | some _ => .error (.noDirectory p)
  | none => fs.mkdir p

/-- A file at `p`, which is `f` unless there is one. -/
def ensureFile (fs : Fs N F) (p : Path N) (f : F) : Except (FsError N) (Fs N F) :=
  match fs.lookup p with
  | some (.file _) => .ok fs
  | some _ => .error (.invalid p)
  | none => fs.create p f

/-- Way for a file that gets the name of a node that is no directory. -/
def makeWay (fs : Fs N F) (p : Path N) : Fs N F :=
  match fs.lookup p with
  | some .irregular => fs.removeAll p
  | _ => fs

/-- A file renamed, in the place of the file that has the new name. -/
def replace (fs : Fs N F) (src dst : Path N) : Except (FsError N) (Fs N F) :=
  match fs.lookup src with
  | some (.file f) =>
    if src = dst then .ok fs
    else
      match (fs.makeWay dst).ensureFile dst f with
      | .error e => .error e
      | .ok fs => .ok ((fs.modify dst fun _ => f).removeAll src)
  | some _ => .error (.invalid src)
  | none => .error (.notExist src)

def read (fs : Fs N F) (p : Path N) : Except (FsError N) F :=
  match fs.lookup p with
  | some (.file f) => .ok f
  | some _ => .error (.invalid p)
  | none => .error (.notExist p)

/-- A file is opened where one is or nothing is in a directory. -/
lemma ensureFile_spec {fs : Fs N F} {p : Path N} (f : F) (hdir : fs.lookup p.dropLast = some .dir)
    (hp : ∀ n, fs.lookup p = some n → ∃ g, n = .file g) :
    ∃ fs' g, fs.ensureFile p f = .ok fs' ∧
      ∀ q, fs'.lookup q = if q = p then some (.file g) else fs.lookup q := by
  cases hl : fs.lookup p with
  | some n =>
    obtain ⟨g, rfl⟩ := hp n hl
    refine ⟨fs, g, by rw [ensureFile, hl], fun q => ?_⟩
    split_ifs with hq
    · rw [hq, hl]
    · rfl
  | none =>
    exact ⟨_, f, by rw [ensureFile, hl]; exact create_eq hl hdir,
      lookup_insert fs p (.file f) hl hdir⟩

lemma replace_spec {fs : Fs N F} {src dst : Path N} {f : F} (hsrc : fs.lookup src = some (.file f))
    (hne : src ≠ dst) (hdir : fs.lookup dst.dropLast = some .dir)
    (hdst : ∀ n, fs.lookup dst = some n → ∃ g, n = .file g) :
    ∃ fs', fs.replace src dst = .ok fs' ∧ ∀ q, fs'.lookup q =
      if src <+: q then none else if q = dst then some (.file f) else fs.lookup q := by
  have hroot : src ≠ [] := by
    rintro rfl
    cases hsrc
  have hway : fs.makeWay dst = fs := by
    unfold makeWay
    split
    next hl =>
      obtain ⟨g, hg⟩ := hdst _ hl
      cases hg
    · rfl
  obtain ⟨fs₁, g, hensure, hlook⟩ := ensureFile_spec f hdir hdst
  refine ⟨(fs₁.modify dst fun _ => f).removeAll src, ?_, fun q => ?_⟩
  · simp only [replace, hsrc, if_neg hne, hway, hensure]
  · rw [lookup_removeAll _ hroot, lookup_modify, hlook]
    split_ifs with hpre hq
    · rfl
    · rfl
    · simp

end Fs

/-! ### Computations -/

/-- Why a call failed: for a reason of its own, or for no fault of its caller's. -/
inductive Failure (ε : Type)
  | error (e : ε)
  | fault
  deriving DecidableEq

def Failure.map {ε δ : Type} (f : ε → δ) : Failure ε → Failure δ
  | .error e => .error (f e)
  | .fault => .fault

/-- What a failing write has written, and what a failing removal has left. -/
structure Fault (N : Type) where
  written : ℕ
  stays : List (Path N)

/-- A file system, and for each call to come the fault it meets, if any. After them no call
meets one. -/
structure World (N F : Type) where
  fs : Fs N F
  faults : List (Option (Fault N))

def Sys (N F ε α : Type) : Type := World N F → Except ε α × World N F

namespace Sys
variable {ε δ α β : Type}

instance : Monad (Sys N F ε) where
  pure a := fun w => (.ok a, w)
  bind m f := fun w =>
    match m w with
    | (.ok a, w) => f a w
    | (.error e, w) => (.error e, w)

def throw (e : ε) : Sys N F ε α := fun w => (.error e, w)

/-- A computation that makes no call. -/
def lift (r : Except ε α) : Sys N F ε α := fun w => (r, w)

def mapError (f : ε → δ) (m : Sys N F ε α) : Sys N F δ α := fun w =>
  match m w with
  | (.ok a, w) => (.ok a, w)
  | (.error e, w) => (.error (f e), w)

/-- The error of a computation as a result. -/
def attempt (m : Sys N F ε α) : Sys N F δ (Except ε α) := fun w => (.ok (m w).1, (m w).2)

/-- A call that changes nothing. -/
def query (op : Fs N F → Except (FsError N) α) : Sys N F (Failure (FsError N)) α := fun w =>
  match w.faults.head?.join with
  | some _ => (.error .fault, ⟨w.fs, w.faults.tail⟩)
  | none =>
    match op w.fs with
    | .error e => (.error (.error e), ⟨w.fs, w.faults.tail⟩)
    | .ok a => (.ok a, ⟨w.fs, w.faults.tail⟩)

/-- A call that changes the file system, and with a fault leaves what `spoil` makes of it. -/
def update (op : Fs N F → Except (FsError N) (Fs N F))
    (spoil : Fault N → Fs N F → Fs N F) :
    Sys N F (Failure (FsError N)) Unit := fun w =>
  match w.faults.head?.join with
  | some x => (.error .fault, ⟨spoil x w.fs, w.faults.tail⟩)
  | none =>
    match op w.fs with
    | .error e => (.error (.error e), ⟨w.fs, w.faults.tail⟩)
    | .ok fs => (.ok (), ⟨fs, w.faults.tail⟩)

/-- A call that changes the file system or, with a fault, leaves it as it is. -/
def change (op : Fs N F → Except (FsError N) (Fs N F)) : Sys N F (Failure (FsError N)) Unit :=
  update op fun _ fs => fs

/-- A call of which only the failure is seen. -/
def settle : Sys N F (Failure (FsError N)) Unit := query fun _ => .ok ()

section Calls
variable [DecidableEq N]

def mkdir (p : Path N) : Sys N F (Failure (FsError N)) Unit := change (·.mkdir p)

def ensureDirs : List (Path N) → Sys N F (Failure (FsError N)) Unit
  | [] => pure ()
  | p :: ps => do
    change (·.ensureDir p)
    ensureDirs ps

/-- All directories of a path, one call for each. -/
def mkdirAll (p : Path N) : Sys N F (Failure (FsError N)) Unit := ensureDirs p.inits

def create (p : Path N) (f : F) : Sys N F (Failure (FsError N)) Unit := change (·.create p f)

def ensureFile (p : Path N) (f : F) : Sys N F (Failure (FsError N)) Unit :=
  change (·.ensureFile p f)

def read (p : Path N) : Sys N F (Failure (FsError N)) F := query (·.read p)

/-- A write, and what it makes of the file where it fails. -/
def write (p : Path N) (g : F → F) (cut : ℕ → F → F) : Sys N F (Failure (FsError N)) Unit :=
  update (fun fs => .ok (fs.modify p g)) fun x fs => fs.modify p (cut x.written)

def remove (p : Path N) : Sys N F (Failure (FsError N)) Unit := change (·.remove p)

def rename (src dst : Path N) : Sys N F (Failure (FsError N)) Unit := change (·.rename src dst)

def replace (src dst : Path N) : Sys N F (Failure (FsError N)) Unit :=
  change (·.replace src dst)

def removeAll (p : Path N) : Sys N F (Failure (FsError N)) Unit :=
  update (fun fs => .ok (fs.removeAll p)) fun x fs => fs.removeExcept p x.stays

end Calls

/-! ### The logic -/

/-- From a file system with `P` the computation comes to one with `Q` where it succeeds, and to
one with `E` where it fails. -/
def Ensures (P : Fs N F → Prop) (m : Sys N F ε α) (Q : α → Fs N F → Prop)
    (E : ε → Fs N F → Prop) : Prop :=
  ∀ w, P w.fs → match m w with
    | (.ok a, w) => Q a w.fs
    | (.error e, w) => E e w.fs

abbrev Keeps (P : Fs N F → Prop) (m : Sys N F ε α) : Prop := Ensures P m (fun _ => P) fun _ => P

section Rules
variable {P P' : Fs N F → Prop} {Q Q' R : α → Fs N F → Prop} {E E' : ε → Fs N F → Prop}

lemma Ensures.weaken {m : Sys N F ε α} (h : Ensures P m Q E) (hP : ∀ fs, P' fs → P fs)
    (hQ : ∀ a fs, Q a fs → Q' a fs) (hE : ∀ e fs, E e fs → E' e fs) : Ensures P' m Q' E' := by
  intro w hw
  have hm := h w (hP _ hw)
  rcases hmw : m w with ⟨e | a, w'⟩
  · rw [hmw] at hm
    exact hE _ _ hm
  · rw [hmw] at hm
    exact hQ _ _ hm

lemma Ensures.any {m : Sys N F ε α} : Ensures P m (fun _ _ => True) fun _ _ => True := by
  intro w _
  rcases m w with ⟨e | a, w'⟩ <;> trivial

/-- Nothing is asked of the file system where the computation fails. -/
lemma Ensures.forget {m : Sys N F ε α} (h : Ensures P m Q E) : Ensures P m Q fun _ _ => True :=
  h.weaken (fun _ h => h) (fun _ _ h => h) fun _ _ _ => trivial

/-- What does not depend on the file system is known at once. -/
lemma Ensures.of_and {m : Sys N F ε α} {φ : Prop} (h : φ → Ensures P m Q E) :
    Ensures (fun fs => φ ∧ P fs) m Q E := fun w hw => h hw.1 w hw.2

lemma Ensures.pure {a : α} (h : ∀ fs, P fs → Q a fs) :
    Ensures P (Pure.pure a : Sys N F ε α) Q E := fun _ hw => h _ hw

lemma Ensures.throw {e : ε} (h : ∀ fs, P fs → E e fs) :
    Ensures P (Sys.throw e : Sys N F ε α) Q E := fun _ hw => h _ hw

lemma Ensures.lift {r : Except ε α} (hok : ∀ a, r = .ok a → ∀ fs, P fs → Q a fs)
    (herr : ∀ e, r = .error e → ∀ fs, P fs → E e fs) : Ensures P (Sys.lift r) Q E := by
  intro w hw
  cases r with
  | ok a => exact hok a rfl _ hw
  | error e => exact herr e rfl _ hw

lemma Ensures.bind {m : Sys N F ε α} {f : α → Sys N F ε β} {Q : β → Fs N F → Prop}
    (hm : Ensures P m R E) (hf : ∀ a, Ensures (R a) (f a) Q E) : Ensures P (m >>= f) Q E := by
  intro w hw
  have h := hm w hw
  change match (match m w with | (.ok a, w) => f a w | (.error e, w) => (.error e, w)) with
    | (.ok a, w) => Q a w.fs
    | (.error e, w) => E e w.fs
  rcases hmw : m w with ⟨e | a, w'⟩
  · rw [hmw] at h
    exact h
  · rw [hmw] at h
    exact hf a w' h

lemma Ensures.mapError {m : Sys N F δ α} {f : δ → ε} (h : Ensures P m Q fun e => E (f e)) :
    Ensures P (Sys.mapError f m) Q E := by
  intro w hw
  have hm := h w hw
  rw [Sys.mapError]
  rcases hmw : m w with ⟨e | a, w'⟩
  · rw [hmw] at hm
    exact hm
  · rw [hmw] at hm
    exact hm

/-- After an attempt the two outcomes go on separately. -/
lemma Ensures.attempt {m : Sys N F δ α} {f : Except δ α → Sys N F ε β} {E' : δ → Fs N F → Prop}
    {Q : β → Fs N F → Prop} (hm : Ensures P m R E')
    (hok : ∀ a, Ensures (R a) (f (.ok a)) Q E) (herr : ∀ e, Ensures (E' e) (f (.error e)) Q E) :
    Ensures P (Sys.attempt m >>= f) Q E := by
  intro w hw
  have h := hm w hw
  change match f (m w).1 (m w).2 with
    | (.ok a, w) => Q a w.fs
    | (.error e, w) => E e w.fs
  rcases hmw : m w with ⟨e | a, w'⟩
  · rw [hmw] at h
    exact herr e w' h
  · rw [hmw] at h
    exact hok a w' h

lemma Ensures.query {op : Fs N F → Except (FsError N) α} : Keeps P (Sys.query op) := by
  intro w hw
  rw [Sys.query]
  cases w.faults.head?.join with
  | some x => exact hw
  | none =>
    dsimp only
    cases op w.fs with
    | error e => exact hw
    | ok a => exact hw

lemma Ensures.update {op : Fs N F → Except (FsError N) (Fs N F)}
    {spoil : Fault N → Fs N F → Fs N F} (hop : ∀ fs fs', P fs → op fs = .ok fs' → P fs')
    (hspoil : ∀ x fs, P fs → P (spoil x fs)) : Keeps P (Sys.update op spoil) := by
  intro w hw
  rw [Sys.update]
  cases w.faults.head?.join with
  | some x => exact hspoil x _ hw
  | none =>
    dsimp only
    cases hfs : op w.fs with
    | error e => exact hw
    | ok fs => exact hop _ _ hw hfs

lemma Ensures.change {op : Fs N F → Except (FsError N) (Fs N F)}
    (hop : ∀ fs fs', P fs → op fs = .ok fs' → P fs') : Keeps P (Sys.change op) :=
  Ensures.update hop fun _ _ h => h

/-- A call that leaves no part of its work behind changes nothing where it fails. -/
lemma Ensures.change_ok {op : Fs N F → Except (FsError N) (Fs N F)} {Q : Fs N F → Prop}
    (hop : ∀ fs fs', P fs → op fs = .ok fs' → Q fs') :
    Ensures P (Sys.change op) (fun _ => Q) fun _ => P := by
  intro w hw
  rw [Sys.change, Sys.update]
  cases w.faults.head?.join with
  | some x => exact hw
  | none =>
    dsimp only
    cases hfs : op w.fs with
    | error e => exact hw
    | ok fs => exact hop _ _ hw hfs

end Rules

/-! ### Without faults -/

/-- From the world `w` the computation succeeds with `a` in the world `w'`. -/
def Runs (m : Sys N F ε α) (w : World N F) (a : α) (w' : World N F) : Prop := m w = (.ok a, w')

section Runs
variable {w w' w'' : World N F} {a : α} {b : β} {fs fs' : Fs N F}

lemma bind_of_runs {m : Sys N F ε α} {f : α → Sys N F ε β} (hm : Runs m w a w') :
    (m >>= f) w = f a w' := by
  change (match m w with | (.ok a, w) => f a w | (.error e, w) => (.error e, w)) = f a w'
  rw [hm]

lemma bind_of_fails {m : Sys N F ε α} {f : α → Sys N F ε β} {e : ε} (hm : m w = (.error e, w')) :
    (m >>= f) w = (.error e, w') := by
  change (match m w with | (.ok a, w) => f a w | (.error e, w) => (.error e, w)) = (.error e, w')
  rw [hm]

lemma mapError_of_fails {m : Sys N F δ α} {f : δ → ε} {e : δ} (h : m w = (.error e, w')) :
    mapError f m w = (.error (f e), w') := by
  rw [Sys.mapError, h]

lemma Runs.bind {m : Sys N F ε α} {f : α → Sys N F ε β} (hm : Runs m w a w')
    (hf : Runs (f a) w' b w'') : Runs (m >>= f) w b w'' := (bind_of_runs hm).trans hf

lemma Runs.pure : Runs (Pure.pure a : Sys N F ε α) w a w := rfl

lemma Runs.mapError {m : Sys N F δ α} {f : δ → ε} (h : Runs m w a w') :
    Runs (Sys.mapError f m) w a w' := by
  rw [Runs, Sys.mapError, h]

lemma Runs.attempt {m : Sys N F δ α} (h : Runs m w a w') :
    Runs (Sys.attempt m : Sys N F ε _) w (.ok a) w' := by
  rw [Runs, Sys.attempt, h]

lemma Runs.query {op : Fs N F → Except (FsError N) α} (h : op fs = .ok a) :
    Runs (Sys.query op) ⟨fs, []⟩ a ⟨fs, []⟩ := by
  simp only [Runs, Sys.query, List.head?_nil, Option.join_none, h, List.tail_nil]

lemma Runs.query_error {op : Fs N F → Except (FsError N) α} {e : FsError N}
    (h : op fs = .error e) : Runs (Sys.attempt (Sys.query op) : Sys N F ε _) ⟨fs, []⟩
      (.error (.error e)) ⟨fs, []⟩ := by
  simp only [Runs, Sys.attempt, Sys.query, List.head?_nil, Option.join_none, h, List.tail_nil]

lemma Runs.update {op : Fs N F → Except (FsError N) (Fs N F)}
    {spoil : Fault N → Fs N F → Fs N F} (h : op fs = .ok fs') :
    Runs (Sys.update op spoil) ⟨fs, []⟩ () ⟨fs', []⟩ := by
  simp only [Runs, Sys.update, List.head?_nil, Option.join_none, h, List.tail_nil]

lemma Runs.change {op : Fs N F → Except (FsError N) (Fs N F)} (h : op fs = .ok fs') :
    Runs (Sys.change op) ⟨fs, []⟩ () ⟨fs', []⟩ := Runs.update h

lemma Runs.settle : Runs (Sys.settle : Sys N F _ _) ⟨fs, []⟩ () ⟨fs, []⟩ := Runs.query rfl

/-- A run goes through the first part of its computation. -/
lemma Runs.of_bind {m : Sys N F ε α} {f : α → Sys N F ε β} (h : Runs (m >>= f) w b w'') :
    ∃ a w', Runs m w a w' ∧ Runs (f a) w' b w'' := by
  change (match m w with | (.ok a, w) => f a w | (.error e, w) => (.error e, w)) = (.ok b, w'') at h
  rcases hm : m w with ⟨e | a, w'⟩
  · rw [hm] at h
    cases h
  · rw [hm] at h
    exact ⟨a, w', hm, h⟩

lemma Runs.of_mapError {m : Sys N F δ α} {f : δ → ε} (h : Runs (Sys.mapError f m) w a w') :
    Runs m w a w' := by
  rw [Runs, Sys.mapError] at h
  rcases hm : m w with ⟨e | a, w'⟩
  · rw [hm] at h
    cases h
  · rw [hm] at h
    cases h
    exact hm

/-- A call that succeeds has met no fault. -/
lemma Runs.of_update {op : Fs N F → Except (FsError N) (Fs N F)}
    {spoil : Fault N → Fs N F → Fs N F} {u : Unit} (h : Runs (Sys.update op spoil) w u w') :
    op w.fs = .ok w'.fs := by
  rw [Runs, Sys.update] at h
  cases hf : w.faults.head?.join with
  | some x => simp [hf] at h
  | none =>
    cases hop : op w.fs with
    | error e => simp [hf, hop] at h
    | ok fs =>
      simp only [hf, hop, Prod.mk.injEq] at h
      rw [← h.2]

lemma Runs.of_settle {u : Unit} (h : Runs (Sys.settle : Sys N F _ _) w u w') : w'.fs = w.fs := by
  rw [Runs, Sys.settle, Sys.query] at h
  cases hf : w.faults.head?.join with
  | some x => simp [hf] at h
  | none =>
    simp only [hf, Prod.mk.injEq] at h
    rw [← h.2]

lemma Ensures.of_run {P : Fs N F → Prop} {m : Sys N F ε α} {Q : α → Fs N F → Prop}
    {E : ε → Fs N F → Prop} (h : Ensures P m Q E) (hruns : Runs m w a w') (hw : P w.fs) :
    Q a w'.fs := by
  have hm := h w hw
  rw [hruns] at hm
  exact hm

/-- A computation that never succeeds comes to an error. -/
lemma Ensures.exists_error {P : Fs N F → Prop} {m : Sys N F ε α} {E : ε → Fs N F → Prop}
    (h : Ensures P m (fun _ _ => False) E) (hw : P w.fs) :
    ∃ e w', m w = (.error e, w') ∧ E e w'.fs := by
  have hm := h w hw
  rcases hmw : m w with ⟨e | a, w'⟩
  · rw [hmw] at hm
    exact ⟨e, w', rfl, hm⟩
  · rw [hmw] at hm
    exact hm.elim

/-- What is known of every run holds where the computation succeeds. -/
lemma Ensures.of_runs {P : Fs N F → Prop} {m : Sys N F ε α} {Q R : α → Fs N F → Prop}
    {E : ε → Fs N F → Prop} (h : Ensures P m Q E)
    (hruns : ∀ w a w', P w.fs → Runs m w a w' → R a w'.fs) :
    Ensures P m (fun a fs => R a fs ∧ Q a fs) E := by
  intro w hw
  have hm := h w hw
  rcases hmw : m w with ⟨e | a, w'⟩
  · rw [hmw] at hm
    exact hm
  · rw [hmw] at hm
    exact ⟨hruns w a w' hw hmw, hm⟩

variable [DecidableEq N]

lemma Runs.ensureDirs {fs₁ : Fs N F} {base rest : Path N} (hbase : fs.ensureDir base = .ok fs₁)
    (h : fs₁.mkdirsFrom base rest = .ok fs') :
    Runs (Sys.ensureDirs (rest.inits.map (base ++ ·)) : Sys N F _ _) ⟨fs, []⟩ () ⟨fs', []⟩ := by
  induction rest generalizing fs fs₁ base with
  | nil =>
    cases h
    exact .bind (.change (by simpa using hbase)) .pure
  | cons a rest ih =>
    have hinits : (a :: rest).inits.map (base ++ ·) =
        base :: rest.inits.map ((base ++ [a]) ++ ·) := by
      simp [Function.comp_def]
    rw [hinits]
    refine .bind (.change hbase) ?_
    rw [Fs.mkdirsFrom] at h
    cases hl : fs₁.lookup (base ++ [a]) with
    | some n =>
      cases n with
      | file f => simp [hl] at h
      | irregular => simp [hl] at h
      | dir =>
        simp only [hl] at h
        exact ih (by rw [Fs.ensureDir, hl]) h
    | none =>
      cases hmk : fs₁.mkdir (base ++ [a]) with
      | error e => simp [hl, hmk] at h
      | ok fs₂ =>
        simp only [hl, hmk] at h
        exact ih (by rw [Fs.ensureDir, hl]; exact hmk) h

lemma Runs.of_ensureDirs {base rest : Path N} {u : Unit}
    (h : Runs (Sys.ensureDirs (rest.inits.map (base ++ ·)) : Sys N F _ _) w u w') :
    ∃ fs₁, w.fs.ensureDir base = .ok fs₁ ∧ fs₁.mkdirsFrom base rest = .ok w'.fs := by
  induction rest generalizing w base with
  | nil =>
    obtain ⟨_, w₁, hbase, hrest⟩ := Runs.of_bind h
    cases hrest
    refine ⟨_, ?_, rfl⟩
    simpa using hbase.of_update
  | cons a rest ih =>
    have hinits : (a :: rest).inits.map (base ++ ·) =
        base :: rest.inits.map ((base ++ [a]) ++ ·) := by
      simp [Function.comp_def]
    rw [hinits] at h
    obtain ⟨_, w₁, hbase, hrest⟩ := Runs.of_bind h
    obtain ⟨fs₂, ha, hmk⟩ := ih hrest
    refine ⟨w₁.fs, hbase.of_update, ?_⟩
    rw [Fs.mkdirsFrom]
    unfold Fs.ensureDir at ha
    split at ha
    next hl =>
      cases ha
      simp only [hl, hmk]
    · cases ha
    next hl => simp only [hl, ha, hmk]

/-- Where all directories of a path can be made, the calls for them make them. -/
lemma Runs.mkdirAll {p : Path N} (h : fs.mkdirAll p = .ok fs') :
    Runs (Sys.mkdirAll p : Sys N F _ _) ⟨fs, []⟩ () ⟨fs', []⟩ := by
  have hruns := Runs.ensureDirs rfl h
  simp only [List.nil_append, List.map_id'] at hruns
  exact hruns

lemma Runs.of_create {p : Path N} {f : F} {u : Unit} (h : Runs (Sys.create p f) w u w') :
    w.fs.create p f = .ok w'.fs := by
  unfold Sys.create Sys.change at h
  exact h.of_update

lemma Runs.of_write {p : Path N} {g : F → F} {cut : ℕ → F → F} {u : Unit}
    (h : Runs (Sys.write p g cut) w u w') : w'.fs = w.fs.modify p g := by
  unfold Sys.write at h
  exact (Except.ok.inj h.of_update).symm

/-- The calls that make all directories of a path make them as one does. -/
lemma Runs.of_mkdirAll {p : Path N} {u : Unit} (h : Runs (Sys.mkdirAll p : Sys N F _ _) w u w') :
    w.fs.mkdirAll p = .ok w'.fs := by
  have hinits : p.inits = p.inits.map ([] ++ ·) := by simp
  rw [Sys.mkdirAll, hinits] at h
  obtain ⟨fs₁, hroot, hmk⟩ := Runs.of_ensureDirs h
  cases hroot
  exact hmk

end Runs

/-! ### Nothing at a path -/

section Absent
variable [DecidableEq N] {out p src dst : Path N}

def Absent (out : Path N) (fs : Fs N F) : Prop := fs.lookup out = none

lemma Absent.mkdir_fs {fs fs' : Fs N F} (hp : p ≠ out) (h : Absent out fs)
    (hfs : fs.mkdir p = .ok fs') : Absent out fs' := by
  obtain ⟨hfree, hdir⟩ := Fs.of_mkdir_eq_ok hfs
  rw [Fs.mkdir_eq hfree hdir, Except.ok.injEq] at hfs
  rw [← hfs, Absent, Fs.lookup_insert, if_neg hp.symm, h]

lemma Absent.create_fs {fs fs' : Fs N F} {f : F} (hp : p ≠ out) (h : Absent out fs)
    (hfs : fs.create p f = .ok fs') : Absent out fs' := by
  obtain ⟨hfree, hdir⟩ := Fs.of_create_eq_ok hfs
  rw [Fs.create_eq hfree hdir, Except.ok.injEq] at hfs
  rw [← hfs, Absent, Fs.lookup_insert, if_neg hp.symm, h]

lemma Absent.ensureFile_fs {fs fs' : Fs N F} {f : F} (hp : p ≠ out) (h : Absent out fs)
    (hfs : fs.ensureFile p f = .ok fs') : Absent out fs' := by
  unfold Fs.ensureFile at hfs
  split at hfs
  · cases hfs
    exact h
  · cases hfs
  · exact h.create_fs hp hfs

lemma Absent.modify_fs {fs : Fs N F} {g : F → F} (h : Absent out fs) :
    Absent out (fs.modify p g) :=
  (fs.lookup_modify_eq_none_iff p out g).mpr h

lemma Absent.removeAll_fs {fs : Fs N F} (h : Absent out fs) : Absent out (fs.removeAll p) :=
  Fs.lookup_eq_none_of_subset (fun _ hx => (List.mem_filter.mp hx).1) h

lemma Absent.makeWay_fs {fs : Fs N F} (h : Absent out fs) : Absent out (fs.makeWay p) := by
  unfold Fs.makeWay
  split
  · exact h.removeAll_fs
  · exact h

lemma keeps_ensureDirs {ps : List (Path N)} (hps : out ∉ ps) :
    Keeps (Absent out) (ensureDirs ps : Sys N F _ _) := by
  induction ps with
  | nil => exact Ensures.pure fun _ h => h
  | cons p ps ih =>
    obtain ⟨hp, hps⟩ := not_or.mp (List.mem_cons.not.mp hps)
    refine Ensures.bind (R := fun _ => Absent out) (Ensures.change fun fs fs' h hfs => ?_)
      fun _ => ih hps
    unfold Fs.ensureDir at hfs
    split at hfs
    · cases hfs
      exact h
    · cases hfs
    · exact h.mkdir_fs (Ne.symm hp) hfs

lemma keeps_mkdirAll (hp : ¬out <+: p) : Keeps (Absent out) (mkdirAll p : Sys N F _ _) :=
  keeps_ensureDirs fun h => hp ((List.mem_inits _ _).mp h)

lemma keeps_create {f : F} (hp : p ≠ out) : Keeps (Absent out) (create p f : Sys N F _ _) :=
  Ensures.change fun _ _ h hfs => h.create_fs hp hfs

lemma keeps_ensureFile {f : F} (hp : p ≠ out) :
    Keeps (Absent out) (ensureFile p f : Sys N F _ _) :=
  Ensures.change fun _ _ h hfs => h.ensureFile_fs hp hfs

lemma keeps_write {g : F → F} {cut : ℕ → F → F} :
    Keeps (Absent out) (write p g cut : Sys N F _ _) := by
  refine Ensures.update (fun fs fs' h hfs => ?_) fun _ _ h => h.modify_fs
  cases hfs
  exact h.modify_fs

lemma keeps_removeAll : Keeps (Absent out) (removeAll p : Sys N F _ _) := by
  refine Ensures.update (fun fs fs' h hfs => ?_) fun x fs h =>
    Fs.lookup_eq_none_of_subset (fun _ hx => (List.mem_filter.mp hx).1) h
  cases hfs
  exact h.removeAll_fs

lemma keeps_replace (hdst : dst ≠ out) :
    Keeps (Absent out) (replace src dst : Sys N F _ _) := by
  refine Ensures.change fun fs fs' h hfs => ?_
  unfold Fs.replace at hfs
  split at hfs
  · split_ifs at hfs
    · cases hfs
      exact h
    · split at hfs
      · cases hfs
      next hensure =>
        cases hfs
        exact ((h.makeWay_fs.ensureFile_fs hdst hensure).modify_fs).removeAll_fs
  · cases hfs
  · cases hfs

/-- A file that was renamed is not where it was. -/
lemma ensures_replace_absent {P : Fs N F → Prop} (hne : src ≠ []) (hsrc : src ≠ dst) :
    Ensures P (replace src dst : Sys N F _ _) (fun _ => Absent src) fun _ => P := by
  refine Ensures.change_ok fun fs fs' _ hfs => ?_
  unfold Fs.replace at hfs
  split at hfs
  · rw [if_neg hsrc] at hfs
    split at hfs
    · cases hfs
    · cases hfs
      rw [Absent, Fs.lookup_removeAll _ hne, if_pos List.prefix_rfl]
  · cases hfs
  · cases hfs

end Absent

/-! ### A directory at a path -/

section Stays
variable [DecidableEq N] {p q : Path N}

def Stays (q : Path N) (fs : Fs N F) : Prop := fs.lookup q = some .dir

lemma Stays.insert_fs {fs : Fs N F} {n : Node F} {hp hd} (h : Stays q fs) :
    Stays q (fs.insert p n hp hd) := by
  rw [Stays, Fs.lookup_insert, if_neg, h]
  rintro rfl
  rw [Stays, hp] at h
  cases h

lemma Stays.mkdir_fs {fs fs' : Fs N F} (h : Stays q fs) (hfs : fs.mkdir p = .ok fs') :
    Stays q fs' := by
  obtain ⟨hfree, hdir⟩ := Fs.of_mkdir_eq_ok hfs
  rw [Fs.mkdir_eq hfree hdir, Except.ok.injEq] at hfs
  exact hfs ▸ h.insert_fs

lemma stays_mkdir : Keeps (Stays q) (mkdir p : Sys N F _ _) :=
  Ensures.change fun _ _ h hfs => h.mkdir_fs hfs

lemma stays_ensureDirs {ps : List (Path N)} : Keeps (Stays q) (ensureDirs ps : Sys N F _ _) := by
  induction ps with
  | nil => exact Ensures.pure fun _ h => h
  | cons p ps ih =>
    refine Ensures.bind (R := fun _ => Stays q) (Ensures.change fun fs fs' h hfs => ?_) fun _ => ih
    unfold Fs.ensureDir at hfs
    split at hfs
    · cases hfs
      exact h
    · cases hfs
    · exact h.mkdir_fs hfs

lemma stays_create {f : F} : Keeps (Stays q) (create p f : Sys N F _ _) := by
  refine Ensures.change fun fs fs' h hfs => ?_
  obtain ⟨hfree, hdir⟩ := Fs.of_create_eq_ok hfs
  rw [Fs.create_eq hfree hdir, Except.ok.injEq] at hfs
  exact hfs ▸ h.insert_fs

lemma Stays.modify_fs {fs : Fs N F} {g : F → F} (h : Stays q fs) : Stays q (fs.modify p g) := by
  rw [Stays, Fs.lookup_modify, h]
  simp [Node.map]

lemma stays_write {g : F → F} {cut : ℕ → F → F} :
    Keeps (Stays q) (write p g cut : Sys N F _ _) := by
  refine Ensures.update (fun fs fs' h hfs => ?_) fun _ _ h => h.modify_fs
  cases hfs
  exact h.modify_fs

lemma stays_removeAll (hp : p ≠ []) (hq : ¬p <+: q) :
    Keeps (Stays q) (removeAll p : Sys N F _ _) := by
  refine Ensures.update (fun fs fs' h hfs => ?_) fun x fs h => ?_
  · cases hfs
    rw [Stays, Fs.lookup_removeAll _ hp, if_neg hq, h]
  · rw [Stays]
    by_cases hq0 : q = []
    · rw [hq0, Fs.lookup_root]
    · rw [Fs.lookup_eq_some_iff _ hq0]
      exact List.mem_filter.mpr ⟨(fs.lookup_eq_some_iff hq0).mp h, by simp [hq]⟩

end Stays
end Sys
end FileSystem
