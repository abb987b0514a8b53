import Mathlib.Data.List.Infix
import Mathlib.Data.List.Nodup
import Mathlib.Tactic.Common

/-!
# File systems

A file system is a finite map from absolute paths, lists of names below the root, to directories,
regular files and nodes that are neither. It carries that no path occurs twice and that every node
lies in a directory. The operations are those of an operating system that goes through no link:
make a directory or all of a path's, create a file that is not there, rename a subtree, walk the
nodes of a subtree.
-/

namespace FileSystem

abbrev Path (N : Type) := List N

/-- A directory, a regular file, or a link, pipe, socket or device. -/
inductive Node (F : Type)
  | dir
  | file (f : F)
  | irregular

/-- The file that a node is, if it is a regular one. -/
def Node.regular {F : Type} : Node F → Option F
  | .file f => some f
  | _ => none

inductive FsError (N : Type)
  | exists (p : Path N)
  | noDirectory (p : Path N)
  | notExist (p : Path N)
  | invalid (p : Path N)
  deriving DecidableEq

structure Fs (N F : Type) where
  nodes : List (Path N × Node F)
  nodup : (nodes.map Prod.fst).Nodup
  ne_root : ∀ x ∈ nodes, x.1 ≠ []
  closed : ∀ x ∈ nodes, x.1.dropLast = [] ∨ (x.1.dropLast, Node.dir) ∈ nodes

namespace Fs
variable {N F : Type} [DecidableEq N]

/-- The node at a path; the root is a directory. -/
def lookup (fs : Fs N F) (p : Path N) : Option (Node F) :=
  if p = [] then some .dir else (fs.nodes.find? fun x => x.1 = p).map Prod.snd

@[simp] lemma lookup_root (fs : Fs N F) : fs.lookup [] = some .dir := rfl

lemma lookup_eq_some_iff (fs : Fs N F) {p : Path N} {n : Node F} (hp : p ≠ []) :
    fs.lookup p = some n ↔ (p, n) ∈ fs.nodes := by
  rw [lookup, if_neg hp, Option.map_eq_some_iff]
  constructor
  · rintro ⟨x, hx, rfl⟩
    have hxp : x.1 = p := by simpa using List.find?_some hx
    rw [← hxp]
    exact List.mem_of_find?_eq_some hx
  · intro h
    cases hf : fs.nodes.find? fun x => x.1 = p with
    | none => simpa using List.find?_eq_none.mp hf _ h
    | some x =>
      have hxp : x.1 = p := by simpa using List.find?_some hf
      have hx := List.inj_on_of_nodup_map fs.nodup (List.mem_of_find?_eq_some hf) h hxp
      exact ⟨x, rfl, by rw [hx]⟩

lemma dropLast_of_lookup {fs : Fs N F} {p : Path N} {n : Node F} (h : fs.lookup p = some n) :
    fs.lookup p.dropLast = some .dir := by
  by_cases hp : p = []
  · rw [hp]
    rfl
  · by_cases hd : p.dropLast = []
    · rw [hd]
      rfl
    · rw [lookup_eq_some_iff fs hd]
      exact (fs.closed _ ((fs.lookup_eq_some_iff hp).mp h)).resolve_left hd

/-- What lies above a node is a directory. -/
lemma lookup_of_append {fs : Fs N F} {p rest : Path N} {n : Node F}
    (h : fs.lookup (p ++ rest) = some n) (hr : rest ≠ []) : fs.lookup p = some .dir := by
  induction rest using List.reverseRecOn generalizing n with
  | nil => exact absurd rfl hr
  | append_singleton rest a ih =>
    rw [← List.append_assoc] at h
    have hd := dropLast_of_lookup h
    rw [List.dropLast_concat] at hd
    by_cases hrest : rest = []
    · rwa [hrest, List.append_nil] at hd
    · exact ih hd hrest

lemma lookup_append_of_none {fs : Fs N F} {p : Path N} (h : fs.lookup p = none)
    (rest : Path N) : fs.lookup (p ++ rest) = none := by
  by_cases hr : rest = []
  · rw [hr, List.append_nil, h]
  · cases hn : fs.lookup (p ++ rest) with
    | none => rfl
    | some n =>
      rw [lookup_of_append hn hr] at h
      cases h

/-! ### One node more -/

section Insert
variable (fs : Fs N F) (p : Path N) (n : Node F) (hp : fs.lookup p = none)
  (hd : fs.lookup p.dropLast = some .dir)

/-- A file system with a node at a free path in a directory. -/
def insert : Fs N F where
  nodes := (p, n) :: fs.nodes
  nodup := by
    have hne : p ≠ [] := by
      rintro rfl
      cases hp
    refine List.nodup_cons.mpr ⟨fun hmem => ?_, fs.nodup⟩
    obtain ⟨x, hx, rfl⟩ := List.mem_map.mp hmem
    rw [(fs.lookup_eq_some_iff hne).mpr hx] at hp
    cases hp
  ne_root := by
    rintro x (_ | ⟨_, hx⟩)
    · rintro rfl
      cases hp
    · exact fs.ne_root x hx
  closed := by
    rintro x (_ | ⟨_, hx⟩)
    · by_cases h : p.dropLast = []
      · exact .inl h
      · exact .inr (List.mem_cons_of_mem _ ((fs.lookup_eq_some_iff h).mp hd))
    · exact (fs.closed x hx).imp id (List.mem_cons_of_mem _)

lemma lookup_insert (q : Path N) :
    (fs.insert p n hp hd).lookup q = if q = p then some n else fs.lookup q := by
  have hne : p ≠ [] := by
    rintro rfl
    cases hp
  by_cases hq : q = []
  · rw [hq, if_neg hne.symm, lookup_root, lookup_root]
  · rw [lookup, lookup, if_neg hq, if_neg hq, insert, List.find?_cons]
    by_cases hqp : q = p
    · simp [hqp]
    · simp [hqp, Ne.symm hqp]

end Insert

/-- `p` becomes a directory if nothing is there. -/
def mkdir (fs : Fs N F) (p : Path N) : Except (FsError N) (Fs N F) :=
  if hp : fs.lookup p = none then
    match hd : fs.lookup p.dropLast with
    | some .dir => .ok (fs.insert p .dir hp hd)
    | _ => .error (.noDirectory p.dropLast)
  else .error (.exists p)

/-- A new file at `p`, where nothing may be. -/
def create (fs : Fs N F) (p : Path N) (f : F) : Except (FsError N) (Fs N F) :=
  if hp : fs.lookup p = none then
    match hd : fs.lookup p.dropLast with
    | some .dir => .ok (fs.insert p (.file f) hp hd)
    | _ => .error (.noDirectory p.dropLast)
  else .error (.exists p)

lemma mkdir_eq {fs : Fs N F} {p : Path N} (hp : fs.lookup p = none)
    (hd : fs.lookup p.dropLast = some .dir) : fs.mkdir p = .ok (fs.insert p .dir hp hd) := by
  rw [mkdir, dif_pos hp]
  split
  · rfl
  next h => exact absurd hd h

lemma create_eq {fs : Fs N F} {p : Path N} {f : F} (hp : fs.lookup p = none)
    (hd : fs.lookup p.dropLast = some .dir) :
    fs.create p f = .ok (fs.insert p (.file f) hp hd) := by
  rw [create, dif_pos hp]
  split
  · rfl
  next h => exact absurd hd h

/-! ### All directories of a path -/

/-- The directories from `base` on along `rest`. -/
def mkdirsFrom (fs : Fs N F) (base : Path N) : Path N → Except (FsError N) (Fs N F)
  | [] => .ok fs
  | a :: rest =>
    match fs.lookup (base ++ [a]) with
    | some .dir => mkdirsFrom fs (base ++ [a]) rest
    | some _ => .error (.noDirectory (base ++ [a]))
    | none =>
      match fs.mkdir (base ++ [a]) with
      | .error e => .error e
      | .ok fs => mkdirsFrom fs (base ++ [a]) rest

def mkdirAll (fs : Fs N F) (p : Path N) : Except (FsError N) (Fs N F) := fs.mkdirsFrom [] p

lemma mkdirsFrom_spec (fs : Fs N F) (base rest : Path N) (hb : fs.lookup base = some .dir)
    (hfree : ∀ q, base <+: q → q <+: base ++ rest → ∀ n, fs.lookup q = some n → n = .dir) :
    ∃ fs', fs.mkdirsFrom base rest = .ok fs' ∧ ∀ q, fs'.lookup q =
      if base <+: q ∧ q <+: base ++ rest then some .dir else fs.lookup q := by
  induction rest generalizing fs base with
  | nil =>
    refine ⟨fs, rfl, fun q => ?_⟩
    by_cases hq : base <+: q ∧ q <+: base ++ []
    · rw [List.append_nil] at hq
      rw [List.append_nil, if_pos hq, hq.2.eq_of_length_le hq.1.length_le, hb]
    · rw [if_neg hq]
  | cons a rest ih =>
    have hsplit : base ++ a :: rest = (base ++ [a]) ++ rest := by simp
    have hpre : base ++ [a] <+: base ++ a :: rest := hsplit ▸ List.prefix_append _ _
    have hbase : base <+: base ++ [a] := List.prefix_append _ _
    have hcase : ∀ q, base <+: q ∧ q <+: base ++ a :: rest ↔
        q = base ∨ (base ++ [a] <+: q ∧ q <+: (base ++ [a]) ++ rest) := by
      intro q
      rw [hsplit]
      constructor
      · rintro ⟨⟨t, rfl⟩, hq⟩
        cases t with
        | nil => exact .inl (List.append_nil _)
        | cons b t =>
          refine .inr ⟨?_, hq⟩
          rw [List.append_assoc, List.prefix_append_right_inj] at hq
          obtain ⟨rfl, -⟩ := List.cons_prefix_cons.mp hq
          exact ⟨t, by simp⟩
      · rintro (rfl | ⟨h, hq⟩)
        · exact ⟨List.prefix_rfl, hbase.trans (List.prefix_append _ _)⟩
        · exact ⟨hbase.trans h, hq⟩
    have hfree' : ∀ q, base ++ [a] <+: q → q <+: (base ++ [a]) ++ rest →
        ∀ n, fs.lookup q = some n → n = .dir := fun q h h' =>
      hfree q (hbase.trans h) (hsplit ▸ h')
    rw [mkdirsFrom]
    cases hl : fs.lookup (base ++ [a]) with
    | some n =>
      obtain rfl := hfree _ hbase hpre n hl
      obtain ⟨fs', hok, hlook⟩ := ih fs (base ++ [a]) hl hfree'
      refine ⟨fs', hok, fun q => ?_⟩
      rw [hlook]
      simp only [hcase]
      by_cases hq : q = base
      · subst hq
        rw [if_pos (c := q = q ∨ _) (.inl rfl), hb, ite_self]
      · simp only [hq, false_or]
    | none =>
      have hd : fs.lookup (base ++ [a]).dropLast = some .dir := by rwa [List.dropLast_concat]
      have hins := lookup_insert fs (base ++ [a]) .dir hl hd
      obtain ⟨fs', hok, hlook⟩ := ih (fs.insert (base ++ [a]) .dir hl hd)
        (base ++ [a]) (by rw [hins, if_pos rfl]) fun q h h' n hn => by
          rw [hins] at hn
          split_ifs at hn
          · exact (Option.some.inj hn).symm
          · exact hfree' q h h' n hn
      refine ⟨fs', by rw [mkdir_eq hl hd]; exact hok, fun q => ?_⟩
      rw [hlook, hins]
      simp only [hcase]
      by_cases hq : q = base
      · subst hq
        have hne : ¬q = q ++ [a] := by simp
        rw [if_pos (c := q = q ∨ _) (.inl rfl), if_neg hne, hb, ite_self]
      · by_cases hqa : q = base ++ [a]
        · rw [if_pos (c := q = base ++ [a]) hqa, ite_self, if_pos]
          exact .inr ⟨hqa ▸ List.prefix_rfl, hqa ▸ List.prefix_append _ _⟩
        · simp only [hq, hqa, false_or, if_false]

/-- Where nothing but directories is in the way, all directories of a path can be made, and nothing
else changes. -/
lemma mkdirAll_spec (fs : Fs N F) (p : Path N)
    (hfree : ∀ q, q <+: p → ∀ n, fs.lookup q = some n → n = .dir) :
    ∃ fs', fs.mkdirAll p = .ok fs' ∧
      ∀ q, fs'.lookup q = if q <+: p then some .dir else fs.lookup q := by
  obtain ⟨fs', hok, hlook⟩ := mkdirsFrom_spec fs [] p rfl
    fun q _ h => hfree q (by simpa using h)
  exact ⟨fs', hok, fun q => by simpa using hlook q⟩

/-- Where directories could be made, nothing but directories is in the way. -/
lemma eq_dir_of_mkdirsFrom {fs fs' : Fs N F} {base rest : Path N}
    (hb : fs.lookup base = some .dir) (h : fs.mkdirsFrom base rest = .ok fs') :
    ∀ q, base <+: q → q <+: base ++ rest → ∀ n, fs.lookup q = some n → n = .dir := by
  induction rest generalizing fs base with
  | nil =>
    intro q hq hq' n hn
    rw [List.append_nil] at hq'
    rw [hq'.eq_of_length_le hq.length_le, hb] at hn
    exact (Option.some.inj hn).symm
  | cons a rest ih =>
    intro q hq hq' n hn
    have hsplit : base ++ a :: rest = (base ++ [a]) ++ rest := by simp
    have hcase : q = base ∨ base ++ [a] <+: q := by
      obtain ⟨t, rfl⟩ := hq
      cases t with
      | nil => exact .inl (List.append_nil _)
      | cons b t =>
        rw [List.prefix_append_right_inj] at hq'
        obtain ⟨rfl, -⟩ := List.cons_prefix_cons.mp hq'
        exact .inr ⟨t, by simp⟩
    rcases hcase with rfl | hqa
    · rw [hb] at hn
      exact (Option.some.inj hn).symm
    · rw [hsplit] at hq'
      rw [mkdirsFrom] at h
      cases hl : fs.lookup (base ++ [a]) with
      | some m =>
        rw [hl] at h
        cases m with
        | dir => exact ih hl h q hqa hq' n hn
        | file g => cases h
        | irregular => cases h
      | none =>
        obtain ⟨t, rfl⟩ := hqa
        rw [lookup_append_of_none hl] at hn
        cases hn

lemma eq_dir_of_mkdirAll {fs fs' : Fs N F} {p : Path N} (h : fs.mkdirAll p = .ok fs') :
    ∀ q, q <+: p → ∀ n, fs.lookup q = some n → n = .dir := fun q hq =>
  eq_dir_of_mkdirsFrom rfl h q List.nil_prefix hq

lemma of_mkdir_eq_ok {fs fs' : Fs N F} {p : Path N} (h : fs.mkdir p = .ok fs') :
    fs.lookup p = none ∧ fs.lookup p.dropLast = some .dir := by
  unfold mkdir at h
  split_ifs at h with hp
  split at h
  · exact ⟨hp, ‹_›⟩
  · cases h

lemma of_create_eq_ok {fs fs' : Fs N F} {p : Path N} {f : F} (h : fs.create p f = .ok fs') :
    fs.lookup p = none ∧ fs.lookup p.dropLast = some .dir := by
  unfold create at h
  split_ifs at h with hp
  split at h
  · exact ⟨hp, ‹_›⟩
  · cases h

/-! ### Renaming -/

section Rename

/-- Where a path is after the subtree at `src` moved to `dst`. -/
def moved (src dst p : Path N) : Path N := if src <+: p then dst ++ p.drop src.length else p

lemma moved_append (src dst rest : Path N) : moved src dst (src ++ rest) = dst ++ rest := by
  rw [moved, if_pos (List.prefix_append _ _), List.drop_left]

/-- What a subtree needs to move: a directory to go to, where nothing has its new name. -/
structure Movable (fs : Fs N F) (src dst : Path N) : Prop where
  present : fs.lookup src ≠ none
  free : fs.lookup dst = none
  directory : fs.lookup dst.dropLast = some .dir
  not_inside : ¬src <+: dst

variable {fs : Fs N F} {src dst : Path N}

lemma Movable.not_prefix (h : fs.Movable src dst) {x : Path N × Node F} (hx : x ∈ fs.nodes) :
    ¬dst <+: x.1 := by
  rintro ⟨rest, he⟩
  have hl := (fs.lookup_eq_some_iff (fs.ne_root x hx)).mpr hx
  rw [← he, lookup_append_of_none h.free] at hl
  cases hl

lemma Movable.src_ne_root (h : fs.Movable src dst) : src ≠ [] := by
  rintro rfl
  exact h.not_inside List.nil_prefix

lemma Movable.dst_ne_root (h : fs.Movable src dst) : dst ≠ [] := by
  rintro rfl
  cases h.free

lemma Movable.moved_inj (h : fs.Movable src dst) {x y : Path N × Node F} (hx : x ∈ fs.nodes)
    (hy : y ∈ fs.nodes) (he : moved src dst x.1 = moved src dst y.1) : x.1 = y.1 := by
  unfold moved at he
  split_ifs at he with h1 h2 h2
  · obtain ⟨r, hr⟩ := h1
    obtain ⟨t, ht⟩ := h2
    rw [← hr, ← ht, List.drop_left, List.drop_left, List.append_cancel_left_eq] at he
    rw [← hr, ← ht, he]
  · exact absurd ⟨_, he⟩ (h.not_prefix hy)
  · exact absurd ⟨_, he.symm⟩ (h.not_prefix hx)
  · exact he

/-- The file system with the subtree at `src` moved to `dst`. -/
def move (fs : Fs N F) (src dst : Path N) (h : fs.Movable src dst) : Fs N F where
  nodes := fs.nodes.map fun x => (moved src dst x.1, x.2)
  nodup := by
    rw [List.map_map]
    have hnodes : fs.nodes.Nodup := fs.nodup.of_map _
    refine hnodes.map_on fun x hx y hy he => ?_
    exact List.inj_on_of_nodup_map fs.nodup hx hy (h.moved_inj hx hy he)
  ne_root := by
    intro y hy
    obtain ⟨x, hx, rfl⟩ := List.mem_map.mp hy
    have hne := fs.ne_root x hx
    unfold moved
    split_ifs
    · simp [h.dst_ne_root]
    · exact hne
  closed := by
    intro y hy
    obtain ⟨x, hx, rfl⟩ := List.mem_map.mp hy
    have hmem : ∀ p, fs.lookup p = some .dir → p = [] ∨ (moved src dst p, Node.dir) ∈
        fs.nodes.map fun x => (moved src dst x.1, x.2) := by
      intro p hp
      by_cases hp0 : p = []
      · exact .inl hp0
      · exact .inr (List.mem_map.mpr ⟨(p, .dir), (fs.lookup_eq_some_iff hp0).mp hp, rfl⟩)
    have hparent := dropLast_of_lookup ((fs.lookup_eq_some_iff (fs.ne_root x hx)).mpr hx)
    by_cases hs : src <+: x.1
    · obtain ⟨rest, hr⟩ := hs
      dsimp only
      rw [← hr, moved_append]
      by_cases hrest : rest = []
      · rw [hrest, List.append_nil]
        have hout : ¬src <+: dst.dropLast := fun hp =>
          h.not_inside (hp.trans (List.dropLast_prefix dst))
        have hm := hmem _ h.directory
        rwa [moved, if_neg hout] at hm
      · rw [← hr, List.dropLast_append_of_ne_nil hrest] at hparent
        rw [List.dropLast_append_of_ne_nil hrest]
        have hm := (hmem _ hparent).resolve_left (by simp [h.src_ne_root])
        rw [moved_append] at hm
        exact .inr hm
    · have hout : ¬src <+: x.1.dropLast := fun hp => hs (hp.trans (List.dropLast_prefix _))
      have hm := hmem _ hparent
      dsimp only
      rw [moved, if_neg hout] at hm
      rwa [moved, if_neg hs]

lemma lookup_move (h : fs.Movable src dst) (rest : Path N) :
    (fs.move src dst h).lookup (dst ++ rest) = fs.lookup (src ++ rest) := by
  apply Option.ext
  intro n
  rw [lookup_eq_some_iff _ (by simp [h.dst_ne_root]), lookup_eq_some_iff _ (by simp [h.src_ne_root])]
  constructor
  · intro hm
    obtain ⟨x, hx, he⟩ := List.mem_map.mp hm
    obtain ⟨h1, rfl⟩ := Prod.mk.inj he
    by_cases hs : src <+: x.1
    · obtain ⟨r, hr⟩ := hs
      rw [← hr, moved_append, List.append_cancel_left_eq] at h1
      rw [← h1, hr]
      exact hx
    · rw [moved, if_neg hs] at h1
      exact absurd ⟨rest, h1.symm⟩ (h.not_prefix hx)
  · intro hm
    exact List.mem_map.mpr ⟨_, hm, by rw [moved_append]⟩

end Rename

instance (fs : Fs N F) (src dst : Path N) : Decidable (fs.Movable src dst) :=
  decidable_of_iff ((fs.lookup src).isSome ∧ (fs.lookup dst).isNone ∧
      (fs.lookup dst.dropLast).any (fun | .dir => true | _ => false) ∧ ¬src <+: dst) (by
    rw [Option.isSome_iff_ne_none, Option.isNone_iff_eq_none, Option.any_eq_true]
    constructor
    · rintro ⟨h1, h2, ⟨n, hn, hd⟩, h4⟩
      cases n with
      | dir => exact ⟨h1, h2, hn, h4⟩
      | file f => cases hd
      | irregular => cases hd
    · rintro ⟨h1, h2, h3, h4⟩
      exact ⟨h1, h2, ⟨_, h3, rfl⟩, h4⟩)

def rename (fs : Fs N F) (src dst : Path N) : Except (FsError N) (Fs N F) :=
  if h : fs.Movable src dst then .ok (fs.move src dst h) else .error (.invalid dst)

/-- A file system without the subtree at `p`. -/
def removeAll (fs : Fs N F) (p : Path N) : Fs N F where
  nodes := fs.nodes.filter fun x => ¬p <+: x.1
  nodup := (List.filter_sublist.map Prod.fst).nodup fs.nodup
  ne_root x hx := fs.ne_root x (List.mem_filter.mp hx).1
  closed := by
    intro x hx
    obtain ⟨hx, hp⟩ := List.mem_filter.mp hx
    refine (fs.closed x hx).imp id fun hd => List.mem_filter.mpr ⟨hd, ?_⟩
    rw [decide_eq_true_eq] at hp ⊢
    exact fun hq => hp (hq.trans (List.dropLast_prefix _))

lemma lookup_removeAll (fs : Fs N F) {p : Path N} (hp : p ≠ []) (q : Path N) :
    (fs.removeAll p).lookup q = if p <+: q then none else fs.lookup q := by
  by_cases hq : q = []
  · rw [hq, if_neg fun h => hp (List.prefix_nil.mp h), lookup_root, lookup_root]
  · apply Option.ext
    intro n
    rw [lookup_eq_some_iff _ hq]
    split_ifs with hpq
    · simp [removeAll, hpq]
    · rw [lookup_eq_some_iff _ hq]
      simp [removeAll, hpq]

/-- A file system of nothing but some directories and those they lie in. -/
lemma exists_dirs (ps : List (Path N)) : ∃ fs : Fs N F, ∀ q,
    fs.lookup q = if q = [] ∨ ∃ p ∈ ps, q <+: p then some .dir else none := by
  induction ps with
  | nil =>
    refine ⟨⟨[], List.nodup_nil, by simp, by simp⟩, fun q => ?_⟩
    by_cases hq : q = []
    · rw [if_pos (.inl hq), hq, lookup_root]
    · rw [if_neg (by simpa using hq), lookup, if_neg hq]
      rfl
  | cons p ps ih =>
    obtain ⟨fs, hfs⟩ := ih
    obtain ⟨fs', -, hlook⟩ := mkdirAll_spec fs p fun q _ n hn => by
      rw [hfs] at hn
      split_ifs at hn
      exact (Option.some.inj hn).symm
    refine ⟨fs', fun q => ?_⟩
    rw [hlook, hfs]
    by_cases hqp : q <+: p
    · simp [hqp]
    · simp [hqp]

/-! ### Walking -/

/-- The nodes at and below a path, by the rest of theirs. -/
def walkDir (fs : Fs N F) (dir : Path N) : List (Path N × Node F) :=
  (fs.nodes.filter fun x => dir <+: x.1).map fun x => (x.1.drop dir.length, x.2)

/-- The regular files of a walk. -/
def walk (fs : Fs N F) (dir : Path N) : List (Path N × F) :=
  (fs.walkDir dir).filterMap fun x => x.2.regular.map (x.1, ·)

lemma mem_walk {fs : Fs N F} {dir rest : Path N} {f : F} :
    (rest, f) ∈ fs.walk dir ↔ fs.lookup (dir ++ rest) = some (.file f) := by
  unfold walk walkDir
  simp only [List.mem_filterMap, List.mem_map, List.mem_filter, decide_eq_true_eq]
  constructor
  · rintro ⟨_, ⟨⟨p, n⟩, ⟨hx, r, rfl⟩, rfl⟩, he⟩
    cases n with
    | dir => cases he
    | irregular => cases he
    | file g =>
      rw [List.drop_left] at he
      cases he
      exact (fs.lookup_eq_some_iff (fs.ne_root _ hx)).mpr hx
  · intro h
    have hne : dir ++ rest ≠ [] := by
      intro h0
      rw [h0] at h
      cases h
    refine ⟨_, ⟨_, ⟨(fs.lookup_eq_some_iff hne).mp h, List.prefix_append _ _⟩, rfl⟩, ?_⟩
    rw [List.drop_left]
    rfl

lemma nodup_walkDir (fs : Fs N F) (dir : Path N) : (fs.walkDir dir).Nodup := by
  refine ((fs.nodup.of_map _).filter _).map_on ?_
  rintro ⟨p, n⟩ hp ⟨q, m⟩ hq h
  obtain ⟨r, rfl⟩ : dir <+: p := by simpa using (List.mem_filter.mp hp).2
  obtain ⟨t, rfl⟩ : dir <+: q := by simpa using (List.mem_filter.mp hq).2
  rw [List.drop_left, List.drop_left] at h
  cases h
  rfl

lemma nodup_walk (fs : Fs N F) (dir : Path N) : (fs.walk dir).Nodup := by
  refine List.Nodup.filterMap ?_ (fs.nodup_walkDir dir)
  rintro ⟨p, n⟩ ⟨q, m⟩ b hp hq
  cases n with
  | dir => cases hp
  | irregular => cases hp
  | file f =>
    cases m with
    | dir => cases hq
    | irregular => cases hq
    | file g =>
      cases hp
      cases hq
      rfl

/-- A path below a directory names at most one file. -/
lemma walk_unique {fs : Fs N F} {dir rest : Path N} {f g : F} (hf : (rest, f) ∈ fs.walk dir)
    (hg : (rest, g) ∈ fs.walk dir) : f = g := by
  rw [mem_walk] at hf hg
  rw [hf] at hg
  cases hg
  rfl

/-- No file of a walk lies in another. -/
lemma walk_prefix_free {fs : Fs N F} {dir p q : Path N} {f g : F} (hp : (p, f) ∈ fs.walk dir)
    (hq : (q, g) ∈ fs.walk dir) (h : p <+: q) : p = q := by
  obtain ⟨rest, rfl⟩ := h
  rw [mem_walk] at hp hq
  by_cases hr : rest = []
  · rw [hr, List.append_nil]
  · rw [← List.append_assoc] at hq
    rw [lookup_of_append hq hr] at hp
    cases hp

end Fs
end FileSystem
