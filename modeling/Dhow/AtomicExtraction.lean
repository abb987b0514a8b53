import Dhow.PackRoundTrip
import Dhow.Receive

/-!
# Extraction beside the destination

What `extractAtomically` leaves at the destination: the staging directory is filled and renamed,
so the destination becomes exactly the extracted files and the directories they lie in.
-/

namespace Dhow
open Bytes FileSystem

lemma stagingName_ne (base random : Component) : stagingName base random ≠ base := by
  intro h
  have hval : tempName (stagingPattern base.1) random.1 = base.1 := congrArg Subtype.val h
  have hlen := length_tempName (stagingPattern base.1) random.1
  rw [hval, length_stagingPattern] at hlen
  omega

/-- A destination that nothing is at and nothing is in the way of. -/
structure Ready (fs : FileTree) (outDir : Path Component) (random : Component) : Prop where
  free : fs.lookup outDir = none
  clear : ∀ q, q <+: outDir → ∀ n, fs.lookup q = some n → n = .dir
  staging_free : ∀ base, outDir.getLast? = some base →
    fs.lookup (outDir.dropLast ++ [stagingName base random]) = none

lemma Ready.ne_nil {fs : FileTree} {outDir : Path Component} {random : Component}
    (h : Ready fs outDir random) : outDir ≠ [] := by
  rintro rfl
  cases h.free

section Staging
variable {fs : FileTree} {parent : Path Component} {base random : Component}

/-- The tree in which extraction starts: an empty staging directory beside the destination. -/
lemma exists_staging (hfree : fs.lookup (parent ++ [base]) = none)
    (hclear : ∀ q, q <+: parent → ∀ n, fs.lookup q = some n → n = .dir)
    (hstaging : fs.lookup (parent ++ [stagingName base random]) = none) :
    ∃ fs₁ fs₂, fs.mkdirAll parent = .ok fs₁ ∧
      fs₁.mkdir (parent ++ [stagingName base random]) = .ok fs₂ ∧
      fs₂.lookup parent = some .dir ∧
      fs₂.lookup (parent ++ [stagingName base random]) = some .dir ∧
      (∀ p ≠ [], fs₂.lookup (parent ++ [stagingName base random] ++ p) = none) ∧
      fs₂.lookup (parent ++ [base]) = none := by
  have hbelow : ∀ c : Component, ¬parent ++ [c] <+: parent := fun c h => by
    have hle := h.length_le
    rw [List.length_append, List.length_singleton] at hle
    omega
  obtain ⟨fs₁, hmk, hlook⟩ := Fs.mkdirAll_spec fs parent hclear
  have hnone : fs₁.lookup (parent ++ [stagingName base random]) = none := by
    rw [hlook, if_neg (hbelow _), hstaging]
  have hdir : fs₁.lookup (parent ++ [stagingName base random]).dropLast = some .dir := by
    rw [List.dropLast_concat, hlook, if_pos List.prefix_rfl]
  have hins := Fs.lookup_insert fs₁ (parent ++ [stagingName base random]) .dir hnone hdir
  refine ⟨fs₁, _, hmk, Fs.mkdir_eq hnone hdir, ?_, ?_, ?_, ?_⟩
  · rw [hins, if_neg, hlook, if_pos List.prefix_rfl]
    intro h
    have hlen := congrArg List.length h
    rw [List.length_append, List.length_singleton] at hlen
    omega
  · rw [hins, if_pos rfl]
  · intro p hp
    rw [hins, if_neg (by simpa using hp)]
    exact Fs.lookup_append_of_none hnone p
  · have hne : parent ++ [base] ≠ parent ++ [stagingName base random] := by
      intro h
      rw [List.append_cancel_left_eq, List.cons.injEq] at h
      exact stagingName_ne base random h.1.symm
    rw [hins, if_neg hne, hlook, if_neg (hbelow _), hfree]

end Staging

/-- A directory that holds exactly `files`, as extraction makes them, and their directories. -/
structure Holds (umask : UInt32) (fs : FileTree) (dir : Path Component)
    (files : List (Path Component × File)) : Prop where
  directory : fs.lookup dir = some .dir
  has : ∀ x ∈ files, fs.lookup (dir ++ x.1) = some (.file (Pack.extractedFile umask x.2))
  only : ∀ p n, p ≠ [] → fs.lookup (dir ++ p) = some n → ∃ x ∈ files, p <+: x.1 ∧
    n = if p = x.1 then .file (Pack.extractedFile umask x.2) else .dir

/-- Extraction into an empty directory makes it hold the files. -/
lemma Pack.Extracted.holds {umask : UInt32} {fs fs' : FileTree} {dir : Path Component}
    {files : List (Path Component × File)} (h : Pack.Extracted umask dir files fs fs')
    (hdir : fs.lookup dir = some .dir) (hempty : ∀ p ≠ [], fs.lookup (dir ++ p) = none) :
    Holds umask fs' dir files := by
  refine ⟨h.keeps _ _ hdir, h.has, fun p n hp hn => ?_⟩
  rcases h.only _ _ hn with hold | ⟨x, hx, hpre, rfl⟩
  · rw [hempty p hp] at hold
    cases hold
  · refine ⟨x, hx, (List.prefix_append_right_inj dir).mp hpre, ?_⟩
    simp only [List.append_cancel_left_eq]

/-- A renamed directory holds what it held. -/
lemma Holds.move {umask : UInt32} {fs : FileTree} {src dst : Path Component}
    {files : List (Path Component × File)} (h : Holds umask fs src files)
    (hm : fs.Movable src dst) : Holds umask (fs.move src dst hm) dst files := by
  have hlook := Fs.lookup_move hm
  refine ⟨?_, fun x hx => ?_, fun p n hp hn => ?_⟩
  · have h0 := hlook []
    rw [List.append_nil, List.append_nil] at h0
    rw [h0]
    exact h.directory
  · rw [hlook]
    exact h.has x hx
  · rw [hlook] at hn
    exact h.only p n hp hn

/-- Where the destination is ready, what can be extracted into an empty directory becomes the
destination. -/
lemma extractAtomically_of_extract (umask : UInt32) {fs : FileTree} {outDir : Path Component}
    {random : Component} (hready : Ready fs outDir random) {payload : Str}
    {entries : List Pack.Entry} (files : List (Path Component × File))
    (hextract : ∀ (gs : FileTree) (staging : Path Component), staging ≠ [] →
      gs.lookup staging = some .dir → (∀ p ≠ [], gs.lookup (staging ++ p) = none) →
      ∃ gs', Pack.extract umask gs payload staging = (.ok entries, gs') ∧
        Pack.Extracted umask staging files gs gs') :
    ∃ fs', extractAtomically umask random fs payload outDir = (.ok entries, fs') ∧
      Holds umask fs' outDir files := by
  obtain ⟨parent, base, rfl⟩ : ∃ parent base, outDir = parent ++ [base] :=
    ⟨_, _, (List.dropLast_append_getLast hready.ne_nil).symm⟩
  have hlast : (parent ++ [base]).getLast? = some base := List.getLast?_concat
  have hfree := hready.free
  have hstaging := hready.staging_free base hlast
  rw [List.dropLast_concat] at hstaging
  obtain ⟨fs₁, fs₂, hmk, hmkdir, hparent, hdir, hempty, hout⟩ := exists_staging hfree
    (fun q hq => hready.clear q (hq.trans (List.prefix_append _ _))) hstaging
  obtain ⟨fs₃, hextract, hext⟩ := hextract fs₂ _ (by simp) hdir hempty
  have hholds := hext.holds hdir hempty
  have hinside : ¬parent ++ [stagingName base random] <+: parent ++ [base] := by
    rw [List.prefix_append_right_inj, List.cons_prefix_cons]
    exact fun h => stagingName_ne base random h.1
  have hmovable : fs₃.Movable (parent ++ [stagingName base random]) (parent ++ [base]) := by
    refine ⟨by rw [hholds.directory]; simp, ?_, ?_, hinside⟩
    · cases hn : fs₃.lookup (parent ++ [base]) with
      | none => rfl
      | some n =>
        rcases hext.only _ _ hn with hold | ⟨x, -, hpre, -⟩
        · rw [hout] at hold
          cases hold
        · rcases List.prefix_or_prefix_of_prefix hpre (List.prefix_append _ x.1) with h | h
          · have heq := h.eq_of_length (by simp)
            exact absurd (heq ▸ List.prefix_rfl) hinside
          · exact absurd h hinside
    · rw [List.dropLast_concat]
      exact hext.keeps _ _ hparent
  refine ⟨fs₃.move _ _ hmovable, ?_, hholds.move hmovable⟩
  unfold extractAtomically
  simp only [hfree, hlast, List.dropLast_concat, hmk, hmkdir, hextract, Fs.rename,
    dif_pos hmovable]

/-- Where the destination is ready, an archive becomes the destination. -/
theorem extractAtomically_spec (umask : UInt32) {fs : FileTree} {outDir : Path Component}
    {random : Component} (hready : Ready fs outDir random)
    {files : List (Path Component × File)} (hall : Pack.PackableAll files)
    (hpf : Pack.PrefixFree files) (hne : ∀ x ∈ files, x.1 ≠ []) :
    ∃ fs', extractAtomically umask random fs
        (Pack.header files.length ++ files.flatMap Pack.packed) outDir =
          (.ok (files.map Pack.Entry.ofFile), fs') ∧ Holds umask fs' outDir files :=
  extractAtomically_of_extract umask hready files fun _ _ hstaging hdir hempty =>
    Pack.extract_spec umask hstaging hdir hempty hall hpf hne

end Dhow
