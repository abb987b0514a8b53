import Dhow.AtomicExtraction

/-!
# What an extraction did

Where extraction succeeds, whatever the archive: its entries parse, and the destination holds one
file for each, at the place its name cleans to.
-/

namespace Dhow
open Bytes FileSystem

namespace Pack

/-! ### The entries of an archive -/

/-- The entries from `offset` on with their contents, as extraction reads them. -/
def parseFrom (data : Str) : (left offset total : ℕ) → Except PackError (List (Entry × Str))
  | 0, _, _ => .ok []
  | left + 1, offset, total =>
    match readEntry data offset with
    | .error e => .error e
    | .ok (entry, next) =>
      if maxTotalSize < total + entry.size then .error .extractionTooLarge
      else
        match parseFrom data left (next + entry.size) (total + entry.size) with
        | .error e => .error e
        | .ok items => .ok ((entry, slice data next entry.size) :: items)

/-- The entries an archive declares, with their contents. -/
def parse (data : Str) : Except PackError (List (Entry × Str)) :=
  parseFrom data (u32At data 8).toNat 12 0

/-- What extraction writes of an entry, at the place its name cleans to. -/
def itemFile (item : Entry × Str) : Path Component × File :=
  ((join [] item.1.name).getD [], ⟨item.2, fileMode item.1.executable⟩)

/-- An entry as extraction reads it: its name is valid and its contents are of its size. -/
structure ValidItem (item : Entry × Str) : Prop where
  name_valid : validateName item.1.name = .ok ()
  length_eq : item.2.length = item.1.size
  digest_eq : item.1.digest = zeros 32

lemma readEntry_eq_ok {data : Str} {offset next : ℕ} {entry : Entry}
    (h : readEntry data offset = .ok (entry, next)) :
    ValidItem (entry, slice data next entry.size) := by
  unfold readEntry at h
  dsimp only at h
  split_ifs at h with h1 h2 h3 h4
  · split at h <;> cases h
  · split at h
    · cases h
    next hvalid =>
      rw [Except.ok.injEq, Prod.mk.injEq] at h
      obtain ⟨rfl, rfl⟩ := h
      refine ⟨hvalid, ?_, rfl⟩
      exact length_slice_of_le (Nat.le_of_not_lt (not_or.mp h4).2)

lemma parseFrom_eq_ok {data : Str} {left offset total : ℕ} {items : List (Entry × Str)}
    (h : parseFrom data left offset total = .ok items) : ∀ item ∈ items, ValidItem item := by
  induction left generalizing offset total items with
  | zero =>
    cases h
    simp
  | succ left ih =>
    rw [parseFrom] at h
    cases hr : readEntry data offset with
    | error e => simp [hr] at h
    | ok r =>
      simp only [hr] at h
      split_ifs at h
      cases hp : parseFrom data left (r.2 + r.1.size) (total + r.1.size) with
      | error e => simp [hp] at h
      | ok rest =>
        simp only [hp, Except.ok.injEq] at h
        subst h
        intro item hitem
        rcases List.mem_cons.mp hitem with rfl | hitem
        · exact readEntry_eq_ok hr
        · exact ih hp item hitem

/-! ### Writing -/

lemma executable_mk_fileMode (content : Str) (b : Bool) :
    File.executable ⟨content, fileMode b⟩ = b := by
  have hbit : ∀ b, decide (fileMode b &&& 0o100 ≠ 0) = b := by decide
  exact hbit b

lemma extractedFile_itemFile (umask : UInt32) (item : Entry × Str) :
    extractedFile umask (itemFile item).2 =
      ⟨item.2, fileMode item.1.executable &&& ~~~umask⟩ := by
  rw [itemFile, extractedFile, executable_mk_fileMode]

lemma dotdot_notMem_of_validateName {name : Str} (h : validateName name = .ok ()) :
    dotdot ∉ name.splitOn slash := by
  unfold validateName at h
  split_ifs at h with h1 h2 h3 h4 h5
  exact h5

/-- A file that was written is where its name cleans to, and nothing was in its way. -/
lemma writeFile_eq_ok {umask : UInt32} {fs fs' : FileTree} {dest : Path Component}
    {item : Entry × Str} (hitem : ValidItem item) (hdir : fs.lookup dest = some .dir)
    (h : writeFile umask fs dest item.1 item.2 = .ok fs') :
    join [] item.1.name = some (itemFile item).1 ∧ (itemFile item).1 ≠ [] ∧
      Free fs (dest ++ (itemFile item).1) ∧
      ∀ q, fs'.lookup q = if q = dest ++ (itemFile item).1 then
          some (.file (extractedFile umask (itemFile item).2))
        else if q <+: dest ++ (itemFile item).1 then some .dir else fs.lookup q := by
  rw [extractedFile_itemFile]
  unfold writeFile at h
  rw [join_eq_append dest (dotdot_notMem_of_validateName hitem.name_valid)] at h
  cases hj : join [] item.1.name with
  | none => simp [hj] at h
  | some p =>
    have hp : (itemFile item).1 = p := by rw [itemFile, hj, Option.getD_some]
    rw [hp]
    simp only [hj, Option.map_some] at h
    split_ifs at h
    cases hmk : fs.mkdirAll (dest ++ p).dropLast with
    | error e => simp [hmk] at h
    | ok fs₁ =>
      simp only [hmk] at h
      cases hc : fs₁.create (dest ++ p) ⟨item.2, fileMode item.1.executable &&& ~~~umask⟩ with
      | error e => simp [hc] at h
      | ok fs₂ =>
        simp only [hc, Except.ok.injEq] at h
        subst h
        obtain ⟨hnone, hparent⟩ := Fs.of_create_eq_ok hc
        have hclear := Fs.eq_dir_of_mkdirAll hmk
        obtain ⟨fs₁', hmk', hlook⟩ := Fs.mkdirAll_spec fs (dest ++ p).dropLast hclear
        rw [hmk, Except.ok.injEq] at hmk'
        subst hmk'
        have hne : dest ++ p ≠ [] := by
          intro h0
          rw [h0] at hnone
          cases hnone
        simp only [prefix_dropLast_iff hne] at hlook hclear
        have hfree : fs.lookup (dest ++ p) = none := by
          rw [hlook, if_neg (fun hq => hq.1 rfl)] at hnone
          exact hnone
        refine ⟨rfl, ?_, ⟨hfree, fun q hq f => ?_⟩, fun q => ?_⟩
        · rintro rfl
          rw [List.append_nil, hdir] at hfree
          cases hfree
        · by_cases hqp : q = dest ++ p
          · rw [hqp, hfree]
            simp
          · exact hclear q ⟨hqp, hq⟩ f
        · rw [Fs.create_eq hnone hparent, Except.ok.injEq] at hc
          rw [← hc, Fs.lookup_insert, hlook]
          by_cases hq : q = dest ++ p
          · rw [if_pos hq, if_pos hq]
          · rw [if_neg hq, if_neg hq]
            simp only [ne_eq, hq, not_false_eq_true, true_and]

/-! ### The whole archive -/

/-- What the entry loop did where it succeeds. -/
lemma extractFrom_eq_ok {umask : UInt32} {data : Str} {dest : Path Component}
    {left offset total : ℕ} {fs fs' : FileTree} {entries : List Entry}
    (hdir : fs.lookup dest = some .dir)
    (h : extractFrom umask data dest left offset total fs = (.ok entries, fs')) :
    ∃ items, parseFrom data left offset total = .ok items ∧ entries = items.map Prod.fst ∧
      (∀ item ∈ items, join [] item.1.name = some (itemFile item).1 ∧ (itemFile item).1 ≠ []) ∧
      Extracted umask dest (items.map itemFile) fs fs' := by
  induction left generalizing offset total fs entries with
  | zero =>
    cases h
    exact ⟨[], rfl, rfl, by simp, fun _ _ h => h, by simp, fun _ _ h => .inl h⟩
  | succ left ih =>
    rw [extractFrom] at h
    cases hr : readEntry data offset with
    | error e => simp [hr] at h
    | ok r =>
      obtain ⟨entry, next⟩ := r
      simp only [hr] at h
      split_ifs at h with htotal
      · cases h
      · cases hw : writeFile umask fs dest entry (slice data next entry.size) with
        | error e => simp [hw] at h
        | ok fs₁ =>
          simp only [hw] at h
          have hvalid : ValidItem (entry, slice data next entry.size) := readEntry_eq_ok hr
          obtain ⟨hjoin, hne, hfree, hlook⟩ := writeFile_eq_ok hvalid hdir hw
          have hdir₁ : fs₁.lookup dest = some .dir := by
            rw [hlook, if_neg (by simpa using hne), if_pos (List.prefix_append _ _)]
          cases hx : extractFrom umask data dest left (next + entry.size) (total + entry.size)
            fs₁ with
          | mk result fs₂ =>
            cases result with
            | error e => simp [hx] at h
            | ok rest =>
              simp only [hx, Prod.mk.injEq, Except.ok.injEq] at h
              obtain ⟨rfl, rfl⟩ := h
              obtain ⟨items, hparse, rfl, hjoins, hext⟩ := ih hdir₁ hx
              refine ⟨(entry, slice data next entry.size) :: items, ?_, rfl, ?_,
                hext.cons hfree hlook⟩
              · rw [parseFrom, hr]
                simp only [if_neg htotal, hparse]
              · exact List.forall_mem_cons.mpr ⟨⟨hjoin, hne⟩, hjoins⟩

/-- What an extraction that succeeds has checked and done, whether it made its destination or not. -/
lemma exists_items_of_extract {umask : UInt32} {data : Str} {dest : Path Component}
    {fs fs' : FileTree} {entries : List Entry}
    (h : extract umask fs data dest = (.ok entries, fs')) :
    ∃ fs₁ items, 12 ≤ data.length ∧ arrAt 4 data 0 = magic ∧ u8At data 4 = version ∧
      (∀ q, fs₁.lookup q = if q <+: dest then some .dir else fs.lookup q) ∧
      parse data = .ok items ∧ entries = items.map Prod.fst ∧
      (∀ item ∈ items, join [] item.1.name = some (itemFile item).1 ∧ (itemFile item).1 ≠ []) ∧
      Extracted umask dest (items.map itemFile) fs₁ fs' := by
  unfold extract at h
  dsimp only at h
  split_ifs at h with hlen hmagic hversion hcount
  all_goals try cases h
  cases hmk : fs.mkdirAll dest with
  | error e => simp [hmk] at h
  | ok fs₁ =>
    simp only [hmk] at h
    obtain ⟨fs₁', hmk', hlook⟩ := Fs.mkdirAll_spec fs dest (Fs.eq_dir_of_mkdirAll hmk)
    rw [hmk, Except.ok.injEq] at hmk'
    subst hmk'
    have hdir : fs₁.lookup dest = some .dir := by rw [hlook, if_pos List.prefix_rfl]
    obtain ⟨items, hparse, hentries, hjoins, hext⟩ := extractFrom_eq_ok hdir h
    exact ⟨fs₁, items, Nat.le_of_not_lt hlen, not_not.mp hmagic, not_not.mp hversion, hlook, hparse,
      hentries, hjoins, hext⟩

lemma extract_eq_ok {umask : UInt32} {data : Str} {dest : Path Component} {fs fs' : FileTree}
    {entries : List Entry} (hdir : fs.lookup dest = some .dir)
    (h : extract umask fs data dest = (.ok entries, fs')) :
    ∃ items, parse data = .ok items ∧ entries = items.map Prod.fst ∧
      (∀ item ∈ items, join [] item.1.name = some (itemFile item).1 ∧ (itemFile item).1 ≠ []) ∧
      Extracted umask dest (items.map itemFile) fs fs' := by
  obtain ⟨fs₁, items, -, -, -, hlook, hparse, hentries, hjoins, hext⟩ := exists_items_of_extract h
  have habove : ∀ q, q <+: dest → fs.lookup q = some .dir := by
    rintro q ⟨rest, rfl⟩
    by_cases hr : rest = []
    · rwa [hr, List.append_nil] at hdir
    · exact Fs.lookup_of_append hdir hr
  have hsame : ∀ q, fs₁.lookup q = fs.lookup q := by
    intro q
    rw [hlook]
    split_ifs with hq
    · rw [habove q hq]
    · rfl
  refine ⟨items, hparse, hentries, hjoins, fun q n hq => hext.keeps q n ?_, hext.has,
    fun q n hq => ?_⟩
  · rw [hsame, hq]
  · rw [← hsame]
    exact hext.only q n hq

/-! ### Another place -/

/-- An archive that can be extracted into an empty directory. -/
def Extractable (data : Str) : Prop :=
  ∃ umask fs dest entries fs', dest ≠ [] ∧ (∀ p ≠ [], Fs.lookup fs (dest ++ p) = none) ∧
    extract umask fs data dest = (.ok entries, fs')

/-- Two directories that hold nodes of the same kinds. -/
structure Alike (fs : FileTree) (dest : Path Component) (gs : FileTree) (place : Path Component) :
    Prop where
  dest_dir : fs.lookup dest = some .dir
  place_dir : gs.lookup place = some .dir
  none_iff : ∀ p, fs.lookup (dest ++ p) = none ↔ gs.lookup (place ++ p) = none
  dir_iff : ∀ p, fs.lookup (dest ++ p) = some .dir ↔ gs.lookup (place ++ p) = some .dir

lemma Alike.of_empty {fs gs : FileTree} {dest place : Path Component}
    (hdir : fs.lookup dest = some .dir) (hplace : gs.lookup place = some .dir)
    (hempty : ∀ p ≠ [], fs.lookup (dest ++ p) = none)
    (hfree : ∀ p ≠ [], gs.lookup (place ++ p) = none) : Alike fs dest gs place := by
  refine ⟨hdir, hplace, fun p => ?_, fun p => ?_⟩
  all_goals
    by_cases hp : p = []
    · simp [hp, hdir, hplace]
    · simp [hempty p hp, hfree p hp]

lemma Alike.free {fs gs : FileTree} {dest place p : Path Component} (h : Alike fs dest gs place)
    (hfree : Free fs (dest ++ p)) : Free gs (place ++ p) := by
  refine ⟨(h.none_iff p).mp hfree.lookup_eq, fun q hq n hn => ?_⟩
  rcases List.prefix_or_prefix_of_prefix hq (List.prefix_append place p) with hqp | ⟨r, rfl⟩
  · obtain ⟨r, rfl⟩ := hqp
    have hplace := h.place_dir
    by_cases hr : r = []
    · rw [hr, List.append_nil] at hplace
      rw [hplace, Option.some.injEq] at hn
      exact hn.symm
    · rw [Fs.lookup_of_append hplace hr, Option.some.injEq] at hn
      exact hn.symm
  · have hr : dest ++ r <+: dest ++ p :=
      (List.prefix_append_right_inj dest).mpr ((List.prefix_append_right_inj place).mp hq)
    cases hm : fs.lookup (dest ++ r) with
    | none =>
      rw [(h.none_iff r).mp hm] at hn
      cases hn
    | some m =>
      rw [hfree.clear _ hr m hm, h.dir_iff, hn, Option.some.injEq] at hm
      exact hm

/-- A file that can be written below one directory can be written below the other. -/
lemma Alike.writeFile {umask : UInt32} {fs fs' gs : FileTree} {dest place : Path Component}
    (h : Alike fs dest gs place) (hne : place ≠ []) {item : Entry × Str} (hitem : ValidItem item)
    (hw : writeFile umask fs dest item.1 item.2 = .ok fs') (mask : UInt32) :
    ∃ gs', Pack.writeFile mask gs place item.1 item.2 = .ok gs' ∧ Alike fs' dest gs' place := by
  obtain ⟨hjoin, hp, hfree, hlook⟩ := writeFile_eq_ok hitem h.dest_dir hw
  have hat : join place item.1.name = some (place ++ (itemFile item).1) := by
    rw [join_eq_append place (dotdot_notMem_of_validateName hitem.name_valid), hjoin, Option.map_some]
  obtain ⟨gs', hgs', hlook'⟩ := writeFile_of_free mask hne hat (h.free hfree) item.2
  refine ⟨gs', hgs', ?_, ?_, fun p => ?_, fun p => ?_⟩
  · rw [hlook, if_neg (by simpa using hp), if_pos (List.prefix_append _ _)]
  · rw [hlook', if_neg (by simpa using hp), if_pos (List.prefix_append _ _)]
  all_goals
    simp only [hlook, hlook', List.append_cancel_left_eq, List.prefix_append_right_inj]
    split_ifs
    · simp
    · simp
  · exact h.none_iff p
  · exact h.dir_iff p

lemma Alike.extractFrom {umask : UInt32} {data : Str} {left offset total : ℕ}
    {fs fs' gs : FileTree} {dest place : Path Component} {entries : List Entry}
    (h : Alike fs dest gs place) (hne : place ≠ [])
    (hx : extractFrom umask data dest left offset total fs = (.ok entries, fs')) (mask : UInt32) :
    ∃ gs', Pack.extractFrom mask data place left offset total gs = (.ok entries, gs') := by
  induction left generalizing offset total fs fs' gs entries with
  | zero =>
    cases hx
    exact ⟨gs, rfl⟩
  | succ left ih =>
    rw [Pack.extractFrom] at hx ⊢
    cases hr : readEntry data offset with
    | error e => simp [hr] at hx
    | ok r =>
      obtain ⟨entry, next⟩ := r
      simp only [hr] at hx ⊢
      split_ifs at hx ⊢ with htotal
      · cases hx
      · cases hw : Pack.writeFile umask fs dest entry (slice data next entry.size) with
        | error e => simp [hw] at hx
        | ok fs₁ =>
          simp only [hw] at hx
          obtain ⟨gs₁, hgs₁, halike⟩ := h.writeFile hne (readEntry_eq_ok hr) hw mask
          cases hrest : Pack.extractFrom umask data dest left (next + entry.size)
            (total + entry.size) fs₁ with
          | mk result fs₂ =>
            cases result with
            | error e => simp [hrest] at hx
            | ok rest =>
              simp only [hrest, Prod.mk.injEq, Except.ok.injEq] at hx
              obtain ⟨gs₂, hgs₂⟩ := ih halike hrest
              simp only [hgs₁, hgs₂, hx.1]
              exact ⟨gs₂, rfl⟩

/-- An archive that can be extracted into one empty directory can be extracted into every one. -/
theorem Extractable.extract {data : Str} (h : Extractable data) {gs : FileTree}
    {place : Path Component} (hne : place ≠ []) (hplace : gs.lookup place = some .dir)
    (hfree : ∀ p ≠ [], gs.lookup (place ++ p) = none) (mask : UInt32) :
    ∃ entries gs', Pack.extract mask gs data place = (.ok entries, gs') := by
  obtain ⟨umask, fs, dest, entries, fs', -, hempty, hx⟩ := h
  obtain ⟨gs₁, hmk, hlook⟩ := Fs.mkdirAll_spec gs place fun q hq n hn => by
    obtain ⟨r, rfl⟩ := hq
    by_cases hr : r = []
    · rw [hr, List.append_nil] at hplace
      rw [hplace, Option.some.injEq] at hn
      exact hn.symm
    · rw [Fs.lookup_of_append hplace hr, Option.some.injEq] at hn
      exact hn.symm
  unfold Pack.extract at hx ⊢
  dsimp only at hx ⊢
  split_ifs at hx ⊢
  all_goals try cases hx
  cases hmk' : fs.mkdirAll dest with
  | error e => simp [hmk'] at hx
  | ok fs₁ =>
    simp only [hmk', hmk] at hx ⊢
    obtain ⟨fs₂, hfs₂, hlook'⟩ := Fs.mkdirAll_spec fs dest (Fs.eq_dir_of_mkdirAll hmk')
    rw [hmk', Except.ok.injEq] at hfs₂
    subst hfs₂
    have hbelow : ∀ (q p : Path Component), p ≠ [] → ¬q ++ p <+: q := fun q p hp hq => by
      have hle := hq.length_le
      rw [List.length_append] at hle
      exact hp (List.length_eq_zero_iff.mp (by omega))
    have halike : Alike fs₁ dest gs₁ place := by
      refine .of_empty (by rw [hlook', if_pos List.prefix_rfl]) (by rw [hlook, if_pos List.prefix_rfl])
        (fun p hp => ?_) fun p hp => ?_
      · rw [hlook', if_neg (hbelow dest p hp), hempty p hp]
      · rw [hlook, if_neg (hbelow place p hp), hfree p hp]
    obtain ⟨gs', hgs'⟩ := halike.extractFrom hne hx mask
    exact ⟨entries, gs', hgs'⟩

end Pack

/-- The stages of an extraction beside the destination that succeeds. -/
lemma stages_of_extractAtomically {umask : UInt32} {random : Component} {fs out : FileTree}
    {payload : Str} {outDir : Path Component} {entries : List Pack.Entry}
    (h : extractAtomically umask random fs payload outDir = (.ok entries, out)) :
    ∃ base fs₁ fs₂ fs₃, fs.lookup outDir = none ∧ outDir.getLast? = some base ∧
      fs.mkdirAll outDir.dropLast = .ok fs₁ ∧
      fs₁.mkdir (outDir.dropLast ++ [stagingName base random]) = .ok fs₂ ∧
      Pack.extract umask fs₂ payload (outDir.dropLast ++ [stagingName base random]) =
        (.ok entries, fs₃) ∧
      fs₃.rename (outDir.dropLast ++ [stagingName base random]) outDir = .ok out := by
  unfold extractAtomically at h
  split at h
  · next base hfree hlast =>
    cases hmk : fs.mkdirAll outDir.dropLast with
    | error e => simp [hmk] at h
    | ok fs₁ =>
      simp only [hmk] at h
      cases hdir : fs₁.mkdir (outDir.dropLast ++ [stagingName base random]) with
      | error e => simp [hdir] at h
      | ok fs₂ =>
        simp only [hdir] at h
        split at h
        · cases h
        · next extracted fs₃ hextract =>
          cases hmove : fs₃.rename (outDir.dropLast ++ [stagingName base random]) outDir with
          | error e => simp [hmove] at h
          | ok fs₄ =>
            simp only [hmove, Prod.mk.injEq, Except.ok.injEq] at h
            obtain ⟨rfl, rfl⟩ := h
            exact ⟨base, fs₁, fs₂, fs₃, hfree, hlast, rfl, hdir, hextract, hmove⟩
  · cases h

/-- What the atomic extraction did where it succeeds: the destination holds one file for each
entry of the archive, and nothing else. -/
theorem extractAtomically_eq_ok {umask : UInt32} {random : Component} {fs out : FileTree}
    {payload : Str} {outDir : Path Component} {entries : List Pack.Entry}
    (h : extractAtomically umask random fs payload outDir = (.ok entries, out)) :
    ∃ items, Pack.parse payload = .ok items ∧ entries = items.map Prod.fst ∧
      (∀ item ∈ items, join [] item.1.name = some (Pack.itemFile item).1 ∧
        (Pack.itemFile item).1 ≠ []) ∧
      Holds umask out outDir (items.map Pack.itemFile) := by
  obtain ⟨base, fs₁, fs₂, fs₃, -, -, -, hdir, hextract, hmove⟩ := stages_of_extractAtomically h
  obtain ⟨hfree, hparent⟩ := Fs.of_mkdir_eq_ok hdir
  rw [Fs.mkdir_eq hfree hparent, Except.ok.injEq] at hdir
  subst hdir
  have hins := Fs.lookup_insert fs₁ (outDir.dropLast ++ [stagingName base random]) .dir hfree hparent
  have hstaging := hins (outDir.dropLast ++ [stagingName base random])
  rw [if_pos rfl] at hstaging
  have hempty : ∀ p ≠ [], (fs₁.insert (outDir.dropLast ++ [stagingName base random]) .dir hfree
      hparent).lookup (outDir.dropLast ++ [stagingName base random] ++ p) = none := by
    intro p hp
    rw [hins, if_neg (by simpa using hp)]
    exact Fs.lookup_append_of_none hfree p
  obtain ⟨items, hparse, hitems, hjoins, hext⟩ := Pack.extract_eq_ok hstaging hextract
  unfold Fs.rename at hmove
  split_ifs at hmove with hmovable
  rw [Except.ok.injEq] at hmove
  subst hmove
  exact ⟨items, hparse, hitems, hjoins, (hext.holds hstaging hempty).move hmovable⟩

/-- Where the destination is ready, an archive that can be extracted at all becomes it. -/
lemma Pack.Extractable.extractAtomically {payload : Str} (h : Pack.Extractable payload)
    (umask : UInt32) {fs : FileTree} {outDir : Path Component} {random : Component}
    (hready : Ready fs outDir random) :
    ∃ items fs', Pack.parse payload = .ok items ∧
      Dhow.extractAtomically umask random fs payload outDir = (.ok (items.map Prod.fst), fs') ∧
      Holds umask fs' outDir (items.map Pack.itemFile) := by
  obtain ⟨items, hparse⟩ : ∃ items, Pack.parse payload = .ok items := by
    obtain ⟨mask, gs, dest, entries, gs', -, -, hx⟩ := h
    obtain ⟨_, items, -, -, -, -, hparse, -⟩ := Pack.exists_items_of_extract hx
    exact ⟨items, hparse⟩
  obtain ⟨fs', hextract, hholds⟩ := extractAtomically_of_extract umask hready
    (items.map Pack.itemFile) fun gs staging hstaging hdir hempty => by
      obtain ⟨entries, gs', hx⟩ := h.extract hstaging hdir hempty umask
      obtain ⟨items', hparse', rfl, -, hext⟩ := Pack.extract_eq_ok hdir hx
      rw [hparse, Except.ok.injEq] at hparse'
      subst hparse'
      exact ⟨gs', hx, hext⟩
  exact ⟨items, fs', hparse, hextract, hholds⟩

end Dhow
