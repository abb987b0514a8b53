import Dhow.FailedAppend

/-!
# The index never covers more journal than exists

Receivers that use a state directory one after the other, each stopped by a crash or an error at
any step of any call. The invariant is about what is sure to be on the disk: an index is flushed,
and covers no more of a journal than survives a loss of power.
-/

namespace Dhow.StateDirectory
open Bytes

/-- What holds of the files between any two steps. -/
structure Files.Sound (b3 : Blake3) (files : Files) : Prop where
  clean : ∀ i, files.index = some i → i.dirty = false
  covered : ∀ i j n, files.index = some i → files.journal = some j → Covers b3 i.content n →
    n.toNat ≤ j.kept

/-- Files that nothing is on its way to, and whose index, if it can be read, covers no more than
there is of the journal. -/
structure Files.AtRest (b3 : Blake3) (files : Files) : Prop where
  index_clean : ∀ i, files.index = some i → i.dirty = false
  journal_clean : ∀ j, files.journal = some j → j.dirty = false
  covered : ∀ i j n, files.index = some i → files.journal = some j → Covers b3 i.content n →
    n.toNat ≤ j.content.length

/-- What a loss of power may leave of a directory. -/
structure Files.Survive (files files' : Files) : Prop where
  journal : Option.Rel DataFile.Survives files.journal files'.journal
  index : Option.Rel DataFile.Survives files.index files'.index
  tmp : Option.Rel DataFile.Survives files.tmp files'.tmp

/-- A state directory that no receiver uses, or one in use, and then up to where the journal was
last replayed, if it was since it was begun. -/
inductive Receiver
  | down (files : Files)
  | up (m : Machine) (replayed : Option UInt64)

def Receiver.files : Receiver → Files
  | down files => files
  | up m _ => m.files

/-- The calls a receiver makes: it begins a journal at zero if there is no saved state, and else
at what the saved state covers, which it has replayed if it replays; and it saves a state over what
is written. -/
inductive Calls (b3 : Blake3) (replays : Bool) (m : Machine) (replayed : Option UInt64) :
    {α : Type} → Op α → Option UInt64 → Prop
  | replay {τ : Type} (limit : UInt64) (fn : τ → Str → DhowStatus × τ) (x : τ) :
      Calls b3 replays m replayed (replay limit fn x) (some limit)
  | beginNew (h : m.store.state = []) : Calls b3 replays m replayed (begin 0) none
  | beginCovered (covered : UInt64) (hcovers : Covers b3 m.store.state covered)
      (hreplayed : replays → replayed = some covered) :
      Calls b3 replays m replayed (begin covered) none
  | append (frame : Str) : Calls b3 replays m replayed (append frame) replayed
  | save (state : Str) (h : Covers b3 state m.store.written) :
      Calls b3 replays m replayed (save state) replayed
  | close : Calls b3 replays m replayed close replayed
  | discard : Calls b3 replays m replayed discard none

/-- A receiver opens a directory, makes calls, and is stopped by an error or a crash in a call or
between two; a loss of power may follow. -/
inductive Step (b3 : Blake3) (replays : Bool) : Receiver → Receiver → Prop
  | opened (files : Files) (store : Store) {m : Machine} {cuts cuts' : List (Option Cut)}
      (h : openDir cuts ⟨files, store⟩ = (.ok (), cuts', m)) : Step b3 replays (.down files) (.up m none)
  | returned {m m' : Machine} {replayed replayed' : Option UInt64} {α : Type} {op : Op α} {a : α}
      {cuts cuts' : List (Option Cut)} (hcall : Calls b3 replays m replayed op replayed')
      (h : op cuts m = (.ok a, cuts', m')) : Step b3 replays (.up m replayed) (.up m' replayed')
  | failed {m m' : Machine} {replayed replayed' : Option UInt64} {α : Type} {op : Op α}
      {e : Failure} {cuts cuts' : List (Option Cut)} (hcall : Calls b3 replays m replayed op replayed')
      (h : op cuts m = (.error e, cuts', m')) : Step b3 replays (.up m replayed) (.down m'.files)
  | crashed {m m' : Machine} {replayed replayed' : Option UInt64} {α : Type} {op : Op α}
      {cuts cuts' : List (Option Cut)} (hcall : Calls b3 replays m replayed op replayed')
      (h : op cuts m = (.crashed, cuts', m')) : Step b3 replays (.up m replayed) (.down m'.files)
  | killed (m : Machine) (replayed : Option UInt64) : Step b3 replays (.up m replayed) (.down m.files)
  | powerLoss {files files' : Files} (h : files.Survive files') :
      Step b3 replays (.down files) (.down files')

section Sound
variable {b3 : Blake3} {files files' : Files} {m : Machine} {replayed : Option UInt64}

lemma Files.AtRest.sound (h : files.AtRest b3) : files.Sound b3 := by
  refine ⟨h.index_clean, fun i j n hi hj hcovers => ?_⟩
  rw [j.kept_eq (h.journal_clean j hj)]
  exact h.covered i j n hi hj hcovers

lemma Files.Sound.survive (h : files.Sound b3) (hs : files.Survive files') : files'.Sound b3 := by
  constructor
  · intro i hi
    have hindex := hs.index
    rw [hi] at hindex
    generalize files.index = i₀ at hindex
    cases hindex with
    | some hsurvives => exact hsurvives.clean
  · intro i j n hi hj hcovers
    have hindex := hs.index
    have hjournal := hs.journal
    rw [hi] at hindex
    rw [hj] at hjournal
    generalize hi₀ : files.index = i₀ at hindex
    generalize hj₀ : files.journal = j₀ at hjournal
    cases hindex with
    | some hi' =>
      cases hjournal with
      | some hj' =>
        rw [hi'.content_eq (h.clean _ hi₀)] at hcovers
        rw [j.kept_eq hj'.clean]
        exact (h.covered _ _ n hi₀ hj₀ hcovers).trans hj'.kept_le

/-- A receiver in use: the store has the index as it is, an open journal is as long as was
written, one that is closed has it on the disk, and what was replayed is there. -/
structure Running (b3 : Blake3) (replayed : Option UInt64) (m : Machine) : Prop where
  sound : m.files.Sound b3
  state_eq : m.store.state = (m.files.index.map DataFile.content).getD []
  opened : ∀ offset, m.store.journal = some offset → ∃ content, Aligned m content
  closed : m.store.journal = none → ∀ j, m.files.journal = some j → m.store.written.toNat ≤ j.kept
  replayed : ∀ limit, replayed = some limit →
    ∃ j, m.files.journal = some j ∧ limit.toNat ≤ j.content.length

/-- A call from a receiver in use leaves one in use, or sound files where it is stopped. -/
abbrev Preserves {α : Type} (b3 : Blake3) (P : Machine → Prop) (op : Op α)
    (replayed : Option UInt64) : Prop :=
  Steps.Ensures P op (fun _ => Running b3 replayed) fun m => m.files.Sound b3

lemma ensures_openDir : Preserves b3 (fun m => m.files.Sound b3) openDir none := by
  refine .bind (.settle fun _ h => h) fun _ => .bind (.settle fun _ h => h) fun _ => .modify ?_
  intro m h
  exact ⟨h, rfl, fun _ ho => (by cases ho), fun _ _ _ => Nat.zero_le _, fun _ hr => (by cases hr)⟩

lemma ensures_replay {τ : Type} (limit : UInt64) (fn : τ → Str → DhowStatus × τ) (x : τ) :
    Preserves b3 (Running b3 replayed) (replay limit fn x) (some limit) := by
  refine .bind (.settle fun _ h => h.sound) fun _ =>
    .bind (.get (Q := fun j m => Running b3 replayed m ∧ m.files.journal = j)
      fun _ h => ⟨h, rfl⟩) fun j => ?_
  split
  · exact .throw fun _ h => h.1.sound
  next f =>
    split_ifs with hshort
    · exact .throw fun _ h => h.1.sound
    · refine .bind (.settle fun _ h => h.1.sound) fun _ =>
        .bind (.settle fun _ h => h.1.sound) fun _ => ?_
      split
      · exact .throw fun _ h => h.1.sound
      · refine .pure fun m h => ⟨h.1.sound, h.1.state_eq, h.1.opened, h.1.closed, ?_⟩
        rintro _ ⟨⟩
        exact ⟨f, h.2, not_lt.mp hshort⟩

/-- The journal before it is cut: the index, if it can be read, covers just what is to stay of it,
and that is on the disk. -/
structure Ready (b3 : Blake3) (covered : UInt64) (m : Machine) : Prop where
  clean : ∀ i, m.files.index = some i → i.dirty = false
  state_eq : m.store.state = (m.files.index.map DataFile.content).getD []
  file : ∃ j, m.files.journal = some j ∧ ∀ i n, m.files.index = some i → Covers b3 i.content n →
    n = covered ∧ n.toNat ≤ j.kept

lemma Ready.sound {covered : UInt64} (h : Ready b3 covered m) : m.files.Sound b3 := by
  refine ⟨h.clean, fun i j n hi hj hcovers => ?_⟩
  obtain ⟨j', hj', hindex⟩ := h.file
  rw [hj] at hj'
  cases hj'
  exact (hindex i n hi hcovers).2

/-- A journal begun at what a readable index covers is cut to no less. -/
lemma ensures_begin {covered : UInt64} {P : Machine → Prop} (hP : ∀ m, P m → m.files.Sound b3)
    (hready : ∀ m, P m → Ready b3 covered
      { m with files := { m.files with journal := some (m.files.journal.getD .empty) } }) :
    Preserves b3 P (begin covered) none := by
  refine .bind (R := fun _ => Ready b3 covered) (.change hready hP) fun _ =>
    .bind (R := fun _ m => m.files.Sound b3 ∧
      m.store.state = (m.files.index.map DataFile.content).getD [] ∧
      ∃ j, m.files.journal = some j ∧ j.content.length = covered.toNat)
      (.step ?_ ?_ fun m _ h => h.sound) fun _ => .bind (.settle fun _ h => h.1) fun _ => .modify ?_
  · intro m a m' h hop
    obtain ⟨j, hj, hindex⟩ := h.file
    split_ifs at hop with hmax
    · cases hop
      have hcut : m.files.journal.map (·.truncate covered.toNat hmax) =
          some (j.truncate covered.toNat hmax) := by rw [hj]; rfl
      refine ⟨⟨h.clean, fun i j' n hi hj' hcovers => ?_⟩, h.state_eq, _, hcut,
        j.length_truncate _ _⟩
      obtain ⟨rfl, hkept⟩ := hindex i n hi hcovers
      cases hcut.symm.trans hj'
      exact le_min hkept le_rfl
    · cases hop
  · intro m e m' h hop
    split_ifs at hop
    · cases hop
    · cases hop
      exact h.sound
  · rintro m ⟨hsound, hstate, j, hj, hlength⟩
    refine ⟨hsound, hstate, fun _ _ => ⟨j.content, ⟨j, hj, rfl⟩, ?_, ?_⟩,
      fun ho => (by cases ho), fun _ hr => (by cases hr)⟩
    · rw [hlength]
    · rw [hlength, UInt64.ofNat_toNat]

lemma ready_of_new (h : Running b3 replayed m) (hstate : m.store.state = []) : Ready b3 0
    { m with files := { m.files with journal := some (m.files.journal.getD .empty) } } := by
  refine ⟨h.sound.clean, h.state_eq, _, rfl, fun i n hi hcovers => ?_⟩
  have heq := h.state_eq
  rw [hstate, show m.files.index = some i from hi] at heq
  exact absurd heq.symm hcovers.ne_nil

lemma ready_of_covered {covered : UInt64} (h : Running b3 replayed m)
    (hcovers : Covers b3 m.store.state covered) (hreplayed : replayed = some covered) :
    Ready b3 covered
      { m with files := { m.files with journal := some (m.files.journal.getD .empty) } } := by
  obtain ⟨j, hj, -⟩ := h.replayed covered hreplayed
  refine ⟨h.sound.clean, h.state_eq, j, by rw [hj]; rfl, fun i n hi hindex => ?_⟩
  have heq := h.state_eq
  rw [show m.files.index = some i from hi] at heq
  rw [heq] at hcovers
  exact ⟨hindex.unique hcovers, h.sound.covered i j n hi hj hindex⟩

/-- Bytes that reach the journal, whatever they are. -/
lemma Running.wrote {content : Str} (h : Running b3 replayed m) (haligned : Aligned m content)
    (bytes : Str) : Running b3 replayed (m.wrote content.length bytes) := by
  obtain ⟨j, hj, rfl⟩ := haligned.file
  have hjournal : (m.wrote j.content.length bytes).files.journal =
      some (j.write j.content.length bytes) := by
    rw [Machine.wrote, Files.mapJournal, hj]
    rfl
  refine ⟨⟨h.sound.clean, fun i j' n hi hj' hcovers => ?_⟩, h.state_eq,
    fun _ _ => ⟨_, haligned.wrote bytes⟩, fun ho => (by cases ho), fun limit hlimit => ?_⟩
  · cases hjournal.symm.trans hj'
    rw [DataFile.kept_write_length]
    exact h.sound.covered i j n hi hj hcovers
  · obtain ⟨j', hj', hle⟩ := h.replayed limit hlimit
    cases hj.symm.trans hj'
    refine ⟨_, hjournal, ?_⟩
    rw [DataFile.content_write_length, List.length_append]
    omega

lemma ensures_append (frame : Str) :
    Preserves b3 (Running b3 replayed) (append frame) replayed := by
  refine .bind (.get (Q := fun o m => Running b3 replayed m ∧ m.store.journal = o)
    fun _ h => ⟨h, rfl⟩) fun o => ?_
  split
  · exact .throw fun _ h => h.1.sound
  next offset =>
    split_ifs
    · exact .throw fun _ h => h.1.sound
    · have hwrote : ∀ m, Running b3 replayed m ∧ m.store.journal = some offset → ∀ bytes,
          Running b3 replayed (m.wrote offset bytes) := by
        rintro m ⟨h, ho⟩ bytes
        obtain ⟨content, haligned⟩ := h.opened offset ho
        cases haligned.offset.symm.trans ho
        exact h.wrote haligned bytes
      refine .step ?_ ?_ fun m n h => (hwrote m h _).sound
      · intro m a m' h hop
        split_ifs at hop
        · cases hop
          exact hwrote m h _
        · cases hop
      · intro m e m' h hop
        split_ifs at hop
        · cases hop
        · cases hop
          exact (hwrote m h _).sound

/-- A receiver in use whose written bytes are all on the disk. -/
structure Flushed (b3 : Blake3) (replayed : Option UInt64) (written : UInt64) (m : Machine) : Prop
    extends Running b3 replayed m where
  written_eq : m.store.written = written
  kept : ∀ j, m.files.journal = some j → written.toNat ≤ j.kept

/-- An open journal that is flushed stays the journal of a receiver in use. -/
lemma Running.sync (h : Running b3 replayed m) :
    Running b3 replayed { m with files := m.files.mapJournal .sync } := by
  have hsync : ∀ j', (m.files.mapJournal .sync).journal = some j' →
      ∃ j, m.files.journal = some j ∧ j.sync = j' := fun j' hj' => Option.map_eq_some_iff.mp hj'
  refine ⟨⟨h.sound.clean, fun i j' n hi hj' hcovers => ?_⟩, h.state_eq, fun o ho => ?_,
    fun ho j' hj' => ?_, fun limit hlimit => ?_⟩
  · obtain ⟨j, hj, rfl⟩ := hsync j' hj'
    exact (h.sound.covered i j n hi hj hcovers).trans j.kept_le
  · obtain ⟨content, haligned⟩ := h.opened o ho
    obtain ⟨j, hj, hcontent⟩ := haligned.file
    exact ⟨content, ⟨j.sync, by simp [Files.mapJournal, hj], hcontent⟩, haligned.offset,
      haligned.written⟩
  · obtain ⟨j, hj, rfl⟩ := hsync j' hj'
    exact (h.closed ho j hj).trans j.kept_le
  · obtain ⟨j, hj, hle⟩ := h.replayed limit hlimit
    exact ⟨j.sync, by simp [Files.mapJournal, hj], hle⟩

lemma ensures_flushJournal {written : UInt64} :
    Steps.Ensures (fun m => Running b3 replayed m ∧ m.store.written = written) flushJournal
      (fun _ => Flushed b3 replayed written) fun m => m.files.Sound b3 := by
  refine .bind (.get (Q := fun o m => (Running b3 replayed m ∧ m.store.written = written) ∧
    m.store.journal = o) fun _ h => ⟨h, rfl⟩) fun o => ?_
  split
  · exact .pure fun m h => ⟨h.1.1, h.1.2, fun j hj => h.1.2 ▸ h.1.1.closed h.2 j hj⟩
  next offset =>
    refine .change (fun m h => ⟨h.1.1.sync, h.1.2, fun j' hj' => ?_⟩) fun m h => h.1.1.sound
    obtain ⟨j, hj, rfl⟩ := Option.map_eq_some_iff.mp hj'
    obtain ⟨content, haligned⟩ := h.1.1.opened offset h.2
    obtain ⟨j', hj', rfl⟩ := haligned.file
    cases hj.symm.trans hj'
    rw [← h.1.2, haligned.toNat_written]
    rfl

/-- The temporary file has the new index, which may be on its way to the disk. -/
def HasTmp (state : Str) (m : Machine) : Prop :=
  ∃ t, m.files.tmp = some t ∧ t.content = state

/-- Changes of the temporary file are of no consequence to a receiver. -/
lemma Flushed.of_tmp {written : UInt64} (h : Flushed b3 replayed written m)
    (tmp : Option DataFile) :
    Flushed b3 replayed written { m with files := { m.files with tmp := tmp } } :=
  ⟨⟨⟨h.sound.clean, h.sound.covered⟩, h.state_eq,
    fun o ho => (h.opened o ho).imp fun _ ha => ⟨ha.file, ha.offset, ha.written⟩, h.closed,
    h.replayed⟩, h.written_eq, h.kept⟩

lemma ensures_writeTmp {written : UInt64} (state : Str) :
    Steps.Ensures (fun m => Flushed b3 replayed written m ∧ HasTmp [] m) (writeTmp state)
      (fun _ m => Flushed b3 replayed written m ∧ HasTmp state m) fun m => m.files.Sound b3 := by
  refine .step ?_ ?_ fun m n h => (h.1.of_tmp _).sound
  · intro m a m' h hop
    obtain ⟨t, ht, hcontent⟩ := h.2
    split_ifs at hop with hfits
    · cases hop
      refine ⟨h.1.of_tmp _, t.write 0 state, by simp [Files.mapTmp, ht], ?_⟩
      have hwrite := t.content_write_length state
      rw [hcontent, List.length_nil, hfits, List.nil_append] at hwrite
      exact hwrite
    · cases hop
  · intro m e m' h hop
    split_ifs at hop
    · cases hop
    · cases hop
      exact (h.1.of_tmp _).sound

/-- A receiver whose index is renamed into place, once it knows of it. -/
lemma Flushed.renamed {written : UInt64} {state : Str} (h : Flushed b3 replayed written m)
    (hcovers : Covers b3 state written) {t : DataFile} (ht : m.files.tmp = some t)
    (hcontent : t.content = state) (hclean : t.dirty = false) :
    Running b3 replayed ⟨{ m.files with index := m.files.tmp, tmp := none },
      { m.store with state := state }⟩ := by
  refine ⟨⟨fun i hi => ?_, fun i j n hi hj hindex => ?_⟩, ?_, fun o ho => ?_, h.closed, h.replayed⟩
  · cases ht.symm.trans hi
    exact hclean
  · cases ht.symm.trans hi
    rw [hcontent] at hindex
    rw [hindex.unique hcovers]
    exact h.kept j hj
  · rw [ht, Option.map_some, Option.getD_some, hcontent]
  · exact (h.opened o ho).imp fun _ ha => ⟨ha.file, ha.offset, ha.written⟩

lemma ensures_save {state : Str} {written : UInt64} (hcovers : Covers b3 state written) :
    Preserves b3 (fun m => Running b3 replayed m ∧ m.store.written = written) (save state)
      replayed := by
  rw [save, if_neg hcovers.ne_nil]
  refine .bind ensures_flushJournal fun _ =>
    .bind (R := fun _ m => Flushed b3 replayed written m ∧ HasTmp [] m)
      (.change (fun m h => ⟨h.of_tmp _, _, rfl, ?_⟩) fun m h => h.sound) fun _ =>
    .bind (ensures_writeTmp state) fun _ =>
    .bind (R := fun _ m => Flushed b3 replayed written m ∧
        ∃ t, m.files.tmp = some t ∧ t.content = state ∧ t.dirty = false)
      (.change (fun m h => ⟨h.1.of_tmp _, ?_⟩) fun m h => h.1.sound) fun _ =>
    .bind (.settle fun m h => h.1.sound) fun _ =>
    .bind (R := fun _ m => Running b3 replayed { m with store := { m.store with state := state } })
      (.change (fun m h => ?_) fun m h => h.1.sound) fun _ => .modify fun m h => h
  · simp
  · obtain ⟨t, ht, hcontent⟩ := h.2
    exact ⟨t.sync, by simp [Files.mapTmp, ht], hcontent, rfl⟩
  · obtain ⟨hflushed, t, ht, hcontent, hclean⟩ := h
    exact hflushed.renamed hcovers ht hcontent hclean

/-- A receiver whose journal is not open. -/
def Idle (b3 : Blake3) (replayed : Option UInt64) (m : Machine) : Prop :=
  Running b3 replayed m ∧ m.store.journal = none

lemma ensures_close : Steps.Ensures (Running b3 replayed) close (fun _ => Idle b3 replayed)
    fun m => m.files.Sound b3 := by
  refine .bind (.get (Q := fun o m => Running b3 replayed m ∧ m.store.journal = o)
    fun _ h => ⟨h, rfl⟩) fun o => ?_
  split
  · exact .pure fun _ h => h
  next offset =>
    refine .bind (R := fun _ m => m.store.journal = none ∧
        Running b3 replayed { m with store := { m.store with journal := some offset } })
      (.modify fun m h => ⟨rfl, ?_⟩) fun _ =>
      .bind (R := fun _ => Idle b3 replayed) (.change (fun m h => ?_) fun m h => h.2.sound) fun _ =>
      .settle fun m h => h.1.sound
    · rw [← h.2]
      exact h.1
    · obtain ⟨content, haligned⟩ := h.2.opened offset rfl
      refine ⟨⟨h.2.sync.sound, h.2.state_eq, fun o ho => ?_, fun _ j' hj' => ?_,
        h.2.sync.replayed⟩, h.1⟩
      · rw [show m.store.journal = some o from ho] at h
        cases h.1
      · obtain ⟨j, hj, rfl⟩ := Option.map_eq_some_iff.mp hj'
        obtain ⟨j', hj', hcontent⟩ := haligned.file
        cases hj.symm.trans hj'
        rw [DataFile.kept_sync, hcontent]
        exact haligned.toNat_written.le

/-- The journal goes first, so that no index is ever left over a shorter one. -/
lemma ensures_discard : Preserves b3 (Running b3 replayed) discard none := by
  refine .bind ensures_close fun _ =>
    .bind (R := fun _ m => m.files.Sound b3 ∧ m.files.journal = none ∧ m.store.journal = none)
      (.change (fun m h => ⟨⟨h.1.sound.clean, fun i j n _ hj _ => (by cases hj)⟩, rfl, h.2⟩)
        fun m h => h.1.sound) fun _ =>
    .bind (R := fun _ m => m.files.index = none ∧ m.files.journal = none ∧ m.store.journal = none)
      (.change (fun m h => ⟨rfl, h.2⟩) fun m h => h.1) fun _ => .modify fun m h => ?_
  obtain ⟨hindex, hjournal, hclosed⟩ := h
  refine ⟨⟨fun i hi => ?_, fun i j n hi _ _ => ?_⟩, ?_, fun o ho => ?_, fun _ _ _ => Nat.zero_le _,
    fun _ hr => (by cases hr)⟩
  · cases hindex.symm.trans hi
  · cases hindex.symm.trans hi
  · rw [hindex]
    rfl
  · cases hclosed.symm.trans ho

/-- Every call of a receiver in use leaves it in use, or sound files where it is stopped. -/
lemma Calls.preserves {α : Type} {op : Op α} {replayed' : Option UInt64}
    (hcall : Calls b3 true m replayed op replayed') :
    Preserves b3 (fun m' => Running b3 replayed m' ∧ m' = m) op replayed' := by
  have hand : ∀ m', Running b3 replayed m' ∧ m' = m → Running b3 replayed m' := fun _ h => h.1
  cases hcall with
  | replay limit fn x => exact (ensures_replay limit fn x).weaken hand (fun _ _ h => h) fun _ h => h
  | beginNew hstate =>
    refine ensures_begin (fun m' h => h.1.sound) fun m' h => ready_of_new h.1 ?_
    rw [h.2, hstate]
  | beginCovered covered hcovers hreplayed =>
    refine ensures_begin (fun m' h => h.1.sound) fun m' h => ready_of_covered h.1 ?_ (hreplayed rfl)
    rw [h.2]
    exact hcovers
  | append frame => exact (ensures_append frame).weaken hand (fun _ _ h => h) fun _ h => h
  | save state hcovers =>
    refine (ensures_save hcovers).weaken (fun m' h => ⟨h.1, ?_⟩) (fun _ _ h => h) fun _ h => h
    rw [h.2]
  | close =>
    exact ensures_close.weaken hand (fun _ _ h => h.1) fun _ h => h
  | discard => exact ensures_discard.weaken hand (fun _ _ h => h) fun _ h => h

/-- What holds of a receiver between its calls. -/
def Receiver.Sound (b3 : Blake3) : Receiver → Prop
  | .down files => files.Sound b3
  | .up m replayed => Running b3 replayed m

lemma Step.sound {r r' : Receiver} (h : Step b3 true r r') (hr : r.Sound b3) : r'.Sound b3 := by
  cases h with
  | @opened files store m cuts cuts' h =>
    have hopen := ensures_openDir cuts ⟨files, store⟩ hr
    rwa [h] at hopen
  | @returned m m' replayed replayed' α op a cuts cuts' hcall h =>
    have hop := hcall.preserves cuts m ⟨hr, rfl⟩
    rwa [h] at hop
  | @failed m m' replayed replayed' α op e cuts cuts' hcall h =>
    have hop := hcall.preserves cuts m ⟨hr, rfl⟩
    rwa [h] at hop
  | @crashed m m' replayed replayed' α op cuts cuts' hcall h =>
    have hop := hcall.preserves cuts m ⟨hr, rfl⟩
    rwa [h] at hop
  | killed m replayed => exact hr.sound
  | powerLoss h => exact Files.Sound.survive hr h

lemma sound_of_run {r : Receiver} (h₀ : files.AtRest b3)
    (h : Relation.ReflTransGen (Step b3 true) (.down files) r) : r.files.Sound b3 := by
  have hsound : r.Sound b3 := by
    induction h with
    | refl => exact h₀.sound
    | tail _ hstep ih => exact hstep.sound ih
  cases r with
  | down files => exact hsound
  | up m replayed => exact hsound.sound

/-! ### Restoring progress as a run -/

/-- A receiver comes to files that it leaves there or goes on from. -/
def Comes (b3 : Blake3) (r : Receiver) (files : Files) : Prop :=
  ∃ r', Relation.ReflTransGen (Step b3 true) r r' ∧ r'.files = files

/-- A call and what follows it come to the same files as the receiver that makes the call and
goes on or is stopped. -/
lemma Calls.comes {α β δ : Type} {op : Op α} {replayed' : Option UInt64}
    (hcall : Calls b3 true m replayed op replayed') {f : Failure → δ} {g : α → Steps Machine δ β}
    (cuts : List (Option Cut)) (hg : ∀ a cuts' m', op cuts m = (.ok a, cuts', m') →
      Comes b3 (.up m' replayed') (g a cuts' m').2.2.files) :
    Comes b3 (.up m replayed) ((Steps.mapError f op >>= g) cuts m).2.2.files := by
  rw [Steps.bind_apply, Steps.mapError]
  rcases hop : op cuts m with ⟨a | e | _, cuts', m'⟩
  · obtain ⟨r, hrun, hfiles⟩ := hg a cuts' m' hop
    exact ⟨r, .head (.returned hcall hop) hrun, hfiles⟩
  · exact ⟨_, .single (.failed hcall hop), rfl⟩
  · exact ⟨_, .single (.crashed hcall hop), rfl⟩

lemma keeps_replay {τ : Type} (limit : UInt64) (fn : τ → Str → DhowStatus × τ) (x : τ)
    (m : Machine) :
    Steps.Ensures (· = m) (replay limit fn x) (fun _ m' => m' = m) (· = m) := by
  refine .bind (.settle fun _ h => h) fun _ =>
    .bind (.get (Q := fun _ m' => m' = m) fun _ h => h) fun j => ?_
  split
  · exact .throw fun _ h => h
  · split_ifs
    · exact .throw fun _ h => h
    · refine .bind (.settle fun _ h => h) fun _ => .bind (.settle fun _ h => h) fun _ => ?_
      split
      · exact .throw fun _ h => h
      · exact .pure fun _ h => h

lemma ensures_openDir_files (files : Files) :
    Steps.Ensures (fun m => m.files = files) openDir (fun _ m => m.files = files)
      fun m => m.files = files :=
  .bind (.settle fun _ h => h) fun _ => .bind (.settle fun _ h => h) fun _ => .modify fun _ h => h

/-- Restoring progress makes the calls of a receiver, wherever it is stopped. -/
theorem restoreProgress_comes {rq : RaptorQ} {sessionId : Arr 16} {dec : PipelineDecoder rq}
    {store : Store} (cuts : List (Option Cut)) :
    Comes b3 (.down files)
      (restoreProgress b3 sessionId dec cuts ⟨files, store⟩).2.2.files := by
  have hopened := ensures_openDir_files files cuts ⟨files, store⟩ rfl
  rw [restoreProgress, Steps.bind_apply, Steps.mapError]
  rcases hdir : openDir cuts ⟨files, store⟩ with ⟨u | e | _, cuts₁, m₁⟩
  · suffices hup : Comes b3 (.up m₁ none) _ by
      obtain ⟨r, hrun, hfiles⟩ := hup
      exact ⟨r, .head (.opened files store hdir) hrun, hfiles⟩
    dsimp only
    rw [Steps.bind_apply, Steps.get]
    dsimp only
    split_ifs with hstate
    · exact (Calls.beginNew hstate).comes cuts₁ fun _ _ m' _ => ⟨.up m' none, .refl, rfl⟩
    · cases hparse : ResumeFile.fromBytes b3 m₁.store.state with
      | error e => exact ⟨.up m₁ none, .refl, rfl⟩
      | ok info =>
        dsimp only
        split_ifs
        · exact ⟨.up m₁ none, .refl, rfl⟩
        · refine (Calls.replay _ _ dec).comes cuts₁ fun r cuts₂ m₂ hreplay => ?_
          have hsame := keeps_replay info.header.journalBytes (decoderAccept b3) dec m₁ cuts₁ m₁ rfl
          rw [hreplay] at hsame
          cases hsame
          cases decoderVerifyResume b3 r.2 m₁.store.state with
          | error e => exact ⟨.up m₁ _, .refl, rfl⟩
          | ok u =>
            exact (Calls.beginCovered _ ⟨info, hparse, rfl⟩ fun _ => rfl).comes cuts₂
              fun _ _ m' _ => ⟨.up m' none, .refl, rfl⟩
  · rw [hdir] at hopened
    exact ⟨_, .refl, hopened.symm⟩
  · rw [hdir] at hopened
    exact ⟨_, .refl, hopened.symm⟩

end Sound

/-- Whatever receivers do with a state directory one after the other, and wherever they are
stopped, the index covers no more of a journal than there is. -/
theorem index_covered {b3 : Blake3} {files : Files} {r : Receiver} (h₀ : files.AtRest b3)
    (h : Relation.ReflTransGen (Step b3 true) (.down files) r) (i j : DataFile) (n : UInt64)
    (hi : r.files.index = some i) (hj : r.files.journal = some j) (hcovers : Covers b3 i.content n) :
    n.toNat ≤ j.content.length :=
  ((sound_of_run h₀ h).covered i j n hi hj hcovers).trans j.kept_le

section Run
open Blake3Reference

/-- A receiver on a new directory that journals one frame, saves, and is killed. -/
lemma exists_saved (replays : Bool) : ∃ (i j : DataFile) (files : Files),
    Relation.ReflTransGen (Step blake3 replays) (.down ⟨none, none, none⟩) (.down files) ∧
    files.index = some i ∧ files.journal = some j ∧ i.content = bareState blake3 5 := by
  let m₁ : Machine := ⟨⟨none, none, none⟩, ⟨[], none, 0⟩⟩
  let m₂ : Machine :=
    ⟨⟨some (DataFile.empty.truncate 0 (Nat.zero_le _)), none, none⟩, ⟨[], some 0, 0⟩⟩
  let m₃ : Machine := m₂.wrote 0 (journalRecord [7])
  have hopen : openDir [] m₁ = (.ok (), [], m₁) := rfl
  have hbegin : begin 0 [] m₁ = (.ok (), [], m₂) := rfl
  have happend : append [7] [] m₂ = (.ok (), [], m₃) := rfl
  have hcovers := covers_bareState blake3 5
  obtain ⟨m₄, hsave, hindex, hjournal⟩ := save_nil hcovers.ne_nil
    (by rw [length_bareState]; decide) m₃
  obtain ⟨i, hi, hcontent⟩ := Option.map_eq_some_iff.mp hindex
  obtain ⟨j, hj, -⟩ : ∃ j, m₄.files.journal = some j ∧ j.content = [1, 0, 0, 0, 7] :=
    Option.map_eq_some_iff.mp hjournal
  exact ⟨i, j, m₄.files,
    .tail (.tail (.tail (.tail (.tail .refl (.opened _ _ hopen)) (.returned (.beginNew rfl) hbegin))
      (.returned (.append [7]) happend)) (.returned (.save _ hcovers) hsave)) (.killed m₄ none),
    hi, hj, hcontent⟩

/-- An index of such a run and the journal beside it. -/
theorem index_covered_run : ∃ (i j : DataFile) (files : Files),
    Relation.ReflTransGen (Step blake3 true) (.down ⟨none, none, none⟩) (.down files) ∧
    files.index = some i ∧ files.journal = some j ∧
    Covers blake3 i.content 5 ∧ (5 : UInt64).toNat ≤ j.content.length := by
  have hrest : Files.AtRest blake3 ⟨none, none, none⟩ :=
    ⟨fun i hi => (by cases hi), fun j hj => (by cases hj), fun i j n hi _ _ => (by cases hi)⟩
  obtain ⟨i, j, files, hrun, hi, hj, hcontent⟩ := exists_saved true
  have hcovers : Covers blake3 i.content 5 := hcontent ▸ covers_bareState blake3 5
  exact ⟨i, j, files, hrun, hi, hj, hcovers, index_covered hrest hrun i j 5 hi hj hcovers⟩

/-- Where receivers need not replay: `Discard` stops between its removes, with the journal gone, and
the next receiver begins at what the index covers and stops before it extends the new journal. -/
theorem index_beyond_journal : ∃ (i j : DataFile) (files : Files),
    Relation.ReflTransGen (Step blake3 false) (.down ⟨none, none, none⟩) (.down files) ∧
    files.index = some i ∧ files.journal = some j ∧
    Covers blake3 i.content 5 ∧ j.content.length < (5 : UInt64).toNat := by
  obtain ⟨i, j, ⟨journal, index, tmp⟩, hrun, hi, -, hcontent⟩ := exists_saved false
  obtain rfl : index = some i := hi
  have hcovers : Covers blake3 i.content 5 := hcontent ▸ covers_bareState blake3 5
  let m₁ : Machine := ⟨⟨journal, some i, tmp⟩, ⟨i.content, none, 0⟩⟩
  let m₂ : Machine := ⟨⟨none, some i, tmp⟩, ⟨i.content, none, 0⟩⟩
  let m₃ : Machine := ⟨⟨some .empty, some i, tmp⟩, ⟨i.content, none, 0⟩⟩
  have hopen : openDir [] ⟨m₁.files, ⟨[], none, 0⟩⟩ = (.ok (), [], m₁) := rfl
  have hdiscard : discard [none, some ⟨0, true⟩] m₁ = (.crashed, [], m₂) := rfl
  have hreopen : openDir [] ⟨m₂.files, ⟨[], none, 0⟩⟩ = (.ok (), [], m₂) := rfl
  have hbegin : begin 5 [none, some ⟨0, true⟩] m₂ = (.crashed, [], m₃) := rfl
  refine ⟨i, .empty, m₃.files, ?_, rfl, rfl, hcovers, by decide⟩
  exact .tail (.tail (.tail (.tail hrun (.opened _ _ hopen)) (.crashed .discard hdiscard))
    (.opened _ _ hreopen)) (.crashed (.beginCovered 5 hcovers fun h => by cases h) hbegin)

end Run

end Dhow.StateDirectory
