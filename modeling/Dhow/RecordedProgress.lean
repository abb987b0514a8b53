import Dhow.CrashConsistency
import Dhow.JournalReplay

/-!
# Recorded progress

What a crash costs a receiver with a state directory. The records that the index covers are only
ever added to, by one start after another, and fewer frames than `-save-every` have been accepted
since.
-/

namespace Dhow
open Bytes

lemma journalOf_inj {log log' : List Str} (hfits : ∀ frame ∈ log, FitsJournal frame)
    (hfits' : ∀ frame ∈ log', FitsJournal frame) (h : journalOf log = journalOf log') :
    log = log' :=
  (longestLog_journalOf hfits).unique (h ▸ longestLog_journalOf hfits')

lemma succ_mod_of_ne {a n : ℕ} (hn : 0 < n) (h : (a + 1) % n ≠ 0) : (a + 1) % n = a % n + 1 := by
  rw [← Nat.mod_add_mod] at h ⊢
  refine Nat.mod_eq_of_lt (lt_of_le_of_ne (Nat.mod_lt a hn) fun heq => h ?_)
  rw [heq, Nat.mod_self]

section Recorded
variable {rq : RaptorQ} {b3 : Blake3} {d₀ : PipelineDecoder rq}

/-- The part of the journal that the index covers. -/
def Disk.recorded (disk : Disk rq b3) : Str :=
  match disk.index with
  | none => []
  | some index => (disk.journal.getD []).take index.covered.toNat

def System.recorded : System rq b3 → Str
  | .down disk => disk.recorded
  | .up sink => sink.store.recorded
  | .failed _ => []

/-- The decoder has accepted the frames `saved`, which the index covers, and after them `more`. -/
structure FrameSink.Tracks (d₀ : PipelineDecoder rq) (sink : FrameSink rq b3)
    (saved more : List Str) : Prop where
  sound : sink.Sound d₀ (saved ++ more)
  recorded_eq : sink.store.recorded = journalOf saved
  few : more.length ≤ sink.accepted % sink.saveEvery

/-- The index covers exactly the frames `saved`. -/
def System.Covers (d₀ : PipelineDecoder rq) (saved : List Str) : System rq b3 → Prop
  | .down disk => disk.Sound d₀ ∧ IsLog b3 d₀ saved ∧ disk.recorded = journalOf saved
  | .up sink => ∃ more, sink.Tracks d₀ saved more
  | .failed _ => False

/-! ### The files -/

lemma Disk.recorded_of_covered {disk : Disk rq b3} {index : Index rq b3} {log : List Str}
    {t : Str} (hindex : disk.index = some index) (hof : index.Of d₀ log)
    (hjournal : disk.journal = some (journalOf log ++ t)) : disk.recorded = journalOf log := by
  simp only [Disk.recorded, hindex, hjournal, Option.getD_some, hof.covered_eq, List.take_left]

/-- A crash loses nothing that the index covers. -/
lemma Disk.Crashed.recorded_eq {disk disk' : Disk rq b3} (h : disk.Crashed disk')
    (hs : disk.Sound d₀) : disk'.recorded = disk.recorded := by
  cases hi : disk.index with
  | none => simp only [Disk.recorded, h.index_eq, hi]
  | some index =>
    obtain ⟨log, tail, hof, hj⟩ := hs index hi
    obtain ⟨tail', hj'⟩ := h.journal_eq index hi
    rw [hj, Option.getD_some, hof.covered_eq, List.take_left] at hj'
    rw [Disk.recorded_of_covered hi hof hj,
      Disk.recorded_of_covered (h.index_eq.trans hi) hof hj']

/-- What is appended behind the bytes that the index covers is not recorded. -/
lemma Disk.recorded_append {disk disk' : Disk rq b3} {journal tail : Str}
    (hindex : disk'.index = disk.index) (hj : disk.journal = some journal)
    (hj' : disk'.journal = some (journal ++ tail))
    (hle : ∀ index, disk.index = some index → index.covered.toNat ≤ journal.length) :
    disk'.recorded = disk.recorded := by
  cases hi : disk.index with
  | none => simp only [Disk.recorded, hindex, hi]
  | some index =>
    simp only [Disk.recorded, hindex, hi, hj, hj', Option.getD_some]
    exact List.take_append_of_le_length (hle index hi)

/-! ### A running receiver -/

namespace FrameSink
variable {sink sink' : FrameSink rq b3} {frame : Str} {accepted : Bool}

/-- What a frame does: it is accepted and appended to the journal, or refused. -/
lemma take_cases (h : sink.take frame = .ok (accepted, sink')) :
    (accepted = true ∧ (decoderAccept b3 sink.dec frame).1 = .ok ∧
      ∃ store, sink.store.append frame = .ok store ∧ sink' = { sink with
        dec := (decoderAccept b3 sink.dec frame).2, store := store,
        accepted := sink.accepted + 1 }) ∨
    (accepted = false ∧ (decoderAccept b3 sink.dec frame).1 ≠ .ok ∧ sink' = { sink with
      dec := (decoderAccept b3 sink.dec frame).2, rejected := sink.rejected + 1 }) := by
  unfold take at h
  rcases hacc : decoderAccept b3 sink.dec frame with ⟨status, dec⟩
  rw [hacc] at h
  cases status with
  | ok =>
    cases happ : sink.store.append frame with
    | error e => simp [happ] at h
    | ok store =>
      simp only [happ, Except.ok.injEq, Prod.mk.injEq] at h
      exact .inl ⟨h.1.symm, rfl, store, rfl, h.2.symm⟩
  | frameRejected =>
    simp only [Except.ok.injEq, Prod.mk.injEq] at h
    exact .inr ⟨h.1.symm, by simp, h.2.symm⟩
  | panic =>
    simp only [Except.ok.injEq, Prod.mk.injEq] at h
    exact .inr ⟨h.1.symm, by simp, h.2.symm⟩

lemma append_cases {store store' : Store rq b3} (h : store.append frame = .ok store') :
    FitsJournal frame ∧ store'.index = store.index ∧
      store'.journal = store.journal.map (· ++ journalRecord frame) := by
  unfold Store.append at h
  split_ifs at h with hopen hfits
  cases h
  rw [not_or, Nat.not_lt] at hfits
  exact ⟨hfits, rfl, rfl⟩

/-- The log of a receiver is the one that its journal holds. -/
lemma Sound.log_eq {log log' : List Str} (h : sink.Sound d₀ log)
    (hfits : ∀ x ∈ log', FitsJournal x) (hjournal : sink.store.journal = some (journalOf log')) :
    log = log' :=
  journalOf_inj h.isLog.fits hfits (Option.some.inj (h.journal_eq.symm.trans hjournal))

/-- A save makes the index cover everything. -/
lemma Sound.save_tracks {log : List Str} (h : sink.Sound d₀ log) :
    ∃ sink', sink.save = .ok sink' ∧ sink'.Tracks d₀ log [] ∧ sink'.dec = sink.dec := by
  obtain ⟨sink', hsave, hsound⟩ := h.save
  rw [sink.save_eq, Except.ok.injEq] at hsave
  subst hsave
  refine ⟨_, sink.save_eq, ⟨by rwa [List.append_nil], ?_, Nat.zero_le _⟩, rfl⟩
  refine Disk.recorded_of_covered rfl ⟨h.isLog, h.dec_eq, h.written_eq⟩ (t := []) ?_
  rw [List.append_nil]
  exact h.journal_eq

/-- A frame that is accepted comes after those the index covers, or makes it cover them all. -/
lemma Tracks.apply {saved more : List Str} (h : sink.Tracks d₀ saved more)
    (ho : sink.Offered frame) : ∃ accepted sink' saved' more',
      sink.apply frame = .ok (accepted, sink') ∧ sink'.Tracks d₀ saved' more' ∧
      (accepted = true ↔ (decoderAccept b3 sink.dec frame).1 = .ok) ∧ saved <+: saved' ∧
      saved' ++ more' = saved ++ more ++ if accepted then [frame] else [] := by
  obtain ⟨accepted, taken, log, htake, hsound⟩ := h.sound.take ho
  obtain ⟨rfl, hstatus, store, happ, htaken⟩ | ⟨rfl, hstatus, htaken⟩ := take_cases htake
  · obtain ⟨hfits, hindex, hjournal⟩ := append_cases happ
    have hall : ∀ x ∈ saved ++ more ++ [frame], FitsJournal x :=
      List.forall_mem_append.mpr ⟨h.sound.isLog.fits, by simpa using hfits⟩
    have hlog : log = saved ++ more ++ [frame] := by
      refine hsound.log_eq hall ?_
      rw [htaken, journalOf_append, journalOf_singleton]
      change store.journal = _
      rw [hjournal, h.sound.journal_eq]
      rfl
    subst hlog
    have hjournal' : taken.store.journal =
        some (journalOf (saved ++ more) ++ journalRecord frame) := by
      rw [hsound.journal_eq, journalOf_append, journalOf_singleton]
    have hrecorded : taken.store.recorded = journalOf saved := by
      rw [← h.recorded_eq]
      refine Disk.recorded_append (by rw [htaken]; exact hindex) h.sound.journal_eq hjournal' ?_
      intro index hi
      obtain ⟨log, rest, hlog, hof⟩ := h.sound.index_of index hi
      rw [hof.covered_eq, hlog, journalOf_append, List.length_append]
      exact Nat.le_add_right _ _
    have haccepted : taken.accepted = sink.accepted + 1 := by rw [htaken]
    have hevery : taken.saveEvery = sink.saveEvery := by rw [htaken]
    by_cases hdue : taken.accepted % taken.saveEvery = 0
    · obtain ⟨sink', hsave, htracks, -⟩ := hsound.save_tracks
      exact ⟨true, sink', _, [], by simp only [FrameSink.apply, htake, if_pos hdue, hsave], htracks,
        by simp [hstatus], ⟨more ++ [frame], by simp⟩, by simp⟩
    · refine ⟨true, taken, saved, more ++ [frame],
        by simp only [FrameSink.apply, htake, if_neg hdue],
        ⟨by rwa [← List.append_assoc], hrecorded, ?_⟩, by simp [hstatus], List.prefix_rfl, by simp⟩
      rw [haccepted, hevery] at hdue ⊢
      rw [List.length_append, List.length_singleton, succ_mod_of_ne sink.saveEvery_pos hdue]
      exact Nat.succ_le_succ h.few
  · have hlog : log = saved ++ more := by
      refine hsound.log_eq h.sound.isLog.fits ?_
      rw [htaken]
      exact h.sound.journal_eq
    subst hlog
    refine ⟨false, taken, saved, more, by simp only [FrameSink.apply, htake], ⟨hsound, ?_, ?_⟩,
      by simp [hstatus], List.prefix_rfl, by simp⟩
    · rw [htaken]
      exact h.recorded_eq
    · rw [htaken]
      exact h.few

end FrameSink

/-! ### Runs -/

/-- A start has the decoder of the frames that the index covers, and a journal of them. -/
lemma Disk.Sound.restores (hrec : d₀.Recorded) {disk : Disk rq b3} (h : disk.Sound d₀)
    {saved : List Str} (hlog : IsLog b3 d₀ saved) (hsaved : disk.recorded = journalOf saved) :
    ∃ store n, restoreProgress disk d₀.sessionId d₀ = .ok (store, n, d₀.run b3 saved) ∧
      store.recorded = journalOf saved ∧ store.journal = some (journalOf saved) := by
  cases hindex : disk.index with
  | none =>
    have hnil : saved = [] := by
      refine journalOf_inj hlog.fits (by simp) ?_
      rw [← hsaved, Disk.recorded, hindex]
      rfl
    subst hnil
    have hnone : ((Store.openDir disk).begin 0).index = none := hindex
    exact ⟨_, _, restoreProgress_of_none hindex _ _,
      by simp only [Disk.recorded, hnone, journalOf_nil], by simp [Store.begin, truncate]⟩
  | some index =>
    obtain ⟨log, tail, hof, hjournal⟩ := h index hindex
    have heq : log = saved := journalOf_inj hof.isLog.fits hlog.fits
      ((Disk.recorded_of_covered hindex hof hjournal).symm.trans hsaved)
    subst heq
    have hj : (Store.openDir disk).journal = some (journalOf log ++ tail) := hjournal
    have hbegun : ((Store.openDir disk).begin index.covered).journal = some (journalOf log) := by
      simp only [Store.begin, hj, Option.getD_some, hof.covered_eq, truncate_append]
    exact ⟨_, _, restoreProgress_of_index hrec hindex hof hjournal,
      Disk.recorded_of_covered hindex hof (t := []) (by rw [List.append_nil]; exact hbegun),
      hbegun⟩

lemma Disk.Sound.start_tracks (hrec : d₀.Recorded) {disk : Disk rq b3} (h : disk.Sound d₀)
    {saved : List Str} (hlog : IsLog b3 d₀ saved) (hsaved : disk.recorded = journalOf saved)
    {saveEvery : ℕ} (hpos : 0 < saveEvery) :
    ∃ sink, System.start disk d₀ saveEvery hpos = .up sink ∧ sink.Tracks d₀ saved [] := by
  have hsound := h.start hrec hpos
  obtain ⟨store, n, hrestore, hrecorded, hjournal⟩ := h.restores hrec hlog hsaved
  simp only [System.start, hrestore] at hsound ⊢
  obtain ⟨log, hs⟩ := hsound
  have heq : log = saved := hs.log_eq hlog.fits hjournal
  subst heq
  exact ⟨_, rfl, by rwa [List.append_nil], hrecorded, Nat.zero_le _⟩

/-- After a crash the index covers what it covered. -/
lemma FrameSink.Tracks.crashed {sink : FrameSink rq b3} {saved more : List Str}
    (h : sink.Tracks d₀ saved more) {disk : Disk rq b3} (hc : sink.store.Crashed disk) :
    System.Covers d₀ saved (.down disk) :=
  ⟨h.sound.disk.crashed hc, (isLog_append_iff.mp h.sound.isLog).1,
    (hc.recorded_eq h.sound.disk).trans h.recorded_eq⟩

/-- A step adds to the frames that the index covers. -/
lemma Step.covers (hrec : d₀.Recorded) {sys sys' : System rq b3} (h : Step d₀ sys sys')
    {saved : List Str} (hs : sys.Covers d₀ saved) :
    ∃ saved', saved <+: saved' ∧ sys'.Covers d₀ saved' := by
  cases h with
  | restart disk saveEvery hpos =>
    obtain ⟨hsound, hlog, hrecorded⟩ := hs
    obtain ⟨sink, hstart, htracks⟩ := hsound.start_tracks hrec hlog hrecorded hpos
    rw [hstart]
    exact ⟨saved, List.prefix_rfl, [], htracks⟩
  | apply sink frame ho =>
    obtain ⟨more, hs⟩ := hs
    obtain ⟨accepted, sink', saved', more', happ, htracks, -, hpre, -⟩ := hs.apply ho
    rw [happ]
    exact ⟨saved', hpre, more', htracks⟩
  | save sink =>
    obtain ⟨more, hs⟩ := hs
    obtain ⟨sink', hsave, htracks, -⟩ := hs.sound.save_tracks
    rw [hsave]
    exact ⟨saved ++ more, List.prefix_append _ _, [], htracks⟩
  | crash sink disk hc =>
    obtain ⟨more, hs⟩ := hs
    exact ⟨saved, List.prefix_rfl, hs.crashed hc⟩
  | crashSave sink sink' disk hsave hc =>
    obtain ⟨more, hs⟩ := hs
    obtain ⟨saved', hsave', htracks, -⟩ := hs.sound.save_tracks
    rw [hsave, Except.ok.injEq] at hsave'
    subst hsave'
    exact ⟨saved ++ more, List.prefix_append _ _, htracks.crashed hc⟩
  | crashApply sink sink' frame b disk ho happ hc =>
    obtain ⟨more, hs⟩ := hs
    obtain ⟨accepted, applied, saved', more', happ', htracks, -, hpre, -⟩ := hs.apply ho
    rw [happ, Except.ok.injEq, Prod.mk.injEq] at happ'
    obtain ⟨-, rfl⟩ := happ'
    exact ⟨saved', hpre, htracks.crashed hc⟩
  | crashAgain disk disk' hc =>
    exact ⟨saved, List.prefix_rfl, Disk.Sound.crashed hs.1 hc, hs.2.1,
      (hc.recorded_eq hs.1).trans hs.2.2⟩

lemma covers_of_steps (hrec : d₀.Recorded) {sys sys' : System rq b3}
    (h : Relation.ReflTransGen (Step d₀) sys sys') {saved : List Str} (hs : sys.Covers d₀ saved) :
    ∃ saved', saved <+: saved' ∧ sys'.Covers d₀ saved' := by
  induction h with
  | refl => exact ⟨saved, List.prefix_rfl, hs⟩
  | tail _ hstep ih =>
    obtain ⟨saved', hpre, hs'⟩ := ih
    obtain ⟨saved'', hpre', hs''⟩ := hstep.covers hrec hs'
    exact ⟨saved'', hpre.trans hpre', hs''⟩

lemma covers_nil (journal : Option Str) :
    System.Covers d₀ [] (.down (⟨journal, none⟩ : Disk rq b3)) :=
  ⟨nofun, isLog_nil d₀, rfl⟩

lemma System.Covers.recorded_eq {sys : System rq b3} {saved : List Str}
    (h : sys.Covers d₀ saved) : sys.recorded = journalOf saved := by
  cases sys with
  | down disk => exact h.2.2
  | up sink =>
    obtain ⟨more, h⟩ := h
    exact h.recorded_eq
  | failed e => exact h.elim

/-- Recorded progress is never lost: on every run of a receiver with a state directory, whatever
its crashes leave, the records that the index covers begin those that it covers at any later
point, and a restart has the decoder of exactly these. All but fewer than `saveEvery` of the frames
that a running receiver has accepted are covered. -/
theorem progress_kept {sessionId : Arr 16} {params : SessionParams} {sessionKey : Arr 32}
    (h₀ : PipelineDecoder.new rq sessionId params sessionKey = .ok d₀) {sys sys' : System rq b3}
    (h : Reachable d₀ sys) (h' : Relation.ReflTransGen (Step d₀) sys sys') :
    sys.recorded <+: sys'.recorded ∧
    (∀ disk, sys' = .down disk → ∃ saved store n, disk.recorded = journalOf saved ∧
      restoreProgress disk sessionId d₀ = .ok (store, n, d₀.run b3 saved)) ∧
    ∀ sink, sys' = .up sink → ∃ saved more, sink.store.recorded = journalOf saved ∧
      sink.store.journal = some (journalOf (saved ++ more)) ∧
      sink.dec = d₀.run b3 (saved ++ more) ∧ d₀.AllOk b3 (saved ++ more) ∧
      more.length < sink.saveEvery := by
  obtain ⟨hstart, hpipe⟩ := PipelineDecoder.new_eq_ok h₀
  have hrec : d₀.Recorded := by
    rw [hstart]
    exact PipelineDecoder.recorded_start _
  have hsession : d₀.sessionId = sessionId := (Pipeline.new_eq_ok hpipe).1
  obtain ⟨journal, hrun⟩ := h
  obtain ⟨saved, -, hcovers⟩ := covers_of_steps hrec hrun (covers_nil journal)
  obtain ⟨saved', ⟨rest, rfl⟩, hcovers'⟩ := covers_of_steps hrec h' hcovers
  refine ⟨?_, ?_, ?_⟩
  · rw [hcovers.recorded_eq, hcovers'.recorded_eq, journalOf_append]
    exact List.prefix_append _ _
  · rintro disk rfl
    obtain ⟨hsound, hlog, hrecorded⟩ := hcovers'
    obtain ⟨store, n, hrestore, -⟩ := hsound.restores hrec hlog hrecorded
    exact ⟨_, store, n, hrecorded, hsession ▸ hrestore⟩
  · rintro sink rfl
    obtain ⟨more, htracks⟩ := hcovers'
    exact ⟨saved ++ rest, more, htracks.recorded_eq, htracks.sound.journal_eq,
      htracks.sound.dec_eq, htracks.sound.isLog.allOk,
      htracks.few.trans_lt (Nat.mod_lt _ sink.saveEvery_pos)⟩

end Recorded

/-- A crash that leaves rubbish behind the journal of a receiver that has saved. -/
theorem progress_kept_reference : ∃ disk : Disk Reference.rq Reference.b3,
    Reachable Reference.decoder (.down disk) ∧
    disk.journal = some (journalRecord Reference.firstFrame.toVec ++ [1, 2, 3]) ∧
    journalRecord Reference.firstFrame.toVec <+: disk.recorded := by
  obtain ⟨sink', happ, hjournal, hindex, -, hwritten⟩ := Reference.apply_firstFrame
  have hoffered : Reference.sink.Offered Reference.firstFrame.toVec :=
    ⟨by decide, by
      have hdec : Reference.sink.dec = Reference.decoder := rfl
      rw [hdec, Reference.accept_firstFrame]
      simp, by decide⟩
  have hcrash : sink'.store.Crashed
      ⟨some (journalRecord Reference.firstFrame.toVec ++ [1, 2, 3]), sink'.store.index⟩ := by
    refine ⟨rfl, fun index hi => ⟨[1, 2, 3], ?_⟩⟩
    rw [hindex, Option.some.injEq] at hi
    rw [← hi, hjournal, Option.getD_some]
    change _ = some ((journalRecord Reference.firstFrame.toVec).take sink'.store.written.toNat ++ _)
    rw [hwritten, List.take_length]
  have hup : Reachable Reference.decoder (.up sink') := by
    refine ⟨none, (Relation.ReflTransGen.single
      (.restart ⟨none, none⟩ 1 Nat.one_pos : Step Reference.decoder _ (.up Reference.sink))).tail ?_⟩
    have hstep : Step Reference.decoder (.up Reference.sink) _ := .apply _ _ hoffered
    rwa [happ] at hstep
  have hrecorded : sink'.store.recorded = journalRecord Reference.firstFrame.toVec := by
    simp only [Disk.recorded, hindex, hjournal, Option.getD_some]
    exact (congrArg (List.take · _) hwritten).trans (List.take_length ..)
  obtain ⟨journal, hrun⟩ := hup
  have hdown := hrun.tail (.crash sink' _ hcrash)
  exact ⟨_, ⟨journal, hdown⟩, rfl, hrecorded ▸ (progress_kept Reference.new_decoder_eq
    ⟨journal, hrun⟩ (Relation.ReflTransGen.single (.crash sink' _ hcrash))).1⟩

end Dhow
