import Dhow.Binding
import Dhow.Replay
import Mathlib.Logic.Relation

/-!
# Crash consistency

A receiver with a state directory, its crashes and its restarts, as a step relation. What a crash
leaves of the two files is the index before or after a save, and a journal that has the bytes
the index covers. The invariant is a log: the frames the running decoder accepted are what the
journal holds, and the index describes a decoder that accepted a prefix of them.
-/

namespace Dhow
open Bytes

section Log
variable {rq : RaptorQ} {b3 : Blake3}

/-- Frames that a decoder accepts one after the other and that fit a journal. -/
structure IsLog (b3 : Blake3) (d : PipelineDecoder rq) (log : List Str) : Prop where
  allOk : d.AllOk b3 log
  fits : ∀ frame ∈ log, frame ≠ [] ∧ frame.length ≤ maxRecord

lemma isLog_nil (d : PipelineDecoder rq) : IsLog b3 d [] :=
  ⟨fun r hr => absurd hr (by simp [PipelineDecoder.results]), by simp⟩

lemma isLog_append_iff {d : PipelineDecoder rq} {log more : List Str} :
    IsLog b3 d (log ++ more) ↔ IsLog b3 d log ∧ IsLog b3 (d.run b3 log) more := by
  constructor
  · rintro ⟨hok, hfits⟩
    rw [PipelineDecoder.allOk_append_iff] at hok
    rw [List.forall_mem_append] at hfits
    exact ⟨⟨hok.1, hfits.1⟩, ⟨hok.2, hfits.2⟩⟩
  · rintro ⟨⟨hok, hfits⟩, ⟨hok', hfits'⟩⟩
    exact ⟨(d.allOk_append_iff).mpr ⟨hok, hok'⟩, List.forall_mem_append.mpr ⟨hfits, hfits'⟩⟩

lemma decoderAccept_of_ok {d : PipelineDecoder rq} {frame : Str} (hne : frame ≠ [])
    {outcome : FrameOutcome} (h : (d.accept b3 frame).1 = .ok outcome) :
    decoderAccept b3 d frame = (.ok, (d.accept b3 frame).2) := by
  rw [decoderAccept, if_neg hne]
  apply Prod.ext
  · rw [d.dhowDecoderAccept_fst, h]
  · rw [d.dhowDecoderAccept_snd]

/-- A decoder that accepts a log takes its frames in a replay. -/
lemma handOver_log {log : List Str} {d : PipelineDecoder rq} (h : IsLog b3 d log) :
    Store.handOver (decoderAccept b3) d log = some (d.run b3 log) := by
  induction log generalizing d with
  | nil => rfl
  | cons frame log ih =>
    obtain ⟨⟨outcome, hok⟩, hrest⟩ := (d.allOk_cons_iff).mp h.allOk
    obtain ⟨⟨hne, _⟩, hfits⟩ := List.forall_mem_cons.mp h.fits
    rw [Store.handOver, decoderAccept_of_ok hne hok]
    exact ih ⟨hrest, hfits⟩

/-- Replaying a log, from any record on, hands its frames to the decoder in order. -/
lemma replayFrom_log (pre tail : Str) {log : List Str} {d : PipelineDecoder rq}
    (h : IsLog b3 d log) (count : ℕ) :
    Store.replayFrom (pre ++ (journalOf log ++ tail)) (pre.length + (journalOf log).length)
        (decoderAccept b3) pre.length count d =
      .ok (count + log.length, d.run b3 log) := by
  refine Store.replayFrom_log_of_handOver h.fits (by simp) (Nat.le_add_right _ _) ?_
    (handOver_log h)
  rw [Nat.add_sub_cancel_left, slice_append_right le_rfl, Nat.sub_self,
    slice_append_left (by simp), slice_zero_length]

end Log

/-! ### The system -/

section System
variable {rq : RaptorQ} {b3 : Blake3}

/-- A receiver between runs, in a run, or refused. -/
inductive System (rq : RaptorQ) (b3 : Blake3)
  | down (disk : Disk rq b3)
  | up (sink : FrameSink rq b3)
  | failed (e : RecvError)

/-- A receiver started on a state directory with a new decoder. -/
def System.start (disk : Disk rq b3) (d₀ : PipelineDecoder rq) (saveEvery : ℕ)
    (h : 0 < saveEvery) : System rq b3 :=
  match restoreProgress disk d₀.sessionId d₀ with
  | .error e => .failed e
  | .ok (store, _, dec) => .up ⟨dec, store, saveEvery, 0, 0, h⟩

/-- The receiver after a call of its sink. -/
def System.ofSink : Except RecvError (FrameSink rq b3) → System rq b3
  | .error e => .failed e
  | .ok sink => .up sink

/-- What a crash may leave of two files: the index, and the bytes it covers before any others. -/
structure Disk.Crashed (disk disk' : Disk rq b3) : Prop where
  index_eq : disk'.index = disk.index
  journal_eq : ∀ index, disk.index = some index → ∃ tail,
    disk'.journal = some ((disk.journal.getD []).take index.covered.toNat ++ tail)

/-- The frame may be offered: it is short, the call does not panic, and the journal stays below
the largest file. -/
structure FrameSink.Offered (sink : FrameSink rq b3) (frame : Str) : Prop where
  length_le : frame.length ≤ maxRecord
  no_panic : (sink.dec.accept b3 frame).1 ≠ .panic
  file_lt : (sink.store.journal.getD []).length + recordPrefix + frame.length < 2 ^ 63

inductive Step (d₀ : PipelineDecoder rq) : System rq b3 → System rq b3 → Prop
  | restart (disk : Disk rq b3) (saveEvery : ℕ) (h : 0 < saveEvery) :
      Step d₀ (.down disk) (.start disk d₀ saveEvery h)
  | apply (sink : FrameSink rq b3) (frame : Str) (h : sink.Offered frame) :
      Step d₀ (.up sink) (.ofSink ((sink.apply frame).map Prod.snd))
  | save (sink : FrameSink rq b3) : Step d₀ (.up sink) (.ofSink sink.save)
  | crash (sink : FrameSink rq b3) (disk : Disk rq b3) (h : sink.store.Crashed disk) :
      Step d₀ (.up sink) (.down disk)
  /-- A crash inside an explicit save, after the rename. -/
  | crashSave (sink sink' : FrameSink rq b3) (disk : Disk rq b3) (hs : sink.save = .ok sink')
      (h : sink'.store.Crashed disk) : Step d₀ (.up sink) (.down disk)
  /-- A crash inside a call of `apply`, after its save's rename. -/
  | crashApply (sink sink' : FrameSink rq b3) (frame : Str) (b : Bool) (disk : Disk rq b3)
      (ho : sink.Offered frame) (hs : sink.apply frame = .ok (b, sink'))
      (h : sink'.store.Crashed disk) : Step d₀ (.up sink) (.down disk)
  | crashAgain (disk disk' : Disk rq b3) (h : disk.Crashed disk') :
      Step d₀ (.down disk) (.down disk')

/-- The runs from a directory without an index. -/
def Reachable (d₀ : PipelineDecoder rq) (sys : System rq b3) : Prop :=
  ∃ journal, Relation.ReflTransGen (Step d₀) (.down ⟨journal, none⟩) sys

/-! ### The invariant -/

/-- The index is the state of the decoder that accepted the log. -/
structure Index.Of (d₀ : PipelineDecoder rq) (log : List Str) (index : Index rq b3) : Prop where
  isLog : IsLog b3 d₀ log
  decoder_eq : index.decoder = d₀.run b3 log
  covered_eq : index.covered.toNat = (journalOf log).length

def Disk.Sound (d₀ : PipelineDecoder rq) (disk : Disk rq b3) : Prop :=
  ∀ index, disk.index = some index →
    ∃ log tail, index.Of d₀ log ∧ disk.journal = some (journalOf log ++ tail)

/-- The decoder accepted the log, the journal holds it, and the index describes a prefix. -/
structure FrameSink.Sound (d₀ : PipelineDecoder rq) (sink : FrameSink rq b3) (log : List Str) :
    Prop where
  isLog : IsLog b3 d₀ log
  dec_eq : sink.dec = d₀.run b3 log
  journalOpen : sink.store.journalOpen = true
  journal_eq : sink.store.journal = some (journalOf log)
  written_eq : sink.store.written.toNat = (journalOf log).length
  index_of : ∀ index, sink.store.index = some index →
    ∃ saved more, log = saved ++ more ∧ index.Of d₀ saved

def System.Sound (d₀ : PipelineDecoder rq) : System rq b3 → Prop
  | .down disk => disk.Sound d₀
  | .up sink => ∃ log, sink.Sound d₀ log
  | .failed _ => False

variable {d₀ : PipelineDecoder rq}

lemma Disk.Sound.crashed {disk disk' : Disk rq b3} (h : disk.Sound d₀)
    (hc : disk.Crashed disk') : disk'.Sound d₀ := by
  intro index hi
  rw [hc.index_eq] at hi
  obtain ⟨log, tail, hof, hj⟩ := h index hi
  obtain ⟨tail', hj'⟩ := hc.journal_eq index hi
  refine ⟨log, tail', hof, ?_⟩
  rw [hj', hj, Option.getD_some, hof.covered_eq, List.take_left]

/-- The files of a running receiver are sound. -/
lemma FrameSink.Sound.disk {sink : FrameSink rq b3} {log : List Str} (h : sink.Sound d₀ log) :
    sink.store.toDisk.Sound d₀ := by
  intro index hi
  obtain ⟨saved, more, rfl, hof⟩ := h.index_of index hi
  exact ⟨saved, journalOf more, hof, by rw [h.journal_eq, journalOf_append]⟩

lemma Store.append_of_fits {store : Store rq b3} {frame : Str} (hopen : store.journalOpen = true)
    (hne : frame ≠ []) (hlen : frame.length ≤ maxRecord) :
    ∃ store', store.append frame = .ok store' ∧ store'.journalOpen = true ∧
      store'.index = store.index ∧
      store'.journal = store.journal.map (· ++ journalRecord frame) ∧
      store'.written = store.written + UInt64.ofNat (journalRecord frame).length := by
  have hfits : ¬(frame = [] ∨ maxRecord < frame.length) := by
    rw [not_or, Nat.not_lt]
    exact ⟨hne, hlen⟩
  rw [Store.append, hopen, if_neg hfits]
  exact ⟨_, rfl, rfl, rfl, rfl, rfl⟩

/-- Accepting appends a frame to the log; refusing leaves it. -/
lemma FrameSink.Sound.take {sink : FrameSink rq b3} {log : List Str} {frame : Str}
    (h : sink.Sound d₀ log) (ho : sink.Offered frame) :
    ∃ accepted sink' log', sink.take frame = .ok (accepted, sink') ∧ sink'.Sound d₀ log' := by
  by_cases hne : frame = []
  · refine ⟨false, { sink with rejected := sink.rejected + 1 }, log, ?_, ?_⟩
    · simp only [FrameSink.take, decoderAccept, if_pos hne]
    · exact ⟨h.isLog, h.dec_eq, h.journalOpen, h.journal_eq, h.written_eq, h.index_of⟩
  · cases hr : (sink.dec.accept b3 frame).1 with
    | panic => exact absurd hr ho.no_panic
    | err e =>
      have hd := sink.dec.eq_of_accept_eq_err hr
      have hacc : decoderAccept b3 sink.dec frame = (.frameRejected, sink.dec) := by
        rw [decoderAccept, if_neg hne]
        apply Prod.ext
        · rw [sink.dec.dhowDecoderAccept_fst, hr]
        · rw [sink.dec.dhowDecoderAccept_snd, hd]
      refine ⟨false, { sink with rejected := sink.rejected + 1 }, log, ?_, ?_⟩
      · simp only [FrameSink.take, hacc]
      · exact ⟨h.isLog, h.dec_eq, h.journalOpen, h.journal_eq, h.written_eq, h.index_of⟩
    | ok outcome =>
      have hacc := decoderAccept_of_ok hne hr
      have hroom := ho.file_lt
      rw [h.journal_eq, Option.getD_some] at hroom
      obtain ⟨store, happ, hopen, hindex, hjournal, hwritten⟩ :=
        Store.append_of_fits h.journalOpen hne ho.length_le
      refine ⟨true, { sink with
        dec := (sink.dec.accept b3 frame).2, store := store, accepted := sink.accepted + 1 },
        log ++ [frame], by simp only [FrameSink.take, hacc, happ], ?_⟩
      refine ⟨isLog_append_iff.mpr ⟨h.isLog, ⟨?_, ?_⟩⟩, ?_, hopen, ?_, ?_, ?_⟩
      · rw [← h.dec_eq]
        exact (sink.dec.allOk_cons_iff).mpr
          ⟨⟨outcome, hr⟩, fun r hm => absurd hm (by simp [PipelineDecoder.results])⟩
      · simpa using ⟨hne, ho.length_le⟩
      · rw [PipelineDecoder.run_append, ← h.dec_eq]
        rfl
      · rw [hjournal, h.journal_eq, journalOf_append, journalOf_singleton, Option.map_some]
      · have hnat : (UInt64.ofNat (journalRecord frame).length).toNat =
            recordPrefix + frame.length := by
          rw [length_journalRecord]
          exact UInt64.toNat_ofNat_of_lt' (by change _ < 2 ^ 64; omega)
        rw [hwritten, UInt64.toNat_add, hnat, h.written_eq, journalOf_append,
          journalOf_singleton, List.length_append, length_journalRecord,
          Nat.mod_eq_of_lt (by omega)]
      · intro index hi
        rw [hindex] at hi
        obtain ⟨saved, more, rfl, hof⟩ := h.index_of index hi
        exact ⟨saved, more ++ [frame], List.append_assoc _ _ _, hof⟩

/-- The index a save writes. -/
def FrameSink.indexNow (sink : FrameSink rq b3) : Index rq b3 :=
  ⟨sink.dec, sink.store.written, (sink.dec.resumeState b3 sink.store.written).toVec, rfl⟩

lemma FrameSink.save_eq (sink : FrameSink rq b3) :
    sink.save = .ok { sink with store := { sink.store with
      index := some sink.indexNow, state := sink.indexNow.bytes } } := by
  simp only [FrameSink.save, saveProgress, Store.save, if_neg (ResumeFile.toVec_ne_nil _)]
  rfl

/-- A save makes the whole log the index's. -/
lemma FrameSink.Sound.save {sink : FrameSink rq b3} {log : List Str} (h : sink.Sound d₀ log) :
    ∃ sink', sink.save = .ok sink' ∧ sink'.Sound d₀ log := by
  refine ⟨_, sink.save_eq, h.isLog, h.dec_eq, h.journalOpen, h.journal_eq, h.written_eq, ?_⟩
  intro index hi
  cases hi
  exact ⟨log, [], (List.append_nil _).symm, h.isLog, h.dec_eq, h.written_eq⟩

lemma FrameSink.Sound.apply {sink : FrameSink rq b3} {log : List Str} {frame : Str}
    (h : sink.Sound d₀ log) (ho : sink.Offered frame) :
    ∃ accepted sink' log', sink.apply frame = .ok (accepted, sink') ∧ sink'.Sound d₀ log' := by
  obtain ⟨accepted, sink', log', htake, hs⟩ := h.take ho
  cases accepted with
  | false => exact ⟨false, sink', log', by simp only [FrameSink.apply, htake], hs⟩
  | true =>
    by_cases hdue : sink'.accepted % sink'.saveEvery = 0
    · obtain ⟨saved, hsave, hsound⟩ := hs.save
      exact ⟨true, saved, log', by simp only [FrameSink.apply, htake, if_pos hdue, hsave], hsound⟩
    · exact ⟨true, sink', log', by simp only [FrameSink.apply, htake, if_neg hdue], hs⟩

/-! ### Restarts -/

/-- Without an index a restart begins an empty journal. -/
lemma restoreProgress_of_none {disk : Disk rq b3} (h : disk.index = none) (sessionId : Arr 16)
    (dec : PipelineDecoder rq) :
    restoreProgress disk sessionId dec = .ok ((Store.openDir disk).begin 0, 0, dec) := by
  have hstate : (Store.openDir disk).state = [] := by simp [Store.openDir, h]
  simp only [restoreProgress, if_pos hstate]

lemma truncate_append (file tail : Str) : truncate (file ++ tail) file.length = file := by
  rw [truncate, List.take_left, List.length_append, Nat.sub_eq_zero_of_le (Nat.le_add_right _ _),
    List.replicate_zero, List.append_nil]

/-- With a sound index a restart rebuilds the decoder of its log and cuts the journal there. -/
lemma restoreProgress_of_index (hrec : d₀.Recorded) {disk : Disk rq b3} {index : Index rq b3}
    (hindex : disk.index = some index) {log : List Str} {tail : Str} (hof : index.Of d₀ log)
    (hjournal : disk.journal = some (journalOf log ++ tail)) :
    restoreProgress disk d₀.sessionId d₀ =
      .ok ((Store.openDir disk).begin index.covered, log.length, d₀.run b3 log) := by
  have hstate : (Store.openDir disk).state =
      ((d₀.run b3 log).resumeState b3 index.covered).toVec := by
    simp [Store.openDir, hindex, index.bytes_eq, hof.decoder_eq]
  have hne : ((d₀.run b3 log).resumeState b3 index.covered).toVec ≠ [] := ResumeFile.toVec_ne_nil _
  have hparse : ResumeFile.fromBytes b3
      ((d₀.run b3 log).resumeState b3 index.covered).toVec =
        .ok ((d₀.run b3 log).resumeState b3 index.covered) :=
    (hrec.run log).fromBytes_resumeState index.covered
  have hsession : ((d₀.run b3 log).resumeState b3 index.covered).header.sessionId =
      d₀.sessionId := by
    change (d₀.run b3 log).sessionId = _
    rw [PipelineDecoder.run_toPipeline]
  have hcovered : ((d₀.run b3 log).resumeState b3 index.covered).header.journalBytes =
      index.covered := rfl
  have hreplay : (Store.openDir disk).replay index.covered (decoderAccept b3) d₀ =
      .ok (log.length, d₀.run b3 log) := by
    have hloop : Store.replayFrom (journalOf log ++ tail) (journalOf log).length
        (decoderAccept b3) 0 0 d₀ = .ok (log.length, d₀.run b3 log) := by
      simpa using replayFrom_log [] tail hof.isLog 0
    have hj : (Store.openDir disk).journal = some (journalOf log ++ tail) := hjournal
    simp only [Store.replay, hj, hof.covered_eq, hloop]
    rw [if_neg (by simp)]
  have hverify : decoderVerifyResume b3 (d₀.run b3 log)
      ((d₀.run b3 log).resumeState b3 index.covered).toVec = .ok () := by
    rw [decoderVerifyResume, hparse]
    exact ((d₀.run b3 log).verifyResume_resumeState_iff rfl _).mpr ⟨rfl, fun _ _ => rfl⟩
  simp only [restoreProgress, hstate, if_neg hne, hparse, hsession, hcovered, ne_eq,
    not_true_eq_false, if_false, hreplay, hverify]

/-- A started receiver is sound. -/
lemma Disk.Sound.start (hrec : d₀.Recorded) {disk : Disk rq b3} (h : disk.Sound d₀)
    {saveEvery : ℕ} (hpos : 0 < saveEvery) :
    (System.start disk d₀ saveEvery hpos).Sound d₀ := by
  cases hindex : disk.index with
  | none =>
    rw [System.start, restoreProgress_of_none hindex]
    refine ⟨[], isLog_nil d₀, rfl, rfl, ?_, rfl, fun index hi => ?_⟩
    · simp [Store.begin, truncate]
    · have hnone : (Store.openDir disk).index = none := hindex
      rw [show ((Store.openDir disk).begin 0).index = none from hnone] at hi
      cases hi
  | some index =>
    obtain ⟨log, tail, hof, hjournal⟩ := h index hindex
    rw [System.start, restoreProgress_of_index hrec hindex hof hjournal]
    refine ⟨log, hof.isLog, rfl, rfl, ?_, hof.covered_eq, fun index' hi => ?_⟩
    · have hj : (Store.openDir disk).journal = some (journalOf log ++ tail) := hjournal
      simp only [Store.begin, hj, Option.getD_some, hof.covered_eq, truncate_append]
    · have hsome : ((Store.openDir disk).begin index.covered).index = some index := hindex
      rw [hsome] at hi
      cases hi
      exact ⟨log, [], (List.append_nil _).symm, hof⟩

/-- A step keeps the system sound. -/
lemma Step.sound (hrec : d₀.Recorded) {sys sys' : System rq b3} (h : Step d₀ sys sys')
    (hs : sys.Sound d₀) : sys'.Sound d₀ := by
  cases h with
  | restart disk saveEvery hpos => exact Disk.Sound.start hrec hs hpos
  | apply sink frame ho =>
    obtain ⟨log, hs⟩ := hs
    obtain ⟨accepted, sink', log', happ, hs'⟩ := hs.apply ho
    rw [happ]
    exact ⟨log', hs'⟩
  | save sink =>
    obtain ⟨log, hs⟩ := hs
    obtain ⟨sink', hsave, hs'⟩ := hs.save
    rw [hsave]
    exact ⟨log, hs'⟩
  | crash sink disk hc =>
    obtain ⟨log, hs⟩ := hs
    exact hs.disk.crashed hc
  | crashSave sink sink' disk hsave hc =>
    obtain ⟨log, hs⟩ := hs
    obtain ⟨saved, hsave', hs'⟩ := hs.save
    rw [hsave, Except.ok.injEq] at hsave'
    subst hsave'
    exact hs'.disk.crashed hc
  | crashApply sink sink' frame b disk ho happ hc =>
    obtain ⟨log, hs⟩ := hs
    obtain ⟨accepted, applied, log', happ', hs'⟩ := hs.apply ho
    rw [happ, Except.ok.injEq, Prod.mk.injEq] at happ'
    obtain ⟨-, rfl⟩ := happ'
    exact hs'.disk.crashed hc
  | crashAgain disk disk' hc => exact Disk.Sound.crashed hs hc

lemma Reachable.sound (hrec : d₀.Recorded) {sys : System rq b3} (h : Reachable d₀ sys) :
    sys.Sound d₀ := by
  obtain ⟨journal, hrun⟩ := h
  induction hrun with
  | refl =>
    intro index hi
    cases hi
  | tail _ hstep ih => exact hstep.sound hrec ih

/-- In every run of a receiver on a state directory, whatever its crashes leave: no start and no
save fails; and wherever the directory has an index, a restart succeeds with the decoder the
index was saved for and a journal cut to the bytes the index covers. -/
theorem crash_consistency {sessionId : Arr 16} {params : SessionParams} {sessionKey : Arr 32}
    (h₀ : PipelineDecoder.new rq sessionId params sessionKey = .ok d₀) {sys : System rq b3}
    (h : Reachable d₀ sys) :
    (∀ e, sys ≠ .failed e) ∧
    ∀ disk, sys = .down disk → ∀ index, disk.index = some index →
      ∃ journal store replayed dec, disk.journal = some journal ∧
        restoreProgress disk sessionId d₀ = .ok (store, replayed, dec) ∧
        dec.blocks = index.decoder.blocks ∧ dec.held = index.decoder.held ∧
        dec.heldCounts = index.decoder.heldCounts ∧
        dec.journalDigest b3 = index.decoder.journalDigest b3 ∧
        index.covered.toNat ≤ journal.length ∧
        store.journal = some (journal.take index.covered.toNat) ∧
        store.written = index.covered := by
  obtain ⟨hstart, hpipe⟩ := PipelineDecoder.new_eq_ok h₀
  have hrec : d₀.Recorded := by
    rw [hstart]
    exact PipelineDecoder.recorded_start _
  have hsession : d₀.sessionId = sessionId := (Pipeline.new_eq_ok hpipe).1
  have hs := h.sound hrec
  constructor
  · rintro e rfl
    exact hs
  · rintro disk rfl index hi
    obtain ⟨log, tail, hof, hj⟩ := hs index hi
    have hrestore := restoreProgress_of_index hrec hi hof hj
    have hjournal : ((Store.openDir disk).begin index.covered).journal =
        some ((journalOf log ++ tail).take index.covered.toNat) := by
      have hj' : (Store.openDir disk).journal = some (journalOf log ++ tail) := hj
      simp only [Store.begin, hj', Option.getD_some, hof.covered_eq, truncate_append,
        List.take_left]
    rw [hsession] at hrestore
    refine ⟨_, _, _, _, hj, hrestore, ?_, ?_, ?_, ?_, ?_, hjournal, rfl⟩
    · rw [hof.decoder_eq]
    · rw [hof.decoder_eq]
    · rw [hof.decoder_eq]
    · rw [hof.decoder_eq]
    · rw [hof.covered_eq, List.length_append]
      exact Nat.le_add_right _ _

end System

namespace Reference

/-- A receiver on an empty directory that saves after every frame. -/
def sink : FrameSink rq b3 :=
  ⟨decoder, (Store.openDir ⟨none, none⟩).begin 0, 1, 0, 0, Nat.one_pos⟩

lemma accept_firstFrame : (decoder.accept b3 firstFrame.toVec).1 = .ok (.blockComplete 0) := by
  decide +kernel

lemma firstFrame_ne_nil : firstFrame.toVec ≠ [] := by
  simp [Frame.toVec, FrameHeader.toVec]

/-- One frame accepted, journaled and saved. -/
lemma apply_firstFrame : ∃ sink' : FrameSink rq b3,
    sink.apply firstFrame.toVec = .ok (true, sink') ∧
    sink'.store.journal = some (journalRecord firstFrame.toVec) ∧
    sink'.store.index = some sink'.indexNow ∧
    sink'.dec = (decoder.accept b3 firstFrame.toVec).2 ∧
    sink'.store.written.toNat = (journalRecord firstFrame.toVec).length := by
  have hlen : firstFrame.toVec.length ≤ maxRecord := by decide
  have hopen : sink.store.journalOpen = true := rfl
  obtain ⟨store, happ, -, -, hjournal, hwritten⟩ :=
    Store.append_of_fits hopen firstFrame_ne_nil hlen
  have hacc := decoderAccept_of_ok firstFrame_ne_nil accept_firstFrame
  generalize (decoder.accept b3 firstFrame.toVec).2 = dec at hacc ⊢
  have htake : sink.take firstFrame.toVec = .ok (true, ⟨dec, store, 1, 1, 0, Nat.one_pos⟩) := by
    have hdec : sink.dec = decoder := rfl
    simp only [FrameSink.take, hdec, hacc, happ]
    rfl
  refine ⟨⟨dec, { store with
    index := some ⟨dec, store.written, (dec.resumeState b3 store.written).toVec, rfl⟩
    state := (dec.resumeState b3 store.written).toVec }, 1, 1, 0, Nat.one_pos⟩, ?_, ?_, rfl, rfl,
    ?_⟩
  · simp only [FrameSink.apply, htake, FrameSink.save_eq]
    rfl
  · have hempty : sink.store.journal = some [] := rfl
    simp only [hjournal, hempty, Option.map_some, List.nil_append]
  · have hzero : sink.store.written = 0 := rfl
    simp only [hwritten, hzero, length_journalRecord]
    decide

end Reference

/-- A crash after the first save left rubbish behind the journal: the restart has the decoder
with the frame, and a journal of that frame. -/
theorem crash_consistency_reference :
    ∃ (disk : Disk Reference.rq Reference.b3) (store : Store Reference.rq Reference.b3)
      (replayed : ℕ) (dec : PipelineDecoder Reference.rq),
      Reachable Reference.decoder (.down disk) ∧
      disk.journal = some (journalRecord Reference.firstFrame.toVec ++ [1, 2, 3]) ∧
      restoreProgress disk Reference.sessionId Reference.decoder = .ok (store, replayed, dec) ∧
      dec.heldCounts = (Reference.decoder.accept Reference.b3
        Reference.firstFrame.toVec).2.heldCounts ∧
      store.journal = some (journalRecord Reference.firstFrame.toVec) := by
  obtain ⟨sink', happ, hjournal, hindex, hdec, hwritten⟩ := Reference.apply_firstFrame
  have hstart : Step Reference.decoder (.down ⟨none, none⟩) (.up Reference.sink) :=
    .restart ⟨none, none⟩ 1 Nat.one_pos
  have hoffered : Reference.sink.Offered Reference.firstFrame.toVec :=
    ⟨by decide, by
      have hdec : Reference.sink.dec = Reference.decoder := rfl
      rw [hdec, Reference.accept_firstFrame]
      simp, by decide⟩
  have hcrash : sink'.store.Crashed
      ⟨some (journalRecord Reference.firstFrame.toVec ++ [1, 2, 3]), sink'.store.index⟩ := by
    refine ⟨rfl, fun index hi => ⟨[1, 2, 3], ?_⟩⟩
    rw [hindex, Option.some.injEq] at hi
    rw [← hi, hjournal, Option.getD_some]
    change _ = some ((journalRecord Reference.firstFrame.toVec).take sink'.store.written.toNat ++ _)
    rw [hwritten, List.take_length]
  have hrun : Reachable Reference.decoder
      (.down ⟨some (journalRecord Reference.firstFrame.toVec ++ [1, 2, 3]), sink'.store.index⟩) :=
    ⟨none, (Relation.ReflTransGen.single hstart).tail
      (.crashApply Reference.sink sink' _ true _ hoffered happ hcrash)⟩
  obtain ⟨journal, store, replayed, dec, hj, hrestore, -, -, hcounts, -, -, hstore, -⟩ :=
    (crash_consistency Reference.new_decoder_eq hrun).2 _ rfl _ hindex
  refine ⟨_, store, replayed, dec, hrun, rfl, hrestore, ?_, ?_⟩
  · rw [hcounts, ← hdec]
    rfl
  · cases hj
    rw [hstore]
    change some ((journalRecord Reference.firstFrame.toVec ++ [1, 2, 3]).take
      sink'.store.written.toNat) = _
    rw [hwritten, List.take_left]

end Dhow
