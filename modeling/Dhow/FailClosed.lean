import Dhow.FailedAppend
import Dhow.ReferenceSession

/-!
# Restoring progress is fail-closed

What becomes of every pair of files a state directory may hold: a receiver starts afresh, resumes
with a pair that agrees, or refuses and leaves the files alone. An index file without a byte is
the one that is taken for none.
-/

namespace Dhow.StateDirectory
open Bytes

variable {rq : RaptorQ} {b3 : Blake3}

/-- A receiver that starts with an empty journal. -/
structure Fresh (files : Files) (dec : PipelineDecoder rq) (n : ℕ) (dec' : PipelineDecoder rq)
    (m : Machine) : Prop where
  count_eq : n = 0
  dec_eq : dec' = dec
  store_eq : m.store = ⟨[], some 0, 0⟩
  journal_eq : m.files.journal.map DataFile.content = some []
  index_eq : m.files.index = files.index

/-- A receiver that goes on from a pair of files that agrees: the covered bytes of the journal are
the records of frames that the decoder accepts one after the other, the index describes the
decoder they make, and the journal is cut to them. -/
structure Resumed (b3 : Blake3) (sessionId : Arr 16) (files : Files) (dec : PipelineDecoder rq)
    (n : ℕ) (dec' : PipelineDecoder rq) (m : Machine) (journal index : DataFile)
    (info : ResumeFile b3) (log : List Str) : Prop where
  journal_eq : files.journal = some journal
  index_eq : files.index = some index
  parsed : ResumeFile.fromBytes b3 index.content = .ok info
  session : info.header.sessionId = sessionId
  covered_le : info.header.journalBytes.toNat ≤ journal.content.length
  covered : journal.content.take info.header.journalBytes.toNat = journalOf log
  count_eq : n = log.length
  accepted : Dhow.Store.handOver (decoderAccept b3) dec log = some dec'
  verified : decoderVerifyResume b3 dec' index.content = .ok ()
  store_eq : m.store = ⟨index.content, some info.header.journalBytes.toNat, info.header.journalBytes⟩
  cut : m.files.journal.map DataFile.content = some (journalOf log)
  kept : m.files.index = files.index

/-- The outcome of restoring is fail-closed. -/
def FailClosed (b3 : Blake3) (sessionId : Arr 16) (files : Files) (dec : PipelineDecoder rq)
    (outcome : Outcome ProgressError (ℕ × PipelineDecoder rq)) (m : Machine) : Prop :=
  match outcome with
  | .ok (n, dec') => (files.index = none ∧ Fresh files dec n dec' m) ∨
      ∃ journal index info log, Resumed b3 sessionId files dec n dec' m journal index info log
  | .error _ => m.files = files
  | .crashed => False

/-! ### The calls where nothing fails -/

lemma openDir_nil (m : Machine) : openDir [] m =
    (.ok (), [], { m with store := ⟨(m.files.index.map DataFile.content).getD [], none, 0⟩ }) := rfl

lemma begin_nil {covered : UInt64} (h : covered.toNat ≤ maxOffset) (m : Machine) :
    begin covered [] m = (.ok (), [],
      ⟨{ m.files with journal := some ((m.files.journal.getD .empty).truncate covered.toNat h) },
        { m.store with journal := some covered.toNat, written := covered }⟩) := by
  rw [begin, changeFiles, Steps.bind_of_ok (Steps.change_nil _ _ _), Steps.bind_apply,
    Steps.step_nil]
  simp only [dif_pos h]
  rfl

lemma replay_of_none {m : Machine} (h : m.files.journal = none) (limit : UInt64) {τ : Type}
    (fn : τ → Str → DhowStatus × τ) (x : τ) :
    replay limit fn x [] m = (.error (.store .noJournal), [], m) := by
  rw [replay, Steps.bind_of_ok (Steps.settle_nil _ _), Steps.bind_apply, Steps.get]
  simp only [h]
  rfl

lemma replay_of_short {m : Machine} {f : DataFile} (hf : m.files.journal = some f) {limit : UInt64}
    (h : f.content.length < limit.toNat) {τ : Type} (fn : τ → Str → DhowStatus × τ) (x : τ) :
    replay limit fn x [] m =
      (.error (.store (.journalShorter f.content.length limit.toNat)), [], m) := by
  rw [replay, Steps.bind_of_ok (Steps.settle_nil _ _), Steps.bind_apply, Steps.get]
  simp only [hf, if_pos h]
  rfl

/-- A replay changes nothing, and where it succeeds it has handed over the log of the covered
bytes. -/
lemma replay_cases (m : Machine) (limit : UInt64) {τ : Type} (fn : τ → Str → DhowStatus × τ)
    (x : τ) : (∃ e, replay limit fn x [] m = (.error e, [], m)) ∨
      ∃ f log x', replay limit fn x [] m = (.ok (log.length, x'), [], m) ∧
        m.files.journal = some f ∧ limit.toNat ≤ f.content.length ∧
        f.content.take limit.toNat = journalOf log ∧ Dhow.Store.handOver fn x log = some x' := by
  cases hf : m.files.journal with
  | none => exact .inl ⟨_, replay_of_none hf limit fn x⟩
  | some f =>
    by_cases hlimit : limit.toNat ≤ f.content.length
    · have hreplay := replay_nil hf hlimit fn x
      cases hfrom : Dhow.Store.replayFrom f.content limit.toNat fn 0 0 x with
      | error e =>
        rw [hfrom] at hreplay
        exact .inl ⟨_, hreplay⟩
      | ok r =>
        obtain ⟨n, x'⟩ := r
        obtain ⟨log, -, htake, rfl, hover⟩ := (Dhow.Store.replayFrom_eq_ok_iff hlimit).mp hfrom
        rw [hfrom] at hreplay
        exact .inr ⟨f, log, x', hreplay, rfl, hlimit, htake, hover⟩
    · exact .inl ⟨_, replay_of_short hf (not_le.mp hlimit) fn x⟩

section Restore
variable {sessionId : Arr 16} {dec : PipelineDecoder rq} {files : Files} {store : Store}

/-- A directory whose index has no byte is begun afresh. -/
lemma restoreProgress_of_empty (h : (files.index.map DataFile.content).getD [] = []) :
    ∃ m, restoreProgress b3 sessionId dec [] ⟨files, store⟩ = (.ok (0, dec), [], m) ∧
      Fresh files dec 0 dec m := by
  let m : Machine :=
    ⟨{ files with journal := some ((files.journal.getD .empty).truncate 0 (Nat.zero_le _)) },
      ⟨[], some 0, 0⟩⟩
  have hbegin : begin 0 [] ⟨files, ⟨[], none, 0⟩⟩ = (.ok (), [], m) := begin_nil (Nat.zero_le _) _
  have hrestore : restoreProgress b3 sessionId dec [] ⟨files, store⟩ = (.ok (0, dec), [], m) := by
    rw [restoreProgress, Steps.bind_of_ok (Steps.mapError_of_ok (openDir_nil _)), Steps.bind_apply,
      Steps.get]
    simp only [h, if_true]
    rw [Steps.bind_of_ok (Steps.mapError_of_ok hbegin)]
    rfl
  refine ⟨m, hrestore, rfl, rfl, rfl, ?_, rfl⟩
  simp [m]

/-- An empty index file is taken for none: the receiver starts afresh although there is one. -/
lemma not_failClosed_of_empty {index : DataFile} (hindex : files.index = some index)
    (hnil : index.content = []) :
    ¬FailClosed b3 sessionId files dec (restoreProgress b3 sessionId dec [] ⟨files, store⟩).1
      (restoreProgress b3 sessionId dec [] ⟨files, store⟩).2.2 := by
  have hempty : (files.index.map DataFile.content).getD [] = [] := by
    rw [hindex, Option.map_some, Option.getD_some, hnil]
  obtain ⟨m, hrestore, -⟩ : ∃ m, restoreProgress b3 sessionId dec [] ⟨files, store⟩ =
    (.ok (0, dec), [], m) ∧ Fresh files dec 0 dec m := restoreProgress_of_empty hempty
  rw [hrestore]
  rintro (⟨hnone, -⟩ | ⟨journal, index', info, log, hresumed⟩)
  · cases hindex.symm.trans hnone
  · have hparsed := hresumed.parsed
    cases hindex.symm.trans hresumed.index_eq
    rw [hnil] at hparsed
    cases hparsed

lemma failClosed_of_ne {index : DataFile} (hindex : files.index = some index)
    (hne : index.content ≠ []) :
    FailClosed b3 sessionId files dec (restoreProgress b3 sessionId dec [] ⟨files, store⟩).1
      (restoreProgress b3 sessionId dec [] ⟨files, store⟩).2.2 := by
  have hstate : (files.index.map DataFile.content).getD [] = index.content := by rw [hindex]; rfl
  rw [restoreProgress, Steps.bind_of_ok (Steps.mapError_of_ok (openDir_nil _)), Steps.bind_apply,
    Steps.get]
  simp only [hstate, if_neg hne]
  cases hparse : ResumeFile.fromBytes b3 index.content with
  | error e => rfl
  | ok info =>
    dsimp only
    split_ifs with hsession
    · rfl
    · rcases replay_cases ⟨files, ⟨index.content, none, 0⟩⟩ info.header.journalBytes
        (decoderAccept b3) dec with ⟨e, he⟩ | ⟨journal, log, dec', hr, hjournal, hle, htake, hover⟩
      · rw [Steps.bind_of_error (Steps.mapError_of_error he)]
        rfl
      · rw [Steps.bind_of_ok (Steps.mapError_of_ok hr)]
        dsimp only
        cases hverify : decoderVerifyResume b3 dec' index.content with
        | error e => rfl
        | ok u =>
          have hmax := hle.trans journal.length_le
          dsimp only
          rw [Steps.bind_of_ok (Steps.mapError_of_ok (begin_nil hmax _))]
          refine .inr ⟨journal, index, info, log, hjournal, hindex, hparse,
            not_not.mp hsession, hle, htake, rfl, hover, hverify, rfl, ?_, rfl⟩
          change some (DataFile.content ((files.journal.getD .empty).truncate _ hmax)) = _
          rw [show files.journal = some journal from hjournal, Option.getD_some,
            DataFile.content_truncate, Nat.sub_eq_zero_of_le hle, List.replicate_zero,
            List.append_nil, htake]

/-- Restoring progress is fail-closed if and only if there is no index file without a byte. -/
theorem restore_failClosed_iff (b3 : Blake3) (sessionId : Arr 16) (dec : PipelineDecoder rq)
    (files : Files) (store : Store) :
    FailClosed b3 sessionId files dec (restoreProgress b3 sessionId dec [] ⟨files, store⟩).1
        (restoreProgress b3 sessionId dec [] ⟨files, store⟩).2.2 ↔
      files.index.map DataFile.content ≠ some [] := by
  cases hindex : files.index with
  | none =>
    obtain ⟨m, hrestore, hfresh⟩ : ∃ m, restoreProgress b3 sessionId dec [] ⟨files, store⟩ =
        (.ok (0, dec), [], m) ∧ Fresh files dec 0 dec m :=
      restoreProgress_of_empty (by rw [hindex]; rfl)
    rw [hrestore]
    exact iff_of_true (.inl ⟨hindex, hfresh⟩) (by simp)
  | some index =>
    by_cases hne : index.content = []
    · refine iff_of_false ?_ (by simp [hne])
      exact not_failClosed_of_empty hindex hne
    · exact iff_of_true (failClosed_of_ne hindex hne) (by simpa using hne)

end Restore

/-- A journal with a record in it, and an index file without a byte. -/
def emptiedIndex : Files where
  journal := some ⟨[1, 0, 0, 0, 7], 5, false, le_rfl, fun _ => rfl, by decide⟩
  index := some .empty
  tmp := none

/-- The record is lost, though there is an index file. -/
theorem emptied_index_restarts :
    ¬FailClosed Reference.b3 (zeros 16) emptiedIndex Reference.decoder
      (restoreProgress Reference.b3 (zeros 16) Reference.decoder [] ⟨emptiedIndex, ⟨[], none, 0⟩⟩).1
      (restoreProgress Reference.b3 (zeros 16) Reference.decoder []
        ⟨emptiedIndex, ⟨[], none, 0⟩⟩).2.2 ∧
    (restoreProgress Reference.b3 (zeros 16) Reference.decoder []
      ⟨emptiedIndex, ⟨[], none, 0⟩⟩).2.2.files.journal.map DataFile.content = some [] := by
  refine ⟨not_failClosed_of_empty rfl rfl, ?_⟩
  obtain ⟨m, hrestore, hfresh⟩ : ∃ m, restoreProgress Reference.b3 (zeros 16) Reference.decoder []
      ⟨emptiedIndex, ⟨[], none, 0⟩⟩ = (.ok (0, Reference.decoder), [], m) ∧
      Fresh emptiedIndex Reference.decoder 0 Reference.decoder m := restoreProgress_of_empty rfl
  rw [hrestore]
  exact hfresh.journal_eq

end Dhow.StateDirectory
