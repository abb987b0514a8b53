import Dhow.Store

/-!
# Replaying a journal

What a replay hands over: it succeeds exactly where the covered bytes are the records of a log
whose frames are all taken, and then the frames handed over are that log.
-/

namespace Dhow
open Bytes

/-- The journal of a sequence of frames. -/
def journalOf (log : List Str) : Str := log.flatMap journalRecord

@[simp] lemma journalOf_nil : journalOf [] = [] := rfl

@[simp] lemma length_journalRecord (frame : Str) :
    (journalRecord frame).length = recordPrefix + frame.length := by
  simp [journalRecord, recordPrefix]

lemma journalOf_append (log more : List Str) :
    journalOf (log ++ more) = journalOf log ++ journalOf more := by
  simp [journalOf]

lemma journalOf_singleton (frame : Str) : journalOf [frame] = journalRecord frame := by
  simp [journalOf]

/-- What the journal takes for a frame. -/
def FitsJournal (frame : Str) : Prop := frame ≠ [] ∧ frame.length ≤ maxRecord

instance (frame : Str) : Decidable (FitsJournal frame) := inferInstanceAs (Decidable (_ ∧ _))

/-- Every emitted frame can be recorded. -/
lemma fitsJournal_of_encode {b3 : Blake3} {rq : RaptorQ} {p : Pipeline} {payload : Str}
    {frames : List Str} (hf : p.encodeToBytes b3 rq payload = .ok frames) {frame : Str}
    (h : frame ∈ frames) : FitsJournal frame := by
  obtain ⟨i, j, block, packet, hsymbol⟩ := (Pipeline.mem_encodeToBytes hf).mp h
  obtain ⟨hle, rfl⟩ := hsymbol.frame_eq
  have hlen : (rq.serialize packet).length ≤ 65535 := hle
  refine ⟨?_, ?_⟩
  all_goals rw [Frame.toVec]
  · intro h
    have hheader := congrArg List.length (List.append_eq_nil_iff.mp h).1
    rw [FrameHeader.length_toVec] at hheader
    cases hheader
  · rw [List.length_append, FrameHeader.length_toVec]
    unfold frameHeaderSize maxRecord
    change 46 + (rq.serialize packet).length ≤ _
    omega

namespace Store
variable {σ : Type} {journal : Str} {limit offset count n : ℕ} {fn : σ → Str → DhowStatus × σ}
  {s s' : σ}

/-- The frames of a log handed over one after the other, all of which must be taken. -/
def handOver (fn : σ → Str → DhowStatus × σ) : σ → List Str → Option σ
  | s, [] => some s
  | s, frame :: log =>
    match fn s frame with
    | (.ok, s) => handOver fn s log
    | _ => none

/-- The length and the frame that are read where a record is. -/
lemma reads_journalRecord {frame : Str} (hfits : FitsJournal frame)
    (hend : offset + recordPrefix + frame.length ≤ journal.length)
    (hrecord : slice journal offset (recordPrefix + frame.length) = journalRecord frame) :
    (u32At journal offset).toNat = frame.length ∧
      slice journal (offset + recordPrefix) frame.length = frame := by
  have hmax : frame.length ≤ 2 ^ 20 := hfits.2
  rw [← slice_append_slice, journalRecord] at hrecord
  obtain ⟨hhead, hframe⟩ := List.append_inj hrecord (by
    rw [length_slice_of_le (by omega), length_u32le, recordPrefix])
  have hat : u32At journal offset = UInt32.ofNat frame.length := by
    have hbytes := (u32le_u32At (by unfold recordPrefix at hend; omega)).trans hhead
    simpa using congrArg (u32At · 0) hbytes
  rw [hat]
  exact ⟨UInt32.toNat_ofNat_of_lt' (lt_of_le_of_lt hmax (by decide)), hframe⟩

lemma not_declares_of_fits {frame : Str} (hfits : FitsJournal frame) :
    ¬(frame.length = 0 ∨ maxRecord < frame.length) :=
  not_or.mpr ⟨(List.length_pos_iff.mpr hfits.1).ne', Nat.not_lt.mpr hfits.2⟩

/-- A replay at a record of the journal hands over its frame. -/
lemma replayFrom_record {frame : Str} (hfits : FitsJournal frame)
    (hlimit : offset + recordPrefix + frame.length ≤ limit) (hjournal : limit ≤ journal.length)
    (hrecord : slice journal offset (recordPrefix + frame.length) = journalRecord frame) :
    replayFrom journal limit fn offset count s =
      match fn s frame with
      | (.ok, s) => replayFrom journal limit fn (offset + recordPrefix + frame.length) (count + 1) s
      | (status, _) => .error (.replaying offset status) := by
  obtain ⟨hlength, hframe⟩ := reads_journalRecord hfits (hlimit.trans hjournal) hrecord
  rw [replayFrom, dif_pos (by unfold recordPrefix at hlimit; omega), if_neg (by omega),
    if_neg (by omega)]
  have hdeclared := not_declares_of_fits hfits
  have hinside : ¬limit - offset - recordPrefix < frame.length := by omega
  have hthere : ¬journal.length < offset + recordPrefix + frame.length := by omega
  rcases hfn : fn s frame with ⟨status, t⟩
  cases status with
  | ok => simp only [hlength, hframe, hfn, hdeclared, hinside, hthere, if_false]
  | frameRejected => simp only [hlength, hframe, hfn, hdeclared, hinside, hthere, if_false]
  | panic => simp only [hlength, hframe, hfn, hdeclared, hinside, hthere, if_false]

lemma replayFrom_log_of_handOver {log : List Str} (hfits : ∀ frame ∈ log, FitsJournal frame)
    (hjournal : limit ≤ journal.length) (hoffset : offset ≤ limit)
    (hlog : slice journal offset (limit - offset) = journalOf log)
    (hover : handOver fn s log = some s') :
    replayFrom journal limit fn offset count s = .ok (count + log.length, s') := by
  have hlen := congrArg List.length hlog
  rw [length_slice_of_le (by omega)] at hlen
  induction log generalizing offset count s with
  | nil =>
    cases hover
    rw [journalOf_nil, List.length_nil] at hlen
    rw [replayFrom, dif_neg (by omega), List.length_nil, Nat.add_zero]
  | cons frame log ih =>
    obtain ⟨hframe, hrest⟩ := List.forall_mem_cons.mp hfits
    have hjournalOf : journalOf (frame :: log) = journalRecord frame ++ journalOf log := rfl
    rw [hjournalOf, List.length_append, length_journalRecord] at hlen
    have hsplit : limit - offset = recordPrefix + frame.length +
        (limit - (offset + recordPrefix + frame.length)) := by omega
    rw [hsplit, ← slice_append_slice, hjournalOf] at hlog
    obtain ⟨hrecord, htail⟩ := List.append_inj hlog (by
      rw [length_slice_of_le (by omega), length_journalRecord])
    rw [replayFrom_record hframe (by omega) hjournal hrecord]
    rw [handOver] at hover
    split at hover
    next t hfn =>
      rw [hfn]
      rw [← Nat.add_assoc] at htail
      dsimp only
      rw [ih hrest (by omega) htail hover (by omega), List.length_cons]
      congr 2
      omega
    next => cases hover

lemma log_of_replayFrom (hoffset : offset ≤ limit)
    (h : replayFrom journal limit fn offset count s = .ok (n, s')) :
    ∃ log, (∀ frame ∈ log, FitsJournal frame) ∧
      slice journal offset (limit - offset) = journalOf log ∧ n = count + log.length ∧
      handOver fn s log = some s' := by
  fun_induction replayFrom journal limit fn offset count s with
  | case6 offset count s hlt h1 h2 length h3 h4 h5 t hfn ih =>
    obtain ⟨log, hfits, hlog, hn, hover⟩ := ih (by omega) h
    have hframe : (slice journal (offset + recordPrefix) length).length = length :=
      length_slice_of_le (by omega)
    refine ⟨slice journal (offset + recordPrefix) length :: log, ?_, ?_, ?_, ?_⟩
    · refine List.forall_mem_cons.mpr ⟨⟨?_, by omega⟩, hfits⟩
      intro hnil
      rw [hnil, List.length_nil] at hframe
      omega
    · have hsplit : limit - offset = recordPrefix + (length +
          (limit - (offset + recordPrefix + length))) := by omega
      have hhead : slice journal offset recordPrefix = u32le (UInt32.ofNat length) := by
        rw [UInt32.ofNat_toNat]
        exact (u32le_u32At (by unfold recordPrefix at h2; omega)).symm
      have hjournalOf (frame : Str) : journalOf (frame :: log) =
          journalRecord frame ++ journalOf log := rfl
      rw [hsplit, ← slice_append_slice, ← slice_append_slice, hlog, hhead, hjournalOf,
        journalRecord, hframe, List.append_assoc]
    · rw [hn, List.length_cons]
      omega
    · rw [handOver, hfn]
      exact hover
  | case8 offset count s hlt =>
    cases h
    refine ⟨[], by simp, ?_, rfl, rfl⟩
    rw [Nat.sub_eq_zero_of_le (by omega)]
    rfl
  | _ => cases h

/-- A replay succeeds exactly where the covered bytes are the records of a log whose frames are
all taken. -/
theorem replayFrom_eq_ok_iff (hjournal : limit ≤ journal.length) :
    replayFrom journal limit fn 0 0 s = .ok (n, s') ↔
      ∃ log, (∀ frame ∈ log, FitsJournal frame) ∧ journal.take limit = journalOf log ∧
        n = log.length ∧ handOver fn s log = some s' := by
  constructor
  · intro h
    obtain ⟨log, hfits, hlog, hn, hover⟩ := log_of_replayFrom (Nat.zero_le _) h
    exact ⟨log, hfits, hlog, by rw [hn, Nat.zero_add], hover⟩
  · rintro ⟨log, hfits, hlog, rfl, hover⟩
    rw [replayFrom_log_of_handOver hfits hjournal (Nat.zero_le _) hlog hover, Nat.zero_add]

end Store
end Dhow
