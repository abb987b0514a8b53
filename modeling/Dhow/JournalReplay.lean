import Dhow.FailedAppend

/-!
# The calls of a replay

A replay with every call it makes of its callback, every buffer it allocates and what it returns
where it fails. It walks the longest log whose records begin the covered bytes, whatever bytes
those are.
-/

namespace Dhow
open Bytes

/-- The error of a replay: the store's own, or the callback's at an offset. -/
inductive ReplayFailure (ε : Type)
  | store (e : StoreError)
  | callback (offset : ℕ) (err : ε)

/-- What a replay returned, the frames it handed over, the sizes of its buffers, and what the
callback keeps. -/
structure ReplayRun (σ ε : Type) where
  count : ℕ
  err : Option (ReplayFailure ε)
  calls : List Str
  buffers : List ℕ
  state : σ

/-- A callback with a state of its own: nil, or its error. -/
abbrev Callback (σ ε : Type) := σ → Str → Option ε × σ

namespace ReplayRun
variable {σ ε : Type}

/-- A replay that ends before another call. -/
def stop (count : ℕ) (err : Option (ReplayFailure ε)) (state : σ) : ReplayRun σ ε :=
  ⟨count, err, [], [], state⟩

/-- A buffer for a record before the rest of a replay. -/
def buffered (size : ℕ) (run : ReplayRun σ ε) : ReplayRun σ ε :=
  { run with buffers := size :: run.buffers }

/-- A call of the callback before the rest of a replay. -/
def called (frame : Str) (run : ReplayRun σ ε) : ReplayRun σ ε :=
  { run with calls := frame :: run.calls }

end ReplayRun

namespace Store
variable {σ ε : Type}

/-- The loop of `Replay` at `offset`, with `count` frames taken. -/
def replayLoop (journal : Str) (limit : ℕ) (fn : Callback σ ε) (offset count : ℕ) (s : σ) :
    ReplayRun σ ε :=
  if _hlt : offset < limit then
    if limit - offset < recordPrefix then .stop count (some (.store (.recordCutShort offset))) s
    else if journal.length < offset + recordPrefix then
      .stop count (some (.store (.headerUnreadable offset))) s
    else
      let length := (u32At journal offset).toNat
      if length = 0 ∨ maxRecord < length then
        .stop count (some (.store (.recordDeclares offset length))) s
      else if limit - offset - recordPrefix < length then
        .stop count (some (.store (.recordRunsPast offset))) s
      else
        .buffered length <|
          if journal.length < offset + recordPrefix + length then
            .stop count (some (.store (.recordUnreadable offset))) s
          else
            let frame := slice journal (offset + recordPrefix) length
            .called frame <|
              match fn s frame with
              | (some e, s) => .stop count (some (.callback offset e)) s
              | (none, s) =>
                replayLoop journal limit fn (offset + recordPrefix + length) (count + 1) s
  else .stop count none s
  termination_by limit - offset
  decreasing_by
    unfold recordPrefix
    omega

/-- `Replay` of a journal file, if there is one. -/
def replayRun (journal : Option Str) (limit : UInt64) (fn : Callback σ ε) (s : σ) :
    ReplayRun σ ε :=
  match journal with
  | none => .stop 0 (some (.store .noJournal)) s
  | some journal =>
    if journal.length < limit.toNat then
      .stop 0 (some (.store (.journalShorter journal.length limit.toNat))) s
    else .buffered recordPrefix (replayLoop journal limit.toNat fn 0 0 s)

/-- The loop without its record of calls. -/
lemma replayFrom_eq {journal : Str} {limit offset count : ℕ} {fn : σ → Str → DhowStatus × σ}
    {s : σ} :
    replayFrom journal limit fn offset count s =
      let run := replayLoop journal limit
        (fun s frame => match fn s frame with
          | (.ok, s) => (none, s)
          | (status, s) => (some status, s)) offset count s
      match run.err with
      | none => .ok (run.count, run.state)
      | some (.store e) => .error e
      | some (.callback offset status) => .error (.replaying offset status) := by
  fun_induction replayFrom journal limit fn offset count s with
  | case1 offset count s hlt hcut =>
    rw [replayLoop, dif_pos hlt, if_pos hcut]
    rfl
  | case2 offset count s hlt hcut hheader =>
    rw [replayLoop, dif_pos hlt, if_neg hcut, if_pos hheader]
    rfl
  | case3 offset count s hlt hcut hheader length hdeclares =>
    rw [replayLoop, dif_pos hlt, if_neg hcut, if_neg hheader]
    dsimp only
    rw [if_pos hdeclares]
    rfl
  | case4 offset count s hlt hcut hheader length hdeclares hpast =>
    rw [replayLoop, dif_pos hlt, if_neg hcut, if_neg hheader]
    dsimp only
    rw [if_neg hdeclares, if_pos hpast]
    rfl
  | case5 offset count s hlt hcut hheader length hdeclares hpast hthere =>
    rw [replayLoop, dif_pos hlt, if_neg hcut, if_neg hheader]
    dsimp only
    rw [if_neg hdeclares, if_neg hpast, if_pos hthere]
    rfl
  | case6 offset count s hlt hcut hheader length hdeclares hpast hthere t hfn ih =>
    rw [replayLoop, dif_pos hlt, if_neg hcut, if_neg hheader]
    dsimp only
    rw [if_neg hdeclares, if_neg hpast, if_neg hthere, hfn, ih]
    rfl
  | case7 offset count s hlt hcut hheader length hdeclares hpast hthere status t hne hfn =>
    rw [replayLoop, dif_pos hlt, if_neg hcut, if_neg hheader]
    dsimp only
    rw [if_neg hdeclares, if_neg hpast, if_neg hthere, hfn]
    cases status with
    | ok => exact (hne rfl).elim
    | frameRejected => rfl
    | panic => rfl
  | case8 offset count s hlt =>
    rw [replayLoop, dif_neg hlt]
    rfl

end Store

/-! ### The log of the covered bytes -/

/-- The longest log whose records begin the bytes: every other one is a prefix of it. -/
structure LongestLog (bytes : Str) (log : List Str) : Prop where
  fits : ∀ frame ∈ log, FitsJournal frame
  isPrefix : journalOf log <+: bytes
  longest : ∀ log', (∀ frame ∈ log', FitsJournal frame) → journalOf log' <+: bytes → log' <+: log

lemma journalOf_cons (frame : Str) (log : List Str) :
    journalOf (frame :: log) = journalRecord frame ++ journalOf log := rfl

/-- A record is told from what follows it. -/
lemma journalRecord_append_inj {f g a b : Str} (hf : FitsJournal f) (hg : FitsJournal g)
    (h : journalRecord f ++ a = journalRecord g ++ b) : f = g ∧ a = b := by
  rw [journalRecord, journalRecord, List.append_assoc, List.append_assoc] at h
  obtain ⟨hlength, hrest⟩ := List.append_inj h (by simp)
  have hword : UInt32.ofNat f.length = UInt32.ofNat g.length := by
    rw [← u32At_u32le (UInt32.ofNat f.length), hlength, u32At_u32le]
  have hfmax : f.length ≤ 2 ^ 20 := hf.2
  have hgmax : g.length ≤ 2 ^ 20 := hg.2
  have heq := congrArg UInt32.toNat hword
  rw [UInt32.toNat_ofNat_of_lt' (lt_of_le_of_lt hfmax (by decide)),
    UInt32.toNat_ofNat_of_lt' (lt_of_le_of_lt hgmax (by decide))] at heq
  exact List.append_inj hrest heq

namespace LongestLog
variable {bytes : Str} {frame : Str} {log log' : List Str}

lemma unique (h : LongestLog bytes log) (h' : LongestLog bytes log') : log = log' :=
  (h'.longest log h.fits h.isPrefix).eq_of_length_le
    (h.longest log' h'.fits h'.isPrefix).length_le

/-- No record begins bytes without a log. -/
lemma not_record (h : LongestLog bytes []) (hfits : FitsJournal frame) :
    ¬journalRecord frame <+: bytes := by
  intro hprefix
  have hnil := h.longest [frame] (by simpa using hfits) (by rwa [journalOf_singleton])
  simp at hnil

lemma tail (h : LongestLog (journalRecord frame ++ bytes) (frame :: log)) :
    LongestLog bytes log := by
  obtain ⟨hframe, hrest⟩ := List.forall_mem_cons.mp h.fits
  refine ⟨hrest, ?_, fun log' hfits hprefix => ?_⟩
  · have hprefix := h.isPrefix
    rwa [journalOf_cons, List.prefix_append_right_inj] at hprefix
  · have hcons := h.longest (frame :: log') (List.forall_mem_cons.mpr ⟨hframe, hfits⟩)
      (by rwa [journalOf_cons, List.prefix_append_right_inj])
    rwa [List.cons_prefix_cons, and_iff_right rfl] at hcons

lemma cons (h : LongestLog bytes log) (hframe : FitsJournal frame) :
    LongestLog (journalRecord frame ++ bytes) (frame :: log) := by
  refine ⟨List.forall_mem_cons.mpr ⟨hframe, h.fits⟩, ?_, fun log' hfits hprefix => ?_⟩
  · rw [journalOf_cons, List.prefix_append_right_inj]
    exact h.isPrefix
  · cases log' with
    | nil => exact List.nil_prefix
    | cons g log' =>
      obtain ⟨hg, hrest⟩ := List.forall_mem_cons.mp hfits
      obtain ⟨tail, htail⟩ := hprefix
      rw [journalOf_cons, List.append_assoc] at htail
      obtain ⟨rfl, hlog⟩ := journalRecord_append_inj hg hframe htail
      rw [List.cons_prefix_cons]
      exact ⟨rfl, h.longest log' hrest ⟨tail, hlog⟩⟩

lemma length_le (h : LongestLog bytes log) (hframe : frame ∈ log) : frame.length ≤ 2 ^ 20 :=
  (h.fits frame hframe).2

end LongestLog

/-- The records of a log have no longer one. -/
lemma longestLog_journalOf {log : List Str} (hfits : ∀ frame ∈ log, FitsJournal frame) :
    LongestLog (journalOf log) log := by
  induction log with
  | nil =>
    refine ⟨hfits, List.prefix_rfl, fun log' _ hprefix => ?_⟩
    cases log' with
    | nil => exact List.nil_prefix
    | cons frame log' =>
      have hlength := hprefix.length_le
      rw [journalOf_cons, List.length_append, length_journalRecord, recordPrefix] at hlength
      change 4 + frame.length + _ ≤ 0 at hlength
      omega
  | cons frame log ih =>
    obtain ⟨hframe, hrest⟩ := List.forall_mem_cons.mp hfits
    exact (ih hrest).cons hframe

lemma exists_longestLog (bytes : Str) : ∃ log, LongestLog bytes log := by
  induction hn : bytes.length using Nat.strong_induction_on generalizing bytes with
  | _ n ih =>
    subst hn
    by_cases h : ∃ frame, FitsJournal frame ∧ journalRecord frame <+: bytes
    · obtain ⟨frame, hfits, rest, rfl⟩ := h
      obtain ⟨log, hlog⟩ := ih rest.length (by
        rw [List.length_append, length_journalRecord, recordPrefix]
        omega) rest rfl
      exact ⟨frame :: log, hlog.cons hfits⟩
    · refine ⟨[], by simp, List.nil_prefix, fun log' hfits hprefix => ?_⟩
      cases log' with
      | nil => exact List.nil_prefix
      | cons frame log' =>
        exfalso
        refine h ⟨frame, hfits frame List.mem_cons_self, ?_⟩
        rw [journalOf_cons] at hprefix
        exact (List.prefix_append _ _).trans hprefix

/-! ### The calls -/

/-- The frames of a log handed over until the first error of the callback: the calls, how many of
them it took, the error and what it keeps. -/
structure Delivery (σ ε : Type) where
  calls : List Str
  taken : ℕ
  err : Option ε
  state : σ

def deliver {σ ε : Type} (fn : Callback σ ε) : σ → List Str → Delivery σ ε
  | s, [] => ⟨[], 0, none, s⟩
  | s, frame :: log =>
    match fn s frame with
    | (some e, s) => ⟨[frame], 0, some e, s⟩
    | (none, s) =>
      let rest := deliver fn s log
      ⟨frame :: rest.calls, rest.taken + 1, rest.err, rest.state⟩

lemma calls_deliver_isPrefix {σ ε : Type} (fn : Callback σ ε) (s : σ) (log : List Str) :
    (deliver fn s log).calls <+: log := by
  induction log generalizing s with
  | nil => exact List.nil_prefix
  | cons frame log ih =>
    rw [deliver]
    split
    · exact List.cons_prefix_cons.mpr ⟨rfl, List.nil_prefix⟩
    · exact List.cons_prefix_cons.mpr ⟨rfl, ih _⟩

/-- What a run hands over of a log, up to the callback's first error. -/
structure HandsOver {σ ε : Type} (fn : Callback σ ε) (s : σ) (log : List Str)
    (run : ReplayRun σ ε) : Prop where
  calls : run.calls = (deliver fn s log).calls
  count : run.count = (deliver fn s log).taken
  state : run.state = (deliver fn s log).state
  refused : ∀ e, (deliver fn s log).err = some e → ∃ offset, run.err = some (.callback offset e)

namespace Store
variable {σ ε : Type} {journal : Str} {limit offset : ℕ} (fn : Callback σ ε) (count : ℕ) (s : σ)

/-- Where no record begins, the loop makes no call, and it is content only at the limit. -/
lemma replayLoop_of_no_record (hjournal : limit ≤ journal.length) (hoffset : offset ≤ limit)
    (hnone : ∀ frame, FitsJournal frame →
      ¬journalRecord frame <+: slice journal offset (limit - offset)) :
    ∃ err, replayLoop journal limit fn offset count s = .stop count err s ∧
      (err = none ↔ offset = limit) := by
  rw [replayLoop]
  split_ifs with hlt hcut hheader
  · exact ⟨_, rfl, by simp; omega⟩
  · omega
  · have hat : slice journal offset recordPrefix = u32le (u32At journal offset) :=
      (u32le_u32At (by unfold recordPrefix at hheader; omega)).symm
    dsimp only
    generalize hlength : (u32At journal offset).toNat = length
    split_ifs with hdeclares hpast hthere
    · exact ⟨_, rfl, by simp; omega⟩
    · exact ⟨_, rfl, by simp; omega⟩
    · omega
    · exfalso
      have hframe : (slice journal (offset + recordPrefix) length).length = length :=
        length_slice_of_le (by omega)
      refine hnone (slice journal (offset + recordPrefix) length) ⟨?_, by omega⟩ ?_
      · intro hnil
        rw [hnil, List.length_nil] at hframe
        omega
      · have hsplit : limit - offset = recordPrefix + length +
            (limit - (offset + recordPrefix + length)) := by omega
        rw [journalRecord, hframe, ← hlength, UInt32.ofNat_toNat, ← hat, hlength,
          slice_append_slice, hsplit, ← slice_append_slice journal offset (recordPrefix + length)]
        exact List.prefix_append _ _
  · exact ⟨none, rfl, by simp; omega⟩

/-- A record is handed over. -/
lemma replayLoop_record {frame : Str} (hfits : FitsJournal frame)
    (hlimit : offset + recordPrefix + frame.length ≤ limit) (hjournal : limit ≤ journal.length)
    (hrecord : slice journal offset (recordPrefix + frame.length) = journalRecord frame) :
    replayLoop journal limit fn offset count s =
      .buffered frame.length (.called frame
        (match fn s frame with
        | (some e, s) => .stop count (some (.callback offset e)) s
        | (none, s) =>
          replayLoop journal limit fn (offset + recordPrefix + frame.length) (count + 1) s)) := by
  obtain ⟨hlength, hframe⟩ := reads_journalRecord hfits (hlimit.trans hjournal) hrecord
  rw [replayLoop, dif_pos (by unfold recordPrefix at hlimit; omega), if_neg (by omega),
    if_neg (by omega)]
  simp only [hlength, hframe]
  rw [if_neg (not_declares_of_fits hfits), if_neg (by omega), if_neg (by omega)]

/-- The loop is the delivery of the longest log of what it has to cover. -/
lemma replayLoop_eq {log : List Str} (hjournal : limit ≤ journal.length) (hoffset : offset ≤ limit)
    (hlog : LongestLog (slice journal offset (limit - offset)) log) :
    let run := replayLoop journal limit fn offset count s
    let d := deliver fn s log
    run.count = count + d.taken ∧ run.calls = d.calls ∧ run.buffers = d.calls.map List.length ∧
      run.state = d.state ∧
      (run.err = none ↔ d.err = none ∧ journalOf log = slice journal offset (limit - offset)) ∧
      ∀ e, d.err = some e → ∃ at', run.err = some (.callback at' e) := by
  induction log generalizing offset count s with
  | nil =>
    obtain ⟨err, hrun, herr⟩ := replayLoop_of_no_record fn count s
      hjournal hoffset fun frame hfits => hlog.not_record hfits
    dsimp only
    rw [hrun]
    refine ⟨rfl, rfl, rfl, rfl, ?_, ?_⟩
    · have hempty : journalOf [] = slice journal offset (limit - offset) ↔ offset = limit := by
        rw [journalOf_nil, eq_comm, ← List.length_eq_zero_iff, length_slice_of_le (by omega)]
        omega
      rw [hempty]
      simpa [deliver, ReplayRun.stop] using herr
    · rintro e ⟨⟩
  | cons frame log ih =>
    obtain ⟨tail, htail⟩ := hlog.isPrefix
    rw [journalOf_cons, List.append_assoc] at htail
    have hspan : recordPrefix + frame.length ≤ limit - offset := by
      have hlength := congrArg List.length htail
      rw [List.length_append, length_journalRecord, length_slice_of_le (by omega)] at hlength
      omega
    have hsplit : slice journal offset (limit - offset) =
        slice journal offset (recordPrefix + frame.length) ++
          slice journal (offset + recordPrefix + frame.length)
            (limit - (offset + recordPrefix + frame.length)) := by
      rw [Nat.add_assoc, slice_append_slice]
      congr 1
      omega
    obtain ⟨hrecord, hrest⟩ := List.append_inj (hsplit ▸ htail).symm (by
      rw [length_slice_of_le (by omega), length_journalRecord])
    rw [hsplit, hrecord] at hlog
    have hrun := replayLoop_record fn count s
      (hlog.fits frame List.mem_cons_self) (by omega) hjournal hrecord
    rw [hsplit, hrecord, journalOf_cons, List.append_cancel_left_eq]
    dsimp only
    rw [hrun, deliver]
    rcases hfn : fn s frame with ⟨_ | e, t⟩
    · obtain ⟨hcount, hcalls, hbuffers, hstate, herr, hcallback⟩ :=
        ih (count + 1) t (by omega) hlog.tail
      refine ⟨?_, ?_, ?_, hstate, herr, hcallback⟩
      · exact hcount.trans (Nat.add_right_comm count 1 _)
      · exact congrArg (frame :: ·) hcalls
      · exact congrArg (frame.length :: ·) hbuffers
    · refine ⟨rfl, rfl, rfl, rfl, by simp [ReplayRun.buffered, ReplayRun.called, ReplayRun.stop], ?_⟩
      rintro e ⟨⟩
      exact ⟨offset, rfl⟩

lemma replayRun_of_le {limit : UInt64} (hlimit : limit.toNat ≤ journal.length) :
    replayRun (some journal) limit fn s =
      .buffered recordPrefix (replayLoop journal limit.toNat fn 0 0 s) :=
  if_neg (Nat.not_lt.mpr hlimit)

lemma replayRun_of_longestLog {limit : UInt64} {log : List Str}
    (hlimit : limit.toNat ≤ journal.length) (hlog : LongestLog (journal.take limit.toNat) log) :
    HandsOver fn s log (replayRun (some journal) limit fn s) ∧
      (replayRun (some journal) limit fn s).buffers =
        recordPrefix :: (deliver fn s log).calls.map List.length ∧
      ((replayRun (some journal) limit fn s).err = none ↔
        (deliver fn s log).err = none ∧ journalOf log = journal.take limit.toNat) := by
  rw [replayRun_of_le fn s hlimit]
  obtain ⟨hcount, hcalls, hbuffers, hstate, herr, hrefused⟩ :=
    replayLoop_eq fn 0 s hlimit (Nat.zero_le _) hlog
  exact ⟨⟨hcalls, hcount.trans (Nat.zero_add _), hstate, hrefused⟩,
    congrArg (recordPrefix :: ·) hbuffers, herr⟩

/-- A replay that is not covered by its journal hands nothing over. -/
lemma replayRun_of_lt {limit : UInt64} (hlimit : journal.length < limit.toNat) :
    replayRun (some journal) limit fn s =
      .stop 0 (some (.store (.journalShorter journal.length limit.toNat))) s :=
  if_pos hlimit

/-- Every buffer of a replay is within the bound of a record. -/
lemma buffers_replayRun_le (journal : Option Str) (limit : UInt64) (fn : Callback σ ε) (s : σ) :
    ∀ size ∈ (replayRun journal limit fn s).buffers, size ≤ 2 ^ 20 := by
  intro size hsize
  cases journal with
  | none => exact absurd hsize List.not_mem_nil
  | some journal =>
    by_cases hlimit : limit.toNat ≤ journal.length
    · obtain ⟨log, hlog⟩ := exists_longestLog (journal.take limit.toNat)
      rw [(replayRun_of_longestLog fn s hlimit hlog).2.1, List.mem_cons, List.mem_map] at hsize
      rcases hsize with rfl | ⟨frame, hframe, rfl⟩
      · decide
      · exact hlog.length_le ((calls_deliver_isPrefix fn s log).subset hframe)
    · rw [replayRun_of_lt fn s (Nat.not_le.mp hlimit)] at hsize
      exact absurd hsize List.not_mem_nil

end Store

namespace StateDirectory

lemma length_appendAll_le (attempts : List Attempt) (m : Machine) :
    (appendAll attempts m).1.length ≤ attempts.length := by
  induction attempts generalizing m with
  | nil => exact Nat.le_refl _
  | cons a attempts ih =>
    rw [appendAll]
    split
    · exact Nat.succ_le_succ (ih _)
    · exact (ih _).trans (Nat.le_succ _)

/-- Appends that all returned nil left no part of a record behind. -/
lemma leftBehind_of_all {attempts : List Attempt} {m : Machine} {content : Str}
    (h : Aligned m content) (hall : (appendAll attempts m).1 = attempts.map Attempt.frame) :
    leftBehind attempts m = 0 := by
  induction attempts generalizing m content with
  | nil => rfl
  | cons a attempts ih =>
    rcases h.run a with ⟨hok, -, hleft, haligned⟩ | ⟨⟨e, herror⟩, haligned⟩
    · rw [appendAll_of_ok attempts hok, List.map_cons, List.cons.injEq] at hall
      rw [leftBehind, hleft, ih haligned hall.2, List.length_nil]
    · exfalso
      rw [appendAll_of_error attempts herror] at hall
      have hlength := congrArg List.length hall
      have hle := length_appendAll_le attempts (a.run m).2
      rw [List.map_cons, List.length_cons, List.length_map] at hlength
      omega

/-- The journal of a store begun from nothing is the records of what was appended to it. -/
lemma journal_of_begin {m m₁ : Machine} {cuts cuts' : List (Option Cut)} {attempts : List Attempt}
    (hbegin : begin 0 cuts m = (.ok (), cuts', m₁)) (hleft : leftBehind attempts m₁ = 0) :
    ∃ f, (appendAll attempts m₁).2.files.journal = some f ∧
      f.content = journalOf (appendAll attempts m₁).1 ∧
      (appendAll attempts m₁).2.store.written.toNat = f.content.length ∧
      ∀ frame ∈ (appendAll attempts m₁).1, FitsJournal frame := by
  have hbegun : Begun m₁ [] := begun_of_begin (by simp) rfl List.nil_prefix hbegin
  obtain ⟨tail, htail, hfits, -, hclean⟩ := hbegun.toAligned.appendAll attempts
  obtain ⟨f, hf, hcontent⟩ := htail.file
  refine ⟨f, hf, ?_, ?_, hfits⟩
  · rw [hcontent, journalOf_nil, List.nil_append, hclean hleft]
  · rw [hcontent, htail.toNat_written]

end StateDirectory

namespace Store
open StateDirectory (Machine Attempt appendAll leftBehind)
variable {σ ε : Type}

/-- A replay hands over, in order and up to the callback's first error, the longest log whose
records begin the bytes that the limit covers; it is content only if that log is all of them, and
takes no buffer above the bound of a record. Of a journal that was begun from nothing it hands
over, at what was written, the frames that were appended. -/
theorem replay_grammar (fn : Callback σ ε) (s : σ) :
    (∀ limit, (replayRun none limit fn s).err ≠ none ∧ (replayRun none limit fn s).calls = []) ∧
    (∀ (journal : Str) (limit : UInt64), journal.length < limit.toNat →
      (replayRun (some journal) limit fn s).err ≠ none ∧
        (replayRun (some journal) limit fn s).calls = []) ∧
    (∀ (journal : Str) (limit : UInt64), limit.toNat ≤ journal.length →
      (∃ log, LongestLog (journal.take limit.toNat) log ∧
        HandsOver fn s log (replayRun (some journal) limit fn s)) ∧
      ((replayRun (some journal) limit fn s).err = none ↔
        ∃ log, (∀ frame ∈ log, FitsJournal frame) ∧ journalOf log = journal.take limit.toNat ∧
          (deliver fn s log).err = none) ∧
      journalOf (replayRun (some journal) limit fn s).calls <+: journal.take limit.toNat) ∧
    (∀ journal limit, ∀ size ∈ (replayRun journal limit fn s).buffers, size ≤ 2 ^ 20) ∧
    ∀ (m m₁ : Machine) (cuts cuts' : List (Option Cut)) (attempts : List Attempt),
      StateDirectory.begin 0 cuts m = (.ok (), cuts', m₁) →
      ((appendAll attempts m₁).1 = attempts.map Attempt.frame → leftBehind attempts m₁ = 0) ∧
      (leftBehind attempts m₁ = 0 → ∃ f, (appendAll attempts m₁).2.files.journal = some f ∧
        let run := replayRun (some f.content) (appendAll attempts m₁).2.store.written fn s
        HandsOver fn s (appendAll attempts m₁).1 run ∧
          (run.err = none ↔ (deliver fn s (appendAll attempts m₁).1).err = none)) := by
  refine ⟨fun _ => ⟨nofun, rfl⟩, fun journal limit hlimit => ?_, fun journal limit hlimit => ?_,
    fun journal limit => buffers_replayRun_le journal limit fn s,
    fun m m₁ cuts cuts' attempts hbegin => ⟨fun hall => ?_, fun hleft => ?_⟩⟩
  · rw [replayRun_of_lt fn s hlimit]
    exact ⟨nofun, rfl⟩
  · obtain ⟨log, hlog⟩ := exists_longestLog (journal.take limit.toNat)
    obtain ⟨hover, -, herr⟩ := replayRun_of_longestLog fn s hlimit hlog
    refine ⟨⟨log, hlog, hover⟩, herr.trans ⟨fun h => ⟨log, hlog.fits, h.2, h.1⟩, ?_⟩, ?_⟩
    · rintro ⟨log', hfits, hbytes, hall⟩
      obtain rfl := (hbytes ▸ longestLog_journalOf hfits).unique hlog
      exact ⟨hall, hbytes⟩
    · rw [hover.calls]
      obtain ⟨rest, hrest⟩ := calls_deliver_isPrefix fn s log
      refine List.IsPrefix.trans ?_ hlog.isPrefix
      conv_rhs => rw [← hrest, journalOf_append]
      exact List.prefix_append _ _
  · have hbegun : StateDirectory.Begun m₁ [] :=
      StateDirectory.begun_of_begin (by simp) rfl List.nil_prefix hbegin
    exact StateDirectory.leftBehind_of_all hbegun.toAligned hall
  · obtain ⟨f, hf, hcontent, hwritten, hfits⟩ := StateDirectory.journal_of_begin hbegin hleft
    have htake : f.content.take (appendAll attempts m₁).2.store.written.toNat =
        journalOf (appendAll attempts m₁).1 := by
      rw [hwritten, List.take_length, hcontent]
    obtain ⟨hover, -, herr⟩ := replayRun_of_longestLog fn s hwritten.le
      (htake ▸ longestLog_journalOf hfits)
    exact ⟨f, hf, hover, herr.trans (and_iff_left htake.symm)⟩

/-- Two frames appended to an empty directory and an empty one that is refused. -/
theorem replay_grammar_two_frames :
    let m₁ := (StateDirectory.begin 0 [] StateDirectory.freshMachine).2.2
    let m₂ := (appendAll [⟨[7], none⟩, ⟨[], none⟩, ⟨[8, 9], none⟩] m₁).2
    ∃ f, m₂.files.journal = some f ∧
      (replayRun (some f.content) m₂.store.written
        (fun s frame => ((none : Option Unit), s ++ [frame])) []).state = [[7], [8, 9]] := by
  obtain ⟨f, hf, hover, -⟩ := ((replay_grammar
    (fun s frame => ((none : Option Unit), s ++ [frame])) []).2.2.2.2 StateDirectory.freshMachine
      (StateDirectory.begin 0 [] StateDirectory.freshMachine).2.2 [] []
      [⟨[7], none⟩, ⟨[], none⟩, ⟨[8, 9], none⟩] rfl).2 (by decide)
  exact ⟨f, hf, hover.state.trans (by decide)⟩

end Store
end Dhow
