import Dhow.Blake3Reference
import Dhow.StateDirectory

/-!
# Appends that fail

Appends to an open journal, each of which may fail after any part of its record reached the file.
The store counts what reached the file, so the count, the offset and the length of the journal
stay one number, and with it an index covers the parts of records that failing writes left.
-/

namespace Dhow.StateDirectory
open Bytes

/-- An append, and after how many bytes its write fails, if it is made to. -/
structure Attempt where
  frame : Str
  fails : Option ℕ

namespace Attempt

def run (a : Attempt) (m : Machine) : Outcome Failure Unit × Machine :=
  let r := append a.frame [a.fails.map (⟨·, false⟩)] m
  (r.1, r.2.2)

/-- The bytes that the append leaves in the journal where it fails. -/
def left (a : Attempt) (m : Machine) : Str :=
  match m.store.journal with
  | none => []
  | some offset =>
    if ¬FitsJournal a.frame then []
    else
      match a.fails with
      | some n => DataFile.fitting offset ((journalRecord a.frame).take n)
      | none =>
        if DataFile.fitting offset (journalRecord a.frame) = journalRecord a.frame then []
        else DataFile.fitting offset (journalRecord a.frame)

end Attempt

/-- The frames whose append returned nil, and the machine after the appends. -/
def appendAll : List Attempt → Machine → List Str × Machine
  | [], m => ([], m)
  | a :: attempts, m =>
    match a.run m with
    | (.ok (), m) => (a.frame :: (appendAll attempts m).1, (appendAll attempts m).2)
    | (_, m) => appendAll attempts m

lemma appendAll_of_ok {a : Attempt} {m : Machine} (attempts : List Attempt)
    (h : (a.run m).1 = .ok ()) : appendAll (a :: attempts) m =
      (a.frame :: (appendAll attempts (a.run m).2).1, (appendAll attempts (a.run m).2).2) := by
  rw [appendAll]
  rcases hrun : a.run m with ⟨result, m'⟩
  rw [hrun] at h
  cases h
  rfl

lemma appendAll_of_error {a : Attempt} {m : Machine} {e : Failure} (attempts : List Attempt)
    (h : (a.run m).1 = .error e) :
    appendAll (a :: attempts) m = appendAll attempts (a.run m).2 := by
  rw [appendAll]
  rcases hrun : a.run m with ⟨result, m'⟩
  rw [hrun] at h
  cases h
  rfl

/-- The number of bytes that failing appends leave in the journal. -/
def leftBehind : List Attempt → Machine → ℕ
  | [], _ => 0
  | a :: attempts, m => (a.left m).length + leftBehind attempts (a.run m).2

/-- An open journal with this content, whose offset and count are its length. -/
structure Aligned (m : Machine) (content : Str) : Prop where
  file : ∃ f, m.files.journal = some f ∧ f.content = content
  offset : m.store.journal = some content.length
  written : m.store.written = UInt64.ofNat content.length

/-- A store that `Begin` left with the records of a log. -/
structure Begun (m : Machine) (log : List Str) : Prop extends Aligned m (journalOf log) where
  fits : ∀ frame ∈ log, FitsJournal frame

section Aligned
variable {m : Machine} {content : Str}

lemma Aligned.length_le (h : Aligned m content) : content.length ≤ maxOffset := by
  obtain ⟨f, -, rfl⟩ := h.file
  exact f.length_le

lemma Aligned.toNat_written (h : Aligned m content) : m.store.written.toNat = content.length := by
  have hle := h.length_le
  rw [h.written]
  exact UInt64.toNat_ofNat_of_lt' (lt_of_le_of_lt hle (by decide))

/-- Bytes that reach the journal keep the offset and the count at its length. -/
lemma Aligned.wrote (h : Aligned m content) (bytes : Str) :
    Aligned (m.wrote content.length bytes) (content ++ DataFile.fitting content.length bytes) := by
  obtain ⟨f, hf, rfl⟩ := h.file
  refine ⟨⟨f.write f.content.length bytes, ?_, f.content_write_length bytes⟩, ?_, ?_⟩
  · rw [Machine.wrote, Files.mapJournal, hf]
    rfl
  · rw [Machine.wrote, List.length_append]
  · rw [Machine.wrote, h.written, List.length_append, UInt64.ofNat_add]

/-- An append either adds the record of its frame and succeeds, or fails and adds what it
leaves. -/
lemma Aligned.run (h : Aligned m content) (a : Attempt) :
    ((a.run m).1 = .ok () ∧ FitsJournal a.frame ∧ a.left m = [] ∧
      Aligned (a.run m).2 (content ++ journalRecord a.frame)) ∨
    (∃ e, (a.run m).1 = .error e) ∧ Aligned (a.run m).2 (content ++ a.left m) := by
  unfold Attempt.run Attempt.left append
  rw [Steps.bind_apply, Steps.get]
  simp only [h.offset]
  by_cases hfits : FitsJournal a.frame
  · have hrefused : ¬(a.frame = [] ∨ maxRecord < a.frame.length) :=
      not_or.mpr ⟨hfits.1, not_lt.mpr hfits.2⟩
    rw [if_neg hrefused, if_neg (not_not.mpr hfits)]
    unfold writeRecord Steps.step
    cases a.fails with
    | some n => exact .inr ⟨⟨_, rfl⟩, h.wrote _⟩
    | none =>
      by_cases hroom : DataFile.fitting content.length (journalRecord a.frame) =
          journalRecord a.frame
      · have hwrote := h.wrote (journalRecord a.frame)
        rw [hroom] at hwrote
        simp only [Option.map_none, List.head?_cons, Option.join_some, if_pos hroom]
        exact .inl ⟨trivial, hfits, trivial, hwrote⟩
      · simp only [Option.map_none, List.head?_cons, Option.join_some, if_neg hroom]
        exact .inr ⟨⟨_, rfl⟩, h.wrote _⟩
  · have hrefused : a.frame = [] ∨ maxRecord < a.frame.length := by
      by_contra hno
      rw [not_or, not_lt] at hno
      exact hfits hno
    rw [if_pos hrefused, if_pos hfits, List.append_nil]
    exact .inr ⟨⟨_, rfl⟩, h⟩

/-- After the appends the journal holds the records of those that succeeded and what the failing
ones left. -/
lemma Aligned.appendAll (h : Aligned m content) (attempts : List Attempt) :
    ∃ tail, Aligned (appendAll attempts m).2 (content ++ tail) ∧
      (∀ frame ∈ (StateDirectory.appendAll attempts m).1, FitsJournal frame) ∧
      tail.length = (journalOf (StateDirectory.appendAll attempts m).1).length +
        leftBehind attempts m ∧
      (leftBehind attempts m = 0 → tail = journalOf (StateDirectory.appendAll attempts m).1) := by
  induction attempts generalizing m content with
  | nil =>
    refine ⟨[], by rwa [List.append_nil], ?_, rfl, fun _ => rfl⟩
    exact fun frame hframe => absurd hframe List.not_mem_nil
  | cons a attempts ih =>
    rw [leftBehind]
    rcases h.run a with ⟨hok, hfits, hleft, haligned⟩ | ⟨⟨e, herror⟩, haligned⟩
    · obtain ⟨tail, htail, htaken, hlength, hclean⟩ := ih haligned
      rw [appendAll_of_ok attempts hok]
      refine ⟨journalRecord a.frame ++ tail, by rwa [← List.append_assoc],
        List.forall_mem_cons.mpr ⟨hfits, htaken⟩, ?_, ?_⟩
      · rw [hleft, List.length_append, hlength]
        simp only [journalOf, List.flatMap_cons, List.length_append, List.length_nil]
        omega
      · intro hzero
        rw [hclean (by rw [hleft] at hzero; simpa using hzero)]
        rfl
    · obtain ⟨tail, htail, htaken, hlength, hclean⟩ := ih haligned
      rw [appendAll_of_error attempts herror]
      refine ⟨a.left m ++ tail, by rwa [← List.append_assoc], htaken, ?_, ?_⟩
      · rw [List.length_append, hlength]
        omega
      · intro hzero
        rw [Nat.add_eq_zero_iff, List.length_eq_zero_iff] at hzero
        rw [hzero.1, List.nil_append, hclean hzero.2]

/-- Changes of the other files leave the journal as it is. -/
lemma keeps_changeFiles {f : Files → Files} (hf : ∀ files, (f files).journal = files.journal)
    (a : Action) : Steps.Ensures (Aligned · content) (changeFiles a f)
      (fun _ m => Aligned m content) fun _ => True := by
  refine .change (fun m h => ⟨?_, h.offset, h.written⟩) fun _ _ => trivial
  rw [hf]
  exact h.file

lemma keeps_flushJournal : Steps.Ensures (Aligned · content) flushJournal
    (fun _ m => Aligned m content) fun _ => True := by
  refine .bind (.get (Q := fun _ m => Aligned m content) fun _ h => h) fun journal => ?_
  split
  · exact .pure fun _ h => h
  · refine .change (fun m h => ⟨?_, h.offset, h.written⟩) fun _ _ => trivial
    obtain ⟨f, hf, hcontent⟩ := h.file
    exact ⟨f.sync, by simp [Files.mapJournal, hf], hcontent⟩

lemma keeps_writeTmp (state : Str) : Steps.Ensures (Aligned · content) (writeTmp state)
    (fun _ m => Aligned m content) fun _ => True := by
  refine .step ?_ (fun _ _ _ _ _ => trivial) fun _ _ _ => trivial
  intro m a m' h hop
  split_ifs at hop
  · cases hop
    exact ⟨h.file, h.offset, h.written⟩
  · cases hop

/-- A save leaves the journal as it is. -/
lemma keeps_save (state : Str) : Steps.Ensures (Aligned · content) (save state)
    (fun _ m => Aligned m content) fun _ => True := by
  unfold save
  split_ifs
  · exact .throw fun _ _ => trivial
  · exact .bind keeps_flushJournal fun _ => .bind (keeps_changeFiles (fun _ => by rfl) _) fun _ =>
      .bind (keeps_writeTmp state) fun _ => .bind (keeps_changeFiles (fun _ => by rfl) _) fun _ =>
      .bind (.settle fun _ _ => trivial) fun _ => .bind (keeps_changeFiles (fun _ => by rfl) _) fun _ =>
      .modify fun _ h => ⟨h.file, h.offset, h.written⟩

lemma Aligned.saved {m₁ : Machine} {state : Str} {cuts cuts' : List (Option Cut)}
    (h : Aligned m content) (hsave : save state cuts m = (.ok (), cuts', m₁)) :
    Aligned m₁ content := by
  have hsaved := keeps_save state cuts m h
  rwa [hsave] at hsaved

end Aligned

/-- `Begin` leaves the covered records and a store begun on them. -/
lemma begun_of_begin {m m₁ : Machine} {covered : UInt64} {cuts cuts' : List (Option Cut)}
    {log : List Str} (hfits : ∀ frame ∈ log, FitsJournal frame)
    (hcovered : covered.toNat = (journalOf log).length)
    (hlog : journalOf log <+: (m.files.journal.getD .empty).content)
    (h : begin covered cuts m = (.ok (), cuts', m₁)) : Begun m₁ log := by
  have hensures : Steps.Ensures (fun m => journalOf log <+: (m.files.journal.getD .empty).content)
      (begin covered) (fun _ m => Begun m log) fun _ => True := by
    refine .bind (R := fun _ m => ∃ f, m.files.journal = some f ∧ journalOf log <+: f.content)
      (.change (fun m hm => ⟨_, rfl, hm⟩) fun _ _ => trivial) fun _ =>
      .bind (R := fun _ m => ∃ f, m.files.journal = some f ∧ f.content = journalOf log)
        (.step ?_ (fun _ _ _ _ _ => trivial) fun _ _ _ => trivial) fun _ =>
      .bind (.settle fun _ _ => trivial) fun _ => .modify ?_
    · intro m a m' hm hop
      obtain ⟨f, hf, tail, htail⟩ := hm
      split_ifs at hop with hmax
      · cases hop
        refine ⟨f.truncate covered.toNat hmax, by rw [Files.mapJournal, hf]; rfl, ?_⟩
        rw [DataFile.content_truncate, ← htail, hcovered, List.take_left, List.length_append,
          Nat.sub_eq_zero_of_le (Nat.le_add_right _ _), List.replicate_zero, List.append_nil]
      · cases hop
    · rintro m ⟨f, hf, hcontent⟩
      refine ⟨⟨⟨f, hf, hcontent⟩, by rw [hcovered], ?_⟩, hfits⟩
      rw [← hcovered, UInt64.ofNat_toNat]
  have hbegun := hensures cuts m hlog
  rwa [h] at hbegun

/-- A save of an index that is short enough for a file succeeds where nothing fails. -/
lemma save_nil {state : Str} (hne : state ≠ []) (hlength : state.length ≤ maxOffset) (m : Machine) :
    ∃ m₁, save state [] m = (.ok (), [], m₁) ∧
      m₁.files.index.map DataFile.content = some state ∧
      m₁.files.journal.map DataFile.content = m.files.journal.map DataFile.content := by
  have hfitting : DataFile.fitting 0 state = state := by
    rw [DataFile.fitting, Nat.sub_zero, List.take_of_length_le hlength]
  obtain ⟨m₀, hflush, hjournal⟩ : ∃ m₀, flushJournal [] m = (.ok (), [], m₀) ∧
      m₀.files.journal.map DataFile.content = m.files.journal.map DataFile.content := by
    unfold flushJournal
    rw [Steps.bind_apply, Steps.get]
    cases m.store.journal with
    | none => exact ⟨_, rfl, rfl⟩
    | some offset => exact ⟨_, rfl, by simp [Files.mapJournal, Function.comp_def]⟩
  rw [save, if_neg hne, Steps.bind_of_ok hflush]
  unfold writeTmp
  simp only [if_pos hfitting]
  refine ⟨_, rfl, ?_, hjournal⟩
  have hwrite := ((m₀.files.tmp.getD .empty).truncate 0 (Nat.zero_le _)).content_write_length state
  rw [DataFile.length_truncate, hfitting] at hwrite
  simpa [Files.mapTmp] using hwrite

/-! ### What a replay delivers -/

/-- A recorder of the frames it is handed. -/
def recordFrame (frames : List Str) (frame : Str) : DhowStatus × List Str := (.ok, frames ++ [frame])

lemma handOver_recordFrame (frames log : List Str) :
    Dhow.Store.handOver recordFrame frames log = some (frames ++ log) := by
  induction log generalizing frames with
  | nil => rw [List.append_nil]; rfl
  | cons frame log ih =>
    change Dhow.Store.handOver recordFrame (frames ++ [frame]) log = _
    rw [ih, List.append_assoc, List.singleton_append]

lemma replay_nil {m : Machine} {f : DataFile} (hf : m.files.journal = some f) {limit : UInt64}
    (hlimit : limit.toNat ≤ f.content.length) {τ : Type} (fn : τ → Str → DhowStatus × τ) (x : τ) :
    replay limit fn x [] m =
      match Dhow.Store.replayFrom f.content limit.toNat fn 0 0 x with
      | .ok r => (.ok r, [], m)
      | .error e => (.error (.store e), [], m) := by
  rw [replay, Steps.bind_of_ok (Steps.settle_nil _ _), Steps.bind_apply, Steps.get]
  simp only [hf, if_neg (Nat.not_lt.mpr hlimit)]
  rw [Steps.bind_of_ok (Steps.settle_nil _ _), Steps.bind_of_ok (Steps.settle_nil _ _)]
  cases Dhow.Store.replayFrom f.content limit.toNat fn 0 0 x with
  | ok r => rfl
  | error e => rfl

/-- A replay of what is covered delivers these frames exactly where it is their records. -/
lemma replay_eq_ok_iff {m : Machine} {content : Str} (h : Aligned m content) {limit : UInt64}
    (hlimit : limit.toNat ≤ content.length) {log : List Str} :
    (replay limit recordFrame [] [] m).1 = .ok (log.length, log) ↔
      (∀ frame ∈ log, FitsJournal frame) ∧ content.take limit.toNat = journalOf log := by
  obtain ⟨f, hf, rfl⟩ := h.file
  have hfrom : (replay limit recordFrame [] [] m).1 = .ok (log.length, log) ↔
      Dhow.Store.replayFrom f.content limit.toNat recordFrame 0 0 [] = .ok (log.length, log) := by
    rw [replay_nil hf hlimit]
    cases Dhow.Store.replayFrom f.content limit.toNat recordFrame 0 0 [] with
    | ok r => simp
    | error e => simp
  rw [hfrom, Dhow.Store.replayFrom_eq_ok_iff hlimit]
  constructor
  · rintro ⟨log', hfits, htake, -, hover⟩
    rw [handOver_recordFrame, List.nil_append, Option.some.injEq] at hover
    subst hover
    exact ⟨hfits, htake⟩
  · rintro ⟨hfits, htake⟩
    exact ⟨log, hfits, htake, rfl, handOver_recordFrame [] log⟩

/-- Every index saved after the appends covers, then and after any further appends, exactly the
frames of the log and those whose append returned nil. -/
def Delivers (b3 : Blake3) (m : Machine) (log : List Str) (attempts : List Attempt) : Prop :=
  ∀ state cuts cuts' m₁ more, Covers b3 state (appendAll attempts m).2.store.written →
    save state cuts (appendAll attempts m).2 = (.ok (), cuts', m₁) →
    (replay (appendAll attempts m).2.store.written recordFrame [] [] (appendAll more m₁).2).1 =
      .ok ((log ++ (appendAll attempts m).1).length, log ++ (appendAll attempts m).1)

section Delivers
variable {b3 : Blake3} {m : Machine} {log : List Str} {attempts : List Attempt}

lemma delivers_of_leftBehind (h : Begun m log) (hleft : leftBehind attempts m = 0) :
    Delivers b3 m log attempts := by
  intro state cuts cuts' m₁ more _ hsave
  obtain ⟨tail, htail, htaken, -, hclean⟩ := h.toAligned.appendAll attempts
  obtain ⟨tail', hmore, -⟩ := (htail.saved hsave).appendAll more
  have hlimit : (appendAll attempts m).2.store.written.toNat ≤
      (journalOf log ++ tail ++ tail').length := by
    rw [htail.toNat_written]
    simp
  rw [replay_eq_ok_iff hmore hlimit]
  refine ⟨List.forall_mem_append.mpr ⟨h.fits, htaken⟩, ?_⟩
  rw [htail.toNat_written, List.take_left, journalOf_append, hclean hleft]

/-- Bytes left behind are covered by the next index, and a replay then delivers something else. -/
lemma leftBehind_of_delivers (h : Begun m log) (hdelivers : Delivers b3 m log attempts) :
    leftBehind attempts m = 0 := by
  obtain ⟨tail, htail, -, hlength, -⟩ := h.toAligned.appendAll attempts
  have hcovers := covers_bareState b3 (appendAll attempts m).2.store.written
  obtain ⟨m₁, hsave, -⟩ := save_nil hcovers.ne_nil
    (by rw [length_bareState]; decide) (appendAll attempts m).2
  have hreplay := hdelivers _ [] [] m₁ [] hcovers hsave
  rw [appendAll, replay_eq_ok_iff (htail.saved hsave) (by rw [htail.toNat_written])] at hreplay
  have hbytes := congrArg List.length hreplay.2
  rw [htail.toNat_written, List.take_length, journalOf_append, List.length_append,
    List.length_append, hlength] at hbytes
  omega

/-- After any sequence of appends, an index saved over what was written delivers exactly the frames
whose append returned nil if and only if no append that failed left a byte of its record. -/
theorem delivers_iff (b3 : Blake3) (h : Begun m log) (attempts : List Attempt) :
    Delivers b3 m log attempts ↔ leftBehind attempts m = 0 :=
  ⟨leftBehind_of_delivers h, delivers_of_leftBehind h⟩

end Delivers

/-! ### A store begun on an empty directory -/

/-- A state directory with an empty journal, open for appending. -/
def freshMachine : Machine where
  files := ⟨some .empty, none, none⟩
  store := ⟨[], some 0, 0⟩

lemma begun_freshMachine : Begun freshMachine [] where
  file := ⟨.empty, rfl, rfl⟩
  offset := rfl
  written := rfl
  fits := by simp

theorem delivers_iff_fresh :
    Delivers Blake3Reference.blake3 freshMachine [] [⟨[7], none⟩, ⟨[8], some 0⟩] ↔
      leftBehind [⟨[7], none⟩, ⟨[8], some 0⟩] freshMachine = 0 :=
  delivers_iff Blake3Reference.blake3 begun_freshMachine _

/-- One byte of a record whose append failed is covered by the next index. -/
theorem torn_record_covered :
    Begun freshMachine [] ∧ ¬Delivers Blake3Reference.blake3 freshMachine [] [⟨[7], some 1⟩] := by
  refine ⟨begun_freshMachine, fun h => ?_⟩
  exact absurd (leftBehind_of_delivers begun_freshMachine h) (by decide)

end Dhow.StateDirectory
