import Dhow.ReferenceSession

/-!
# The receiver's record

What holds of a receiver after any sequence of byte strings: the counters count the bitmaps, no
bitmap claims a symbol the session lacks, progress is never lost, a block reports its completion
once, and the resume file of the moment parses back and is accepted by the decoder it describes.
-/

namespace Dhow
open Bytes

namespace PipelineDecoder
variable {rq : RaptorQ} {b3 : Blake3} (d : PipelineDecoder rq)

/-- The counters count the bitmaps, which stay inside the session. -/
structure Recorded : Prop where
  count_eq : ∀ k, (d.symbolsHeld k).toNat = Bitmap.popcount (d.bitmap k)
  bit_eq_false : ∀ k j, d.params.totalSymbolsPerBlock.toNat ≤ j → Bitmap.bit (d.bitmap k) j = false

lemma recorded_start (p : Pipeline) : (start rq p).Recorded := by
  have hbm : ∀ k, (start rq p).bitmap k = [] ∨
      (start rq p).bitmap k = List.replicate p.params.bitmapLen 0 := by
    intro k
    simp only [bitmap, start, List.getD_eq_getElem?_getD, List.getElem?_replicate]
    split <;> simp
  have hct : ∀ k, (start rq p).symbolsHeld k = 0 := by
    intro k
    simp only [symbolsHeld, start, List.getD_eq_getElem?_getD, List.getElem?_replicate]
    split <;> simp
  constructor
  · intro k
    rw [hct k]
    rcases hbm k with h | h <;> rw [h]
    · rfl
    · simp
  · intro k j _
    rcases hbm k with h | h <;> rw [h]
    · exact Bitmap.bit_eq_false_of_le (by simp)
    · simp

variable {d}

lemma Recorded.count_le (h : d.Recorded) (k : ℕ) :
    (d.symbolsHeld k).toNat ≤ d.params.totalSymbolsPerBlock.toNat := by
  rw [h.count_eq]
  exact Bitmap.popcount_le fun j hj => h.bit_eq_false k j hj

/-- The two records of one block, as the decoder stores them. -/
lemma Recorded.heldCounts_map (h : d.Recorded) (k : ℕ) :
    d.heldCounts[k]?.map UInt32.toNat = d.held[k]?.map Bitmap.popcount := by
  have hc := h.count_eq k
  have hlen : d.heldCounts.length = d.held.length := by rw [d.length_heldCounts, d.length_held]
  by_cases hk : k < d.held.length
  · rw [List.getElem?_eq_getElem hk, List.getElem?_eq_getElem (hlen ▸ hk)]
    rw [symbolsHeld, bitmap, List.getD_eq_getElem?_getD, List.getD_eq_getElem?_getD,
      List.getElem?_eq_getElem hk, List.getElem?_eq_getElem (hlen ▸ hk)] at hc
    simpa using hc
  · rw [List.getElem?_eq_none (by omega), List.getElem?_eq_none (by omega)]
    rfl

lemma Recorded.setBit (h : d.Recorded) {k : ℕ} (hk : k < d.chunkMap.blocks.length) {s : UInt32}
    (hs : s < d.params.totalSymbolsPerBlock) (hb : Bitmap.bit (d.bitmap k) s.toNat = false) :
    (d.setBit k s.toNat).Recorded := by
  have hlt := d.lt_of_lt_total hk hs
  have hs' : s.toNat < d.params.totalSymbolsPerBlock.toNat := hs
  constructor
  · intro j
    rw [symbolsHeld_setBit d hk, bitmap_setBit]
    by_cases hj : k = j
    · subst hj
      have hset := Bitmap.popcount_set hlt hb
      have hle := h.count_eq k
      -- the clear bit keeps the counter below the session's total, so it does not wrap
      have hroom : (d.symbolsHeld k).toNat + 1 ≤ d.params.totalSymbolsPerBlock.toNat := by
        rw [hle, ← hset]
        refine Bitmap.popcount_le fun i hi => ?_
        rw [Bitmap.bit_set hlt, h.bit_eq_false k i hi]
        simp only [Bool.false_or, decide_eq_false_iff_not]
        omega
      have hmax := d.params.totalSymbolsPerBlock.toNat_lt
      rw [if_pos rfl, if_pos rfl, hset, ← hle, UInt32.toNat_add, UInt32.toNat_one,
        Nat.mod_eq_of_lt (by omega)]
    · rw [if_neg hj, if_neg hj, h.count_eq]
  · intro m j hj
    rw [setBit_toPipeline] at hj
    rw [bitmap_setBit]
    by_cases hm : k = m
    · subst hm
      rw [if_pos rfl, Bitmap.bit_set hlt, h.bit_eq_false k j hj]
      simp only [Bool.false_or, decide_eq_false_iff_not]
      omega
    · rw [if_neg hm, h.bit_eq_false m j hj]

lemma Recorded.markHeld (h : d.Recorded) {k : ℕ} (hk : k < d.chunkMap.blocks.length)
    (s : UInt32) : (d.markHeld k s).1.Recorded := by
  rcases d.markHeld_cases k s with ⟨-, he⟩ | ⟨hs, hb, he⟩
  · rwa [he]
  · rw [he]
    exact h.setBit hk hs hb

lemma Recorded.accept (h : d.Recorded) (bytes : Str) : (d.accept b3 bytes).2.Recorded := by
  cases hs : d.screen b3 bytes with
  | error e => rwa [d.accept_of_error hs]
  | ok frame =>
    have hk := ((Pipeline.screen_eq_ok_iff b3 d.toPipeline).mp hs).2.blockIndex_lt
    have hm := h.markHeld hk frame.header.symbolIndex
    have hp : (d.accept b3 bytes).2.params =
        (d.markHeld frame.header.blockIndex.toNat frame.header.symbolIndex).1.params := by
      rw [accept_toPipeline, (d.markHeld_eq _ _).1]
    constructor
    · intro k
      rw [symbolsHeld_accept_of_ok d hs, bitmap_accept_of_ok d hs, hm.count_eq]
    · intro k j hj
      rw [bitmap_accept_of_ok d hs]
      exact hm.bit_eq_false k j (by rwa [← hp])

lemma Recorded.run (h : d.Recorded) (frames : List Str) : (d.run b3 frames).Recorded := by
  induction frames generalizing d with
  | nil => exact h
  | cons bytes frames ih => exact ih (h.accept bytes)

/-! ### Progress -/

variable (d)

lemma bit_run_of_bit (frames : List Str) {k j : ℕ} (h : Bitmap.bit (d.bitmap k) j = true) :
    Bitmap.bit ((d.run b3 frames).bitmap k) j = true := by
  rw [run_bit, h, Bool.true_or]

lemma symbolsHeld_le_accept (h : d.Recorded) (bytes : Str) (k : ℕ) :
    d.symbolsHeld k ≤ (d.accept b3 bytes).2.symbolsHeld k := by
  cases hs : d.screen b3 bytes with
  | error e =>
    rw [d.accept_of_error hs]
    exact UInt32.le_refl _
  | ok frame =>
    have hk := ((Pipeline.screen_eq_ok_iff b3 d.toPipeline).mp hs).2.blockIndex_lt
    have hr := h.markHeld hk frame.header.symbolIndex
    rw [symbolsHeld_accept_of_ok d hs]
    rcases d.markHeld_cases frame.header.blockIndex.toNat frame.header.symbolIndex with
      ⟨-, he⟩ | ⟨hlt, hb, he⟩
    · rw [he]
      exact UInt32.le_refl _
    · rw [he] at hr ⊢
      by_cases hj : frame.header.blockIndex.toNat = k
      · have hset := Bitmap.popcount_set (d.lt_of_lt_total hk hlt) hb
        have h1 := hr.count_eq k
        rw [bitmap_setBit, if_pos hj, ← hj, hset, ← h.count_eq] at h1
        rw [UInt32.le_iff_toNat_le, ← hj, h1]
        omega
      · rw [symbolsHeld_setBit d hk, if_neg hj]
        exact UInt32.le_refl _

lemma symbolsHeld_le_run (h : d.Recorded) (frames : List Str) (k : ℕ) :
    d.symbolsHeld k ≤ (d.run b3 frames).symbolsHeld k := by
  induction frames generalizing d with
  | nil => exact UInt32.le_refl _
  | cons bytes frames ih =>
    exact UInt32.le_trans (d.symbolsHeld_le_accept h bytes k) (ih _ (h.accept bytes))

@[simp] lemma foldl_takeSymbol_done (data : Str) (packets : List rq.Packet) :
    packets.foldl takeSymbol (.done data : BlockState rq) = .done data := by
  induction packets with
  | nil => rfl
  | cons p packets ih => exact ih

/-- The bytes of a decoded block never change. -/
lemma blocks_run_of_done (frames : List Str) {k : ℕ} {data : Str}
    (h : d.blocks[k]? = some (.done data)) : (d.run b3 frames).blocks[k]? = some (.done data) := by
  rw [run_blocks, h, Option.map_some, foldl_takeSymbol_done]

/-! ### Completion -/

/-- The block has its bytes. -/
def isDoneAt (k : ℕ) : Bool := (d.blocks[k]?.map Latch.isDone).getD false

/-- The call completed a block. -/
def completes : AcceptResult → Bool
  | .ok (.blockComplete _) => true
  | _ => false

variable {d}

/-- What a call that does not panic does to the blocks: it completes the pending block it
names, or leaves every block as finished or unfinished as it was. -/
lemma accept_completion {bytes : Str} (hnp : (d.accept b3 bytes).1 ≠ .panic) :
    (∃ (i : UInt32) (decoder : rq.Decoder) (data : Str),
      (d.accept b3 bytes).1 = .ok (.blockComplete i) ∧
      d.blocks[i.toNat]? = some (.pending decoder) ∧
      (d.accept b3 bytes).2.blocks = d.blocks.set i.toNat (.done data)) ∨
    (completes (d.accept b3 bytes).1 = false ∧
      ((d.accept b3 bytes).2.blocks = d.blocks ∨ ∃ k decoder decoder',
        d.blocks[k]? = some (.pending decoder) ∧
        (d.accept b3 bytes).2.blocks = d.blocks.set k (.pending decoder'))) := by
  cases hs : d.screen b3 bytes with
  | error e =>
    rw [d.accept_of_error hs]
    exact .inr ⟨rfl, .inl rfl⟩
  | ok frame =>
    have hb := record_blocks d frame bytes
    rw [d.accept_of_ok hs] at hnp ⊢
    rcases (d.record frame bytes).addSymbol_cases frame with
      ⟨-, h⟩ | ⟨decoder, hp, ⟨decoder', -, h⟩ | ⟨decoder', data, -, -, h⟩ | ⟨decoder', -, -, h⟩⟩
    · rw [h]
      exact .inr ⟨rfl, .inl hb⟩
    · exact absurd (by rw [h]) hnp
    · rw [hb] at hp
      rw [h]
      exact .inl ⟨_, decoder, data, rfl, hp, by rw [setBlock_blocks, hb]⟩
    · rw [hb] at hp
      rw [h]
      exact .inr ⟨rfl, .inr ⟨_, decoder, decoder', hp, by rw [setBlock_blocks, hb]⟩⟩

lemma isDoneAt_of_set {d e : PipelineDecoder rq} {k : ℕ} {s t : BlockState rq}
    (hk : d.blocks[k]? = some s) (he : e.blocks = d.blocks.set k t) (j : ℕ) :
    e.isDoneAt j = if j = k then t.isDone else d.isDoneAt j := by
  have hlt := (List.getElem?_eq_some_iff.mp hk).1
  unfold isDoneAt
  rw [he, List.getElem?_set]
  by_cases hj : k = j
  · subst hj
    simp [hlt]
  · simp [hj, Ne.symm hj]

lemma isDoneAt_of_pending {k : ℕ} {decoder : rq.Decoder}
    (h : d.blocks[k]? = some (.pending decoder)) : d.isDoneAt k = false := by
  simp [isDoneAt, h, Latch.isDone]

/-- A call reports block `i` complete exactly when it finishes it. -/
lemma count_accept {bytes : Str} (hnp : (d.accept b3 bytes).1 ≠ .panic) (i : UInt32) :
    [(d.accept b3 bytes).1].count (.ok (.blockComplete i)) + (d.isDoneAt i.toNat).toNat =
      ((d.accept b3 bytes).2.isDoneAt i.toNat).toNat := by
  rcases accept_completion hnp with ⟨k, decoder, data, hr, hp, hb⟩ | ⟨hc, hb⟩
  · rw [isDoneAt_of_set hp hb, hr]
    by_cases hik : i = k
    · subst hik
      simp [isDoneAt_of_pending hp, Latch.isDone]
    · have hne : i.toNat ≠ k.toNat := fun h => hik (UInt32.toNat_inj.mp h)
      simp [hne, Ne.symm hik]
  · have hz : [(d.accept b3 bytes).1].count (.ok (.blockComplete i)) = 0 := by
      rw [List.count_eq_zero, List.mem_singleton]
      intro h
      rw [← h] at hc
      exact Bool.noConfusion hc
    rw [hz, Nat.zero_add]
    rcases hb with hb | ⟨k, decoder, decoder', hp, hb⟩
    · simp only [isDoneAt, hb]
    · rw [isDoneAt_of_set hp hb]
      split
      next h => rw [h, isDoneAt_of_pending hp]; rfl
      next => rfl

lemma count_results {frames : List Str} (hnp : .panic ∉ d.results b3 frames) (i : UInt32) :
    (d.results b3 frames).count (.ok (.blockComplete i)) + (d.isDoneAt i.toNat).toNat =
      ((d.run b3 frames).isDoneAt i.toNat).toNat := by
  induction frames generalizing d with
  | nil => simp [results]
  | cons bytes frames ih =>
    rw [results, List.mem_cons, not_or] at hnp
    have hstep := count_accept (Ne.symm hnp.1) i
    have hrest := ih hnp.2
    rw [results, List.count_cons, run_cons, ← hrest, ← hstep, List.count_singleton]
    omega

lemma countP_accept {bytes : Str} (hnp : (d.accept b3 bytes).1 ≠ .panic) :
    (d.accept b3 bytes).2.blocks.countP Latch.isDone =
      d.blocks.countP Latch.isDone + (completes (d.accept b3 bytes).1).toNat := by
  have hset : ∀ {k decoder} (t : BlockState rq), d.blocks[k]? = some (.pending decoder) →
      (d.blocks.set k t).countP Latch.isDone = d.blocks.countP Latch.isDone + t.isDone.toNat := by
    intro k decoder t hk
    obtain ⟨hlt, hget⟩ := List.getElem?_eq_some_iff.mp hk
    rw [List.countP_set hlt, hget]
    cases t <;> simp [Latch.isDone]
  rcases accept_completion hnp with
    ⟨k, decoder, data, hr, hp, hb⟩ | ⟨hc, hb | ⟨k, decoder, decoder', hp, hb⟩⟩
  · rw [hb, hset _ hp, hr]
    rfl
  · rw [hb, hc]
    rfl
  · rw [hb, hset _ hp, hc]
    rfl

lemma countP_results {frames : List Str} (hnp : .panic ∉ d.results b3 frames) :
    (d.run b3 frames).blocks.countP Latch.isDone =
      d.blocks.countP Latch.isDone + (d.results b3 frames).countP completes := by
  induction frames generalizing d with
  | nil => rfl
  | cons bytes frames ih =>
    rw [results, List.mem_cons, not_or] at hnp
    rw [run_cons, ih hnp.2, countP_accept (Ne.symm hnp.1), results, List.countP_cons]
    cases completes (d.accept b3 bytes).1 with
    | false => simp
    | true =>
      simp only [Bool.toNat_true, if_true]
      omega

lemma countP_start (p : Pipeline) :
    (start rq p).blocks.countP Latch.isDone =
      p.chunkMap.blocks.countP (fun block => block.size = 0) := by
  simp only [start, List.countP_map]
  congr 1
  funext block
  by_cases hb : block.size = 0 <;> simp [initialBlock, hb, Latch.isDone]

/-! ### The resume file of the moment -/

variable (d)

lemma length_blocks_lt : d.blocks.length < 2 ^ 32 := by
  have h := d.toPipeline.length_blocks_le
  rw [d.length_blocks]
  unfold maxBlockCount at h
  omega

lemma toNat_ofNat_blockIndex {k : ℕ} (hk : k < d.blocks.length) : (UInt32.ofNat k).toNat = k :=
  UInt32.toNat_ofNat_of_lt' (hk.trans d.length_blocks_lt)

lemma resumeEntry_getElem? {j : ℕ} {e : BlockEntry}
    (h : ((List.range d.blocks.length).map d.resumeEntry)[j]? = some e) :
    j < d.blocks.length ∧ e = d.resumeEntry j := by
  rw [List.getElem?_map, Option.map_eq_some_iff] at h
  obtain ⟨k, hk, rfl⟩ := h
  obtain ⟨hlt, rfl⟩ := List.getElem?_eq_some_iff.mp hk
  rw [List.length_range] at hlt
  rw [List.getElem_range]
  exact ⟨hlt, rfl⟩

variable {d}

lemma Recorded.wf_resumeEntry (h : d.Recorded) {k : ℕ} (hk : k < d.blocks.length) :
    (d.resumeEntry k).Wf where
  held_le := h.count_le k
  length_bitmap := d.length_bitmap_of_lt (by rwa [← d.length_blocks])
  popcount_eq := (h.count_eq k).symm
  bit_eq_false := fun j hj => h.bit_eq_false k j hj

/-- The resume file a receiver writes parses back to itself. -/
theorem Recorded.fromBytes_resumeState (h : d.Recorded) (journalBytes : UInt64) :
    ResumeFile.fromBytes b3 (d.resumeState b3 journalBytes).toVec =
      .ok (d.resumeState b3 journalBytes) := by
  apply ResumeFile.fromBytes_toVec
  · have hl : ((List.range d.blocks.length).map d.resumeEntry).length < 2 ^ 32 := by
      simpa using d.length_blocks_lt
    exact UInt32.toNat_ofNat_of_lt' hl
  · intro e he
    obtain ⟨k, hk, rfl⟩ := List.mem_map.mp he
    exact h.wf_resumeEntry (List.mem_range.mp hk)
  · intro j e he
    obtain ⟨hj, rfl⟩ := d.resumeEntry_getElem? he
    exact d.toNat_ofNat_blockIndex hj

lemma verifyEntry_eq_ok_iff {entry : BlockEntry} :
    d.verifyEntry entry = .ok () ↔ entry.symbolCount = d.params.totalSymbolsPerBlock ∧
      entry.symbolBitmap = d.bitmap entry.blockIndex.toNat := by
  by_cases hc : entry.symbolCount = d.params.totalSymbolsPerBlock
  · by_cases hb : entry.symbolBitmap = d.bitmap entry.blockIndex.toNat <;>
      simp [verifyEntry, hc, hb]
  · simp [verifyEntry, hc]

lemma verifyResume_eq_ok_iff {state : ResumeFile b3} :
    d.verifyResume state = .ok () ↔ state.header.sessionId = d.sessionId ∧
      state.header.blockCount = d.blockCount ∧
      state.header.journalDigest = d.journalDigest b3 ∧
      ∀ entry ∈ state.entries, entry.symbolCount = d.params.totalSymbolsPerBlock ∧
        entry.symbolBitmap = d.bitmap entry.blockIndex.toNat := by
  by_cases hs : state.header.sessionId = d.sessionId
  · by_cases hc : state.header.blockCount = d.blockCount
    · by_cases hj : state.header.journalDigest = d.journalDigest b3
      · simp only [verifyResume, hs, hc, hj, ne_eq, not_true_eq_false, if_false,
          Except.forM_eq_ok_iff, verifyEntry_eq_ok_iff, true_and]
      · simp [verifyResume, hs, hc, hj]
    · simp [verifyResume, hs, hc]
  · simp [verifyResume, hs]

/-- A decoder of the same session accepts the file exactly when its digest and its bitmaps are
those of the decoder that wrote it. -/
theorem verifyResume_resumeState_iff {e : PipelineDecoder rq} (he : e.toPipeline = d.toPipeline)
    (journalBytes : UInt64) :
    e.verifyResume (d.resumeState b3 journalBytes) = .ok () ↔
      d.journalDigest b3 = e.journalDigest b3 ∧
      ∀ k < d.blocks.length, d.bitmap k = e.bitmap k := by
  have hlen : e.blocks.length = d.blocks.length := by
    rw [e.length_blocks, d.length_blocks, he]
  rw [verifyResume_eq_ok_iff]
  constructor
  · rintro ⟨-, -, hj, hentries⟩
    refine ⟨hj, fun k hk => ?_⟩
    have hk' := (hentries (d.resumeEntry k)
      (List.mem_map.mpr ⟨k, List.mem_range.mpr hk, rfl⟩)).2
    rwa [resumeEntry, d.toNat_ofNat_blockIndex hk] at hk'
  · rintro ⟨hj, hbm⟩
    refine ⟨by rw [he]; rfl, ?_, hj, fun entry hentry => ?_⟩
    · rw [blockCount, hlen]
      simp [resumeState, ResumeFile.new, ResumeFile.build, ResumeHeader.new]
    · obtain ⟨k, hk, rfl⟩ := List.mem_map.mp hentry
      have hk' := List.mem_range.mp hk
      refine ⟨by rw [he]; rfl, ?_⟩
      rw [resumeEntry, d.toNat_ofNat_blockIndex hk']
      exact hbm k hk'

/-! ### The invariant of every run -/

lemma new_eq_ok {sessionId : Arr 16} {params : SessionParams} {sessionKey : Arr 32}
    (h : new rq sessionId params sessionKey = .ok d) :
    d = start rq d.toPipeline ∧ Pipeline.new sessionId params sessionKey = .ok d.toPipeline := by
  unfold new at h
  cases hp : Pipeline.new sessionId params sessionKey with
  | error e => simp [hp] at h
  | ok p =>
    simp only [hp, Except.ok.injEq] at h
    subst h
    exact ⟨rfl, rfl⟩

/-- At every point of every run from a new decoder in which no call panics: the counters count
the bitmaps, which hold no symbol beyond the session's; nothing held or decoded is lost later;
each block that became done reported it once; and the resume file of the moment parses back and
verifies. -/
theorem run_invariant {sessionId : Arr 16} {params : SessionParams}
    {sessionKey : Arr 32} {d₀ : PipelineDecoder rq}
    (h₀ : new rq sessionId params sessionKey = .ok d₀) {frames : List Str}
    (hnp : .panic ∉ d₀.results b3 frames) :
    let d := d₀.run b3 frames
    (∀ k : ℕ, d.heldCounts[k]?.map UInt32.toNat = d.held[k]?.map Bitmap.popcount) ∧
    (∀ k j, params.totalSymbolsPerBlock.toNat ≤ j → Bitmap.bit (d.bitmap k) j = false) ∧
    (∀ more k j, Bitmap.bit (d.bitmap k) j = true →
      Bitmap.bit ((d.run b3 more).bitmap k) j = true) ∧
    (∀ more k, d.symbolsHeld k ≤ (d.run b3 more).symbolsHeld k) ∧
    (∀ more (k : ℕ) data, d.blocks[k]? = some (.done data) →
      (d.run b3 more).blocks[k]? = some (.done data)) ∧
    (∀ i : UInt32, (d₀.results b3 frames).count (.ok (.blockComplete i)) =
      if d.isDoneAt i.toNat = true ∧ d₀.isDoneAt i.toNat = false then 1 else 0) ∧
    d.blocksComplete.toNat =
      d₀.chunkMap.blocks.countP (fun block => block.size = 0) +
        (d₀.results b3 frames).countP completes ∧
    ∀ journalBytes, ∃ file,
      ResumeFile.fromBytes b3 (d.resumeState b3 journalBytes).toVec = .ok file ∧
      file = d.resumeState b3 journalBytes ∧ d.verifyResume file = .ok () := by
  obtain ⟨hstart, hpipe⟩ := new_eq_ok h₀
  have hparams : d₀.params = params := (Pipeline.new_eq_ok hpipe).2.1
  have hrec : d₀.Recorded := by
    rw [hstart]
    exact recorded_start _
  have hr : (d₀.run b3 frames).Recorded := hrec.run frames
  have hpl : (d₀.run b3 frames).toPipeline = d₀.toPipeline := d₀.run_toPipeline frames
  intro d
  refine ⟨fun k => ?_, fun k j hj => ?_, fun more k j => d.bit_run_of_bit more,
    fun more k => d.symbolsHeld_le_run hr more k, fun more k data => d.blocks_run_of_done more,
    fun i => ?_, ?_, fun journalBytes => ?_⟩
  · rw [hr.heldCounts_map]
  · exact hr.bit_eq_false k j (by rwa [hpl, hparams])
  · have hc := count_results hnp i
    change _ = (d.isDoneAt i.toNat).toNat at hc
    cases h0 : d₀.isDoneAt i.toNat with
    | true =>
      have hle := (d.isDoneAt i.toNat).toNat_le
      rw [h0, Bool.toNat_true] at hc
      rw [if_neg (by simp)]
      omega
    | false =>
      rw [h0] at hc
      cases h1 : d.isDoneAt i.toNat <;> rw [h1] at hc <;> simpa using hc
  · have hlt := d.length_blocks_lt
    have hle : d.blocks.countP Latch.isDone ≤ d.blocks.length := List.countP_le_length
    have hcount := countP_results hnp
    change d.blocks.countP Latch.isDone = _ at hcount
    rw [blocksComplete, UInt32.toNat_ofNat_of_lt' (hle.trans_lt hlt), hcount, ← countP_start,
      ← hstart]
  · refine ⟨_, hr.fromBytes_resumeState journalBytes, rfl, ?_⟩
    exact (verifyResume_resumeState_iff rfl journalBytes).mpr ⟨rfl, fun _ _ => rfl⟩

theorem run_invariant_reference :
    let d := Reference.decoder.run Reference.b3 ([] :: Reference.frames)
    (∀ k : ℕ, d.heldCounts[k]?.map UInt32.toNat = d.held[k]?.map Bitmap.popcount) ∧
    d.blocksComplete.toNat =
      Reference.decoder.chunkMap.blocks.countP (fun block => block.size = 0) +
        (Reference.decoder.results Reference.b3 ([] :: Reference.frames)).countP completes := by
  have hnp : .panic ∉ Reference.decoder.results Reference.b3 ([] :: Reference.frames) := by
    decide +kernel
  have h := run_invariant Reference.new_decoder_eq hnp
  exact ⟨h.1, h.2.2.2.2.2.2.1⟩

end PipelineDecoder
end Dhow
