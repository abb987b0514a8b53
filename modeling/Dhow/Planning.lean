import Dhow.Recordable
import Mathlib.Order.Bounds.Basic

/-!
# The planner and the core

The planner of `cli.go` counts a block's symbols from the ciphertext's length, rounding up twice;
the core lays the blocks out and counts each one's. For every plan the two agree, and the core
takes it.
-/

namespace Dhow

/-- The session parameters of a plan, with those of RaptorQ and the digest its caller adds. -/
def DhowSessionParams.toSession (plan : DhowSessionParams) (raptorq : RaptorQParams)
    (payloadDigest : Bytes.Arr 32) : SessionParams :=
  { plan.toSessionParams with raptorq := raptorq, payloadDigest := payloadDigest }

/-- What a plan holds: nothing is lost in its machine words. -/
structure Plan (payloadLen symbolSize blocks overheadPct : ℕ) (plan : DhowSessionParams) :
    Prop where
  payloadSize_eq : plan.payloadSize.toNat = payloadLen + 16
  blockCount_eq : plan.blockCount.toNat = blocks
  symbolSize_eq : plan.symbolSize.toNat = symbolSize
  source_eq : plan.sourceSymbolsPerBlock.toNat = plannedSymbolCount payloadLen symbolSize blocks
  total_eq : plan.totalSymbolsPerBlock.toNat = plannedSymbolCount payloadLen symbolSize blocks +
    (plannedSymbolCount payloadLen symbolSize blocks * overheadPct / 100 + 4)

section
variable {payloadLen symbolSize blocks overheadPct : ℕ} {plan : DhowSessionParams}

lemma bounds_of_planSession
    (hplan : planSession payloadLen symbolSize blocks overheadPct = .ok plan) :
    (64 ≤ symbolSize ∧ symbolSize ≤ 65531) ∧ (0 < blocks ∧ blocks ≤ 1024) ∧
      overheadPct ≤ 500 := by
  unfold planSession at hplan
  split_ifs at hplan with hsize hblocks hover
  omega

lemma plan_of_planSession (hlen : payloadLen + 16 ≤ maxPayloadSize)
    (hplan : planSession payloadLen symbolSize blocks overheadPct = .ok plan) :
    Plan payloadLen symbolSize blocks overheadPct plan := by
  obtain ⟨⟨hsize, hsize'⟩, ⟨hblocks, hblocks'⟩, hover⟩ := bounds_of_planSession hplan
  have hmax : maxPayloadSize = 2 ^ 32 := rfl
  obtain ⟨hpos, hle⟩ := plannedSymbolCount_bounds payloadLen symbolSize blocks (by omega) hsize
    hblocks
  have hsource : ((payloadLen + 16 + blocks - 1) / blocks + symbolSize - 1) / symbolSize =
      plannedSymbolCount payloadLen symbolSize blocks := rfl
  have hrepair : plannedSymbolCount payloadLen symbolSize blocks * overheadPct ≤ 2 ^ 26 * 500 :=
    Nat.mul_le_mul hle hover
  unfold planSession at hplan
  rw [if_neg (by omega), if_neg (by omega), if_neg (by omega)] at hplan
  simp only [hsource, Except.ok.injEq] at hplan
  rw [if_neg (by omega)] at hplan
  subst hplan
  have hsize32 : UInt32.size = 2 ^ 32 := rfl
  have hsize64 : UInt64.size = 2 ^ 64 := rfl
  exact ⟨UInt64.toNat_ofNat_of_lt' (by omega), UInt32.toNat_ofNat_of_lt' (by omega),
    UInt32.toNat_ofNat_of_lt' (by omega), UInt32.toNat_ofNat_of_lt' (by omega),
    UInt32.toNat_ofNat_of_lt' (by omega)⟩

end

/-! ### The layout -/

/-- The layout fails on no other ground than a block with too many symbols. -/
lemma exists_computeBlocksFrom {params : ChunkParams}
    (h : ∀ i, params.symbolCount (params.blockSize i) ≤ 2 ^ 32 - 1) (left i offset : ℕ) :
    ∃ blocks, computeBlocksFrom params left i offset = .ok blocks := by
  induction left generalizing i offset with
  | zero => exact ⟨[], rfl⟩
  | succ left ih =>
    obtain ⟨rest, hrest⟩ := ih (i + 1) (offset + params.blockSize i)
    refine ⟨⟨i, offset, params.blockSize i, params.symbolCount (params.blockSize i)⟩ :: rest, ?_⟩
    rw [computeBlocksFrom, if_neg (Nat.not_lt.mpr (h i)), hrest]

lemma ChunkParams.blockSize_le (params : ChunkParams) (i : ℕ) :
    params.payloadSize ⌈/⌉ params.blockCount - 1 ≤ params.blockSize i ∧
      params.blockSize i ≤ params.payloadSize ⌈/⌉ params.blockCount := by
  simp only [blockSize, ceilDiv_eq_div_add params.blockCount_pos]
  generalize params.payloadSize / params.blockCount = q
  split_ifs <;> omega

lemma ChunkParams.symbolCount_eq (params : ChunkParams) (size : ℕ) :
    params.symbolCount size = size ⌈/⌉ params.symbolSize := by
  unfold symbolCount
  split_ifs with h
  · rw [h, zero_ceilDiv]
  · rfl

/-- One byte more is at most one symbol more. -/
lemma ceilDiv_pred_le {a n : ℕ} (hn : 0 < n) : a ⌈/⌉ n - 1 ≤ (a - 1) ⌈/⌉ n := by
  have hstep : a ⌈/⌉ n ≤ (a - 1) ⌈/⌉ n + 1 := by
    rw [ceilDiv_le_iff_le_mul hn, Nat.mul_add, Nat.mul_one]
    have := (ceilDiv_le_iff_le_mul hn).mp (le_refl ((a - 1) ⌈/⌉ n))
    omega
  omega

lemma ChunkMap.exists_new {params : ChunkParams}
    (h : ∀ i, params.symbolCount (params.blockSize i) ≤ 2 ^ 32 - 1) :
    ∃ map, ChunkMap.new params = .ok map := by
  obtain ⟨blocks, hblocks⟩ := exists_computeBlocksFrom h params.blockCount 0 0
  unfold new
  split
  next e he =>
    rw [computeBlocks, hblocks] at he
    cases he
  · exact ⟨_, rfl⟩

/-- Symbols of at least 64 bytes are few enough in every block. -/
lemma exists_chunkMapFor (params : SessionParams)
    (hpay : params.payloadSize.toNat ≤ maxPayloadSize)
    (hblocks : minBlockCount ≤ params.blockCount.toNat ∧ params.blockCount.toNat ≤ maxBlockCount)
    (hsize : 64 ≤ params.symbolSize.toNat ∧ params.symbolSize.toNat ≤ 65531) :
    ∃ map, chunkMapFor params = .ok map ∧
      map.params.payloadSize = params.payloadSize.toNat ∧
      map.params.blockCount = params.blockCount.toNat ∧
      map.params.symbolSize = params.symbolSize.toNat := by
  have hsize' : minSymbolSize ≤ params.symbolSize.toNat ∧
      params.symbolSize.toNat ≤ maxSymbolSize := by
    unfold minSymbolSize maxSymbolSize
    omega
  let chunkParams : ChunkParams :=
    ⟨params.payloadSize.toNat, params.blockCount.toNat, params.symbolSize.toNat, hpay, hblocks,
      hsize'⟩
  have hparams : ChunkParams.new params.payloadSize.toNat params.blockCount.toNat
      params.symbolSize.toNat = .ok chunkParams := by
    rw [ChunkParams.new, dif_neg (Nat.not_lt.mpr hpay), dif_pos hblocks, dif_pos hsize']
  have hcount (i : ℕ) : chunkParams.symbolCount (chunkParams.blockSize i) ≤ 2 ^ 32 - 1 := by
    have hfit : chunkParams.payloadSize ⌈/⌉ chunkParams.blockCount ≤ 2 ^ 32 := by
      rw [ceilDiv_le_iff_le_mul chunkParams.blockCount_pos]
      calc chunkParams.payloadSize ≤ 1 * 2 ^ 32 := hpay
        _ ≤ chunkParams.blockCount * 2 ^ 32 := Nat.mul_le_mul_right _ hblocks.1
    rw [chunkParams.symbolCount_eq, ceilDiv_le_iff_le_mul (Nat.lt_of_lt_of_le (by decide) hsize.1)]
    calc chunkParams.blockSize i ≤ 2 ^ 32 := (chunkParams.blockSize_le i).2.trans hfit
      _ ≤ 64 * (2 ^ 32 - 1) := by decide
      _ ≤ chunkParams.symbolSize * (2 ^ 32 - 1) := Nat.mul_le_mul_right _ hsize.1
  obtain ⟨map, hmap⟩ := ChunkMap.exists_new hcount
  have heq := ChunkMap.new_eq_ok hmap
  have hfor : chunkMapFor params = .ok map := by
    simp only [chunkMapFor, hparams, hmap]
  refine ⟨map, hfor, ?_, ?_, ?_⟩ <;> rw [heq]

/-- The symbols of the blocks of a layout: those of the largest, or one less. -/
lemma ChunkMap.symbolCount_bounds (map : ChunkMap) {block : BlockInfo} (hb : block ∈ map.blocks) :
    block.symbolCount ≤ map.params.payloadSize ⌈/⌉ map.params.blockCount ⌈/⌉ map.params.symbolSize ∧
      map.params.payloadSize ⌈/⌉ map.params.blockCount ⌈/⌉ map.params.symbolSize - 1 ≤
        block.symbolCount := by
  have hpos : 0 < map.params.symbolSize := map.params.symbolSize_mem.1
  obtain ⟨i, hi⟩ := List.mem_iff_getElem?.mp hb
  obtain ⟨hge, hle⟩ := map.params.blockSize_le i
  rw [map.eq_blockAt hi]
  change map.params.symbolCount _ ≤ _ ∧ _ ≤ map.params.symbolCount _
  rw [map.params.symbolCount_eq]
  have hmono := (gc_mul_ceilDiv hpos).monotone_l
  exact ⟨hmono hle, (ceilDiv_pred_le hpos).trans (hmono hge)⟩

lemma ChunkMap.isGreatest_symbolCount (map : ChunkMap) :
    IsGreatest {n | ∃ block ∈ map.blocks, block.symbolCount = n}
      (map.params.payloadSize ⌈/⌉ map.params.blockCount ⌈/⌉ map.params.symbolSize) := by
  constructor
  · obtain ⟨block, hb, hsize⟩ := map.exists_first
    obtain ⟨i, hi⟩ := List.mem_iff_getElem?.mp hb
    refine ⟨block, hb, ?_⟩
    rw [← hsize, map.eq_blockAt hi]
    exact map.params.symbolCount_eq _
  · rintro n ⟨block, hb, rfl⟩
    exact (map.symbolCount_bounds hb).1

/-- For a ciphertext of at most 4 GiB the planner loses no bits, the core takes its plan, and the
planned source symbols are those of the largest block; no block has less but for one, and four or
more symbols are left for repair. -/
theorem planSession_agrees {payloadLen symbolSize blocks overheadPct : ℕ}
    {plan : DhowSessionParams} (hlen : payloadLen + 16 ≤ maxPayloadSize)
    (hplan : planSession payloadLen symbolSize blocks overheadPct = .ok plan) :
    Plan payloadLen symbolSize blocks overheadPct plan ∧
      4 ≤ plan.totalSymbolsPerBlock.toNat - plan.sourceSymbolsPerBlock.toNat ∧
      ∀ raptorq digest sessionId sessionKey, ∃ p : Pipeline,
        Pipeline.new sessionId (plan.toSession raptorq digest) sessionKey = .ok p ∧
        IsGreatest {n | ∃ block ∈ p.chunkMap.blocks, block.symbolCount = n}
          plan.sourceSymbolsPerBlock.toNat ∧
        ∀ block ∈ p.chunkMap.blocks, block.symbolCount ≤ plan.sourceSymbolsPerBlock.toNat ∧
          (plan.sourceSymbolsPerBlock.toNat - 1 ≤ block.symbolCount ∨
            block.size = 0 ∧ block.symbolCount = 0) := by
  have h := plan_of_planSession hlen hplan
  obtain ⟨hsize, hblocks, -⟩ := bounds_of_planSession hplan
  have hle : plan.sourceSymbolsPerBlock.toNat ≤ plan.totalSymbolsPerBlock.toNat := by
    rw [h.source_eq, h.total_eq]
    exact Nat.le_add_right _ _
  refine ⟨h, by rw [h.total_eq, h.source_eq]; omega, fun raptorq digest sessionId sessionKey => ?_⟩
  set params := plan.toSession raptorq digest with hparams
  have hpay : params.payloadSize.toNat = payloadLen + 16 := h.payloadSize_eq
  have hcount : params.blockCount.toNat = blocks := h.blockCount_eq
  have hsymbol : params.symbolSize.toNat = symbolSize := h.symbolSize_eq
  have hvalid : validateParams params = .ok () := by
    have hok : params.validate = .ok () := by
      have hzero : (0 : UInt32).toNat = 0 := rfl
      refine params.validate_eq_ok_iff.mpr ⟨fun he => ?_, fun he => ?_, hle⟩
      · rw [he, hzero] at hcount
        omega
      · rw [he, hzero] at hsymbol
        omega
    have hmax : maxFecSymbolSize = 65531 := rfl
    rw [validateParams, hok]
    exact if_pos ⟨hsymbol ▸ hsize.1, hmax ▸ hsymbol ▸ hsize.2⟩
  obtain ⟨map, hmap, hpay', hcount', hsymbol'⟩ := exists_chunkMapFor params
    (by rw [hpay]; exact hlen) (by rw [hcount]; exact hblocks) (by rw [hsymbol]; exact hsize)
  obtain ⟨p, hp⟩ := Pipeline.exists_new sessionId sessionKey hvalid hmap
  obtain ⟨-, hpparams, -⟩ := Pipeline.new_eq_ok hp
  have hpmap : p.chunkMap = map := by
    have heq := p.chunkMap_eq
    rw [hpparams, hmap, Except.ok.injEq] at heq
    exact heq.symm
  have hsource : plan.sourceSymbolsPerBlock.toNat =
      map.params.payloadSize ⌈/⌉ map.params.blockCount ⌈/⌉ map.params.symbolSize := by
    rw [h.source_eq, hpay', hcount', hsymbol', hpay, hcount, hsymbol]
    rfl
  refine ⟨p, hp, ?_, fun block hb => ?_⟩
  · rw [hpmap, hsource]
    exact map.isGreatest_symbolCount
  · rw [hpmap] at hb
    obtain ⟨hupper, hlower⟩ := map.symbolCount_bounds hb
    rw [hsource]
    exact ⟨hupper, .inl hlower⟩

-- A ciphertext of 130 bytes in one block of symbols of 64 bytes.
theorem planSession_agrees_one_block :
    ∃ plan, planSession 114 64 1 0 = .ok plan ∧ Plan 114 64 1 0 plan :=
  ⟨Reference.planOf 64 3, rfl, (planSession_agrees (by decide) rfl).1⟩

end Dhow
