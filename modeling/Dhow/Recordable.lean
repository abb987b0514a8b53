import Dhow.Binding
import Dhow.Send
import Dhow.SourceBlocks
import Mathlib.Algebra.BigOperators.Group.Finset.Basic

/-!
# Recordable frames

The sender numbers the symbols of a block as RaptorQ emits them; the receiver's bitmap has the
number of symbols the planner counted. The two agree exactly on the plans whose symbol size
rounds to RaptorQ's alignment without adding a symbol and whose blocks RaptorQ does not split.
-/

namespace Dhow
open Bytes

/-- What the encoder relies on of the numbers of one block's packets: `Z` source blocks, each
with its source symbols and then its repair symbols. -/
structure RaptorQ.Counts (rq : RaptorQ) (block : Str) (mtu : UInt16) (repair : ℕ) : Prop where
  symbolSize_eq : rq.symbolSize (rq.withDefaults block.length mtu) = alignedSymbolSize mtu.toNat
  sourceBlocks_eq : rq.sourceBlocks (rq.withDefaults block.length mtu) =
    sourceBlockCount block.length mtu.toNat
  encodedPackets_eq : ∃ parts : List (List rq.Packet × List rq.Packet),
    parts.length = rq.sourceBlocks (rq.withDefaults block.length mtu) ∧
    (parts.map fun part => part.1.length).sum = alignedSymbolCount block.length mtu.toNat ∧
    (∀ part ∈ parts, part.2.length = repair) ∧
    rq.encodedPackets (rq.withDefaults block.length mtu) block repair =
      parts.flatMap fun part => part.1 ++ part.2

lemma RaptorQ.Counts.length_encodedPackets {rq : RaptorQ} {block : Str} {mtu : UInt16}
    {repair : ℕ} (h : rq.Counts block mtu repair) :
    (rq.encodedPackets (rq.withDefaults block.length mtu) block repair).length =
      alignedSymbolCount block.length mtu.toNat +
        sourceBlockCount block.length mtu.toNat * repair := by
  obtain ⟨parts, hlen, hsource, hrepair, heq⟩ := h.encodedPackets_eq
  have hcount : ∀ ps : List (List rq.Packet × List rq.Packet),
      (∀ part ∈ ps, part.2.length = repair) →
        (ps.flatMap fun part => part.1 ++ part.2).length =
          (ps.map fun part => part.1.length).sum + ps.length * repair := by
    intro ps hps
    induction ps with
    | nil => simp
    | cons part ps ih =>
      have hpart := hps part List.mem_cons_self
      have hrest := ih fun q hq => hps q (List.mem_cons_of_mem _ hq)
      rw [List.flatMap_cons, List.length_append, List.length_append, hrest, hpart, List.map_cons,
        List.sum_cons, List.length_cons, Nat.add_mul]
      omega
  rw [heq, hcount parts hrepair, hsource, hlen, h.sourceBlocks_eq]

namespace Pipeline
variable {b3 : Blake3} {rq : RaptorQ} {p : Pipeline} {payload : Str}

/-- What the encoder relies on of RaptorQ for every block of a payload. -/
def CountsPackets (rq : RaptorQ) (p : Pipeline) (payload : Str) : Prop :=
  ∀ block ∈ p.chunkMap.blocks, block.size ≠ 0 →
    rq.Counts (ChunkMap.blockBytes payload block) p.params.symbolSize.toUInt16 p.repairCount

lemma toNat_toUInt16_symbolSize (p : Pipeline) :
    p.params.symbolSize.toUInt16.toNat = p.params.symbolSize.toNat := by
  have hlt : p.params.symbolSize.toNat < 2 ^ 16 := by
    have := p.symbolSize_bounds.2
    unfold maxFecSymbolSize maxPayloadLen payloadIdLen at this
    omega
  rw [UInt32.toNat_toUInt16, Nat.mod_eq_of_lt hlt]

/-- The number of frames of a block. -/
lemma length_packets (hrq : p.CountsPackets rq payload)
    (hp : payload.length = p.chunkMap.params.payloadSize) {block : BlockInfo}
    (hb : block ∈ p.chunkMap.blocks) (hs : block.size ≠ 0) :
    (p.packets rq payload block).length =
      alignedSymbolCount block.size p.params.symbolSize.toNat +
        sourceBlockCount block.size p.params.symbolSize.toNat * p.repairCount := by
  have h := (hrq block hb hs).length_encodedPackets
  rw [p.chunkMap.length_blockBytes hp hb, p.toNat_toUInt16_symbolSize] at h
  exact h

/-- The frames of the encoder are those of the packets of the blocks. -/
lemma mem_encode {frames : List PreparedFrame} (h : p.encode b3 rq payload = .ok frames)
    {f : PreparedFrame} : f ∈ frames ↔ ∃ block ∈ p.chunkMap.blocks, block.size ≠ 0 ∧
      ∃ entry ∈ (p.packets rq payload block).zipIdx, p.frameFor b3 rq block entry = .ok f := by
  have hbytes : p.encodeToBytes b3 rq payload = .ok (frames.map fun f => f.frame.toVec) := by
    rw [encodeToBytes, h]
  have hp := payload_length_of_encode hbytes
  unfold encode at h
  rw [if_neg (not_not.mpr (hp.trans p.chunkMap_params.1))] at h
  cases hm : p.chunkMap.blocks.mapM (p.blockFrames b3 rq payload) with
  | error e => simp [hm] at h
  | ok perBlock =>
    simp only [hm, Except.ok.injEq] at h
    have hframes : ∀ block ∈ p.chunkMap.blocks, block.size ≠ 0 →
        p.blockFrames b3 rq payload block =
          (p.packets rq payload block).zipIdx.mapM (p.frameFor b3 rq block) := by
      intro block hb hs
      obtain ⟨i, hi⟩ := List.mem_iff_getElem?.mp hb
      have hidx : block.index = i := by rw [p.chunkMap.eq_blockAt hi]; rfl
      rw [blockFrames, if_neg hs, hidx, p.chunkMap.extractBlock_eq hp hi]
      rfl
    subst h
    rw [(interleave_perm perBlock).mem_iff, List.mem_flatten]
    constructor
    · rintro ⟨fs, hfs, hf⟩
      obtain ⟨block, hb, hok⟩ := (Except.mem_of_mapM hm).mp hfs
      by_cases hs : block.size = 0
      · rw [blockFrames, if_pos hs] at hok
        cases hok
        simp at hf
      · rw [hframes block hb hs] at hok
        exact ⟨block, hb, hs, (Except.mem_of_mapM hok).mp hf⟩
    · rintro ⟨block, hb, hs, entry, hentry, hok⟩
      obtain ⟨i, hi⟩ := List.mem_iff_getElem?.mp hb
      obtain ⟨fs, hfs, hfsok⟩ := Except.getElem?_of_mapM hm hi
      rw [hframes block hb hs] at hfsok
      exact ⟨fs, List.mem_of_getElem? hfs, (Except.mem_of_mapM hfsok).mpr ⟨entry, hentry, hok⟩⟩

/-- A session encodes a payload of its size whose packets all fit a frame. -/
lemma exists_encode (hp : payload.length = p.chunkMap.params.payloadSize)
    (h : ∀ block ∈ p.chunkMap.blocks, ∀ packet ∈ p.packets rq payload block,
      (rq.serialize packet).length ≤ maxPayloadLen) :
    ∃ frames, p.encode b3 rq payload = .ok frames := by
  obtain ⟨perBlock, hm⟩ := Except.exists_mapM_eq_ok (f := p.blockFrames b3 rq payload)
    (l := p.chunkMap.blocks) (by
      intro block hb
      by_cases hs : block.size = 0
      · exact ⟨[], by rw [blockFrames, if_pos hs]⟩
      · obtain ⟨i, hi⟩ := List.mem_iff_getElem?.mp hb
        have hidx : block.index = i := by rw [p.chunkMap.eq_blockAt hi]; rfl
        rw [blockFrames, if_neg hs, hidx, p.chunkMap.extractBlock_eq hp hi]
        apply Except.exists_mapM_eq_ok
        intro entry hentry
        have hmem := List.mem_of_getElem? (List.mem_zipIdx_iff_getElem?.mp hentry)
        exact ⟨_, frameFor_eq_ok_iff.mpr ⟨h block hb _ hmem, rfl⟩⟩)
  exact ⟨interleave perBlock, by
    rw [encode, if_neg (not_not.mpr (hp.trans p.chunkMap_params.1)), hm]⟩

/-- Every index below the number of a block's packets is carried by a frame. -/
lemma exists_mem_encode {frames : List PreparedFrame} (h : p.encode b3 rq payload = .ok frames)
    {block : BlockInfo} (hb : block ∈ p.chunkMap.blocks) (hs : block.size ≠ 0) {j : ℕ}
    (hj : j < (p.packets rq payload block).length) :
    ∃ f ∈ frames, f.frame.header.symbolIndex = UInt32.ofNat j := by
  have hbytes : p.encodeToBytes b3 rq payload = .ok (frames.map fun f => f.frame.toVec) := by
    rw [encodeToBytes, h]
  obtain ⟨i, hi⟩ := List.mem_iff_getElem?.mp hb
  have hpacket : (p.packets rq payload block)[j] ∈ p.packets rq payload block :=
    List.getElem_mem hj
  obtain ⟨-, -, -, -, -, -, hle, -⟩ := exists_frame_of_packet hbytes hi hs hpacket
  have hentry : ((p.packets rq payload block)[j], j) ∈ (p.packets rq payload block).zipIdx := by
    rw [List.mem_zipIdx_iff_getElem?]
    exact List.getElem?_eq_getElem hj
  exact ⟨_, (mem_encode h).mpr ⟨block, hb, hs, _, hentry, frameFor_eq_ok_iff.mpr ⟨hle, rfl⟩⟩, rfl⟩

/-! ### Positions of genuine frames -/

/-- The block and the symbol a byte string names. -/
def position (b3 : Blake3) (p : Pipeline) (bytes : Str) : ℕ × ℕ :=
  match p.screen b3 bytes with
  | .error _ => (0, 0)
  | .ok f => (f.header.blockIndex.toNat, f.header.symbolIndex.toNat)

lemma position_of_screen {bytes : Str} {f : Frame} (h : p.screen b3 bytes = .ok f) :
    p.position b3 bytes = (f.header.blockIndex.toNat, f.header.symbolIndex.toNat) := by
  rw [position, h]

lemma IsSymbolFrame.position_eq {bytes : Str} {i j : ℕ} {block : BlockInfo} {packet : rq.Packet}
    (h : p.IsSymbolFrame b3 rq payload bytes i j block packet) (hj : j < 2 ^ 32) {f : Frame}
    (hs : p.screen b3 bytes = .ok f) : p.position b3 bytes = (i, j) := by
  have hi : i < 2 ^ 32 := by
    have hlt := h.index_lt
    have hmax := p.length_blocks_le
    unfold maxBlockCount at hmax
    omega
  obtain ⟨hle, rfl⟩ := h.frame_eq
  have hparse := Frame.fromBytes_build b3 p.sessionKey .repair p.sessionId (UInt32.ofNat i)
    (UInt32.ofNat j) (rq.serialize packet) hle []
  simp only [List.append_nil, ((screen_eq_ok_iff b3 p).mp hs).1, Except.ok.injEq] at hparse
  rw [position_of_screen hs, hparse]
  exact Prod.ext (UInt32.toNat_ofNat_of_lt' hi) (UInt32.toNat_ofNat_of_lt' hj)

/-- A position determines its genuine frame. -/
lemma IsSymbolFrame.bytes_eq {bytes bytes' : Str} {i j : ℕ} {block block' : BlockInfo}
    {packet packet' : rq.Packet} (h : p.IsSymbolFrame b3 rq payload bytes i j block packet)
    (h' : p.IsSymbolFrame b3 rq payload bytes' i j block' packet') : bytes = bytes' := by
  have hb := h.block_eq
  rw [h'.block_eq, Option.some.injEq] at hb
  subst hb
  have hp := h.packet_eq
  rw [h'.packet_eq, Option.some.injEq] at hp
  subst hp
  obtain ⟨-, rfl⟩ := h.frame_eq
  obtain ⟨-, rfl⟩ := h'.frame_eq
  rfl

end Pipeline

namespace PipelineDecoder
variable {b3 : Blake3} {rq : RaptorQ} {p : Pipeline} {payload : Str}

lemma card_filter_range (q : ℕ → Bool) (n : ℕ) :
    ((Finset.range n).filter fun j => q j = true).card = (List.range n).countP q := by
  change ((List.range n).filter fun j => decide (q j = true)).length = _
  simp [List.countP_eq_length_filter]

/-- A counter of a run counts the positions its strings name in that block. -/
lemma symbolsHeld_run_start (taken : List Str) {k : ℕ} (hk : k < p.chunkMap.blocks.length) :
    (((start rq p).run b3 taken).symbolsHeld k).toNat =
      ((Finset.range p.params.totalSymbolsPerBlock.toNat).filter
        fun j => p.names b3 k j taken = true).card := by
  have hrun : ((start rq p).run b3 taken).toPipeline = p := run_toPipeline _ _
  have hlen : p.params.totalSymbolsPerBlock.toNat ≤
      8 * (((start rq p).run b3 taken).bitmap k).length := by
    rw [length_bitmap_of_lt _ (by rw [hrun]; exact hk), hrun]
    unfold SessionParams.bitmapLen
    omega
  have hout : ∀ j, p.names b3 k j taken = true → j < p.params.totalSymbolsPerBlock.toNat :=
    fun j h => (Pipeline.names_eq_true_iff.mp h).1
  have hfilter : (Finset.range (8 * (((start rq p).run b3 taken).bitmap k).length)).filter
      (fun j => p.names b3 k j taken = true) =
        (Finset.range p.params.totalSymbolsPerBlock.toNat).filter
          fun j => p.names b3 k j taken = true := by
    ext j
    simp only [Finset.mem_filter, Finset.mem_range]
    exact ⟨fun h => ⟨hout j h.2, h.2⟩, fun h => ⟨h.1.trans_le hlen, h.2⟩⟩
  rw [((recorded_start p).run taken).count_eq, Bitmap.popcount_eq_countP, ← hfilter]
  have hbit : (fun j => Bitmap.bit (((start rq p).run b3 taken).bitmap k) j) =
      fun j => p.names b3 k j taken := by
    funext j
    exact bit_run_start rq taken k j
  rw [hbit]
  exact (card_filter_range _ _).symm

/-- With every index inside the bitmap, the counters count the distinct genuine frames. -/
lemma sum_symbolsHeld {frames : List Str} (hf : p.encodeToBytes b3 rq payload = .ok frames)
    (hlt : ∀ {bytes : Str} {i j : ℕ} {block : BlockInfo} {packet : rq.Packet},
      p.IsSymbolFrame b3 rq payload bytes i j block packet →
        j < p.params.totalSymbolsPerBlock.toNat)
    {taken : List Str} (ht : taken ⊆ frames) (hok : (start rq p).AllOk b3 taken) :
    ∑ k ∈ Finset.range p.chunkMap.blocks.length,
      (((start rq p).run b3 taken).symbolsHeld k).toNat = taken.dedup.length := by
  have hpos : ∀ bytes ∈ taken, ∃ (i j : ℕ) (block : BlockInfo) (packet : rq.Packet) (f : Frame),
      p.IsSymbolFrame b3 rq payload bytes i j block packet ∧ p.screen b3 bytes = .ok f ∧
        p.position b3 bytes = (i, j) := by
    intro bytes hb
    obtain ⟨i, j, block, packet, hframe⟩ := (Pipeline.mem_encodeToBytes hf).mp (ht hb)
    have hj : j < 2 ^ 32 := (hlt hframe).trans p.params.totalSymbolsPerBlock.toNat_lt
    have hmem : bytes ∈ p.taken b3 taken := hok.taken_eq.symm ▸ hb
    rw [Pipeline.taken, List.mem_filter] at hmem
    cases hs : p.screen b3 bytes with
    | error e => simp [hs, Except.isOk, Except.toBool] at hmem
    | ok f => exact ⟨i, j, block, packet, f, hframe, rfl, hframe.position_eq hj hs⟩
  have hinj : ∀ a ∈ taken, ∀ b ∈ taken, p.position b3 a = p.position b3 b → a = b := by
    intro a ha b hb hab
    obtain ⟨i, j, block, packet, f, hframe, -, he⟩ := hpos a ha
    obtain ⟨i', j', block', packet', f', hframe', -, he'⟩ := hpos b hb
    rw [he, he'] at hab
    cases hab
    exact hframe.bytes_eq hframe'
  have hblock : ∀ a ∈ taken.toFinset,
      (p.position b3 a).1 ∈ Finset.range p.chunkMap.blocks.length := by
    intro a ha
    obtain ⟨i, j, block, packet, f, hframe, -, he⟩ := hpos a (List.mem_toFinset.mp ha)
    rw [he]
    exact Finset.mem_range.mpr hframe.index_lt
  rw [← List.card_toFinset, Finset.card_eq_sum_card_fiberwise hblock]
  apply Finset.sum_congr rfl
  intro k hk
  have hnames : (Finset.range p.params.totalSymbolsPerBlock.toNat).filter
      (fun j => p.names b3 k j taken = true) =
        (taken.toFinset.filter fun a => (p.position b3 a).1 = k).image
          fun a => (p.position b3 a).2 := by
    ext j
    simp only [Finset.mem_filter, Finset.mem_range, Finset.mem_image, List.mem_toFinset,
      Pipeline.names_eq_true_iff]
    constructor
    · rintro ⟨-, -, bytes, hb, f, hs, hkk, hjj⟩
      refine ⟨bytes, ⟨hb, ?_⟩, ?_⟩
      · rw [Pipeline.position_of_screen hs, hkk]
      · rw [Pipeline.position_of_screen hs, hjj]
    · rintro ⟨bytes, ⟨hb, hkk⟩, hjj⟩
      obtain ⟨i, j', block, packet, f, hframe, hs, he⟩ := hpos bytes hb
      have hf' := Pipeline.position_of_screen hs
      have hj : j < p.params.totalSymbolsPerBlock.toNat := by
        rw [he] at hjj
        rw [← hjj]
        exact hlt hframe
      rw [hf'] at hkk hjj
      exact ⟨hj, hj, bytes, hb, f, hs, hkk, hjj⟩
  rw [symbolsHeld_run_start taken (Finset.mem_range.mp hk), hnames]
  apply Finset.card_image_of_injOn
  intro a ha b hb hab
  simp only [Finset.coe_filter, List.mem_toFinset, Set.mem_ofPred_eq] at ha hb
  exact hinj a ha.1 b hb.1 (Prod.ext (ha.2.trans hb.2.symm) hab)

end PipelineDecoder

/-! ### Planned sessions -/

/-- The emitted frames are inside the receiver's bitmaps, and its counters count them. -/
structure Pipeline.Recordable (b3 : Blake3) (rq : RaptorQ) (p : Pipeline)
    (frames : List PreparedFrame) : Prop where
  index_lt : ∀ f ∈ frames, f.frame.header.symbolIndex < p.params.totalSymbolsPerBlock
  sum_eq : ∀ taken ⊆ frames.map (fun f => f.frame.toVec),
    (PipelineDecoder.start rq p).AllOk b3 taken →
      ∑ k ∈ Finset.range p.chunkMap.blocks.length,
        (((PipelineDecoder.start rq p).run b3 taken).symbolsHeld k).toNat = taken.dedup.length

/-- The symbols the planner counts in a block: the largest block over the symbol size. -/
def plannedSymbolCount (payloadLen symbolSize blocks : ℕ) : ℕ :=
  (payloadLen + 16) ⌈/⌉ blocks ⌈/⌉ symbolSize

/-- What a session of a plan has of the plan. -/
structure Pipeline.Planned (p : Pipeline) (payloadLen symbolSize blocks : ℕ) : Prop where
  payloadSize_eq : p.chunkMap.params.payloadSize = payloadLen + 16
  blockCount_eq : p.chunkMap.params.blockCount = blocks
  symbolSize_eq : p.params.symbolSize.toNat = symbolSize
  repair_ge : 4 ≤ p.repairCount
  total_eq : p.params.totalSymbolsPerBlock.toNat =
    plannedSymbolCount payloadLen symbolSize blocks + p.repairCount

/-- The planner counts at least one symbol, and few enough for `u32`. -/
lemma plannedSymbolCount_bounds (payloadLen symbolSize blocks : ℕ)
    (hlen : payloadLen + 16 ≤ 2 ^ 32) (hsize : 64 ≤ symbolSize) (hblocks : 0 < blocks) :
    0 < plannedSymbolCount payloadLen symbolSize blocks ∧
      plannedSymbolCount payloadLen symbolSize blocks ≤ 2 ^ 26 := by
  unfold plannedSymbolCount
  constructor
  · by_contra h
    have hzero : (payloadLen + 16) ⌈/⌉ blocks ⌈/⌉ symbolSize ≤ 0 := Nat.le_of_not_lt h
    rw [ceilDiv_le_iff_le_mul (by omega), ceilDiv_le_iff_le_mul hblocks, Nat.mul_zero,
      Nat.mul_zero] at hzero
    omega
  · rw [ceilDiv_le_iff_le_mul (by omega), ceilDiv_le_iff_le_mul hblocks]
    calc payloadLen + 16 ≤ 1 * (64 * 2 ^ 26) := hlen
      _ ≤ blocks * (symbolSize * 2 ^ 26) :=
        Nat.mul_le_mul hblocks (Nat.mul_le_mul_right _ hsize)

lemma planned_of_planSession {payloadLen symbolSize blocks overheadPct : ℕ}
    {params : DhowSessionParams} {digest : Arr 32} {sessionId : Arr 16} {sessionKey : Arr 32}
    {p : Pipeline} (hlen : payloadLen < 2 ^ 63)
    (hplan : planSession payloadLen symbolSize blocks overheadPct = .ok params)
    (hnew : Pipeline.new sessionId { params with payloadDigest := digest }.toSessionParams
      sessionKey = .ok p) : p.Planned payloadLen symbolSize blocks := by
  obtain ⟨-, hparams, -⟩ := Pipeline.new_eq_ok hnew
  obtain ⟨hpay, hcount⟩ := p.chunkMap_params
  have hmax : p.chunkMap.params.payloadSize ≤ 2 ^ 32 := p.chunkMap.params.payloadSize_le
  unfold planSession at hplan
  split_ifs at hplan with hsize hblocks hover
  simp only [Except.ok.injEq] at hplan
  have hsource : ((payloadLen + 16 + blocks - 1) / blocks + symbolSize - 1) / symbolSize =
      plannedSymbolCount payloadLen symbolSize blocks := rfl
  have hsize32 : UInt32.size = 2 ^ 32 := rfl
  have hsize64 : UInt64.size = 2 ^ 64 := rfl
  rw [hsource] at hplan
  have hpay' : p.chunkMap.params.payloadSize = payloadLen + 16 := by
    rw [hpay, hparams, ← hplan]
    exact UInt64.toNat_ofNat_of_lt' (by omega)
  obtain ⟨hpos, hle⟩ := plannedSymbolCount_bounds payloadLen symbolSize blocks (by omega) (by omega) (by omega)
  rw [if_neg (by omega)] at hplan
  set source := plannedSymbolCount payloadLen symbolSize blocks
  have hover' : source * overheadPct ≤ source * 500 := Nat.mul_le_mul_left _ (by omega)
  have htotal : p.params.totalSymbolsPerBlock.toNat = source + (source * overheadPct / 100 + 4) := by
    rw [hparams, ← hplan]
    exact UInt32.toNat_ofNat_of_lt' (by omega)
  have hsrc : p.params.sourceSymbolsPerBlock.toNat = source := by
    rw [hparams, ← hplan]
    exact UInt32.toNat_ofNat_of_lt' (by omega)
  refine ⟨hpay', ?_, ?_, ?_, ?_⟩
  · rw [hcount, hparams, ← hplan]
    exact UInt32.toNat_ofNat_of_lt' (by omega)
  · rw [hparams, ← hplan]
    exact UInt32.toNat_ofNat_of_lt' (by omega)
  · rw [Pipeline.repairCount, htotal, hsrc]
    omega
  · rw [Pipeline.repairCount, htotal, hsrc]
    omega

/-- The plan's count is RaptorQ's: aligning the symbol size adds no symbol to a block, and no
block is split. -/
def CountsAgree (payloadLen symbolSize blocks : ℕ) : Prop :=
  alignedSymbolCount ((payloadLen + 16) ⌈/⌉ blocks) symbolSize =
      plannedSymbolCount payloadLen symbolSize blocks ∧
    plannedSymbolCount payloadLen symbolSize blocks ≤ maxSourceSymbols

instance (payloadLen symbolSize blocks : ℕ) : Decidable (CountsAgree payloadLen symbolSize blocks) :=
  inferInstanceAs (Decidable (_ ∧ _))

/-- A block that needs as many symbols as the planner counted, in one source block, emits no more
frames than the bitmap has bits; every other largest block emits more. -/
lemma emitted_le_iff {aligned planned repair : ℕ} (hle : planned ≤ aligned) (hpos : 0 < aligned)
    (hrepair : 4 ≤ repair) :
    aligned + aligned ⌈/⌉ maxSourceSymbols * repair ≤ planned + repair ↔
      aligned = planned ∧ planned ≤ maxSourceSymbols := by
  have hsplit : aligned ⌈/⌉ maxSourceSymbols ≤ 1 ↔ aligned ≤ maxSourceSymbols := by
    rw [ceilDiv_le_iff_le_mul (by decide), Nat.mul_one]
  have hone : 0 < aligned ⌈/⌉ maxSourceSymbols := by
    by_contra h
    have hz : aligned ⌈/⌉ maxSourceSymbols ≤ 0 := Nat.le_of_not_lt h
    rw [ceilDiv_le_iff_le_mul (by decide), Nat.mul_zero] at hz
    omega
  set z := aligned ⌈/⌉ maxSourceSymbols
  constructor
  · intro h
    have hz : z ≤ 1 := by
      by_contra hgt
      have hmul : 2 * repair ≤ z * repair := Nat.mul_le_mul_right _ (by omega)
      omega
    have hz1 : z = 1 := by omega
    rw [hz1] at h
    have haligned := hsplit.mp hz
    omega
  · rintro ⟨heq, hmax⟩
    have hz1 : z = 1 := by
      have := hsplit.mpr (heq ▸ hmax)
      omega
    rw [hz1, heq]
    omega

/-- The number of frames of a block, a function of its size, is largest at the largest block. -/
lemma emitted_mono {size size' symbolSize repair : ℕ} (hsize : 64 ≤ symbolSize)
    (h : size ≤ size') :
    alignedSymbolCount size symbolSize + sourceBlockCount size symbolSize * repair ≤
      alignedSymbolCount size' symbolSize + sourceBlockCount size' symbolSize * repair := by
  have haligned := alignedSymbolSize_pos hsize
  have hcount : alignedSymbolCount size symbolSize ≤ alignedSymbolCount size' symbolSize :=
    (ceilDiv_le_iff_le_mul haligned).mpr
      (h.trans ((ceilDiv_le_iff_le_mul haligned).mp le_rfl))
  have hsource : sourceBlockCount size symbolSize ≤ sourceBlockCount size' symbolSize :=
    (sourceBlockCount_le_iff hsize _ _).mpr
      (h.trans ((sourceBlockCount_le_iff hsize _ _).mp le_rfl))
  exact Nat.add_le_add hcount (Nat.mul_le_mul_right _ hsource)

/-- Every frame a planned session emits is recordable exactly when the counts agree. -/
theorem recordable_iff (b3 : Blake3) {rq : RaptorQ} {payloadLen symbolSize blocks overheadPct : ℕ}
    {params : DhowSessionParams} {digest : Arr 32} {sessionId : Arr 16} {sessionKey : Arr 32}
    {p : Pipeline} {payload : Str} {frames : List PreparedFrame} (hlen : payloadLen < 2 ^ 63)
    (hplan : planSession payloadLen symbolSize blocks overheadPct = .ok params)
    (hnew : Pipeline.new sessionId { params with payloadDigest := digest }.toSessionParams
      sessionKey = .ok p)
    (hrq : p.CountsPackets rq payload) (henc : p.encode b3 rq payload = .ok frames) :
    p.Recordable b3 rq frames ↔ CountsAgree payloadLen symbolSize blocks := by
  have h := planned_of_planSession hlen hplan hnew
  have hsize : 64 ≤ symbolSize := h.symbolSize_eq ▸ p.symbolSize_bounds.1
  have hblocks : 0 < blocks := h.blockCount_eq ▸ p.chunkMap.params.blockCount_pos
  have hmax : payloadLen + 16 ≤ 2 ^ 32 := h.payloadSize_eq ▸ p.chunkMap.params.payloadSize_le
  have hbytes : p.encodeToBytes b3 rq payload = .ok (frames.map fun f => f.frame.toVec) := by
    rw [Pipeline.encodeToBytes, henc]
  have hp := Pipeline.payload_length_of_encode hbytes
  set largest := (payloadLen + 16) ⌈/⌉ blocks
  have hpos := (plannedSymbolCount_bounds _ _ _ hmax hsize hblocks).1
  have hle : plannedSymbolCount payloadLen symbolSize blocks ≤
      alignedSymbolCount largest symbolSize := by
    apply (ceilDiv_le_iff_le_mul (by omega)).mpr
    have hcover := (ceilDiv_le_iff_le_mul (alignedSymbolSize_pos hsize)).mp
      (le_refl (alignedSymbolCount largest symbolSize))
    exact hcover.trans (Nat.mul_le_mul_right _ (Nat.sub_le _ _))
  have hagree := emitted_le_iff hle (hpos.trans_le hle) h.repair_ge
  rw [← h.total_eq] at hagree
  rw [CountsAgree, ← hagree]
  have hcount : ∀ block ∈ p.chunkMap.blocks, block.size ≠ 0 →
      (p.packets rq payload block).length = alignedSymbolCount block.size symbolSize +
        sourceBlockCount block.size symbolSize * p.repairCount := by
    intro block hb hs
    rw [Pipeline.length_packets hrq hp hb hs, h.symbolSize_eq]
  constructor
  · intro hr
    by_contra hgt
    obtain ⟨block, hb, hfirst⟩ := p.chunkMap.exists_first
    rw [h.payloadSize_eq, h.blockCount_eq] at hfirst
    have hs : block.size ≠ 0 := by
      rw [hfirst]
      intro hz
      simp [plannedSymbolCount, hz] at hpos
    -- the packet after the last one the bitmap has room for
    obtain ⟨f, hf, hidx⟩ := Pipeline.exists_mem_encode henc hb hs
      (j := p.params.totalSymbolsPerBlock.toNat) (by
        rw [hcount block hb hs, hfirst]
        exact Nat.lt_of_not_le hgt)
    have hlt := hr.index_lt f hf
    rw [hidx, UInt32.ofNat_toNat] at hlt
    exact absurd hlt (UInt32.lt_irrefl _)
  · intro hfit
    have hall : ∀ block ∈ p.chunkMap.blocks, block.size ≠ 0 →
        (p.packets rq payload block).length ≤ p.params.totalSymbolsPerBlock.toNat := by
      intro block hb hs
      rw [hcount block hb hs]
      have hsmall := ChunkMap.size_le hb
      rw [h.payloadSize_eq, h.blockCount_eq] at hsmall
      exact (emitted_mono hsize hsmall).trans hfit
    constructor
    · intro f hf
      obtain ⟨block, hb, hs, entry, hentry, hok⟩ := (Pipeline.mem_encode henc).mp hf
      obtain ⟨-, rfl⟩ := Pipeline.frameFor_eq_ok_iff.mp hok
      have hj := (List.getElem?_eq_some_iff.mp (List.mem_zipIdx_iff_getElem?.mp hentry)).1
      have hjt := hj.trans_le (hall block hb hs)
      change (UInt32.ofNat entry.2).toNat < _
      rwa [UInt32.toNat_ofNat_of_lt' (hjt.trans p.params.totalSymbolsPerBlock.toNat_lt)]
    · intro taken ht hok
      refine PipelineDecoder.sum_symbolsHeld hbytes (fun hframe => ?_) ht hok
      have hj := (List.getElem?_eq_some_iff.mp hframe.packet_eq).1
      exact hj.trans_le (hall _ (List.mem_of_getElem? hframe.block_eq) hframe.size_ne_zero)

/-! ### Two plans for one payload -/

/-- A block of one source block counts as the crate documents. -/
lemma Systematic.counts {block : Str} {mtu : UInt16} (repair : ℕ)
    (h : sourceBlockCount block.length mtu.toNat = 1) : raptorq.Counts block mtu repair where
  symbolSize_eq := rfl
  sourceBlocks_eq := h.symm
  encodedPackets_eq := by
    let cfg : Config := ⟨block.length, alignedSymbolSize mtu.toNat⟩
    refine ⟨[((List.range cfg.symbolCount).map (symbol cfg block),
      (List.range repair).map fun i => symbol cfg block (cfg.symbolCount + i))], rfl, ?_, ?_, ?_⟩
    · rw [List.map_singleton, List.sum_singleton]
      exact (List.length_map _).trans List.length_range
    · intro part hpart
      rw [List.mem_singleton] at hpart
      rw [hpart]
      exact (List.length_map _).trans List.length_range
    · change (List.range (cfg.symbolCount + repair)).map (symbol cfg block) = _
      rw [List.range_add, List.map_append, List.map_map, List.flatMap_singleton]
      rfl

lemma Systematic.length_serialize_le {p : Pipeline} {payload : Str} {block : BlockInfo}
    {packet : Packet} (h : packet ∈ p.packets raptorq payload block) :
    packet.serialize.length ≤ maxPayloadLen := by
  obtain ⟨i, -, rfl⟩ := List.mem_map.mp h
  have hsize := p.symbolSize_bounds.2
  have h16 := p.toNat_toUInt16_symbolSize
  have hdata : ∀ cfg : Config, ∀ bytes : Str,
      (symbol cfg bytes i).serialize.length ≤ 4 + cfg.symbolSize := by
    intro cfg bytes
    rw [Packet.serialize, List.length_append]
    exact Nat.add_le_add_left (List.length_take_le _ _) _
  refine (hdata _ _).trans ?_
  change 4 + (p.params.symbolSize.toUInt16.toNat - p.params.symbolSize.toUInt16.toNat % 8) ≤ _
  unfold maxFecSymbolSize payloadIdLen maxPayloadLen at hsize
  unfold maxPayloadLen
  omega

namespace Reference

/-- The parameters of a plan of 130 bytes in one block. -/
def planOf (symbolSize source : UInt32) : DhowSessionParams :=
  ⟨130, 1, symbolSize, source, source + 4, zeros 32⟩

def ciphertext : Str := List.replicate 130 0

lemma symbolSize_mem : minSymbolSize ≤ 64 ∧ 64 ≤ maxSymbolSize := by decide

def alignedSession : Pipeline where
  sessionId := sessionId
  params := (planOf 64 3).toSessionParams
  sessionKey := sessionKey
  chunkMap := ⟨⟨130, 1, 64, by decide, by decide, symbolSize_mem⟩, [⟨0, 0, 130, 3⟩], rfl⟩
  params_valid := rfl
  chunkMap_eq := rfl

def misalignedSession : Pipeline where
  sessionId := sessionId
  params := (planOf 65 2).toSessionParams
  sessionKey := sessionKey
  chunkMap := ⟨⟨130, 1, 65, by decide, by decide, by decide⟩, [⟨0, 0, 130, 2⟩], rfl⟩
  params_valid := rfl
  chunkMap_eq := rfl

lemma exists_encode_ciphertext {p : Pipeline} (hp : p.chunkMap.params.payloadSize = 130) :
    ∃ frames, p.encode b3 rq ciphertext = .ok frames := by
  apply Pipeline.exists_encode
  · rw [hp]
    exact List.length_replicate
  · intro block _ packet hpacket
    exact Systematic.length_serialize_le hpacket

lemma countsPackets_ciphertext {p : Pipeline} (hp : p.chunkMap.params.payloadSize = 130)
    (h : sourceBlockCount 130 p.params.symbolSize.toNat = 1) (hone : p.chunkMap.blocks.length = 1) :
    p.CountsPackets rq ciphertext := by
  intro block hb _
  have hcount : p.chunkMap.params.blockCount = 1 := by rw [← p.chunkMap.length_blocks, hone]
  obtain ⟨i, hi⟩ := List.mem_iff_getElem?.mp hb
  have hi0 : i = 0 := by
    have := (List.getElem?_eq_some_iff.mp hi).1
    omega
  have hsize : block.size = 130 := by
    rw [p.chunkMap.eq_blockAt hi, hi0]
    change p.chunkMap.params.blockSize 0 = 130
    rw [p.chunkMap.params.blockSize_zero, hp, hcount, ceilDiv_one]
  have hlen : (ChunkMap.blockBytes ciphertext block).length = 130 := by
    rw [p.chunkMap.length_blockBytes (by rw [hp]; exact List.length_replicate) hb, hsize]
  apply Systematic.counts
  rw [hlen, p.toNat_toUInt16_symbolSize, h]

end Reference

theorem recordable_reference : ∃ frames,
    Reference.alignedSession.encode Reference.b3 Reference.rq Reference.ciphertext = .ok frames ∧
      Reference.alignedSession.Recordable Reference.b3 Reference.rq frames := by
  have hplan : planSession 114 64 1 0 = .ok (Reference.planOf 64 3) := rfl
  have hnew : Pipeline.new Reference.sessionId
      { Reference.planOf 64 3 with payloadDigest := zeros 32 }.toSessionParams
      Reference.sessionKey = .ok Reference.alignedSession := rfl
  have hcounts := Reference.countsPackets_ciphertext (p := Reference.alignedSession) rfl
    (by decide +kernel) rfl
  obtain ⟨frames, henc⟩ := Reference.exists_encode_ciphertext (p := Reference.alignedSession) rfl
  exact ⟨frames, henc,
    (recordable_iff Reference.b3 (by decide) hplan hnew hcounts henc).mpr (by decide +kernel)⟩

/-- At a symbol size of 65 bytes RaptorQ needs a third symbol of 64 bytes, which the plan does
not count: the last frame is outside the bitmap. -/
theorem misaligned_not_recordable :
    planSession 114 65 1 0 = .ok (Reference.planOf 65 2) ∧
      Pipeline.new Reference.sessionId (Reference.planOf 65 2).toSessionParams
        Reference.sessionKey = .ok Reference.misalignedSession ∧
      Reference.misalignedSession.CountsPackets Reference.rq Reference.ciphertext ∧
      ∃ frames, Reference.misalignedSession.encode Reference.b3 Reference.rq
          Reference.ciphertext = .ok frames ∧
        ∃ f ∈ frames, f.frame.header.symbolIndex = 6 ∧
          Reference.misalignedSession.params.totalSymbolsPerBlock = 6 := by
  have hcounts := Reference.countsPackets_ciphertext (p := Reference.misalignedSession) rfl
    (by decide +kernel) rfl
  obtain ⟨frames, henc⟩ := Reference.exists_encode_ciphertext (p := Reference.misalignedSession) rfl
  have hmem : (⟨0, 0, 130, 2⟩ : BlockInfo) ∈ Reference.misalignedSession.chunkMap.blocks :=
    List.mem_cons_self
  have hlen : (Reference.misalignedSession.packets Reference.rq Reference.ciphertext
      ⟨0, 0, 130, 2⟩).length = 7 := by
    rw [Pipeline.length_packets hcounts rfl hmem (by decide)]
    decide +kernel
  obtain ⟨f, hf, hidx⟩ := Pipeline.exists_mem_encode henc hmem (by decide)
    (j := 6) (by rw [hlen]; decide)
  exact ⟨rfl, rfl, hcounts, frames, henc, f, hf, hidx, rfl⟩

end Dhow
