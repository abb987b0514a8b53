import Dhow.ReceiverRecord

/-!
# Delivery

What a receiver makes of the frames of one encoded payload. With genuine frames alone its
state depends on the set of frames offered, and all of them deliver the payload. With strings of
an attacker among them it returns the payload or an error, and all genuine frames still deliver
the payload unless a string puts another payload under a copied header while the block is
pending: the MAC covers the header and the checksum is no secret.
-/

namespace Dhow
open Bytes

namespace Pipeline
variable {b3 : Blake3} {rq : RaptorQ} {p : Pipeline} {payload bytes : Str} {i j : ℕ}
  {block : BlockInfo} {packet : rq.Packet}

lemma IsSymbolFrame.index_lt (h : p.IsSymbolFrame b3 rq payload bytes i j block packet) :
    i < p.chunkMap.blocks.length :=
  (List.getElem?_eq_some_iff.mp h.block_eq).1

lemma IsSymbolFrame.packet_mem (h : p.IsSymbolFrame b3 rq payload bytes i j block packet) :
    packet ∈ p.packets rq payload block :=
  List.mem_of_getElem? h.packet_eq

lemma IsSymbolFrame.ideal (h : p.IsSymbolFrame b3 rq payload bytes i j block packet)
    (hi : p.RaptorQIdeal rq payload) :
    rq.Ideal (p.config rq block) (ChunkMap.blockBytes payload block) p.repairCount :=
  hi block (List.mem_of_getElem? h.block_eq) h.size_ne_zero

/-- A genuine frame passes the checks and carries its packet for its block. -/
lemma IsSymbolFrame.screen (h : p.IsSymbolFrame b3 rq payload bytes i j block packet)
    (hi : p.RaptorQIdeal rq payload) :
    ∃ f, p.screen b3 bytes = .ok f ∧ f.header.blockIndex.toNat = i ∧
      f.payload = rq.serialize packet ∧ rq.deserialize f.payload = packet := by
  have hideal := h.ideal hi
  have hlt : i < 2 ^ 32 := by
    have hl := h.index_lt
    have hb := p.length_blocks_le
    unfold maxBlockCount at hb
    omega
  have hidx : (UInt32.ofNat i).toNat = i := UInt32.toNat_ofNat_of_lt' hlt
  obtain ⟨hle, rfl⟩ := h.frame_eq
  have hparse := Frame.fromBytes_build b3 p.sessionKey .repair p.sessionId (UInt32.ofNat i)
    (UInt32.ofNat j) (rq.serialize packet) hle []
  simp only [List.append_nil] at hparse
  refine ⟨_, (screen_eq_ok_iff b3 p).mpr ⟨hparse, rfl, rfl, ?_, ?_⟩, hidx, rfl, ?_⟩
  · change (UInt32.ofNat i).toNat < _
    rw [hidx]
    exact h.index_lt
  · change 4 < (rq.serialize packet).length
    rw [hideal.length_serialize packet h.packet_mem]
    have := hideal.symbolSize_pos
    omega
  · exact hideal.deserialize_serialize packet h.packet_mem

end Pipeline

namespace PipelineDecoder
variable {b3 : Blake3} {rq : RaptorQ}

/-! ### A block on genuine packets -/

/-- On genuine packets a block is the latched fold of its decoder: no call panics. -/
lemma foldl_takeSymbol_eq_run {cfg : rq.Config} {block : Str} {repair : ℕ}
    (h : rq.Ideal cfg block repair) {ps : List rq.Packet}
    (hps : ps ⊆ rq.encodedPackets cfg block repair) :
    ps.foldl takeSymbol (.pending (rq.newDecoder cfg) : BlockState rq) =
      Latch.run (fun d p => (rq.addNewPacket d p).state) rq.getResult
        (.pending (rq.newDecoder cfg)) ps := by
  induction ps using List.reverseRecOn with
  | nil => rfl
  | append_singleton ps p ih =>
    have hps' : ps ⊆ rq.encodedPackets cfg block repair :=
      fun x hx => hps (List.mem_append_left _ hx)
    rw [List.foldl_append, List.foldl_cons, List.foldl_nil, ih hps', Latch.run_append_singleton]
    cases hrun : Latch.run (fun d p => (rq.addNewPacket d p).state) rq.getResult
        (.pending (rq.newDecoder cfg)) ps with
    | done b => rfl
    | pending d =>
      obtain ⟨d', hd'⟩ := h.returns ps hps' p (hps (by simp))
      have hd : d = rq.feed cfg ps := Latch.run_eq_pending hrun
      rw [← hd] at hd'
      simp only [takeSymbol, Latch.feed, hd', Call.state]
      cases rq.getResult d' <;> rfl

section Block
variable {cfg : rq.Config} {block : Str} {repair : ℕ} (h : rq.Ideal cfg block repair)
include h

lemma survives_of_ideal : Latch.Survives (fun d p => (rq.addNewPacket d p).state) rq.getResult
    (rq.newDecoder cfg) {p | p ∈ rq.encodedPackets cfg block repair} :=
  fun ps hps p hp hs => h.latched ps (fun _ hx => hps _ hx) p hp hs

/-- A block done on genuine packets has its bytes. -/
lemma eq_of_foldl_takeSymbol_eq_done {ps : List rq.Packet}
    (hps : ps ⊆ rq.encodedPackets cfg block repair) {data : Str}
    (hd : ps.foldl takeSymbol (.pending (rq.newDecoder cfg) : BlockState rq) = .done data) :
    data = block := by
  rw [foldl_takeSymbol_eq_run h hps] at hd
  obtain ⟨pre, hpre, hres⟩ := Latch.run_eq_done hd
  exact h.sound pre (fun _ hx => hps (hpre hx)) data hres

/-- Which packets came decides whether a block is done. -/
lemma isDone_foldl_takeSymbol_congr {ps qs : List rq.Packet}
    (hps : ps ⊆ rq.encodedPackets cfg block repair)
    (hqs : qs ⊆ rq.encodedPackets cfg block repair) (hset : ∀ p, p ∈ ps ↔ p ∈ qs) :
    (ps.foldl takeSymbol (.pending (rq.newDecoder cfg) : BlockState rq)).isDone =
      (qs.foldl takeSymbol (.pending (rq.newDecoder cfg) : BlockState rq)).isDone := by
  rw [foldl_takeSymbol_eq_run h hps, foldl_takeSymbol_eq_run h hqs]
  exact Latch.isDone_run_congr (survives_of_ideal h)
    (fun as bs has hbs => h.set_only as (fun _ hx => has _ hx) bs (fun _ hx => hbs _ hx))
    (fun _ hx => hps hx) (fun _ hx => hqs hx) hset

/-- All the source packets finish a block. -/
lemma foldl_takeSymbol_of_complete {ps : List rq.Packet}
    (hps : ps ⊆ rq.encodedPackets cfg block repair)
    (hsrc : rq.encodedPackets cfg block 0 ⊆ ps) :
    ps.foldl takeSymbol (.pending (rq.newDecoder cfg) : BlockState rq) = .done block := by
  have hne : ps ≠ [] := fun hnil => h.source_ne_nil (List.subset_nil.mp (hnil ▸ hsrc))
  have hdone := (Latch.isDone_run_iff (survives_of_ideal h) (fun _ hx => hps hx)).mpr
    ⟨hne, h.complete ps hps hsrc⟩
  rw [← foldl_takeSymbol_eq_run h hps] at hdone
  cases hs : ps.foldl takeSymbol (.pending (rq.newDecoder cfg) : BlockState rq) with
  | pending d => rw [hs] at hdone; cases hdone
  | done data => rw [eq_of_foldl_takeSymbol_eq_done h hps hs]

end Block

/-! ### Reassembly -/

/-- The bytes of a block that has them. -/
def doneData : BlockState rq → Option Str
  | .done data => some data
  | .pending _ => none

/-- The result depends on the blocks' bytes alone. -/
lemma finish_congr {d e : PipelineDecoder rq} (hp : d.toPipeline = e.toPipeline)
    (hb : d.blocks.map doneData = e.blocks.map doneData) : d.finish b3 = e.finish b3 := by
  have hbytes : ∀ (s : BlockState rq) (k : ℕ), doneBytes (s, k) = (doneData s).elim
      (.error (.session (.invalidParameters s!"block {k} is not yet decoded"))) .ok := by
    intro s k
    cases s <;> rfl
  have hmap : ∀ l : List (BlockState rq), ∀ n, (l.zipIdx n).mapM doneBytes =
      ((l.map doneData).zipIdx n).mapM fun x => x.1.elim
        (.error (.session (.invalidParameters s!"block {x.2} is not yet decoded"))) .ok := by
    intro l
    induction l with
    | nil => intro n; rfl
    | cons s l ih =>
      intro n
      rw [List.map_cons, List.zipIdx_cons, List.zipIdx_cons, List.mapM_cons, List.mapM_cons,
        hbytes, ih]
  unfold finish
  rw [hmap, hmap, hb, hp]

/-- Every block of the decoder has its bytes of the payload. -/
def HasBlocks (d : PipelineDecoder rq) (payload : Str) : Prop :=
  ∀ (k : ℕ) block, d.chunkMap.blocks[k]? = some block →
    d.blocks[k]? = some (.done (ChunkMap.blockBytes payload block))

lemma HasBlocks.blocks_eq {d : PipelineDecoder rq} {payload : Str} (h : d.HasBlocks payload) :
    d.blocks = d.chunkMap.blocks.map fun block => .done (ChunkMap.blockBytes payload block) := by
  apply List.ext_getElem?
  intro k
  rw [List.getElem?_map]
  cases hk : d.chunkMap.blocks[k]? with
  | some block => exact h k block hk
  | none =>
    rw [List.getElem?_eq_none_iff, ← d.length_blocks] at hk
    exact List.getElem?_eq_none hk

lemma HasBlocks.isComplete {d : PipelineDecoder rq} {payload : Str} (h : d.HasBlocks payload) :
    d.isComplete = true := by
  rw [PipelineDecoder.isComplete, h.blocks_eq, List.all_map, List.all_eq_true]
  intro block _
  rfl

/-- A decoder whose blocks all have their bytes returns the payload it was given the digest of. -/
lemma HasBlocks.finish {d : PipelineDecoder rq} {payload : Str} (h : d.HasBlocks payload)
    (hp : payload.length = d.chunkMap.params.payloadSize)
    (hdigest : d.params.payloadDigest = blake3Digest b3 payload) : d.finish b3 = .ok payload := by
  have hmap : ∀ (l : List BlockInfo) (n : ℕ),
      ((l.map fun block => (.done (ChunkMap.blockBytes payload block) : BlockState rq)).zipIdx
        n).mapM doneBytes = .ok (l.map (ChunkMap.blockBytes payload)) := by
    intro l
    induction l with
    | nil => intro n; rfl
    | cons block l ih =>
      intro n
      rw [List.map_cons, List.zipIdx_cons, List.mapM_cons, ih]
      rfl
  unfold PipelineDecoder.finish
  rw [h.blocks_eq, hmap]
  simp only [d.chunkMap.reassemble_blockBytes hp, hdigest, ne_eq, not_true_eq_false, if_false]

/-- A returned payload comes of blocks that are all done, and has the session's digest. -/
lemma of_finish_eq_ok {d : PipelineDecoder rq} {payload : Str} (h : d.finish b3 = .ok payload) :
    (∀ s ∈ d.blocks, ∃ data, s = .done data) ∧
      blake3Digest b3 payload = d.params.payloadDigest := by
  unfold finish at h
  cases hm : d.blocks.zipIdx.mapM doneBytes with
  | error e => simp [hm] at h
  | ok blocks =>
    simp only [hm] at h
    cases hr : d.chunkMap.reassemble blocks with
    | error e => simp [hr] at h
    | ok bytes =>
      simp only [hr] at h
      split_ifs at h with hd
      cases h
      refine ⟨fun s hs => ?_, not_not.mp hd⟩
      obtain ⟨k, hk⟩ := List.mem_iff_getElem?.mp hs
      obtain ⟨data, -, hok⟩ := Except.getElem?_of_mapM hm (i := k) (a := (s, k))
        (by rw [List.getElem?_zipIdx, hk]; simp)
      cases s with
      | pending decoder => cases hok
      | done data' => exact ⟨data', rfl⟩

/-! ### Genuine frames alone -/

lemma held_eq_of_bitmap {d e : PipelineDecoder rq} (hp : d.toPipeline = e.toPipeline)
    (hb : ∀ k < d.chunkMap.blocks.length, d.bitmap k = e.bitmap k) : d.held = e.held := by
  have hlen : d.held.length = e.held.length := by rw [d.length_held, e.length_held, hp]
  refine List.ext_getElem hlen fun k hk hk' => ?_
  have h := hb k (by rwa [← d.length_held])
  rwa [bitmap, bitmap, List.getD_eq_getElem?_getD, List.getD_eq_getElem?_getD,
    List.getElem?_eq_getElem hk, List.getElem?_eq_getElem hk'] at h

/-- The counters follow the bitmaps. -/
lemma Recorded.heldCounts_eq {d e : PipelineDecoder rq} (hd : d.Recorded) (he : e.Recorded)
    (h : d.held = e.held) : d.heldCounts = e.heldCounts := by
  refine List.ext_getElem? fun k => ?_
  have hk := hd.heldCounts_map k
  rw [h, ← he.heldCounts_map k] at hk
  cases h1 : d.heldCounts[k]? <;> cases h2 : e.heldCounts[k]? <;> simp_all [UInt32.toNat_inj]

/-- The bitmaps of a run are those of the symbols its accepted frames name. -/
lemma held_run_congr {d : PipelineDecoder rq} {s t : List Str}
    (h : ∀ k j, d.names b3 k j s = d.names b3 k j t) : (d.run b3 s).held = (d.run b3 t).held := by
  have hp : (d.run b3 s).toPipeline = (d.run b3 t).toPipeline := by
    rw [run_toPipeline, run_toPipeline]
  refine held_eq_of_bitmap hp fun k hk => Bitmap.ext ?_ fun j => ?_
  · rw [length_bitmap_of_lt _ hk, length_bitmap_of_lt _ (hp ▸ hk), hp]
  · rw [run_bit, run_bit, h]

section Genuine
variable {p : Pipeline} {payload : Str} {frames : List Str}
  (hf : p.encodeToBytes b3 rq payload = .ok frames) (hi : p.RaptorQIdeal rq payload)
include hf hi

/-- Genuine frames carry a block nothing but its packets. -/
lemma packetsOf_subset {s : List Str} (hs : s ⊆ frames) {k : ℕ} {block : BlockInfo}
    (hk : p.chunkMap.blocks[k]? = some block) :
    p.packetsOf b3 rq k s ⊆ p.packets rq payload block := by
  intro packet hp
  obtain ⟨bytes, hb, f, hok, hidx, rfl⟩ := Pipeline.mem_packetsOf.mp hp
  obtain ⟨i, j, block', packet', hframe⟩ := (Pipeline.mem_encodeToBytes hf).mp (hs hb)
  obtain ⟨f', hok', hidx', -, hpk⟩ := hframe.screen hi
  rw [hok, Except.ok.injEq] at hok'
  subst hok'
  have hik : i = k := hidx'.symm.trans hidx
  have hbb : block' = block := by
    have hb' := hframe.block_eq
    rw [hik, hk, Option.some.injEq] at hb'
    exact hb'.symm
  rw [hpk, ← hbb]
  exact hframe.packet_mem

/-- All the frames carry a block all its packets. -/
lemma subset_packetsOf {s : List Str} (hs : frames ⊆ s) {k : ℕ} {block : BlockInfo}
    (hk : p.chunkMap.blocks[k]? = some block) (hz : block.size ≠ 0) :
    p.packets rq payload block ⊆ p.packetsOf b3 rq k s := by
  intro packet hp
  obtain ⟨j, bytes, hb, hframe⟩ := Pipeline.exists_frame_of_packet hf hk hz hp
  obtain ⟨f, hok, hidx, -, hpk⟩ := hframe.screen hi
  exact Pipeline.mem_packetsOf.mpr ⟨bytes, hs hb, f, hok, hidx, hpk⟩

omit hf hi in
lemma start_blocks (k : ℕ) {block : BlockInfo} (hk : p.chunkMap.blocks[k]? = some block) :
    (start rq p).blocks[k]? = some (initialBlock rq p block) := by
  simp only [start, List.getElem?_map, hk, Option.map_some]

omit hf hi in
lemma run_start_blocks (s : List Str) {k : ℕ} {block : BlockInfo}
    (hk : p.chunkMap.blocks[k]? = some block) :
    ((start rq p).run b3 s).blocks[k]? =
      some ((p.packetsOf b3 rq k s).foldl takeSymbol (initialBlock rq p block)) := by
  rw [run_blocks, start_blocks k hk]
  rfl

omit hf in
/-- A block done on packets of its own has its bytes. -/
lemma eq_of_foldl_initialBlock_eq_done {ps : List rq.Packet} {k : ℕ} {block : BlockInfo}
    (hk : p.chunkMap.blocks[k]? = some block) (hps : ps ⊆ p.packets rq payload block) {data : Str}
    (hd : ps.foldl takeSymbol (initialBlock rq p block) = .done data) :
    data = ChunkMap.blockBytes payload block := by
  unfold initialBlock at hd
  by_cases hz : block.size = 0
  · rw [if_pos hz, foldl_takeSymbol_done] at hd
    cases hd
    simp [ChunkMap.blockBytes, slice, hz]
  · rw [if_neg hz] at hd
    exact eq_of_foldl_takeSymbol_eq_done (hi block (List.mem_of_getElem? hk) hz) hps hd

lemma doneData_run_congr {s t : List Str} (hs : s ⊆ frames) (ht : t ⊆ frames)
    (hst : ∀ x, x ∈ s ↔ x ∈ t) :
    ((start rq p).run b3 s).blocks.map doneData = ((start rq p).run b3 t).blocks.map doneData := by
  refine List.ext_getElem? fun k => ?_
  rw [List.getElem?_map, List.getElem?_map]
  cases hk : p.chunkMap.blocks[k]? with
  | none =>
    have hnone : ∀ u, ((start rq p).run b3 u).blocks[k]? = none := by
      intro u
      rw [run_blocks]
      simp [start, hk]
    rw [hnone, hnone]
  | some block =>
    rw [run_start_blocks s hk, run_start_blocks t hk]
    have hps := packetsOf_subset hf hi hs hk
    have hqs := packetsOf_subset hf hi ht hk
    have hset : ∀ q, q ∈ p.packetsOf b3 rq k s ↔ q ∈ p.packetsOf b3 rq k t := by
      intro q
      simp only [Pipeline.mem_packetsOf, hst]
    have hdone : (List.foldl takeSymbol (initialBlock rq p block) (p.packetsOf b3 rq k s)).isDone =
        (List.foldl takeSymbol (initialBlock rq p block) (p.packetsOf b3 rq k t)).isDone := by
      unfold initialBlock
      by_cases hz : block.size = 0
      · rw [if_pos hz, foldl_takeSymbol_done, foldl_takeSymbol_done]
      · rw [if_neg hz]
        exact isDone_foldl_takeSymbol_congr (hi block (List.mem_of_getElem? hk) hz) hps hqs hset
    cases h1 : List.foldl takeSymbol (initialBlock rq p block) (p.packetsOf b3 rq k s) with
    | done a =>
      cases h2 : List.foldl takeSymbol (initialBlock rq p block) (p.packetsOf b3 rq k t) with
      | done b =>
        rw [eq_of_foldl_initialBlock_eq_done hi hk hps h1, eq_of_foldl_initialBlock_eq_done hi hk hqs h2]
      | pending b => rw [h1, h2] at hdone; cases hdone
    | pending a =>
      cases h2 : List.foldl takeSymbol (initialBlock rq p block) (p.packetsOf b3 rq k t) with
      | done b => rw [h1, h2] at hdone; cases hdone
      | pending b => rfl

/-- No genuine frame is refused. -/
lemma accept_genuine {s : List Str} (hs : s ⊆ frames) {bytes : Str} (hb : bytes ∈ frames) :
    ∃ o, (((start rq p).run b3 s).accept b3 bytes).1 = .ok o := by
  obtain ⟨i, j, block, packet, hframe⟩ := (Pipeline.mem_encodeToBytes hf).mp hb
  obtain ⟨f, hok, hidx, -, hpk⟩ := hframe.screen hi
  have hideal := hframe.ideal hi
  set d := (start rq p).run b3 s with hd
  have hscreen : d.screen b3 bytes = .ok f := by
    rw [hd, run_toPipeline]
    exact hok
  rw [d.accept_of_ok hscreen]
  rcases (d.record f bytes).addSymbol_cases f with
    ⟨-, h⟩ | ⟨decoder, hp, ⟨decoder', hc, -⟩ | ⟨_, _, -, -, h⟩ | ⟨_, -, -, h⟩⟩
  · exact ⟨_, by rw [h]⟩
  · -- the pending decoder was fed packets of its block only, so the call returns
    exfalso
    have hsub := packetsOf_subset hf hi hs hframe.block_eq
    rw [record_blocks, hidx, hd, run_start_blocks s hframe.block_eq, Option.some.injEq,
      initialBlock, if_neg hframe.size_ne_zero, foldl_takeSymbol_eq_run hideal hsub] at hp
    obtain ⟨d', hd'⟩ := hideal.returns _ hsub packet hframe.packet_mem
    rw [Latch.run_eq_pending hp, hpk] at hc
    change rq.addNewPacket (rq.feed _ _) packet = _ at hc
    rw [hc] at hd'
    cases hd'
  · exact ⟨_, by rw [h]⟩
  · exact ⟨_, by rw [h]⟩

lemma blocks_run_of_subset {s : List Str} (hs : s ⊆ frames) (hall : frames ⊆ s) {k : ℕ}
    {block : BlockInfo} (hk : p.chunkMap.blocks[k]? = some block) :
    ((start rq p).run b3 s).blocks[k]? = some (.done (ChunkMap.blockBytes payload block)) := by
  rw [run_start_blocks s hk, initialBlock]
  by_cases hz : block.size = 0
  · rw [if_pos hz, foldl_takeSymbol_done]
    simp [ChunkMap.blockBytes, slice, hz]
  · have hideal := hi block (List.mem_of_getElem? hk) hz
    rw [if_neg hz, foldl_takeSymbol_of_complete hideal (packetsOf_subset hf hi hs hk)]
    exact fun x hx => subset_packetsOf hf hi hall hk hz (hideal.source_subset hx)

end Genuine

/-- Order, repetition and loss: on frames of one encoded payload every call is accepted, the
receiver's flags, bitmaps, counters and result depend on the set of frames alone, the result is
the payload or an error, and it is the payload when no frame is missing. -/
theorem delivery {sessionId : Arr 16} {params : SessionParams} {sessionKey : Arr 32}
    {p : Pipeline} {d₀ : PipelineDecoder rq} {payload : Str} {frames : List Str}
    (hp : Pipeline.new sessionId params sessionKey = .ok p)
    (hd : new rq sessionId params sessionKey = .ok d₀)
    (hdigest : params.payloadDigest = blake3Digest b3 payload)
    (hf : p.encodeToBytes b3 rq payload = .ok frames) (hi : p.RaptorQIdeal rq payload) :
    (∀ s ⊆ frames, ∀ r ∈ d₀.results b3 s, ∃ o, r = .ok o) ∧
    (∀ s ⊆ frames, ∀ t ⊆ frames, (∀ x, x ∈ s ↔ x ∈ t) →
      (d₀.run b3 s).blocks.map Latch.isDone = (d₀.run b3 t).blocks.map Latch.isDone ∧
      (d₀.run b3 s).isComplete = (d₀.run b3 t).isComplete ∧
      (d₀.run b3 s).held = (d₀.run b3 t).held ∧
      (d₀.run b3 s).heldCounts = (d₀.run b3 t).heldCounts ∧
      (d₀.run b3 s).finish b3 = (d₀.run b3 t).finish b3) ∧
    (∀ s ⊆ frames, (d₀.run b3 s).finish b3 = .ok payload ∨
      ∃ e, (d₀.run b3 s).finish b3 = .error e) ∧
    ∀ s ⊆ frames, frames ⊆ s → (d₀.run b3 s).finish b3 = .ok payload := by
  obtain ⟨hstart, hpipe⟩ := new_eq_ok hd
  rw [hp, Except.ok.injEq] at hpipe
  rw [← hpipe] at hstart
  subst hstart
  have hpay := Pipeline.payload_length_of_encode hf
  have hfinish : ∀ s ⊆ frames, ∀ x, ((start rq p).run b3 s).finish b3 = .ok x →
      ((start rq p).run b3 s).finish b3 = .ok payload := by
    intro s hs x hx
    obtain ⟨hall, -⟩ := of_finish_eq_ok hx
    refine HasBlocks.finish (fun k block hk => ?_) (by rw [run_toPipeline]; exact hpay)
      (by rw [run_toPipeline]; exact (Pipeline.new_eq_ok hp).2.1 ▸ hdigest)
    rw [run_toPipeline] at hk
    change p.chunkMap.blocks[k]? = some block at hk
    have hblock : ((start rq p).run b3 s).blocks[k]? = _ := run_start_blocks s hk
    obtain ⟨data, hdata⟩ := hall _ (List.mem_of_getElem? hblock)
    rw [hblock, hdata,
      eq_of_foldl_initialBlock_eq_done hi hk (packetsOf_subset hf hi hs hk) hdata]
  refine ⟨fun s hs r hr => ?_, fun s hs t ht hst => ?_, fun s hs => ?_, fun s hs hall => ?_⟩
  · obtain ⟨pre, bytes, post, rfl, rfl⟩ := (mem_results _).mp hr
    exact accept_genuine hf hi (fun x hx => hs (List.mem_append_left _ hx)) (hs (by simp))
  · have hdone := doneData_run_congr hf hi hs ht hst
    have hflags : ((start rq p).run b3 s).blocks.map Latch.isDone =
        ((start rq p).run b3 t).blocks.map Latch.isDone := by
      have hcomp : ∀ l : List (BlockState rq),
          l.map Latch.isDone = (l.map doneData).map Option.isSome := by
        intro l
        rw [List.map_map]
        exact List.map_congr_left fun b _ => by cases b <;> rfl
      rw [hcomp, hcomp, hdone]
    have hheld : ((start rq p).run b3 s).held = ((start rq p).run b3 t).held := by
      refine held_run_congr fun k j => Bool.eq_iff_iff.mpr ?_
      simp only [Pipeline.names_eq_true_iff, hst]
    refine ⟨hflags, ?_, hheld, ?_, ?_⟩
    · have hall : ∀ l : List (BlockState rq), l.all Latch.isDone =
          (l.map Latch.isDone).all id := by
        intro l
        rw [List.all_map]
        rfl
      rw [isComplete, isComplete, hall, hall, hflags]
    · exact ((recorded_start p).run s).heldCounts_eq ((recorded_start p).run t) hheld
    · exact finish_congr (by rw [run_toPipeline, run_toPipeline]) hdone
  · cases hx : ((start rq p).run b3 s).finish b3 with
    | error e => exact .inr ⟨e, rfl⟩
    | ok x => exact .inl (hx ▸ hfinish s hs x hx)
  · refine HasBlocks.finish (fun k block hk => ?_) (by rw [run_toPipeline]; exact hpay)
      (by rw [run_toPipeline]; exact (Pipeline.new_eq_ok hp).2.1 ▸ hdigest)
    rw [run_toPipeline] at hk
    exact blocks_run_of_subset hf hi hs hall hk

theorem delivery_reference :
    (Reference.decoder.run Reference.b3 (Reference.frames.reverse ++ Reference.frames)).finish
      Reference.b3 = .ok Reference.payload :=
  (delivery Reference.new_eq Reference.new_decoder_eq rfl Reference.encodeToBytes_eq
    Reference.ideal).2.2.2 _ (by simp) (by simp)

end PipelineDecoder
end Dhow
