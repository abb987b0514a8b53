import Dhow.OpticalTransfer
import Dhow.RecordedProgress

/-!
# A receive over several sittings

The receiving command with a state directory, started as often as it takes. Each run of it takes
some frames and crashes or is stopped, and the next one goes on from what the crash left. A frame
that the index covers need not be shown again.
-/

namespace Dhow
open Bytes FileSystem

section Sitting
variable {rq : RaptorQ} {b3 : Blake3}

/-- A run of the receiving command on a state directory, up to some point of it. It is offered
frames of the session, among others that its decoder refuses, and may save at any time. -/
inductive Sitting (frames : List Str) (d₀ : PipelineDecoder rq) (disk : Disk rq b3) :
    List Str → FrameSink rq b3 → Prop
  | start {saveEvery : ℕ} {hpos : 0 < saveEvery} {sink : FrameSink rq b3}
      (h : System.start disk d₀ saveEvery hpos = .up sink) : Sitting frames d₀ disk [] sink
  | offer {offered : List Str} {sink sink' : FrameSink rq b3} {frame : Str} {accepted : Bool}
      (h : Sitting frames d₀ disk offered sink) (hframe : frame ∈ frames)
      (hroom : (sink.store.journal.getD []).length + recordPrefix + frame.length < 2 ^ 63)
      (happ : sink.apply frame = .ok (accepted, sink')) :
      Sitting frames d₀ disk (offered ++ [frame]) sink'
  | refuse {offered : List Str} {sink sink' : FrameSink rq b3} {bytes : Str} {accepted : Bool}
      (h : Sitting frames d₀ disk offered sink)
      (hrefused : (decoderAccept b3 sink.dec bytes).1 = .frameRejected)
      (happ : sink.apply bytes = .ok (accepted, sink')) : Sitting frames d₀ disk offered sink'
  | save {offered : List Str} {sink sink' : FrameSink rq b3}
      (h : Sitting frames d₀ disk offered sink) (hsave : sink.save = .ok sink') :
      Sitting frames d₀ disk offered sink'

/-- A state directory after any number of sittings. A sitting that comes to its end is one that
crashes there. -/
inductive Sittings (frames : List Str) (d₀ : PipelineDecoder rq) : Disk rq b3 → Prop
  | fresh (journal : Option Str) : Sittings frames d₀ ⟨journal, none⟩
  | sitting {disk disk' : Disk rq b3} {offered : List Str} {sink : FrameSink rq b3}
      (h : Sittings frames d₀ disk) (hs : Sitting frames d₀ disk offered sink)
      (hc : sink.store.Crashed disk') : Sittings frames d₀ disk'
  | crashAgain {disk disk' : Disk rq b3} (h : Sittings frames d₀ disk) (hc : disk.Crashed disk') :
      Sittings frames d₀ disk'

/-- The index covers a record of the frame. -/
def Disk.Saved (disk : Disk rq b3) (frame : Str) : Prop :=
  ∃ log, (∀ x ∈ log, FitsJournal x) ∧ disk.recorded = journalOf log ∧ frame ∈ log

/-- The saved frames are those that the index covers. -/
lemma System.Covers.saved_iff {d₀ : PipelineDecoder rq} {saved : List Str} {disk : Disk rq b3}
    (h : System.Covers d₀ saved (.down disk)) {frame : Str} : disk.Saved frame ↔ frame ∈ saved := by
  obtain ⟨-, hlog, hrecorded⟩ := h
  constructor
  · rintro ⟨log, hfits, hrecorded', hmem⟩
    have heq : log = saved :=
      journalOf_inj hfits hlog.fits (hrecorded'.symm.trans hrecorded)
    exact heq ▸ hmem
  · intro hmem
    exact ⟨saved, hlog.fits, hrecorded, hmem⟩

/-- A frame that is refused changes nothing that is tracked. -/
lemma FrameSink.Tracks.refuse {d₀ : PipelineDecoder rq} {sink sink' : FrameSink rq b3}
    {saved more : List Str} (h : sink.Tracks d₀ saved more) {bytes : Str} {accepted : Bool}
    (hrefused : (decoderAccept b3 sink.dec bytes).1 = .frameRejected)
    (happ : sink.apply bytes = .ok (accepted, sink')) : sink'.Tracks d₀ saved more := by
  have hdec : (decoderAccept b3 sink.dec bytes).2 = sink.dec := by
    rw [decoderAccept_eq, sink.dec.dhowDecoderAccept_fst] at hrefused
    rw [decoderAccept_snd]
    cases hr : (sink.dec.accept b3 bytes).1 with
    | err e => exact sink.dec.eq_of_accept_eq_err hr
    | ok outcome =>
      rw [hr] at hrefused
      cases hrefused
    | panic =>
      rw [hr] at hrefused
      cases hrefused
  have hpair : decoderAccept b3 sink.dec bytes = (.frameRejected, sink.dec) :=
    Prod.ext hrefused hdec
  simp only [FrameSink.apply, FrameSink.take, hpair, Except.ok.injEq, Prod.mk.injEq] at happ
  obtain ⟨-, rfl⟩ := happ
  exact ⟨⟨h.sound.isLog, h.sound.dec_eq, h.sound.journalOpen, h.sound.journal_eq,
    h.sound.written_eq, h.sound.index_of⟩, h.recorded_eq, h.few⟩

section Session
variable {p : Pipeline} {ciphertext : Str} {frames : List Str} {disk : Disk rq b3}
  {offered : List Str} {sink : FrameSink rq b3}
  (hf : p.encodeToBytes b3 rq ciphertext = .ok frames) (hi : p.RaptorQIdeal rq ciphertext)
include hf hi

/-- A frame of the session is accepted. -/
lemma FrameSink.Tracks.offer {saved more : List Str} {frame : Str}
    (h : sink.Tracks (.start rq p) saved more) (hsub : saved ++ more ⊆ frames)
    (hframe : frame ∈ frames)
    (hroom : (sink.store.journal.getD []).length + recordPrefix + frame.length < 2 ^ 63) :
    ∃ sink' saved' more', sink.apply frame = .ok (true, sink') ∧
      sink'.Tracks (.start rq p) saved' more' ∧ saved <+: saved' ∧
      saved' ++ more' = saved ++ more ++ [frame] := by
  obtain ⟨outcome, hok⟩ := PipelineDecoder.accept_genuine hf hi hsub hframe
  rw [← h.sound.dec_eq] at hok
  obtain ⟨accepted, sink', saved', more', happ, htracks, hstatus, hpre, hlog⟩ :=
    h.apply ⟨(fitsJournal_of_encode hf hframe).2, by rw [hok]; nofun, hroom⟩
  have htrue : accepted = true := by
    rw [hstatus, decoderAccept_eq, sink.dec.dhowDecoderAccept_fst, hok]
  subst htrue
  exact ⟨sink', saved', more', happ, htracks, hpre, hlog⟩

/-- In a sitting the decoder has what was saved and what was offered, and nothing else. -/
lemma Sitting.tracks {saved : List Str} (hdisk : System.Covers (.start rq p) saved (.down disk))
    (hsub : saved ⊆ frames) (h : Sitting frames (.start rq p) disk offered sink) :
    ∃ saved' more, saved <+: saved' ∧ sink.Tracks (.start rq p) saved' more ∧
      saved' ++ more ⊆ frames ∧ offered ⊆ saved' ++ more := by
  induction h with
  | @start saveEvery hpos sink h =>
    obtain ⟨hsound, hlog, hrecorded⟩ := hdisk
    obtain ⟨sink', hstart, htracks⟩ :=
      hsound.start_tracks (PipelineDecoder.recorded_start p) hlog hrecorded hpos
    rw [h] at hstart
    cases hstart
    exact ⟨saved, [], List.prefix_rfl, htracks, by rwa [List.append_nil], List.nil_subset _⟩
  | offer h hframe hroom happ ih =>
    obtain ⟨saved', more, hpre, htracks, hlog, hoffered⟩ := ih
    obtain ⟨sink', saved'', more', happ', htracks', hpre', heq⟩ :=
      htracks.offer hf hi hlog hframe hroom
    rw [happ, Except.ok.injEq, Prod.mk.injEq] at happ'
    obtain ⟨-, rfl⟩ := happ'
    refine ⟨saved'', more', hpre.trans hpre', htracks', ?_, ?_⟩
    · rw [heq]
      exact List.append_subset.mpr ⟨hlog, by simpa using hframe⟩
    · rw [heq]
      exact List.append_subset.mpr ⟨fun x hx => List.mem_append_left _ (hoffered hx),
        List.subset_append_right _ _⟩
  | refuse h hrefused happ ih =>
    obtain ⟨saved', more, hpre, htracks, hlog, hoffered⟩ := ih
    exact ⟨saved', more, hpre, htracks.refuse hrefused happ, hlog, hoffered⟩
  | save h hsave ih =>
    obtain ⟨saved', more, hpre, htracks, hlog, hoffered⟩ := ih
    obtain ⟨sink', hsave', htracks', -⟩ := htracks.sound.save_tracks
    rw [hsave, Except.ok.injEq] at hsave'
    subst hsave'
    exact ⟨saved' ++ more, [], hpre.trans (List.prefix_append _ _), htracks',
      by rwa [List.append_nil], by rwa [List.append_nil]⟩

/-- After any number of sittings the index covers frames of the session only. -/
lemma Sittings.covers (h : Sittings frames (.start rq p) disk) :
    ∃ saved, System.Covers (.start rq p) saved (.down disk) ∧ saved ⊆ frames := by
  induction h with
  | fresh journal => exact ⟨[], covers_nil journal, List.nil_subset _⟩
  | sitting _ hs hc ih =>
    obtain ⟨saved, hcovers, hsub⟩ := ih
    obtain ⟨saved', more, -, htracks, hlog, -⟩ := hs.tracks hf hi hcovers hsub
    exact ⟨saved', htracks.crashed hc, (List.append_subset.mp hlog).1⟩
  | crashAgain _ hc ih =>
    obtain ⟨saved, ⟨hsound, hlog, hrecorded⟩, hsub⟩ := ih
    exact ⟨saved, ⟨Disk.Sound.crashed hsound hc, hlog,
      (hc.recorded_eq hsound).trans hrecorded⟩, hsub⟩

/-- A sitting in which every frame was offered, or saved before it, has the ciphertext. -/
lemma Sitting.hasBlocks (hdisk : Sittings frames (.start rq p) disk)
    (h : Sitting frames (.start rq p) disk offered sink)
    (hall : ∀ frame ∈ frames, frame ∈ offered ∨ disk.Saved frame) :
    sink.dec.HasBlocks ciphertext ∧ sink.dec.toPipeline = p := by
  obtain ⟨saved, hcovers, hsub⟩ := hdisk.covers hf hi
  obtain ⟨saved', more, hpre, htracks, hlog, hoffered⟩ := h.tracks hf hi hcovers hsub
  have hframes : frames ⊆ saved' ++ more := by
    intro frame hframe
    rcases hall frame hframe with hmem | hsaved
    · exact hoffered hmem
    · exact List.mem_append_left _ (hpre.subset (hcovers.saved_iff.mp hsaved))
  rw [htracks.sound.dec_eq, PipelineDecoder.run_toPipeline]
  exact ⟨hasBlocks_run hf hi hframes fun pre bytes post he =>
    .inl (hlog (he ▸ by simp)), rfl⟩

/-- What was saved before a sitting is saved after it, and so is all that it was offered before a
save. -/
lemma Sitting.saves (hdisk : Sittings frames (.start rq p) disk)
    (h : Sitting frames (.start rq p) disk offered sink) {disk' : Disk rq b3} {frame : Str} :
    (sink.store.Crashed disk' → disk.Saved frame → disk'.Saved frame) ∧
    ∀ sink', sink.save = .ok sink' → sink'.store.Crashed disk' → frame ∈ offered →
      disk'.Saved frame := by
  obtain ⟨saved, hcovers, hsub⟩ := hdisk.covers hf hi
  obtain ⟨saved', more, hpre, htracks, hlog, hoffered⟩ := h.tracks hf hi hcovers hsub
  constructor
  · intro hc hsaved
    exact (htracks.crashed hc).saved_iff.mpr (hpre.subset (hcovers.saved_iff.mp hsaved))
  · intro sink' hsave hc hmem
    obtain ⟨sink'', hsave', htracks', -⟩ := htracks.sound.save_tracks
    rw [hsave, Except.ok.injEq] at hsave'
    subst hsave'
    exact (htracks'.crashed hc).saved_iff.mpr (hoffered hmem)

end Session
end Sitting

/-! ### The dataset -/

section Dataset
variable {ed : Ed25519} {b3 : Blake3} {aead : Aead} {rq : RaptorQ} {s : Sender ed}
  {flags : SendFlags} {fs : FileTree} {root : Path Component} {payload : Str}
  {entries : List Pack.Entry} {params : DhowSessionParams} {encoder : DhowEncoder}
  {manifest : DhowManifest} {r : Receiver ed}

/-- A dataset is received over any number of sittings, whatever their crashes leave: what the index
covers stays covered, a save covers all that was offered, and a sitting in which each frame was
offered, or saved before it, ends with the dataset. -/
theorem dataset_over_sittings (hed : ed.Correct) (haead : aead.Correct)
    (hroot : fs.lookup root = some .dir)
    (h : Sends b3 aead rq s flags fs root payload entries params encoder manifest)
    (hrq : ∀ p c, encoderSession b3 aead s.key s.sessionId s.salt s.nonce params payload =
      .ok (p, c) → p.RaptorQIdeal rq c)
    (hkey : r.key = s.key) (hsigner : r.signer = ed.publicOf s.identity)
    (hu : r.umask &&& 0o700 = 0) {dst : FileTree} {outDir : Path Component}
    (hready : Ready dst outDir r.random) :
    ∃ transfer dec,
      startReceiver ed b3 rq r.key r.signer manifest.bytes = .ok (transfer, dec) ∧
      ∀ (disk : Disk rq b3) (offered : List Str) (sink : FrameSink rq b3),
        Sittings encoder.frames dec disk → Sitting encoder.frames dec disk offered sink →
        (∀ disk' frame, sink.store.Crashed disk' → disk.Saved frame → disk'.Saved frame) ∧
        (∀ sink' disk', sink.save = .ok sink' → sink'.store.Crashed disk' →
          ∀ frame ∈ offered, disk'.Saved frame) ∧
        ((∀ frame ∈ encoder.frames, frame ∈ offered ∨ disk.Saved frame) →
          ∃ sink' extracted out, sink.save = .ok sink' ∧
            finishRecv b3 aead r transfer sink'.dec dst outDir = (.ok extracted, out) ∧
            Intact b3 fs root manifest.manifest out outDir) := by
  obtain ⟨p, ciphertext, hsession, hframes, hstart⟩ :=
    startReceiver_of_build hed h.encodes h.signs h.admissible
  rw [← hkey, ← hsigner] at hstart
  have hideal := hrq p ciphertext hsession
  refine ⟨_, _, hstart, fun disk offered sink hdisk hsit => ⟨?_, ?_, fun hall => ?_⟩⟩
  · exact fun disk' frame hc => (hsit.saves hframes hideal hdisk).1 hc
  · exact fun sink' disk' hsave hc frame => (hsit.saves hframes hideal hdisk).2 sink' hsave hc
  · obtain ⟨hblocks, hp⟩ := hsit.hasBlocks hframes hideal hdisk hall
    obtain ⟨keys, -, -, hnew⟩ := encoderSession_eq_ok hsession
    have hdigest : p.params.payloadDigest = blake3Digest b3 ciphertext := by
      rw [(Pipeline.new_eq_ok hnew).2.1]
      rfl
    have hfinish : sink.dec.finish b3 = .ok ciphertext :=
      hblocks.finish (by rw [hp]; exact Pipeline.payload_length_of_encode hframes)
        (by rw [hp]; exact hdigest)
    obtain ⟨extracted, out, hrecv, hintact⟩ :=
      h.finishRecv_eq hed haead hroot hkey hu hready hsession hblocks.isComplete hfinish
    exact ⟨_, extracted, out, sink.save_eq, hrecv, hintact⟩

end Dataset

/-! ### A reference transfer -/

/-- A session has at most as many frames as its blocks have packets. -/
lemma Pipeline.length_encodeToBytes_le {b3 : Blake3} {rq : RaptorQ} {p : Pipeline} {payload : Str}
    {frames : List Str} (hf : p.encodeToBytes b3 rq payload = .ok frames) {n : ℕ}
    (hn : ∀ block ∈ p.chunkMap.blocks, (p.packets rq payload block).length ≤ n) :
    frames.length ≤ p.chunkMap.blocks.length * n := by
  have hp := payload_length_of_encode hf
  unfold encodeToBytes encode at hf
  rw [if_neg (not_not.mpr (hp.trans p.chunkMap_params.1))] at hf
  cases hm : p.chunkMap.blocks.mapM (p.blockFrames b3 rq payload) with
  | error e => simp [hm] at hf
  | ok perBlock =>
    simp only [hm, Except.ok.injEq] at hf
    have hlen : ∀ fs ∈ perBlock, fs.length ≤ n := by
      intro fs hfs
      obtain ⟨block, hb, hok⟩ := (Except.mem_of_mapM hm).mp hfs
      unfold blockFrames at hok
      split_ifs at hok with hs
      · cases hok
        exact Nat.zero_le n
      · obtain ⟨i, hi⟩ := List.mem_iff_getElem?.mp hb
        have hidx : block.index = i := by rw [p.chunkMap.eq_blockAt hi]; rfl
        rw [hidx, p.chunkMap.extractBlock_eq hp hi] at hok
        exact (Except.length_of_mapM hok).trans_le (List.length_zipIdx.trans_le (hn block hb))
    rw [← hf, List.length_map, (interleave_perm perBlock).length_eq, List.length_flatten,
      ← Except.length_of_mapM hm]
    simpa using List.sum_le_card_nsmul (perBlock.map List.length) n (by simpa using hlen)

lemma length_journalOf_le {log : List Str} {n : ℕ} (h : ∀ frame ∈ log, frame.length ≤ n) :
    (journalOf log).length ≤ log.length * (recordPrefix + n) := by
  rw [journalOf, List.length_flatMap]
  simpa using List.sum_le_card_nsmul (log.map fun x => (journalRecord x).length) (recordPrefix + n)
    (by simpa using h)

/-- A sitting can be offered all frames of a session, where the journal has room for them. -/
lemma Sitting.exists_offered {rq : RaptorQ} {b3 : Blake3} {p : Pipeline} {ciphertext : Str}
    {frames : List Str} (hf : p.encodeToBytes b3 rq ciphertext = .ok frames)
    (hi : p.RaptorQIdeal rq ciphertext) {disk : Disk rq b3}
    (hdisk : Sittings frames (.start rq p) disk) {l offered : List Str} {sink : FrameSink rq b3}
    (h : Sitting frames (.start rq p) disk offered sink) (hl : l ⊆ frames)
    (hroom : (sink.store.journal.getD []).length + (journalOf l).length < 2 ^ 63) :
    ∃ sink', Sitting frames (.start rq p) disk (offered ++ l) sink' := by
  induction l generalizing offered sink with
  | nil => exact ⟨sink, by rwa [List.append_nil]⟩
  | cons frame l ih =>
    obtain ⟨hframe, hl⟩ := List.cons_subset.mp hl
    rw [journalOf_cons, List.length_append, length_journalRecord] at hroom
    obtain ⟨saved, hcovers, hsub⟩ := hdisk.covers hf hi
    obtain ⟨saved', more, -, htracks, hlog, -⟩ := h.tracks hf hi hcovers hsub
    obtain ⟨sink', saved'', more', happ, htracks', -, heq⟩ :=
      htracks.offer hf hi hlog hframe (by omega)
    have hlen : (sink'.store.journal.getD []).length =
        (sink.store.journal.getD []).length + (recordPrefix + frame.length) := by
      rw [htracks'.sound.journal_eq, htracks.sound.journal_eq, heq,
        journalOf_append (saved' ++ more), journalOf_singleton, Option.getD_some,
        Option.getD_some, List.length_append, length_journalRecord]
    obtain ⟨last, hlast⟩ := ih (h.offer hframe (by omega) happ) hl (by omega)
    exact ⟨last, by rwa [List.append_assoc] at hlast⟩

/-- The session of the reference tree has few frames. -/
lemma Reference.length_frames_le {payload ciphertext : Str} (hlen : payload.length = 114)
    {p : Pipeline} (h : encoderSession b3 XChaCha20Poly1305.aead sender.key sender.sessionId
      sender.salt sender.nonce (planOf 64 3) payload = .ok (p, ciphertext)) {frames : List Str}
    (hf : p.encodeToBytes b3 rq ciphertext = .ok frames) : frames.length ≤ 2 ^ 17 := by
  obtain ⟨keys, -, hc, hnew⟩ := encoderSession_eq_ok h
  obtain ⟨-, hparams, -⟩ := Pipeline.new_eq_ok hnew
  have hclen : ciphertext.length = 130 := by
    rw [(decryptPayloadInPlace_of_encryptPayload XChaCha20Poly1305.aead_correct hc).1, hlen]
    rfl
  have hsize : p.chunkMap.params.payloadSize = 130 :=
    (Pipeline.payload_length_of_encode hf).symm.trans hclen
  have hblocks : p.chunkMap.blocks.length = 1 := by
    rw [p.chunkMap.length_blocks, p.chunkMap_params.2, hparams]
    rfl
  have hrepair : p.repairCount = 4 := by
    rw [Pipeline.repairCount, hparams]
    rfl
  have hpackets := Pipeline.length_encodeToBytes_le hf (n := 2 ^ 17) fun block hb => by
    obtain ⟨i, hi⟩ := List.mem_iff_getElem?.mp hb
    have hend := p.chunkMap.block_end_le hi
    let cfg : Systematic.Config := p.config rq block
    have hcfg : cfg.symbolCount ≤ block.size + cfg.symbolSize - 1 := Nat.div_le_self _ _
    have hsymbol : cfg.symbolSize < 2 ^ 16 :=
      (Nat.sub_le _ _).trans_lt (UInt16.toNat_lt p.params.symbolSize.toUInt16)
    have hcount : (p.packets rq ciphertext block).length = cfg.symbolCount + p.repairCount :=
      (List.length_map _).trans List.length_range
    rw [hcount, hrepair]
    omega
  rwa [hblocks, Nat.one_mul] at hpackets

/-- The reference tree is received in two sittings: the first is shown everything, and crashes once
it has saved; the second needs to be shown nothing. -/
theorem dataset_over_sittings_reference : ∃ frames transfer dec,
    ∃ disk : Disk Reference.rq Reference.b3, ∃ sink sink' extracted out,
      Sittings frames dec disk ∧ Sitting frames dec disk [] sink ∧ sink.save = .ok sink' ∧
      finishRecv Reference.b3 XChaCha20Poly1305.aead Reference.receiver transfer sink'.dec
        Reference.emptyDir [Reference.note] = (.ok extracted, out) ∧
      ∀ p, (out.lookup (Reference.note :: p)).bind nodeView =
        (Reference.tree.lookup (Reference.top :: p)).bind nodeView := by
  obtain ⟨payload, entries, encoder, manifest, -, hlen, h, -⟩ := Reference.exists_directory
  obtain ⟨transfer, dec, hstart, hsittings⟩ := dataset_over_sittings Reference.ed_correct
    XChaCha20Poly1305.aead_correct Reference.lookup_top h (r := Reference.receiver)
    (fun p c hs => Reference.ideal_session hlen hs) rfl rfl (by decide) Reference.ready
  obtain ⟨p, ciphertext, hsession, hframes, hstart'⟩ :=
    startReceiver_of_build Reference.ed_correct h.encodes h.signs h.admissible
  have hdec : dec = .start Reference.rq p := by
    have heq := hstart.symm.trans hstart'
    rw [Except.ok.injEq, Prod.mk.injEq] at heq
    exact heq.2
  subst hdec
  have hideal := Reference.ideal_session hlen hsession
  have hroom : (journalOf encoder.frames).length < 2 ^ 63 := by
    have hle := length_journalOf_le fun frame hframe => (fitsJournal_of_encode hframes hframe).2
    have hcount := Reference.length_frames_le hlen hsession hframes
    refine (hle.trans (Nat.mul_le_mul_right _ hcount)).trans_lt ?_
    decide
  let fresh : Disk Reference.rq Reference.b3 := ⟨none, none⟩
  have hfresh : Sittings encoder.frames (.start Reference.rq p) fresh := .fresh none
  obtain ⟨first, hfirst, hempty⟩ := (covers_nil none).1.start_tracks
    (PipelineDecoder.recorded_start p) (isLog_nil _) (rfl : fresh.recorded = _) Nat.one_pos
  obtain ⟨shown, hshown⟩ := Sitting.exists_offered hframes hideal hfresh (.start hfirst)
    (List.Subset.refl _) (by
      rw [hempty.sound.journal_eq, Option.getD_some, List.append_nil, journalOf_nil]
      rwa [List.length_nil, Nat.zero_add])
  obtain ⟨saved, more, -, htracks, -⟩ := hshown.tracks hframes hideal (covers_nil none)
    (List.nil_subset _)
  obtain ⟨stopped, hsave, hstopped, -⟩ := htracks.sound.save_tracks
  have hcrash : stopped.store.Crashed stopped.store.toDisk := by
    refine ⟨rfl, fun index _ => ⟨(journalOf (saved ++ more)).drop index.covered.toNat, ?_⟩⟩
    rw [hstopped.sound.journal_eq, Option.getD_some, List.append_nil, List.take_append_drop]
  have hdisk : Sittings encoder.frames (.start Reference.rq p) stopped.store.toDisk :=
    .sitting hfresh (hshown.save hsave) hcrash
  obtain ⟨log, ⟨hsound, hlog, hrecorded⟩, -⟩ := hdisk.covers hframes hideal
  obtain ⟨second, hsecond, -⟩ :=
    hsound.start_tracks (PipelineDecoder.recorded_start p) hlog hrecorded Nat.one_pos
  obtain ⟨-, hkept, -⟩ := hsittings fresh _ shown hfresh hshown
  obtain ⟨-, -, hreceives⟩ := hsittings _ [] second hdisk (.start hsecond)
  obtain ⟨sink', extracted, out, hsave', hrecv, hintact⟩ := hreceives fun frame hframe =>
    .inr (hkept stopped _ hsave hcrash frame hframe)
  exact ⟨encoder.frames, transfer, _, _, second, sink', extracted, out, hdisk, .start hsecond,
    hsave', hrecv, hintact.view_eq⟩

end Dhow
