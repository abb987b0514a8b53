import Dhow.Recordable
import Dhow.ReferenceTree
import Dhow.Signing
import Dhow.XChaCha20Poly1305

/-!
# A reference transfer

The reference tree, sent in one block under the AEAD itself and a stand-in signature scheme.
-/

namespace Dhow.Reference
open Bytes FileSystem

def flags : SendFlags := ⟨64, 1, 0⟩

def sender : Sender ed where
  key := List.Vector.replicate 32 1
  identity := sessionKey
  sessionId := sessionId
  salt := List.Vector.replicate 32 2
  nonce := List.Vector.replicate 24 3

/-- The session of 130 bytes in one block exists whatever they hash to. -/
lemma exists_new (payloadDigest sessionKey : Arr 32) : ∃ p, Pipeline.new sender.sessionId
    { planOf 64 3 with payloadDigest := payloadDigest }.toSessionParams sessionKey = .ok p := by
  have hmap : chunkMapFor { planOf 64 3 with payloadDigest := payloadDigest }.toSessionParams =
      chunkMapFor alignedSession.params := chunkMapFor_congr rfl rfl rfl
  exact Pipeline.exists_new _ _ rfl (hmap.trans alignedSession.chunkMap_eq)

lemma exists_encoder {payload : Str} (hlen : payload.length = 114) : ∃ encoder,
    dhowEncoderNew b3 XChaCha20Poly1305.aead rq sender.key sender.sessionId sender.salt
      sender.nonce (planOf 64 3) payload = .ok encoder := by
  obtain ⟨keys, hkeys⟩ := TransferKeys.exists_derive b3 sender.key sender.salt
  have hblocks : payload.length / 64 < 2 ^ 32 - 1 := by
    rw [hlen]
    decide
  obtain ⟨ciphertext, henc⟩ := XChaCha20Poly1305.exists_encrypt keys.payloadKey sender.nonce
    sender.sessionId.toList hblocks
  have hc : encryptPayload XChaCha20Poly1305.aead keys sender.nonce sender.sessionId payload =
      .ok ciphertext := by
    rw [encryptPayload, henc]
  have hclen : ciphertext.length = 130 := by
    rw [(decryptPayloadInPlace_of_encryptPayload XChaCha20Poly1305.aead_correct hc).1, hlen]
    rfl
  have hresolved : (planOf 64 3).resolved b3 ciphertext =
      { planOf 64 3 with payloadDigest := blake3Digest b3 ciphertext } := by
    rw [DhowSessionParams.resolved, hclen]
    rfl
  obtain ⟨p, hp⟩ := exists_new (blake3Digest b3 ciphertext) keys.sessionKey
  have hpayload : ciphertext.length = p.chunkMap.params.payloadSize := by
    rw [p.chunkMap_params.1, (Pipeline.new_eq_ok hp).2.1, hclen]
    rfl
  obtain ⟨frames, hframes⟩ := Pipeline.exists_encode hpayload fun block _ packet hpacket =>
    Systematic.length_serialize_le hpacket
  have hbytes : p.encodeToBytes b3 rq ciphertext = .ok (frames.map fun f => f.frame.toVec) := by
    rw [Pipeline.encodeToBytes, hframes]
  simp only [dhowEncoderNew, encoderSession, hkeys, hc, hresolved, hp, hbytes, Except.ok.injEq,
    exists_eq']

lemma exists_manifest (params : DhowSessionParams) {inventory : List InventoryEntry}
    (hinv : Admissible inventory)
    (hnames : ∀ e ∈ inventory, e.name = asBytes "a-b" ∨ e.name = asBytes "a/b") : ∃ manifest,
    dhowManifestBuild ed sender.identity sender.sessionId sender.salt sender.nonce params
      inventory = .ok manifest := by
  obtain ⟨entries, he⟩ : ∃ entries, entriesFrom inventory = .ok entries := by
    apply Except.exists_mapM_eq_ok
    intro x hx
    have hmem : x.1 ∈ inventory := List.mem_of_getElem? (List.mem_zipIdx_iff_getElem?.mp hx)
    rcases hnames x.1 hmem with hname | hname
    · exact exists_entryFrom (hname ▸ by decide) hname rfl
    · exact exists_entryFrom (hname ▸ by decide) hname rfl
  exact exists_build ed _ _ _ _ _ hinv he

lemma names_inventoryFor :
    ∀ e ∈ inventoryFor b3 files, e.name = asBytes "a-b" ∨ e.name = asBytes "a/b" := by
  intro e he
  obtain ⟨x, hx, rfl⟩ := List.mem_map.mp he
  simp only [files, List.mem_cons, List.not_mem_nil, or_false] at hx
  rcases hx with rfl | rfl
  · exact .inl rfl
  · exact .inr rfl

/-- The reference tree is sent. -/
lemma exists_sent : ∃ payload entries encoder manifest, payload.length = 114 ∧
    Pack.create b3 tree [top] = .ok (payload, entries) ∧
    planSession payload.length flags.symbolSize flags.blocks flags.overheadPct =
      .ok (planOf 64 3) ∧
    dhowEncoderNew b3 XChaCha20Poly1305.aead rq sender.key sender.sessionId sender.salt
      sender.nonce (planOf 64 3) payload = .ok encoder ∧
    dhowManifestBuild ed sender.identity sender.sessionId sender.salt sender.nonce encoder.params
      (inventoryOf entries) = .ok manifest := by
  obtain ⟨payload, entries, hcreate⟩ := exists_create
  have hlen : payload.length = 114 := by
    rw [(Pack.create_eq_ok hcreate).2.1, sorted_walk]
    decide +kernel
  obtain ⟨encoder, hencoder⟩ := exists_encoder hlen
  obtain ⟨manifest, hmanifest⟩ := exists_manifest encoder.params
    (admissible_inventoryFor b3 packableAll_files) names_inventoryFor
  refine ⟨payload, entries, encoder, manifest, hlen, hcreate, ?_, hencoder, ?_⟩
  · rw [hlen]
    rfl
  · rw [inventoryOf_create hcreate, sorted_walk]
    exact hmanifest

end Dhow.Reference
