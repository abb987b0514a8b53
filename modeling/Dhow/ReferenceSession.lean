import Dhow.Blake3Reference
import Dhow.Decoder
import Dhow.RaptorQSystematic

/-!
# A reference session

Every session whose blocks fit is ideal over the systematic code. The session below, of
three bytes in two uneven blocks, is the one at which the development instantiates its
theorems.
-/

namespace Dhow
open Bytes

namespace Systematic

/-- A session whose blocks fit is ideal. -/
theorem raptorQIdeal {p : Pipeline} {payload : Str}
    (hp : payload.length = p.chunkMap.params.payloadSize)
    (hfit : ∀ block ∈ p.chunkMap.blocks,
      (p.config raptorq block : Config).symbolCount + p.repairCount ≤ 2 ^ 24) :
    p.RaptorQIdeal raptorq payload := by
  intro block hb hs
  have hlen := p.chunkMap.length_blockBytes hp hb
  have hsize := p.symbolSize_bounds
  refine Fits.ideal ⟨hlen, by omega, ?_, hfit block hb⟩
  have h16 : p.params.symbolSize.toUInt16.toNat = p.params.symbolSize.toNat := by
    have hlt : p.params.symbolSize.toNat < 2 ^ 16 := by
      have := hsize.2
      unfold maxFecSymbolSize maxPayloadLen payloadIdLen at this
      omega
    rw [UInt32.toNat_toUInt16, Nat.mod_eq_of_lt hlt]
  change 0 < p.params.symbolSize.toUInt16.toNat - p.params.symbolSize.toUInt16.toNat % 8
  rw [h16]
  omega

end Systematic

namespace Reference

abbrev b3 : Blake3 := Blake3Reference.blake3
abbrev rq : RaptorQ := Systematic.raptorq

def payload : Str := [0x44, 0x68, 0x6F]

def sessionId : Arr 16 := List.Vector.replicate 16 7

def sessionKey : Arr 32 := List.Vector.replicate 32 0xAB

def params : SessionParams where
  payloadSize := 3
  blockCount := 2
  symbolSize := 64
  sourceSymbolsPerBlock := 1
  totalSymbolsPerBlock := 1
  raptorq := ⟨2, 1, 1⟩
  payloadDigest := blake3Digest b3 payload

def chunkMap : ChunkMap where
  params := ⟨3, 2, 64, by decide, by decide, by decide⟩
  blocks := [⟨0, 0, 2, 1⟩, ⟨1, 2, 1, 1⟩]
  blocks_eq := rfl

def pipeline : Pipeline where
  sessionId := sessionId
  params := params
  sessionKey := sessionKey
  chunkMap := chunkMap
  params_valid := rfl
  chunkMap_eq := rfl

/-- The emitted frames. -/
def frames : List Str := ((pipeline.encodeToBytes b3 rq payload).toOption).getD []

lemma new_eq : Pipeline.new sessionId params sessionKey = .ok pipeline := rfl

def decoder : PipelineDecoder rq := .start rq pipeline

lemma new_decoder_eq : PipelineDecoder.new rq sessionId params sessionKey = .ok decoder := rfl

lemma encodeToBytes_eq : pipeline.encodeToBytes b3 rq payload = .ok frames := rfl

lemma ideal : pipeline.RaptorQIdeal rq payload :=
  Systematic.raptorQIdeal rfl (by decide)

end Reference
end Dhow
