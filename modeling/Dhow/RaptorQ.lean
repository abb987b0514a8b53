import Dhow.Lib.Bytes

/-!
# RaptorQ

The fountain code of the `raptorq` crate, which is not part of the repository: its types and
the operations the pipeline calls. A call on a decoder may panic, and the panic leaves a
decoder behind when the unwind is caught. What a theorem relies on of the crate is one of the
propositions below, stated of the packets of one block.
-/

namespace Dhow
open Bytes

/-- How a call that mutates its receiver ended, with the receiver it left. -/
inductive Call (α : Type)
  | returned (a : α)
  | panicked (a : α)

/-- The receiver a call leaves, however it ended. -/
def Call.state {α : Type} : Call α → α
  | returned a => a
  | panicked a => a

structure RaptorQ where
  Config : Type
  Packet : Type
  Decoder : Type
  /-- `ObjectTransmissionInformation::with_defaults`. -/
  withDefaults : (transferLength : ℕ) → (maxPacketSize : UInt16) → Config
  /-- The number `Z` of source blocks of a configuration. -/
  sourceBlocks : Config → ℕ
  /-- The symbol size `T` of a configuration. -/
  symbolSize : Config → ℕ
  /-- `Encoder::new` and `get_encoded_packets`: the source packets and the asked repair packets. -/
  encodedPackets : Config → Str → (repair : ℕ) → List Packet
  serialize : Packet → Str
  deserialize : Str → Packet
  sourceBlockNumber : Packet → ℕ
  data : Packet → Str
  newDecoder : Config → Decoder
  addNewPacket : Decoder → Packet → Call Decoder
  getResult : Decoder → Option Str

namespace RaptorQ
variable (rq : RaptorQ)

/-- The decoder after a sequence of packets. -/
def feed (cfg : rq.Config) (packets : List rq.Packet) : rq.Decoder :=
  packets.foldl (fun d p => (rq.addNewPacket d p).state) (rq.newDecoder cfg)

@[simp] lemma feed_nil (cfg : rq.Config) : rq.feed cfg [] = rq.newDecoder cfg := rfl

@[simp] lemma feed_append_singleton (cfg : rq.Config) (packets : List rq.Packet)
    (p : rq.Packet) :
    rq.feed cfg (packets ++ [p]) = (rq.addNewPacket (rq.feed cfg packets) p).state := by
  simp [feed]

/-- The default configuration rounds the symbol size down to a multiple of eight. -/
def Aligned : Prop :=
  ∀ transferLength maxPacketSize, rq.symbolSize (rq.withDefaults transferLength maxPacketSize) =
    maxPacketSize.toNat - maxPacketSize.toNat % 8

/-- A packet whose fields index inside the decoder of a configuration. -/
structure Shaped (cfg : rq.Config) (p : rq.Packet) : Prop where
  sourceBlockNumber_lt : rq.sourceBlockNumber p < rq.sourceBlocks cfg
  length_data : (rq.data p).length = rq.symbolSize cfg

/-- The crate indexes with a packet's fields unchecked: a call panics exactly on a packet of the
wrong shape. -/
def PanicsOnMisshapen : Prop :=
  ∀ cfg packets p, (∃ d', rq.addNewPacket (rq.feed cfg packets) p = .panicked d') ↔
    ¬rq.Shaped cfg p

/-- The wire form of a packet: the block number in the first of the four bytes of its
identifier, and the symbol after them. -/
structure WireFormat : Prop where
  sourceBlockNumber_deserialize : ∀ bytes, 4 < bytes.length →
    rq.sourceBlockNumber (rq.deserialize bytes) = (u8At bytes 0).toNat
  data_deserialize : ∀ bytes, 4 < bytes.length → rq.data (rq.deserialize bytes) = bytes.drop 4

/-- What the pipeline relies on of one block's packets: they survive the wire, are accepted in
any order, decode to nothing but the block, decode by their set alone, stay decoded, and
decode once every source packet is among them. -/
structure Ideal (cfg : rq.Config) (block : Str) (repair : ℕ) : Prop where
  symbolSize_pos : 0 < rq.symbolSize cfg
  deserialize_serialize : ∀ p ∈ rq.encodedPackets cfg block repair,
    rq.deserialize (rq.serialize p) = p
  length_serialize : ∀ p ∈ rq.encodedPackets cfg block repair,
    (rq.serialize p).length = 4 + rq.symbolSize cfg
  returns : ∀ packets ⊆ rq.encodedPackets cfg block repair,
    ∀ p ∈ rq.encodedPackets cfg block repair,
      ∃ d, rq.addNewPacket (rq.feed cfg packets) p = .returned d
  sound : ∀ packets ⊆ rq.encodedPackets cfg block repair, ∀ bytes,
    rq.getResult (rq.feed cfg packets) = some bytes → bytes = block
  set_only : ∀ ps ⊆ rq.encodedPackets cfg block repair,
    ∀ qs ⊆ rq.encodedPackets cfg block repair, (∀ p, p ∈ ps ↔ p ∈ qs) →
      rq.getResult (rq.feed cfg ps) = rq.getResult (rq.feed cfg qs)
  latched : ∀ packets ⊆ rq.encodedPackets cfg block repair,
    ∀ p ∈ rq.encodedPackets cfg block repair, (rq.getResult (rq.feed cfg packets)).isSome →
      (rq.getResult (rq.feed cfg (packets ++ [p]))).isSome
  source_ne_nil : rq.encodedPackets cfg block 0 ≠ []
  source_subset : rq.encodedPackets cfg block 0 ⊆ rq.encodedPackets cfg block repair
  complete : ∀ packets ⊆ rq.encodedPackets cfg block repair,
    rq.encodedPackets cfg block 0 ⊆ packets → (rq.getResult (rq.feed cfg packets)).isSome

end RaptorQ
end Dhow
