import Dhow.Errors

/-!
# Session parameters

The parameters sender and receiver agree on, and the consistency check of `session.rs`.
-/

namespace Dhow
open Bytes

structure RaptorQParams where
  z : UInt32
  n : UInt32
  psi : UInt16
  deriving DecidableEq

structure SessionParams where
  payloadSize : UInt64
  blockCount : UInt32
  symbolSize : UInt32
  sourceSymbolsPerBlock : UInt32
  totalSymbolsPerBlock : UInt32
  raptorq : RaptorQParams
  payloadDigest : Arr 32
  deriving DecidableEq

def SessionParams.validate (params : SessionParams) : Except SessionError Unit :=
  if params.blockCount = 0 then
    .error (.invalidParameters "block_count must be non-zero")
  else if params.symbolSize = 0 then
    .error (.invalidParameters "symbol_size must be non-zero")
  else if params.totalSymbolsPerBlock < params.sourceSymbolsPerBlock then
    .error (.invalidParameters "total_symbols_per_block must be >= source_symbols_per_block")
  else .ok ()

/-- What a validated parameter set promises. -/
structure SessionParams.Valid (params : SessionParams) : Prop where
  blockCount_ne_zero : params.blockCount ≠ 0
  symbolSize_ne_zero : params.symbolSize ≠ 0
  source_le_total : params.sourceSymbolsPerBlock ≤ params.totalSymbolsPerBlock

lemma SessionParams.validate_eq_ok_iff (params : SessionParams) :
    params.validate = .ok () ↔ params.Valid := by
  unfold validate
  constructor
  · intro h
    split_ifs at h with hb hs ht
    exact ⟨hb, hs, UInt32.not_lt.mp ht⟩
  · intro h
    rw [if_neg h.blockCount_ne_zero, if_neg h.symbolSize_ne_zero,
      if_neg (UInt32.not_lt.mpr h.source_le_total)]

end Dhow
