import Dhow.Lib.Bisection
import Dhow.Pipeline
import Dhow.Qr.Encoder
import Dhow.ReferenceSession

/-!
# Sizing frames for QR codes

How much a QR code of a version and level holds (`qr.rs`), which is searched for by asking the
encoder, the symbol size that leaves room for the rest of a frame, and that every frame of a session
with such symbols is encoded.
-/

namespace Dhow
open Bytes Checked

/-! ### The encoder -/

inductive QrCodeEcc
  | low
  | medium
  | quartile
  | high
  deriving DecidableEq

inductive Ecc
  | low
  | medium
  | quartile
  | high
  deriving DecidableEq

def Ecc.toQrcodegen : Ecc → QrCodeEcc
  | low => .low
  | medium => .medium
  | quartile => .quartile
  | high => .high

def minVersion : UInt8 := 1
def maxVersion : UInt8 := 40

/-- A version of the standard. -/
structure Version where
  value : UInt8
  value_mem : minVersion ≤ value ∧ value ≤ maxVersion
  deriving DecidableEq

/-- The `qrcodegen` crate, which is not part of the repository. -/
structure QrCodegen where
  Segment : Type
  QrCode : Type
  makeBytes : Str → Segment
  encodeSegmentsAdvanced : List Segment → QrCodeEcc → (minVersion maxVersion : Version) →
    (mask : Option (Fin 8)) → (boostEcl : Bool) → Option QrCode

inductive QrError
  | dataTooLong (length : ℕ) (version : UInt8) (ecc : Ecc)
  | invalidVersion (version : UInt8)
  deriving DecidableEq

structure QrCodeEncoder (qr : QrCodegen) where
  inner : qr.QrCode
  ecc : Ecc

namespace QrCodegen
variable (qr : QrCodegen)

/-- The data as one segment in byte mode, at a fixed version and level. -/
def encodeBytes (data : Str) (version : Version) (ecc : Ecc) : Option qr.QrCode :=
  qr.encodeSegmentsAdvanced [qr.makeBytes data] ecc.toQrcodegen version version none false

def fits (len : ℕ) (version : Version) (ecc : Ecc) : Bool :=
  (qr.encodeBytes (List.replicate len 0) version ecc).isSome

/-- There are more passes than lengths to search. -/
def capacity (version : UInt8) (ecc : Ecc) : Checked QrError ℕ :=
  if h : minVersion ≤ version ∧ version ≤ maxVersion then do
    let (low, _) ← whileLoop (fun s : ℕ × ℕ => .ok (decide (s.1 < s.2)))
      (fun (low, high) =>
        let mid := low + (high - low + 1) / 2
        if qr.fits mid ⟨version, h⟩ ecc then .ok (mid, high) else .ok (low, mid - 1)) 4097 (0, 4096)
    .ok low
  else fail (.invalidVersion version)

def frameOverhead : ℕ := frameHeaderSize + 4

def maxSymbolSize (version : UInt8) (ecc : Ecc) : Checked QrError (Option UInt32) := do
  let cap ← qr.capacity version ecc
  if cap ≤ frameOverhead then .ok none else .ok (some (UInt32.ofNat (cap - frameOverhead)))

def encodeAt (data : Str) (version : UInt8) (ecc : Ecc) : Checked QrError (QrCodeEncoder qr) :=
  if h : minVersion ≤ version ∧ version ≤ maxVersion then do
    let cap ← qr.capacity version ecc
    if data.length > cap then fail (.dataTooLong data.length version ecc)
    else
      match qr.encodeBytes data ⟨version, h⟩ ecc with
      | none => fail (.dataTooLong data.length version ecc)
      | some inner => .ok ⟨inner, ecc⟩
  else fail (.invalidVersion version)

/-! ### The search -/

/-- The data that is encoded. -/
def Accepts (version : Version) (ecc : Ecc) (data : Str) : Prop :=
  (qr.encodeBytes data version ecc).isSome

/-- What the code relies on of the crate at a version and level: whether data is encoded depends on
its length, no data is, and nothing of 4096 bytes or more is. -/
structure ByteMode (version : Version) (ecc : Ecc) : Prop where
  mono : ∀ data data' : Str, data.length ≤ data'.length →
    qr.Accepts version ecc data' → qr.Accepts version ecc data
  nil : qr.Accepts version ecc []
  length_le : ∀ data, qr.Accepts version ecc data → data.length ≤ 4095

/-- The lengths of the data that is encoded. -/
def lengths (version : Version) (ecc : Ecc) : Set ℕ :=
  {n | ∃ data : Str, data.length = n ∧ qr.Accepts version ecc data}

variable {qr} {version : Version} {ecc : Ecc}

lemma ByteMode.mem_lengths_iff (h : qr.ByteMode version ecc) (data : Str) :
    data.length ∈ qr.lengths version ecc ↔ qr.Accepts version ecc data := by
  constructor
  · rintro ⟨data', hlen, haccepts⟩
    exact h.mono data data' hlen.ge haccepts
  · exact fun haccepts => ⟨data, rfl, haccepts⟩

lemma ByteMode.fits_iff (h : qr.ByteMode version ecc) (len : ℕ) :
    qr.fits len version ecc = true ↔ len ∈ qr.lengths version ecc := by
  have hmem := h.mem_lengths_iff (List.replicate len 0)
  rw [List.length_replicate] at hmem
  exact hmem.symm

lemma ByteMode.isLowerSet_lengths (h : qr.ByteMode version ecc) :
    IsLowerSet (qr.lengths version ecc) := by
  rintro n m hle ⟨data, hlen, haccepts⟩
  refine ⟨data.take m, ?_, h.mono _ data (List.length_take_le' _ _) haccepts⟩
  rw [List.length_take]
  omega

lemma ByteMode.brackets (h : qr.ByteMode version ecc) :
    Bisection.Brackets (qr.lengths version ecc) 0 4096 := by
  refine ⟨⟨[], rfl, h.nil⟩, ?_⟩
  rintro n ⟨data, rfl, haccepts⟩
  exact (h.length_le data haccepts).trans (by decide)

lemma ByteMode.gives_capacity (h : qr.ByteMode version ecc) :
    Gives (IsGreatest (qr.lengths version ecc)) (qr.capacity version.value ecc) := by
  rw [capacity, dif_pos version.value_mem]
  refine Gives.bind (P := fun s : ℕ × ℕ => IsGreatest (qr.lengths version ecc) s.1) ?_ ?_
  · -- The bounds stay around the greatest length, and come closer with every pass.
    apply ends_whileLoop (fun s : ℕ × ℕ => Bisection.Brackets (qr.lengths version ecc) s.1 s.2)
      (fun s => s.2 - s.1) ?_ h.brackets (by decide)
    rintro ⟨low, high⟩ hs
    dsimp only at hs ⊢
    refine .ok ?_
    by_cases hlt : low < high
    · rw [if_pos (decide_eq_true hlt)]
      by_cases hfits : qr.fits (low + (high - low + 1) / 2) version ecc = true
      · rw [if_pos hfits]
        refine .ok ⟨hs.raise ((h.fits_iff _).mp hfits), ?_⟩
        dsimp only
        omega
      · rw [if_neg hfits]
        have hout : low + (high - low + 1) / 2 ∉ qr.lengths version ecc := fun hmem =>
          hfits ((h.fits_iff _).mpr hmem)
        refine .ok ⟨hs.lower h.isLowerSet_lengths hout ?_, ?_⟩
        · intro n hn
          dsimp only
          omega
        · dsimp only
          omega
    · rw [if_neg (by simpa using hlt)]
      exact hs.isGreatest (Nat.le_of_not_lt hlt)
  · rintro ⟨low, high⟩ hlow
    exact .ok hlow

lemma ByteMode.encodeAt_eq_ok (h : qr.ByteMode version ecc) {cap : ℕ}
    (hcap : qr.capacity version.value ecc = .ok cap)
    (hgreatest : IsGreatest (qr.lengths version ecc) cap) {data : Str} (hlen : data.length ≤ cap) :
    ∃ code, qr.encodeAt data version.value ecc = .ok code := by
  have haccepts : qr.Accepts version ecc data :=
    (h.mem_lengths_iff data).mp (h.isLowerSet_lengths hlen hgreatest.1)
  obtain ⟨inner, hinner⟩ := Option.isSome_iff_exists.mp haccepts
  refine ⟨⟨inner, ecc⟩, ?_⟩
  rw [encodeAt, dif_pos version.value_mem, hcap, ok_bind, if_neg (Nat.not_lt.mpr hlen), hinner]

/-! ### Symbols -/

/-- The symbol sizes that leave room for the rest of a frame. -/
def symbolSizes (cap : ℕ) : Set ℕ := {t | 1 ≤ t ∧ 46 + 4 + t ≤ cap}

lemma maxSymbolSize_eq {cap : ℕ} (hcap : qr.capacity version.value ecc = .ok cap)
    (hle : cap ≤ 4095) : ∃ size, qr.maxSymbolSize version.value ecc = .ok size ∧
      (∀ t, size = some t → IsGreatest (symbolSizes cap) t.toNat) ∧
      (size = none → symbolSizes cap = ∅) := by
  rw [maxSymbolSize, hcap, ok_bind]
  by_cases hsmall : cap ≤ frameOverhead
  · rw [if_pos hsmall]
    refine ⟨none, rfl, nofun, fun _ => ?_⟩
    rw [Set.eq_empty_iff_forall_notMem]
    rintro t ⟨hpos, ht⟩
    unfold frameOverhead frameHeaderSize at hsmall
    omega
  · rw [if_neg hsmall]
    refine ⟨_, rfl, ?_, nofun⟩
    rintro t ⟨⟩
    unfold frameOverhead frameHeaderSize at hsmall ⊢
    rw [UInt32.toNat_ofNat_of_lt' (by rw [UInt32.size]; omega)]
    refine ⟨⟨by omega, by omega⟩, ?_⟩
    rintro t ⟨-, ht⟩
    omega

end QrCodegen

namespace Pipeline

/-- What the encoder relies on of RaptorQ: every packet has a whole symbol, the last of a block,
which is filled up, too. -/
def WholeSymbols (p : Pipeline) (rq : RaptorQ) (payload : Str) : Prop :=
  ∀ block ∈ p.chunkMap.blocks, block.size ≠ 0 → ∀ packet ∈ p.packets rq payload block,
    (rq.serialize packet).length = 4 + rq.symbolSize (p.config rq block)

lemma symbolSize_config_le {rq : RaptorQ} (haligned : rq.Aligned) (p : Pipeline)
    (block : BlockInfo) : rq.symbolSize (p.config rq block) ≤ p.params.symbolSize.toNat := by
  rw [config, configForBlock, haligned, UInt32.toNat_toUInt16]
  exact (Nat.sub_le _ _).trans (Nat.mod_le _ _)

/-- A frame is no longer than its header, a packet identifier and a symbol. -/
lemma length_le_of_mem_encodeToBytes {b3 : Blake3} {rq : RaptorQ} {p : Pipeline} {payload : Str}
    {frames : List Str} (haligned : rq.Aligned) (hwhole : p.WholeSymbols rq payload)
    (h : p.encodeToBytes b3 rq payload = .ok frames) {frame : Str} (hframe : frame ∈ frames) :
    frame.length ≤ 46 + 4 + p.params.symbolSize.toNat := by
  obtain ⟨i, j, block, packet, hsymbol⟩ := (mem_encodeToBytes h).mp hframe
  obtain ⟨hle, rfl⟩ := hsymbol.frame_eq
  have hlen := hwhole block (List.mem_of_getElem? hsymbol.block_eq) hsymbol.size_ne_zero packet
    (List.mem_of_getElem? hsymbol.packet_eq)
  have hsize := symbolSize_config_le haligned p block
  rw [Frame.toVec, List.length_append, FrameHeader.length_toVec]
  change 46 + (rq.serialize packet).length ≤ _
  omega

end Pipeline

/-- The capacity is that of the encoder, the symbol size is the largest for it, and every frame of a
session with no larger symbols is encoded. -/
theorem QrCodegen.frames_fit {qr : QrCodegen} {version : Version} {ecc : Ecc}
    (h : qr.ByteMode version ecc) :
    ∃ cap, qr.capacity version.value ecc = .ok cap ∧ IsGreatest (qr.lengths version ecc) cap ∧
      ∃ size, qr.maxSymbolSize version.value ecc = .ok size ∧
        (∀ t, size = some t → IsGreatest (symbolSizes cap) t.toNat) ∧
        (size = none → symbolSizes cap = ∅) ∧
        ∀ (b3 : Blake3) (rq : RaptorQ) (p : Pipeline) (payload : Str) (frames : List Str),
          rq.Aligned → p.WholeSymbols rq payload → p.encodeToBytes b3 rq payload = .ok frames →
          (∃ t, size = some t ∧ p.params.symbolSize ≤ t) →
          ∀ frame ∈ frames, ∃ code, qr.encodeAt frame version.value ecc = .ok code := by
  obtain ⟨cap, hcap, hgreatest⟩ := gives_iff.mp h.gives_capacity
  obtain ⟨data, hdata, haccepts⟩ := id hgreatest.1
  obtain ⟨size, hsize, hsome, hnone⟩ :=
    maxSymbolSize_eq hcap (hdata ▸ h.length_le data haccepts)
  refine ⟨cap, hcap, hgreatest, size, hsize, hsome, hnone, ?_⟩
  rintro b3 rq p payload frames haligned hwhole hencode ⟨t, rfl, ht⟩ frame hframe
  have hroom := (hsome t rfl).1.2
  have hlen := Pipeline.length_le_of_mem_encodeToBytes haligned hwhole hencode hframe
  have ht := UInt32.le_iff_toNat_le.mp ht
  exact h.encodeAt_eq_ok hcap hgreatest (by omega)

/-! ### The standard's encoder -/

namespace Reference
open Qr

def level : QrCodeEcc → Level
  | .low => .low
  | .medium => .medium
  | .quartile => .quartile
  | .high => .high

/-- The first version with room. -/
def firstFit (level : Level) (first last : ℕ) (data : Str) : Option ℕ :=
  ((List.range (last + 1)).drop first).find? fun version => decide (Fits version level data)

lemma isSome_firstFit (level : Level) (version : ℕ) (data : Str) :
    (firstFit level version version data).isSome ↔ Fits version level data := by
  rw [firstFit, List.range_succ, List.drop_left' List.length_range, List.find?_isSome]
  simp

/-- The standard's encoder in the first version with room, without the choice of a mask. -/
def qrcodegen : QrCodegen where
  Segment := Str
  QrCode := Grid
  makeBytes data := data
  encodeSegmentsAdvanced segments ecl minVersion maxVersion mask _ :=
    match segments with
    | [data] =>
      (firstFit (level ecl) minVersion.value.toNat maxVersion.value.toNat data).map
        fun version => encodedGrid version (level ecl) (mask.getD 0) data
    | _ => none

lemma accepts_iff (version : Version) (ecc : Ecc) (data : Str) :
    qrcodegen.Accepts version ecc data ↔
      Fits version.value.toNat (level ecc.toQrcodegen) data := by
  have hsome : (qrcodegen.encodeBytes data version ecc).isSome =
      (firstFit (level ecc.toQrcodegen) version.value.toNat version.value.toNat data).isSome :=
    Option.isSome_map
  rw [QrCodegen.Accepts, hsome, isSome_firstFit]

lemma capacity_bounds : ∀ version < 41, 1 ≤ version →
    ∀ level ∈ [Level.low, .medium, .quartile, .high],
      3 ≤ Qr.capacity version level ∧ Qr.capacity version level ≤ 4096 := by
  decide +kernel

lemma byteMode (version : Version) (ecc : Ecc) : qrcodegen.ByteMode version ecc := by
  obtain ⟨h1, h40⟩ := version.value_mem
  have h1 : 1 ≤ version.value.toNat := UInt8.le_iff_toNat_le.mp h1
  have h40 : version.value.toNat ≤ 40 := UInt8.le_iff_toNat_le.mp h40
  obtain ⟨hmin, hmax⟩ := capacity_bounds version.value.toNat (by omega) h1
    (level ecc.toQrcodegen) (by cases ecc <;> decide)
  have hbits : countBits version.value.toNat ≤ 16 := by
    unfold countBits
    split_ifs <;> omega
  refine ⟨fun data data' hle h => ?_, ?_, fun data h => ?_⟩
  · rw [accepts_iff, Fits, length_segment] at h ⊢
    omega
  · rw [accepts_iff, Fits, length_segment, List.length_nil]
    omega
  · rw [accepts_iff, Fits, length_segment] at h
    omega

lemma wholeSymbols : pipeline.WholeSymbols rq payload := by
  intro block hblock hsize packet hpacket
  exact (ideal block hblock hsize).length_serialize packet hpacket

end Reference

/-- Version 10 at the medium level, with symbols of 64 bytes. -/
theorem QrCodegen.frames_fit_reference :
    ∃ t, Reference.qrcodegen.maxSymbolSize 10 .medium = .ok (some t) ∧ 64 ≤ t ∧
      ∀ frame ∈ Reference.frames, ∃ code,
        Reference.qrcodegen.encodeAt frame 10 .medium = .ok code := by
  let version : Version := ⟨10, by decide⟩
  obtain ⟨cap, -, hgreatest, size, hsize, hsome, hnone, hframes⟩ :=
    QrCodegen.frames_fit (Reference.byteMode version .medium)
  -- A frame of 114 bytes is encoded, so 64 is among the symbol sizes.
  have hfits : (114 : ℕ) ∈ Reference.qrcodegen.lengths version .medium :=
    ⟨List.replicate 114 0, List.length_replicate,
      (Reference.accepts_iff ..).mpr (by decide +kernel)⟩
  have hmem : 64 ∈ QrCodegen.symbolSizes cap := ⟨by decide, hgreatest.2 hfits⟩
  cases size with
  | none =>
    rw [hnone rfl] at hmem
    exact hmem.elim
  | some t =>
    have ht : 64 ≤ t := UInt32.le_iff_toNat_le.mpr ((hsome t rfl).2 hmem)
    exact ⟨t, hsize, ht, hframes Reference.b3 Reference.rq Reference.pipeline Reference.payload _
      Systematic.aligned Reference.wholeSymbols Reference.encodeToBytes_eq ⟨t, rfl, ht⟩⟩

end Dhow
