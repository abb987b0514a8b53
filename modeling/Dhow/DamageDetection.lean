import Dhow.Castagnoli
import Dhow.Poisoning

/-!
# Damaged frames

A change of one byte of a frame, or of payload bytes within four places, is always seen: the
constant fields are compared, the MAC covers the other fields of the header, and the checksum the
payload.
-/

namespace Bytes

/-- Strings of one length that differ in exactly one byte. -/
def OneByteOff (a b : Str) : Prop :=
  a.length = b.length ∧ ∃ i, u8At a i ≠ u8At b i ∧ ∀ j, j ≠ i → u8At a j = u8At b j

lemma ext_u8At {a b : Str} (hlen : a.length = b.length) (h : ∀ i, u8At a i = u8At b i) :
    a = b := by
  apply List.ext_getElem hlen
  intro i ha hb
  have hi := h i
  rwa [u8At, u8At, List.getD_eq_getElem _ _ ha, List.getD_eq_getElem _ _ hb] at hi

lemma u8At_append_left {a b : Str} {i : ℕ} (h : i < a.length) : u8At (a ++ b) i = u8At a i :=
  List.getD_append _ _ _ _ h

namespace OneByteOff
variable {a b c d : Str}

lemma ne (h : OneByteOff a b) : a ≠ b := by
  rintro rfl
  obtain ⟨-, i, hi, -⟩ := h
  exact hi rfl

lemma singleton {x y : UInt8} (h : x ≠ y) : OneByteOff [x] [y] := by
  refine ⟨rfl, 0, h, fun j hj => ?_⟩
  cases j with
  | zero => exact absurd rfl hj
  | succ j => rfl

/-- The byte is in the first part or in the second. -/
lemma append_cases (hac : a.length = c.length) (h : OneByteOff (a ++ b) (c ++ d)) :
    OneByteOff a c ∧ b = d ∨ a = c ∧ OneByteOff b d := by
  obtain ⟨hlen, i, hi, hrest⟩ := h
  rw [List.length_append, List.length_append] at hlen
  have hbd : b.length = d.length := by omega
  have hsecond (k : ℕ) (hk : a.length + k ≠ i) : u8At b k = u8At d k := by
    have hk' := hrest _ hk
    rwa [u8At_append_right (Nat.le_add_right _ _), u8At_append_right (by omega),
      Nat.add_sub_cancel_left, hac, Nat.add_sub_cancel_left] at hk'
  have hfirst (k : ℕ) (hk : k ≠ i) : u8At a k = u8At c k := by
    by_cases hka : k < a.length
    · have hk' := hrest _ hk
      rwa [u8At_append_left hka, u8At_append_left (by omega)] at hk'
    · rw [u8At, u8At, List.getD_eq_default _ _ (by omega), List.getD_eq_default _ _ (by omega)]
  by_cases hia : i < a.length
  · left
    rw [u8At_append_left hia, u8At_append_left (by omega)] at hi
    exact ⟨⟨hac, i, hi, hfirst⟩, ext_u8At hbd fun k => hsecond k (by omega)⟩
  · right
    rw [u8At_append_right (by omega), u8At_append_right (by omega), ← hac] at hi
    refine ⟨ext_u8At hac fun k => ?_, hbd, i - a.length, hi, fun k hk => hsecond k (by omega)⟩
    by_cases hki : k = i
    · rw [u8At, u8At, List.getD_eq_default _ _ (by omega), List.getD_eq_default _ _ (by omega)]
    · exact hfirst k hki

lemma append_right (h : OneByteOff a b) (c : Str) : OneByteOff (a ++ c) (b ++ c) := by
  obtain ⟨hlen, i, hi, hrest⟩ := h
  have hia : i < a.length := by
    by_contra hge
    rw [u8At, u8At, List.getD_eq_default _ _ (by omega), List.getD_eq_default _ _ (by omega)] at hi
    exact hi rfl
  refine ⟨by rw [List.length_append, List.length_append, hlen], i, ?_, fun j hj => ?_⟩
  · rwa [u8At_append_left hia, u8At_append_left (by omega)]
  · by_cases hja : j < a.length
    · rw [u8At_append_left hja, u8At_append_left (by omega), hrest j hj]
    · rw [u8At_append_right (by omega), u8At_append_right (by omega), hlen]

lemma append_left (h : OneByteOff a b) (c : Str) : OneByteOff (c ++ a) (c ++ b) := by
  obtain ⟨hlen, i, hi, hrest⟩ := h
  refine ⟨by rw [List.length_append, List.length_append, hlen], c.length + i, ?_, fun j hj => ?_⟩
  · rwa [u8At_append_right (Nat.le_add_right _ _), u8At_append_right (Nat.le_add_right _ _),
      Nat.add_sub_cancel_left]
  · by_cases hjc : j < c.length
    · rw [u8At_append_left hjc, u8At_append_left hjc]
    · rw [u8At_append_right (by omega), u8At_append_right (by omega), hrest _ (by omega)]

end OneByteOff
end Bytes

namespace Dhow
open Bytes

lemma byteBurst_of_oneByteOff {a b : Str} (h : OneByteOff a b) : Castagnoli.ByteBurst a b := by
  obtain ⟨-, i, -, hrest⟩ := h
  refine ⟨i, fun j hj => ?_⟩
  by_contra hne
  exact hj (hrest j (by omega))

/-- A string of the frame's length that differs from it in one byte, or in bytes of the payload
within four consecutive ones. -/
def Damages (frame bytes : Str) : Prop :=
  OneByteOff frame bytes ∨
    frame.length = bytes.length ∧ frame ≠ bytes ∧ ∃ start ≥ frameHeaderSize, ∀ i,
      u8At frame i ≠ u8At bytes i → start ≤ i ∧ i < start + 4

/-- What is assumed of the MAC: headers whose MAC'd bytes differ in one byte have different
ones. -/
def MacSeparates (b3 : Blake3) (key : Arr 32) : Prop :=
  ∀ g h : FrameHeader, OneByteOff g.macInput h.macInput →
    g.computeMac b3 key ≠ h.computeMac b3 key

namespace FrameHeader

/-- The header's fields before the reserved ones, and those between the MAC and the checksum. -/
def leading (h : FrameHeader) : Str := h.magic.toList ++ [h.version] ++ [h.frameType.toByte]
def position (h : FrameHeader) : Str :=
  u32le h.blockIndex ++ u32le h.symbolIndex ++ u16le h.payloadLength

lemma toVec_eq (h : FrameHeader) : h.toVec = h.leading ++ (u16le h.reserved ++
    (h.sessionId.toList ++ (h.truncatedMac.toList ++ (h.position ++ u32le h.crc32c)))) := by
  simp only [toVec, leading, position, List.append_assoc]

lemma macInput_eq (h : FrameHeader) :
    h.macInput = h.leading ++ (h.sessionId.toList ++ h.position) := by
  simp only [macInput, leading, position, List.append_assoc]

end FrameHeader

lemma FrameHeader.toVec_injective : Function.Injective FrameHeader.toVec := by
  intro g h e
  have hg := g.fromBytes_toVec_append []
  rw [e, h.fromBytes_toVec_append, Except.ok.injEq] at hg
  exact hg.symm

/-- A frame the parser returns. -/
structure Frame.Authentic (b3 : Blake3) (key : Arr 32) (f : Frame) : Prop where
  mac_eq : f.header.truncatedMac = f.header.computeMac b3 key
  length_eq : f.payload.length = f.header.payloadLength.toNat
  digest_eq : crc32cDigest f.payload = f.header.crc32c

namespace Frame.Authentic
variable {b3 : Blake3} {key : Arr 32} {f g : Frame}

lemma mac_eq_of_macInput (hf : f.Authentic b3 key) (hg : g.Authentic b3 key)
    (h : f.header.macInput = g.header.macInput) :
    f.header.truncatedMac = g.header.truncatedMac := by
  rw [hf.mac_eq, hg.mac_eq, FrameHeader.computeMac, FrameHeader.computeMac, h]

/-- The declared length is among the MAC'd fields. -/
lemma length_eq_of_macInput (hf : f.Authentic b3 key) (hg : g.Authentic b3 key)
    (h : f.header.macInput = g.header.macInput) : f.payload.length = g.payload.length := by
  obtain ⟨-, -, -, -, hlen⟩ := FrameHeader.macInput_inj h
  rw [hf.length_eq, hg.length_eq, hlen]

lemma not_oneByteOff_macInput (hf : f.Authentic b3 key) (hg : g.Authentic b3 key)
    (hsep : MacSeparates b3 key) (h : f.header.truncatedMac = g.header.truncatedMac) :
    ¬OneByteOff f.header.macInput g.header.macInput := by
  intro hoff
  rw [hf.mac_eq, hg.mac_eq] at h
  exact hsep _ _ hoff h

/-- A burst in the payload under the same header is seen by the checksum. -/
lemma payload_eq_of_burst (hf : f.Authentic b3 key) (hg : g.Authentic b3 key)
    (hmac : f.header.macInput = g.header.macInput) (hcrc : f.header.crc32c = g.header.crc32c)
    {rest : Str} (hlen : f.payload.length = (g.payload ++ rest).length)
    (hburst : Castagnoli.ByteBurst f.payload (g.payload ++ rest)) :
    f.payload = g.payload ++ rest := by
  have hsame := hf.length_eq_of_macInput hg hmac
  rw [List.length_append] at hlen
  obtain rfl : rest = [] := List.eq_nil_of_length_eq_zero (by omega)
  rw [List.append_nil] at hburst ⊢
  apply eq_of_crc32cDigest_eq hsame hburst.bitBurst
  rw [hf.digest_eq, hg.digest_eq, hcrc]

lemma not_oneByteOff (hf : f.Authentic b3 key) (hg : g.Authentic b3 key)
    (hsep : MacSeparates b3 key) (rest : Str) : ¬OneByteOff f.toVec (g.toVec ++ rest) := by
  intro hoff
  have hreserved : f.header.reserved = g.header.reserved := by
    rw [f.header.reserved_eq, g.header.reserved_eq]
  have hposition : f.header.position.length = g.header.position.length := by
    simp [FrameHeader.position]
  have hmacInput := f.header.macInput_eq
  have hmacInput' := g.header.macInput_eq
  simp only [toVec, FrameHeader.toVec_eq, List.append_assoc, hreserved] at hoff
  rcases hoff.append_cases (by simp [FrameHeader.leading]) with ⟨hlead, htail⟩ | ⟨hlead, hoff⟩
  · obtain ⟨hid, htail⟩ := List.append_inj (List.append_cancel_left htail) (by simp)
    obtain ⟨hmac, htail⟩ := List.append_inj htail (by simp)
    obtain ⟨hpos, -⟩ := List.append_inj htail hposition
    apply hf.not_oneByteOff_macInput hg hsep (Subtype.ext hmac)
    rw [hmacInput, hmacInput', hid, hpos]
    exact hlead.append_right _
  rcases hoff.append_cases rfl with ⟨hres, -⟩ | ⟨-, hoff⟩
  · exact hres.ne rfl
  rcases hoff.append_cases (by simp) with ⟨hid, htail⟩ | ⟨hid, hoff⟩
  · obtain ⟨hmac, htail⟩ := List.append_inj htail (by simp)
    obtain ⟨hpos, -⟩ := List.append_inj htail hposition
    apply hf.not_oneByteOff_macInput hg hsep (Subtype.ext hmac)
    rw [hmacInput, hmacInput', hlead, hpos]
    exact (hid.append_right _).append_left _
  rcases hoff.append_cases (by simp) with ⟨hmac, htail⟩ | ⟨hmac, hoff⟩
  · obtain ⟨hpos, -⟩ := List.append_inj htail hposition
    apply hmac.ne
    rw [hf.mac_eq_of_macInput hg (by rw [hmacInput, hmacInput', hlead, hid, hpos])]
  rcases hoff.append_cases hposition with ⟨hpos, -⟩ | ⟨hpos, hoff⟩
  · apply hf.not_oneByteOff_macInput hg hsep (Subtype.ext hmac)
    rw [hmacInput, hmacInput', hlead, hid]
    exact (hpos.append_left _).append_left _
  -- From here on the MAC'd fields agree, and so does the declared length.
  have hsame : f.header.macInput = g.header.macInput := by
    rw [hmacInput, hmacInput', hlead, hid, hpos]
  rcases hoff.append_cases (by simp) with ⟨hcrc, hpay⟩ | ⟨hcrc, hoff⟩
  · have hlen := hf.length_eq_of_macInput hg hsame
    have hrest := congrArg List.length hpay
    rw [List.length_append] at hrest
    obtain rfl : rest = [] := List.eq_nil_of_length_eq_zero (by omega)
    rw [List.append_nil] at hpay
    apply hcrc.ne
    rw [← hf.digest_eq, ← hg.digest_eq, hpay]
  · have hcrc' : f.header.crc32c = g.header.crc32c := by
      rw [← u32At_u32le f.header.crc32c, hcrc, u32At_u32le]
    exact hoff.ne (hf.payload_eq_of_burst hg hsame hcrc' hoff.1
      (byteBurst_of_oneByteOff hoff))

/-- Bytes of the payload within four places. -/
lemma not_payloadBurst (hf : f.Authentic b3 key) (hg : g.Authentic b3 key) {rest : Str}
    (hlen : f.toVec.length = (g.toVec ++ rest).length) (hne : f.toVec ≠ g.toVec ++ rest)
    {start : ℕ} (hstart : frameHeaderSize ≤ start) :
    ¬∀ i, u8At f.toVec i ≠ u8At (g.toVec ++ rest) i → start ≤ i ∧ i < start + 4 := by
  intro hburst
  have hsize : f.header.toVec.length = g.header.toVec.length := by
    rw [FrameHeader.length_toVec, FrameHeader.length_toVec]
  rw [toVec, toVec, List.append_assoc] at hlen hne hburst
  have hheader : f.header = g.header := by
    apply FrameHeader.toVec_injective
    apply ext_u8At hsize
    intro i
    by_cases hi : i < frameHeaderSize
    · by_contra hdiff
      rw [← FrameHeader.length_toVec f.header] at hi
      have hin := hburst i (by rwa [u8At_append_left hi, u8At_append_left (hsize ▸ hi)])
      rw [FrameHeader.length_toVec] at hi
      omega
    · rw [u8At, u8At, List.getD_eq_default _ _ (by rw [FrameHeader.length_toVec]; omega),
        List.getD_eq_default _ _ (by rw [FrameHeader.length_toVec]; omega)]
  have hpay : f.payload.length = (g.payload ++ rest).length := by
    rw [List.length_append, @List.length_append _ g.header.toVec, hsize] at hlen
    omega
  apply hne
  rw [hheader, hf.payload_eq_of_burst hg (by rw [hheader]) (by rw [hheader]) hpay]
  refine ⟨start - frameHeaderSize, fun i hi => ?_⟩
  have hin := hburst (frameHeaderSize + i)
  rw [u8At_append_right (by rw [FrameHeader.length_toVec]; omega),
    u8At_append_right (by rw [FrameHeader.length_toVec]; omega), FrameHeader.length_toVec,
    FrameHeader.length_toVec, Nat.add_sub_cancel_left] at hin
  have := hin hi
  omega

end Frame.Authentic

/-- What the parser returns is authentic, and the string begins with it. -/
lemma Frame.authentic_of_fromBytes {b3 : Blake3} {bytes : Str} {key : Arr 32} {f : Frame}
    (h : fromBytes b3 bytes key = .ok f) : f.Authentic b3 key ∧ ∃ rest, bytes = f.toVec ++ rest := by
  obtain ⟨hmac, hlen, hcrc, hrest⟩ := (fromBytes_eq_ok_iff b3 bytes key f).mp h
  exact ⟨⟨hmac, hlen, hcrc⟩, hrest⟩

/-- A damaged frame is an error to a decoder of its session, whatever it holds. -/
theorem damage_detected {b3 : Blake3} {rq : RaptorQ} {p : Pipeline} {payload : Str}
    {frames : List Str} (hf : p.encodeToBytes b3 rq payload = .ok frames)
    (hsep : MacSeparates b3 p.sessionKey) {frame : Str} (hframe : frame ∈ frames) {bytes : Str}
    (hdamages : Damages frame bytes) {d : PipelineDecoder rq} (hd : d.toPipeline = p) :
    ∃ e, (d.accept b3 bytes).1 = .err e := by
  cases hscreen : d.screen b3 bytes with
  | error e => exact ⟨e, by rw [d.accept_of_error hscreen]⟩
  | ok g =>
    exfalso
    obtain ⟨hparse, -⟩ := (Pipeline.screen_eq_ok_iff b3 d.toPipeline).mp hscreen
    rw [hd] at hparse
    obtain ⟨hg, rest, rfl⟩ := Frame.authentic_of_fromBytes hparse
    obtain ⟨i, j, block, packet, hsymbol⟩ := (Pipeline.mem_encodeToBytes hf).mp hframe
    obtain ⟨hle, rfl⟩ := hsymbol.frame_eq
    have hbuilt := Frame.fromBytes_build b3 p.sessionKey .repair p.sessionId (UInt32.ofNat i)
      (UInt32.ofNat j) (rq.serialize packet) hle []
    obtain ⟨hauthentic, -⟩ := Frame.authentic_of_fromBytes hbuilt
    rcases hdamages with hoff | ⟨hlen, hne, start, hstart, hburst⟩
    · exact hauthentic.not_oneByteOff hg hsep rest hoff
    · exact hauthentic.not_payloadBurst hg hlen hne hstart hburst

/-! ### A MAC that separates -/

namespace Reference

/-- The sum of the bytes. -/
def parity (data : Str) : UInt8 := data.foldr (· ^^^ ·) 0

lemma parity_ne_of_oneByteOff {a b : Str} (h : OneByteOff a b) : parity a ≠ parity b := by
  induction a generalizing b with
  | nil =>
    have hlen := h.1
    obtain rfl : b = [] := List.eq_nil_of_length_eq_zero hlen.symm
    exact absurd rfl h.ne
  | cons x a ih =>
    cases b with
    | nil => exact absurd h.1 (by simp)
    | cons y b =>
      change x ^^^ parity a ≠ y ^^^ parity b
      rcases OneByteOff.append_cases (a := [x]) (c := [y]) rfl h with ⟨hxy, rfl⟩ | ⟨hxy, hab⟩
      · intro he
        apply hxy.ne
        rw [(UInt8.xor_left_inj _).mp he]
      · rw [List.singleton_inj.mp hxy]
        exact fun he => ih hab ((UInt8.xor_right_inj _).mp he)

/-- The reference hash of the first frame's header, moved by the parity of the bytes. -/
def separating : Blake3 where
  hash := b3.hash
  keyedHash key data :=
    let digest := b3.keyedHash key firstFrame.header.macInput
    .cons (digest.head ^^^ parity firstFrame.header.macInput ^^^ parity data) digest.tail

lemma macSeparates (key : Arr 32) : MacSeparates separating key := by
  intro g h hoff heq
  apply parity_ne_of_oneByteOff hoff
  have hfirst := congrArg (fun mac : Arr 8 => u8At mac.toList 0) heq
  change _ ^^^ parity g.macInput = _ ^^^ parity h.macInput at hfirst
  exact (UInt8.xor_right_inj _).mp hfirst

lemma length_firstPayload_le : firstPayload.length ≤ maxPayloadLen := by decide

/-- The first frame under that hash. -/
def separatedFrame : Frame :=
  Frame.build separating (.new .repair sessionId 0 0 firstPayload length_firstPayload_le)
    firstPayload sessionKey

/-- It is the first frame of the reference session, with the first byte of its payload changed. -/
def damagedFrame : Str := separatedFrame.header.toVec ++ 1 :: firstPayload.tail

lemma damages_damagedFrame : Damages separatedFrame.toVec damagedFrame := by
  left
  apply OneByteOff.append_left
  exact (OneByteOff.singleton (x := 0) (y := 1) (by decide)).append_right firstPayload.tail

end Reference

/-- The first byte of the first payload. -/
theorem damage_detected_reference :
    ∃ e, (Reference.decoder.accept Reference.separating Reference.damagedFrame).1 = .err e := by
  have hf : Reference.pipeline.encodeToBytes Reference.separating Reference.rq Reference.payload =
      .ok (Reference.separatedFrame.toVec ::
        ((Reference.pipeline.encodeToBytes Reference.separating Reference.rq
          Reference.payload).toOption.getD []).tail) := rfl
  exact damage_detected hf (Reference.macSeparates _) List.mem_cons_self
    Reference.damages_damagedFrame rfl

end Dhow
