import Dhow.Netpbm.Images

/-!
# The end of a stream

A stream that ends after an image and one that ends within an image should end differently. They
do not where the reader finds nothing at all when it looks for a field or for the pixels: the end
of the stream, which it gets then, is what it takes for the end of the capture.
-/

namespace Dhow.Netpbm
open Bytes GoImage

/-- A complete image and what comes after it. -/
def IsImage (s rest : Str) : Prop :=
  ∃ channels width height maxValue data, Header channels width height maxValue s (data ++ rest) ∧
    Plausible width height maxValue ∧ data.length = dataSize channels width height maxValue

/-- The stream is cut within an image. -/
def Cut (s : Str) : Prop := ¬Gap s ∧ ∃ t, t ≠ [] ∧ IsImage (s ++ t) []

/-- The places of a cut where nothing is found: in an open comment before a field, between the
fields of a header that is good so far, and after a header without a byte of its pixels. -/
inductive CutUnseen : Str → Prop
  | openComment {s : Str} (hs : NoField s) (hgap : ¬Gap s) : CutUnseen s
  | width {magic s s₁ : Str} {channels : ℕ} (hmagic : Field magic s s₁)
    (hchannels : channelsOf magic = some channels) (hs : NoField s₁) : CutUnseen s
  | height {magic s s₁ s₂ : Str} {channels width : ℕ} (hmagic : Field magic s s₁)
    (hchannels : channelsOf magic = some channels) (hwidth : Number width s₁ s₂)
    (hs : NoField s₂) : CutUnseen s
  | maxValue {magic s s₁ s₂ s₃ : Str} {channels width height : ℕ} (hmagic : Field magic s s₁)
    (hchannels : channelsOf magic = some channels) (hwidth : Number width s₁ s₂)
    (hheight : Number height s₂ s₃) (hs : NoField s₃) : CutUnseen s
  | pixels {s : Str} {channels width height maxValue : ℕ}
    (hheader : Header channels width height maxValue s [])
    (hdeclared : Plausible width height maxValue) : CutUnseen s

/-! ### What is read -/

lemma readNetpbm_noField {s : Str} (h : NoField s) : readNetpbm s = (Checked.fail .eof, []) :=
  ByteReader.bind_fail (readToken_noField h)

lemma isEOF_of_cutUnseen {s : Str} (h : CutUnseen s) :
    ∃ e : ReadError, e.isEOF = true ∧ readNetpbm s = (Checked.fail e, []) := by
  cases h with
  | openComment hs _ => exact ⟨.eof, rfl, readNetpbm_noField hs⟩
  | width hmagic hchannels hs =>
    refine ⟨.eof, rfl, ?_⟩
    rw [readNetpbm_magic hmagic hchannels]
    exact ByteReader.bind_fail (readInt_noField hs)
  | height hmagic hchannels hwidth hs =>
    refine ⟨.eof, rfl, ?_⟩
    rw [readNetpbm_magic hmagic hchannels, ByteReader.bind_ok (readInt_number hwidth)]
    exact ByteReader.bind_fail (readInt_noField hs)
  | maxValue hmagic hchannels hwidth hheight hs =>
    refine ⟨.eof, rfl, ?_⟩
    rw [readNetpbm_magic hmagic hchannels, ByteReader.bind_ok (readInt_number hwidth),
      ByteReader.bind_ok (readInt_number hheight)]
    exact ByteReader.bind_fail (readInt_noField hs)
  | pixels hheader hdeclared =>
    refine ⟨.truncated .eof, rfl, ?_⟩
    obtain ⟨magic, -, -, -, -, hmagic, -⟩ := id hheader
    have hpos := hdeclared.dataSize_pos (channelsOf_eq hmagic)
    rw [readNetpbm_header hheader hdeclared]
    exact ByteReader.bind_fail (ByteReader.readFull_nil hpos)

/-- An error that is not the end of the stream. -/
def FailsOtherwise (s : Str) : Prop :=
  ∃ (e : ReadError) (rest : Str), e.IsMalformed ∧ readNetpbm s = (Checked.fail e, rest)

/-- A header is good up to its end, or fails. -/
lemma header_cases {channels width height maxValue : ℕ} {s rest : Str}
    (h : Header channels width height maxValue s rest) :
    CutUnseen s ∨ (∃ rest, IsImage s rest) ∨ FailsOtherwise s := by
  obtain ⟨magic, s₁, s₂, s₃, hmagic, hchannels, hwidth, hheight, hmax⟩ := id h
  by_cases hdeclared : Plausible width height maxValue
  · by_cases hlen : dataSize channels width height maxValue ≤ rest.length
    · refine .inr (.inl ⟨rest.drop (dataSize channels width height maxValue), channels, width, height,
        maxValue, rest.take (dataSize channels width height maxValue), ?_, hdeclared, ?_⟩)
      · rwa [List.take_append_drop]
      · rw [List.length_take, min_eq_left hlen]
    · by_cases hrest : rest = []
      · subst hrest
        exact .inl (.pixels h hdeclared)
      · refine .inr (.inr ⟨.truncated .unexpectedEOF, [], rfl, ?_⟩)
        rw [readNetpbm_header h hdeclared]
        exact ByteReader.bind_fail (by rw [ByteReader.readFull, if_neg hlen, if_neg hrest])
  · have hread := readNetpbm_magic hmagic hchannels
    rw [ByteReader.bind_ok (readInt_number hwidth), ByteReader.bind_ok (readInt_number hheight),
      ByteReader.bind_ok (readInt_number hmax)] at hread
    refine .inr (.inr ?_)
    split_ifs at hread with hsize hmaximum
    · exact ⟨.implausibleSize width height, rest, rfl, hread⟩
    · exact ⟨.maximum maxValue, rest, rfl, hread⟩
    · exact absurd ⟨by omega, by omega, by omega, by omega, by omega, by omega⟩ hdeclared

/-- A stream is empty, is cut where it is not seen, has an image or fails otherwise. -/
lemma stream_cases (s : Str) :
    Gap s ∨ CutUnseen s ∨ (∃ rest, IsImage s rest) ∨ FailsOtherwise s := by
  by_cases hgap : Gap s
  · exact .inl hgap
  refine .inr ?_
  rcases readToken_cases s with ⟨magic, s₁, hmagic⟩ | hs | ⟨rest, hfail⟩
  · cases hchannels : channelsOf magic with
    | none =>
      refine .inr (.inr ⟨.notNetpbm magic, s₁, rfl, ?_⟩)
      rw [readNetpbm, ByteReader.bind_ok (readToken_field hmagic), hchannels]
      rfl
    | some channels =>
      have hread := readNetpbm_magic hmagic hchannels
      rcases readInt_cases s₁ with ⟨width, s₂, hwidth⟩ | hs | ⟨e, rest, he, hfail⟩
      · rw [ByteReader.bind_ok (readInt_number hwidth)] at hread
        rcases readInt_cases s₂ with ⟨height, s₃, hheight⟩ | hs | ⟨e, rest, he, hfail⟩
        · rw [ByteReader.bind_ok (readInt_number hheight)] at hread
          rcases readInt_cases s₃ with ⟨maxValue, rest, hmax⟩ | hs | ⟨e, rest, he, hfail⟩
          · exact header_cases ⟨magic, s₁, s₂, s₃, hmagic, hchannels, hwidth, hheight, hmax⟩
          · exact .inl (.maxValue hmagic hchannels hwidth hheight hs)
          · exact .inr (.inr ⟨e, rest, he, hread.trans (ByteReader.bind_fail hfail)⟩)
        · exact .inl (.height hmagic hchannels hwidth hs)
        · exact .inr (.inr ⟨e, rest, he, hread.trans (ByteReader.bind_fail hfail)⟩)
      · exact .inl (.width hmagic hchannels hs)
      · exact .inr (.inr ⟨e, rest, he, hread.trans (ByteReader.bind_fail hfail)⟩)
  · exact .inl (.openComment hs hgap)
  · exact .inr (.inr ⟨.fieldTooLong, rest, rfl, ByteReader.bind_fail hfail⟩)

/-! ### More bytes -/

lemma Spells.eq_nil {w s : Str} (h : Spells w s) (hs : s = []) : w = [] := by
  cases h with
  | nil => rfl
  | byte => cases hs
  | comment hk _ =>
    obtain ⟨_, _⟩ := hk
    cases hs

lemma Field.ne_nil {w s rest : Str} (h : Field w s rest) : s ≠ [] := by
  rintro hs
  cases h with
  | blank => simp at hs
  | last _ hp hw => exact hw.1 (hp.eq_nil (List.append_eq_nil_iff.mp hs).2)

/-- A field that does not end with the stream is the same with more bytes behind. -/
lemma Field.append {w s rest : Str} (h : Field w s rest) (hrest : rest ≠ []) (t : Str) :
    Field w (s ++ t) (rest ++ t) := by
  cases h with
  | blank hg hp hw hb =>
    rw [List.append_assoc, List.append_assoc, List.cons_append]
    exact .blank hg hp hw hb
  | last => exact absurd rfl hrest

lemma Number.append {n : ℕ} {s rest : Str} (h : Number n s rest) (hrest : rest ≠ []) (t : Str) :
    Number n (s ++ t) (rest ++ t) := by
  obtain ⟨w, hfield, hdigits, hvalue, hle⟩ := h
  exact ⟨w, hfield.append hrest t, hdigits, hvalue, hle⟩

lemma Number.ne_nil {n : ℕ} {s rest : Str} (h : Number n s rest) : s ≠ [] := by
  obtain ⟨w, hfield, -⟩ := h
  exact hfield.ne_nil

lemma Header.append {channels width height maxValue : ℕ} {s rest : Str}
    (h : Header channels width height maxValue s rest) (hrest : rest ≠ []) (t : Str) :
    Header channels width height maxValue (s ++ t) (rest ++ t) := by
  obtain ⟨magic, s₁, s₂, s₃, hmagic, hchannels, hwidth, hheight, hmax⟩ := h
  exact ⟨magic, s₁ ++ t, s₂ ++ t, s₃ ++ t, hmagic.append hwidth.ne_nil t, hchannels,
    hwidth.append hheight.ne_nil t, hheight.append hmax.ne_nil t, hmax.append hrest t⟩

lemma IsImage.append {s rest : Str} (h : IsImage s rest) (t : Str) :
    IsImage (s ++ t) (rest ++ t) := by
  obtain ⟨channels, width, height, maxValue, data, hheader, hdeclared, hlen⟩ := h
  obtain ⟨magic, -, -, -, -, hmagic, -⟩ := id hheader
  have hpos := hdeclared.dataSize_pos (channelsOf_eq hmagic)
  have hne : data ++ rest ≠ [] := by
    intro hnil
    rw [(List.append_eq_nil_iff.mp hnil).1, List.length_nil] at hlen
    omega
  refine ⟨channels, width, height, maxValue, data, ?_, hdeclared, hlen⟩
  rw [← List.append_assoc]
  exact hheader.append hne t

lemma IsImage.next {s rest : Str} (h : IsImage s rest) :
    ∃ img, Stream.next none s = (.ok img, rest) := by
  obtain ⟨channels, width, height, maxValue, data, hheader, hdeclared, hlen⟩ := h
  obtain ⟨img, -, hread⟩ := readNetpbm_image hheader hdeclared hlen
  exact ⟨.gray img, by rw [Stream.next, hread]⟩

/-- A stream that an image starts is not cut. -/
lemma IsImage.not_cut {s rest : Str} (h : IsImage s rest) : ¬Cut s := by
  rintro ⟨-, t, ht, hcut⟩
  obtain ⟨img, hnext⟩ := hcut.next
  obtain ⟨img', hnext'⟩ := (h.append t).next
  rw [hnext] at hnext'
  have hnil : rest ++ t = [] := (Prod.mk.inj hnext').2.symm
  exact ht (List.append_eq_nil_iff.mp hnil).2

/-! ### The end of the capture -/

lemma next_of_isEOF {s rest : Str} {e : ReadError} (he : e.isEOF = true)
    (h : readNetpbm s = (Checked.fail e, rest)) :
    Stream.next none s = (Checked.fail .exhausted, rest) := by
  rw [Stream.next, h]
  exact if_pos he

lemma next_of_failsOtherwise {s : Str} (h : FailsOtherwise s) :
    ∃ (e : ReadError) (rest : Str), Stream.next none s = (Checked.fail (.read e), rest) := by
  obtain ⟨e, rest, he, hread⟩ := h
  refine ⟨e, rest, ?_⟩
  rw [Stream.next, hread]
  exact if_neg (by rw [he]; decide)

/-- Nothing that is not a blank or a comment starts a gap. -/
lemma Gap.head {s t : Str} {c : UInt8} (h : Gap s) (hs : s = c :: t) : IsBlank c ∨ c = hash := by
  cases h with
  | nil => cases hs
  | blank hc _ =>
    cases hs
    exact .inl hc
  | comment hk _ =>
    obtain ⟨_, _⟩ := hk
    cases hs
    exact .inr rfl

lemma Field.not_gap {w s rest : Str} (h : Field w s rest) : ¬Gap s := by
  intro hgap
  have hread := readToken_field h
  rw [readToken_noField (.gap hgap)] at hread
  cases hread

lemma CutUnseen.not_gap {s : Str} (h : CutUnseen s) : ¬Gap s := by
  cases h with
  | openComment _ hgap => exact hgap
  | width hmagic => exact hmagic.not_gap
  | height hmagic => exact hmagic.not_gap
  | maxValue hmagic => exact hmagic.not_gap
  | pixels hheader =>
    obtain ⟨magic, _, _, _, hmagic, -⟩ := hheader
    exact hmagic.not_gap

/-- The end of the capture is told exactly at the end of an image, and a stream that is cut within
one ends in another error. -/
def EndsRight (s : Str) : Prop :=
  ((Stream.next none s).1 = Checked.fail .exhausted ↔ Gap s) ∧
    (Cut s → ∃ e, e ≠ .exhausted ∧ (Stream.next none s).1 = Checked.fail e)

/-- A header and nothing after it. -/
def headerOnly : Str := [0x50, 0x35, 0x20, 0x32, 0x20, 0x32, 0x20, 0x39, 0x0A]

theorem next_takes_cut_for_end : ¬EndsRight headerOnly := by
  rintro ⟨hend, -⟩
  have hgap : Gap headerOnly := hend.mp rfl
  exact absurd (hgap.head rfl) (by decide)

theorem endsRight_iff (s : Str) : EndsRight s ↔ ¬CutUnseen s := by
  constructor
  · rintro ⟨hend, -⟩ hcut
    obtain ⟨e, he, hread⟩ := isEOF_of_cutUnseen hcut
    have hexhausted : (Stream.next none s).1 = Checked.fail .exhausted := by
      rw [next_of_isEOF he hread]
    exact hcut.not_gap (hend.mp hexhausted)
  · intro hseen
    have hgap_end (hgap : Gap s) : (Stream.next none s).1 = Checked.fail .exhausted := by
      rw [next_of_isEOF rfl (readNetpbm_noField (.gap hgap))]
    rcases stream_cases s with hgap | hcut | ⟨rest, himage⟩ | hfail
    · exact ⟨⟨fun _ => hgap, hgap_end⟩, fun hcut => absurd hgap hcut.1⟩
    · exact absurd hcut hseen
    · obtain ⟨img, hnext⟩ := himage.next
      refine ⟨⟨fun h => ?_, hgap_end⟩, fun hcut => absurd hcut himage.not_cut⟩
      rw [hnext] at h
      cases h
    · obtain ⟨e, rest, hnext⟩ := next_of_failsOtherwise hfail
      refine ⟨⟨fun h => ?_, hgap_end⟩, fun _ => ⟨.read e, nofun, by rw [hnext]⟩⟩
      rw [hnext] at h
      cases h

end Dhow.Netpbm
