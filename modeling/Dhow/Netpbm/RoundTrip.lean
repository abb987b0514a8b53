import Dhow.Netpbm.Images

/-!
# Written and read again

Grey images written one after another are read back one by one, each up to its own last byte,
whatever its pixels look like: the header ends with one blank, and what comes after it is counted
and not looked at.
-/

namespace Dhow.Netpbm
open Bytes GoImage
open Checked (Gives Ends gives_iff index_eq ok_bind)

/-! ### Decimals -/

lemma sub_zero_digit {d : ℕ} (hd : d < 10) : (UInt8.ofNat (0x30 + d) - 0x30).toNat = d := by
  interval_cases d <;> rfl

lemma isDigit_ofNat {d : ℕ} (hd : d < 10) : IsDigit (UInt8.ofNat (0x30 + d)) := by
  unfold IsDigit
  interval_cases d <;> decide

lemma foldr_digits {ds : List ℕ} (hds : ∀ d ∈ ds, d < 10) :
    ds.foldr (fun d n => n * 10 + (UInt8.ofNat (0x30 + d) - 0x30).toNat) 0 = Nat.ofDigits 10 ds := by
  induction ds with
  | nil => rfl
  | cons d ds ih =>
    obtain ⟨hd, hds⟩ := List.forall_mem_cons.mp hds
    rw [List.foldr_cons, ih hds, sub_zero_digit hd, Nat.ofDigits_cons]
    ring

lemma decimalValue_decimalDigits (n : ℕ) : decimalValue (decimalDigits n) = n := by
  unfold decimalDigits
  split_ifs with hn
  · rw [hn]
    rfl
  · rw [decimalValue, List.foldl_map, List.foldl_reverse,
      foldr_digits fun d hd => Nat.digits_lt_base (by decide) hd, Nat.ofDigits_digits]

lemma isDigit_of_mem_decimalDigits {n : ℕ} {c : UInt8} (hc : c ∈ decimalDigits n) : IsDigit c := by
  unfold decimalDigits at hc
  split_ifs at hc
  · obtain rfl := List.mem_singleton.mp hc
    exact isDigit_ofNat (d := 0) (by decide)
  · obtain ⟨d, hd, rfl⟩ := List.mem_map.mp hc
    exact isDigit_ofNat (Nat.digits_lt_base (by decide) (List.mem_reverse.mp hd))

lemma wordLength_decimalDigits {n : ℕ} (hn : n ≤ maxNetpbmDimension) :
    WordLength (decimalDigits n) := by
  unfold decimalDigits
  split_ifs with hzero
  · exact ⟨by simp, by decide⟩
  · have hlen : (Nat.digits 10 n).length ≤ 5 :=
      (Nat.digits_length_le_iff (by decide) n).mpr (Nat.lt_of_le_of_lt hn (by decide))
    constructor
    · rw [ne_eq, List.map_eq_nil_iff, List.reverse_eq_nil_iff]
      exact Nat.digits_ne_nil_iff_ne_zero.mpr hzero
    · rw [List.length_map, List.length_reverse]
      exact hlen.trans (by decide)

lemma IsDigit.not_blank {c : UInt8} (h : IsDigit c) : ¬IsBlank c ∧ c ≠ hash := by
  obtain ⟨hlo, -⟩ := h
  constructor
  · rintro (rfl | rfl | rfl | rfl) <;> exact absurd hlo (by decide)
  · rintro rfl
    exact absurd hlo (by decide)

lemma spells_self {w : Str} (h : ∀ c ∈ w, ¬IsBlank c ∧ c ≠ hash) : Spells w w := by
  induction w with
  | nil => exact .nil
  | cons c w ih =>
    obtain ⟨hc, hw⟩ := List.forall_mem_cons.mp h
    exact .byte hc.1 hc.2 (ih hw)

lemma field_append {w rest : Str} {b : UInt8} (hw : WordLength w)
    (h : ∀ c ∈ w, ¬IsBlank c ∧ c ≠ hash) (hb : IsBlank b) : Field w (w ++ b :: rest) rest :=
  .blank .nil (spells_self h) hw hb

lemma number_decimal {n : ℕ} {rest : Str} {b : UInt8} (hn : n ≤ maxNetpbmDimension)
    (hb : IsBlank b) : Number n (decimal n ++ b :: rest) rest := by
  rw [decimal, if_neg (by omega), Int.natAbs_natCast]
  refine ⟨decimalDigits n, field_append (wordLength_decimalDigits hn) ?_ hb,
    fun c hc => isDigit_of_mem_decimalDigits hc, decimalValue_decimalDigits n, hn.trans (by decide)⟩
  exact fun c hc => (isDigit_of_mem_decimalDigits hc).not_blank

/-- The header that is written is read as one. -/
lemma header_header {width height : ℕ} (hw : width ≤ maxNetpbmDimension)
    (hh : height ≤ maxNetpbmDimension) (rest : Str) :
    Header 1 width height 255 (header width height ++ rest) rest := by
  have hsplit : header width height ++ rest = [0x50, 0x35] ++ 0x0A ::
      (decimal width ++ 0x20 :: (decimal height ++ 0x0A :: ([0x32, 0x35, 0x35] ++ 0x0A :: rest))) := by
    simp [header]
  have hmagic : ∀ c ∈ [0x50, 0x35], ¬IsBlank c ∧ c ≠ hash := by
    rw [List.forall_mem_cons, List.forall_mem_singleton]
    decide
  have hmax : ∀ c ∈ [0x32, 0x35, 0x35], IsDigit c := by
    rw [List.forall_mem_cons, List.forall_mem_cons, List.forall_mem_singleton]
    unfold IsDigit
    decide
  rw [hsplit]
  exact ⟨[0x50, 0x35], _, _, _, field_append ⟨by decide, by decide⟩ hmagic (by decide), rfl,
    number_decimal hw (by decide), number_decimal hh (by decide), [0x32, 0x35, 0x35],
    field_append ⟨by decide, by decide⟩ (fun c hc => (hmax c hc).not_blank) (by decide), hmax, rfl,
    by decide⟩

/-! ### The scaling -/

/-- A maximum of 255 leaves the bytes as they are. -/
lemma scaleValue_byte (b : UInt8) : scaleValue (Float.ofNat b.toNat) 255 = b := by
  have h : ∀ n : Fin 256, scaleValue (Float.ofNat n.val) 255 = UInt8.ofNat n.val := by
    decide +kernel
  rw [h ⟨b.toNat, b.toNat_lt⟩]
  exact UInt8.ofNat_toNat

lemma dataSize_eq {data : Str} {width height : ℕ} (hlen : data.length = width * height) :
    data.length = dataSize 1 width height 255 := by
  rw [hlen]
  exact (Nat.mul_one _).symm.trans (Nat.mul_one _).symm

/-- So the pixels are the data. -/
lemma toGray_pix {data : Str} {width height : ℕ} (hp : Plausible width height 255)
    (hlen : data.length = width * height) :
    toGray data width height 1 1 255 = .ok ⟨data, width, ⟨0, 0, width, height⟩⟩ := by
  obtain ⟨img, himg, hrect, hstride, hpix, hvalue⟩ :=
    gives_iff.mp (gives_toGray (.inl rfl) hp (dataSize_eq hlen))
  have hdata : img.pix = data := by
    apply List.ext_getElem?
    intro i
    by_cases hi : i < width * height
    · obtain ⟨v, hv, hget⟩ := hvalue i hi
      have hb : data[i]? = some (data.get ⟨i, hlen ▸ hi⟩) := List.getElem?_eq_getElem _
      change pixelValue data i 1 1 = .ok v at hv
      rw [pixelValue, if_pos rfl, sampleAt, if_pos rfl, index_eq rfl hb] at hv
      cases hv
      rw [hget, scaleValue_byte, hb]
    · rw [List.getElem?_eq_none (by omega), List.getElem?_eq_none (by omega)]
  obtain ⟨pix, stride, r⟩ := img
  dsimp only at hrect hstride hdata
  subst hrect hstride hdata
  exact himg

/-! ### Writing -/

/-- Every pixel of the image is there. -/
def Complete (p : Gray) : Prop :=
  ∀ x y, p.rect.contains x y → 0 ≤ p.pixOffset x y ∧ p.pixOffset x y < p.pix.length

/-- The pixel in column `i` and row `j`. -/
def pixel (p : Gray) (i j : ℕ) : UInt8 :=
  (p.pix[(p.pixOffset (p.rect.minX + i) (p.rect.minY + j)).toNat]?).getD 0

section Writing
variable {ε : Type} {p : Gray} {width height : ℕ}

lemma grayAt_eq (hp : Complete p) (hdx : p.rect.dx = width) (hdy : p.rect.dy = height) {i j : ℕ}
    (hi : i < width) (hj : j < height) :
    (p.grayAt (p.rect.minX + i) (p.rect.minY + j) : Checked ε UInt8) = .ok (pixel p i j) := by
  have hin : p.rect.contains (p.rect.minX + i) (p.rect.minY + j) := by
    unfold Rectangle.dx at hdx
    unfold Rectangle.dy at hdy
    unfold Rectangle.contains
    omega
  obtain ⟨h₀, h₁⟩ := hp _ _ hin
  have hget := List.getElem?_eq_getElem
    (show (p.pixOffset (p.rect.minX + i) (p.rect.minY + j)).toNat < p.pix.length by omega)
  rw [Gray.grayAt, if_pos hin, index_eq (Int.toNat_of_nonneg h₀).symm hget, pixel, hget]
  rfl

/-- A row has the pixels of its row, with no mark of the row before. -/
lemma gives_writeRow (hp : Complete p) (hdx : p.rect.dx = width) (hdy : p.rect.dy = height) {j : ℕ}
    (hj : j < height) {row : Str} (hrow : row.length = width) :
    Gives (fun row' => row'.length = width ∧ ∀ i < width, row'[i]? = some (pixel p i j))
      (writeRow (.gray p) (p.rect.minY + j) row : Checked ε Str) := by
  rw [writeRow, Image.bounds, hdx, Int.toNat_natCast]
  refine Checked.ends_repeatFor
    (fun k (row' : Str) => row'.length = width ∧ ∀ i < k, row'[i]? = some (pixel p i j)) _
    ⟨hrow, fun i hi => absurd hi (Nat.not_lt_zero i)⟩ fun k hk row ⟨hrow, hdone⟩ => ?_
  rw [Image.colorAt, grayAt_eq hp hdx hdy hk hj, ok_bind, ok_bind, Color.luma_gray,
    Checked.store_eq rfl (hrow ▸ hk)]
  refine .ok ⟨List.length_set.trans hrow, fun i hi => ?_⟩
  by_cases hik : i = k
  · subst hik
    exact List.getElem?_set_self (hrow ▸ hk)
  · rw [List.getElem?_set_ne (Ne.symm hik)]
    exact hdone i (by omega)

/-- What is written is the header and the pixels, row by row. -/
lemma gives_writeNetpbm (hp : Complete p) (hdx : p.rect.dx = width) (hdy : p.rect.dy = height)
    (hwidth : width ≤ Checked.maxAlloc) :
    Gives (fun out => ∃ data, out = header width height ++ data ∧ data.length = height * width ∧
        ∀ j < height, ∀ i < width, data[j * width + i]? = some (pixel p i j))
      (writeNetpbm (.gray p) : Checked ε Str) := by
  rw [writeNetpbm, Image.bounds, hdx, hdy, Checked.alloc_one_eq (Int.natCast_nonneg width)
    (by exact_mod_cast hwidth), ok_bind, Int.toNat_natCast, Int.toNat_natCast]
  refine Gives.bind (Checked.ends_repeatFor (fun k (r : Str × Str) => r.1.length = width ∧
    ∃ data, r.2 = header width height ++ data ∧ data.length = k * width ∧
      ∀ j < k, ∀ i < width, data[j * width + i]? = some (pixel p i j)) height
    ⟨List.length_replicate, [], (List.append_nil _).symm, (Nat.zero_mul _).symm,
      fun j hj => absurd hj (Nat.not_lt_zero j)⟩ ?_) fun r hr => .ok hr.2
  rintro k hk ⟨row, out⟩ ⟨hrow, data, hout, hlen, hdata⟩
  refine Gives.bind (gives_writeRow hp hdx hdy hk hrow) fun row' ⟨hrow', hpixels⟩ => ?_
  refine .ok ⟨hrow', data ++ row', ?_, ?_, fun j hj i hi => ?_⟩
  · dsimp only at hout ⊢
    rw [hout, List.append_assoc]
  · rw [List.length_append, hlen, hrow', Nat.add_mul, Nat.one_mul]
  · by_cases hjk : j = k
    · subst hjk
      rw [List.getElem?_append_right (by omega), hlen, Nat.add_sub_cancel_left]
      exact hpixels i hi
    · have hlt : j * width + i < k * width := by
        calc j * width + i < (j + 1) * width := by rw [Nat.add_mul, Nat.one_mul]; omega
          _ ≤ k * width := Nat.mul_le_mul_right _ (by omega)
      rw [List.getElem?_append_left (by omega)]
      exact hdata j (by omega) i hi

end Writing

/-! ### Reading back -/

/-- The same picture with its corner at the origin. -/
def SamePicture (p q : Gray) : Prop :=
  q.rect = ⟨0, 0, p.rect.dx, p.rect.dy⟩ ∧ ∀ x y, p.rect.contains x y →
    (q.grayAt (x - p.rect.minX) (y - p.rect.minY) : Checked ReadError UInt8) = p.grayAt x y

/-- An image that the reader takes. -/
structure Fits (p : Gray) : Prop where
  complete : Complete p
  width_pos : 1 ≤ p.rect.dx
  width_le : p.rect.dx ≤ 16384
  height_pos : 1 ≤ p.rect.dy
  height_le : p.rect.dy ≤ 16384

/-- The pixels row by row are the picture. -/
lemma samePicture_of_data {p : Gray} {width height : ℕ} {data : Str} (hp : Complete p)
    (hdx : p.rect.dx = width) (hdy : p.rect.dy = height)
    (hdata : ∀ j < height, ∀ i < width, data[j * width + i]? = some (pixel p i j)) :
    SamePicture p ⟨data, width, ⟨0, 0, width, height⟩⟩ := by
  refine ⟨by rw [hdx, hdy], fun x y hxy => ?_⟩
  obtain ⟨i, hi⟩ := Int.eq_ofNat_of_zero_le (Int.sub_nonneg.mpr hxy.1)
  obtain ⟨j, hj⟩ := Int.eq_ofNat_of_zero_le (Int.sub_nonneg.mpr hxy.2.2.1)
  have hiw : i < width := by
    have hx := hxy.2.1
    unfold Rectangle.dx at hdx
    omega
  have hjh : j < height := by
    have hy := hxy.2.2.2
    unfold Rectangle.dy at hdy
    omega
  have hx : x = p.rect.minX + i := by omega
  have hy : y = p.rect.minY + j := by omega
  have hin : (⟨0, 0, width, height⟩ : Rectangle).contains i j :=
    ⟨Int.natCast_nonneg i, Int.ofNat_lt.mpr hiw, Int.natCast_nonneg j, Int.ofNat_lt.mpr hjh⟩
  rw [hi, hj, Gray.grayAt, if_pos hin,
    index_eq (k := j * width + i) (by simp [Gray.pixOffset]) (hdata j hjh i hiw), hx, hy,
    grayAt_eq hp hdx hdy hiw hjh]

/-- What is written of an image is read as the image, and nothing after it is. -/
lemma next_append {p : Gray} (hp : Fits p) :
    ∃ bytes q, (writeNetpbm (.gray p) : Checked ReadError Str) = .ok bytes ∧ SamePicture p q ∧
      ∀ rest, Stream.next none (bytes ++ rest) = (.ok (.gray q), rest) := by
  obtain ⟨hcomplete, hw₀, hw, hh₀, hh⟩ := hp
  obtain ⟨width, hdx⟩ := Int.eq_ofNat_of_zero_le (Int.le_trans Int.one_nonneg hw₀)
  obtain ⟨height, hdy⟩ := Int.eq_ofNat_of_zero_le (Int.le_trans Int.one_nonneg hh₀)
  rw [hdx] at hw₀ hw
  rw [hdy] at hh₀ hh
  have hwidth : width ≤ maxNetpbmDimension := Int.ofNat_le.mp hw
  obtain ⟨_, hwrite, data, rfl, hlen, hdata⟩ := gives_iff.mp
    (gives_writeNetpbm (ε := ReadError) hcomplete hdx hdy (hwidth.trans (by decide)))
  have hheight : height ≤ maxNetpbmDimension := Int.ofNat_le.mp hh
  have harea : data.length = width * height := by rw [hlen, Nat.mul_comm]
  refine ⟨_, ⟨data, width, ⟨0, 0, width, height⟩⟩, hwrite,
    samePicture_of_data hcomplete hdx hdy hdata, fun rest => ?_⟩
  have hdeclared : Plausible width height 255 :=
    ⟨by omega, hwidth, by omega, hheight, by decide, by decide⟩
  have hheader := header_header hwidth hheight (data ++ rest)
  rw [← List.append_assoc] at hheader
  obtain ⟨img, himg, hread⟩ := readNetpbm_image hheader hdeclared (dataSize_eq harea)
  rw [show sampleBytes 255 = 1 from rfl, toGray_pix hdeclared harea] at himg
  cases himg
  rw [Stream.next, hread]

/-- The images come out as they were written, each call takes the bytes of one, and the end of the
stream is known as such. -/
theorem next_writeNetpbm (imgs : List Gray) (hfits : ∀ p ∈ imgs, Fits p) (rest : Str) :
    (∃ written : List Str, written.length = imgs.length ∧
      ∀ k p, imgs[k]? = some p → ∃ bytes q, written[k]? = some bytes ∧
        (writeNetpbm (.gray p) : Checked ReadError Str) = .ok bytes ∧ SamePicture p q ∧
          Stream.next none ((written.drop k).flatten ++ rest) =
            (.ok (.gray q), (written.drop (k + 1)).flatten ++ rest)) ∧
    Stream.next none [] = (Checked.fail .exhausted, []) ∧
    ∀ b : UInt8, scaleValue (Float.ofNat b.toNat) 255 = b := by
  refine ⟨?_, rfl, scaleValue_byte⟩
  induction imgs with
  | nil => exact ⟨[], rfl, fun k p h => by simp at h⟩
  | cons p imgs ih =>
    obtain ⟨hp, himgs⟩ := List.forall_mem_cons.mp hfits
    obtain ⟨written, hlen, hnext⟩ := ih himgs
    obtain ⟨bytes, q, hwrite, hsame, hread⟩ := next_append hp
    refine ⟨bytes :: written, by simp [hlen], fun k p' hk => ?_⟩
    cases k with
    | zero =>
      cases hk
      refine ⟨bytes, q, rfl, hwrite, hsame, ?_⟩
      have h := hread (written.flatten ++ rest)
      rwa [← List.append_assoc] at h
    | succ k => exact hnext k p' hk

def onePixel (b : UInt8) : Gray := ⟨[b], 1, ⟨0, 0, 1, 1⟩⟩

lemma fits_onePixel (b : UInt8) : Fits (onePixel b) := by
  have hside : (1 : ℤ) ≤ 16384 := by decide
  refine ⟨fun x y hxy => ?_, Int.le_refl 1, hside, Int.le_refl 1, hside⟩
  obtain ⟨hx₀, hx, hy₀, hy⟩ := hxy
  dsimp only [onePixel] at hx₀ hx hy₀ hy
  obtain rfl : x = 0 := by omega
  obtain rfl : y = 0 := by omega
  exact ⟨Int.le_refl 0, Int.zero_lt_one⟩

/-- A pixel that looks like a comment and one that looks like a blank, with a digit after them. -/
theorem next_writeNetpbm_two :
    (∃ written : List Str, written.length = 2 ∧
      ∀ k p, [onePixel 0x23, onePixel 0x20][k]? = some p → ∃ bytes q, written[k]? = some bytes ∧
        (writeNetpbm (.gray p) : Checked ReadError Str) = .ok bytes ∧ SamePicture p q ∧
          Stream.next none ((written.drop k).flatten ++ [0x31]) =
            (.ok (.gray q), (written.drop (k + 1)).flatten ++ [0x31])) ∧
    Stream.next none [] = (Checked.fail .exhausted, []) ∧
    ∀ b : UInt8, scaleValue (Float.ofNat b.toNat) 255 = b :=
  next_writeNetpbm [onePixel 0x23, onePixel 0x20]
    (List.forall_mem_cons.mpr ⟨fits_onePixel _, List.forall_mem_singleton.mpr (fits_onePixel _)⟩)
    [0x31]

end Dhow.Netpbm
