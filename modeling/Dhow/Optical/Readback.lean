import Dhow.Optical.EncodeQR
import Dhow.Optical.Detect
import Dhow.Qr.Capacity

/-!
# Reading back what is shown

The receiver decodes every grid that differs from the one the sender shows by no more than the
error correction of its version and level repairs, and it finds that grid among the ones that were
sampled from an image wherever it is the first that decodes at all.
-/

namespace Dhow.Optical
open Bytes Checked Qr ReedSolomon

section decode
variable {version mask : ℕ} {level : Level} {payload : Str} {g : Grid}

/-- The codewords of a damaged grid give the segments of what it shows. -/
lemma decode_near (h1 : 1 ≤ version) (h40 : version ≤ 40) (hmask : mask < 8)
    (hfits : Fits version level payload)
    (h : WithinCapacity version level (encodedGrid version level mask payload) g) :
    Gives (fun r => r.data = payload) (decode (some g)) := by
  have hsquare := h.square
  have hn : 21 ≤ side version := by
    unfold side
    omega
  have hversion : versionForSize g.size = some (version : ℤ) := by
    have hside : sizeForVersion version = (side version : ℕ) := by
      unfold sizeForVersion side
      omega
    rw [hsquare.size_eq, ← hside]
    exact versionForSize_sizeForVersion (by omega) (by omega)
  have hformat : readFormatInfo g = .ok (level, mask) := by
    apply hsquare.readFormatInfo_eq hn level hmask
    intro copy hcopy
    have hle := h.format_le copy hcopy
    rwa [map_formatCopy h1 hcopy] at hle
  have hroom := totalCodewords_le h1 h40 level
  obtain ⟨total, htotal⟩ : ∃ n : ℕ, (shape version level).layout.totalCodewords = n :=
    ⟨_, (Shape.length_order (shape_wellFormed h1 h40 level)).symm⟩
  have harea : ¬(g.dark.length : ℤ) ≠ intMul g.size g.size := by
    rw [hsquare.length_eq, hsquare.size_eq, intMul_side h40]
    exact not_not.mpr rfl
  unfold decode
  dsimp only
  rw [if_neg harea, hversion, hformat]
  dsimp only
  rw [ok_bind, blockLayout_eq h1 h40 level, ok_bind]
  dsimp only
  rw [htotal] at hroom ⊢
  apply (hsquare.gives_readCodewords h1 h40 mask (by omega)).bind
  rintro out ⟨hcount, hbits⟩
  have hreads : ReadsAs version mask g out := by
    rw [ReadsAs, hcount]
    exact hbits
  apply (h.gives_deinterleaveAndCorrect h1 h40 hfits hreads (by rw [htotal, hcount])).bind
  rintro data rfl
  have hsegments := segments_dataCodewords h1 h40 hfits
  have hparsed : Gives (· = payload) (parseSegments
      (dataCodewords version level payload) version) :=
    (ends_parseSegments _ _).weaken (fun parsed h => h.unique hsegments)
      fun _ hfault => hfault.not_segments hsegments
  exact hparsed.bind fun parsed hparsed => .ok hparsed

end decode

/-- A grid that differs from the one shown by what the error correction of its version and level
repairs. -/
def Near (code : QRCode) (g : Grid) : Prop := ∀ version level mask data,
  1 ≤ version → version ≤ 40 → mask < 8 → Fits version level data →
    code.grid = encodedGrid version level mask data → WithinCapacity version level code.grid g

/-- Grids of an image of which the first that decodes is near to the one shown. -/
def Legible (code : QRCode) (grids : List Grid) : Prop := ∃ pre g post, grids = pre ++ g :: post ∧
  (∀ h ∈ pre, ∃ e, decode (some h) = fail e) ∧ Near code g

lemma firstReadable_append {P : Result → Prop} {pre post : List Grid} {g : Grid}
    (hpre : ∀ h ∈ pre, ∃ e, decode (some h) = fail e) (hg : Gives P (decode (some g)))
    (last : Option Qr.QrError) : Gives P (firstReadable last (pre ++ g :: post)) := by
  induction pre generalizing last with
  | nil =>
    obtain ⟨r, hr, hP⟩ := gives_iff.mp hg
    rw [List.nil_append, firstReadable, hr]
    exact .ok hP
  | cons h pre ih =>
    obtain ⟨e, he⟩ := hpre h List.mem_cons_self
    rw [List.cons_append, firstReadable, he]
    exact ih (fun h' hh' => hpre h' (List.mem_cons_of_mem _ hh')) (some e)

/-- What the receiver reads from an image of a code on the screen is the frame that is shown. -/
theorem firstReadable_shown {qr : QrCodegen} {codes : qr.Codes} (hcodes : codes.Standard)
    {frame : Str} {version : ℤ} {ecc : UInt8} {code : QRCode}
    (hcode : codes.encodeQR frame version ecc = .ok code) {grids : List Grid}
    (h : Legible code grids) : Gives (fun r => r.data = frame) (firstReadable none grids) := by
  obtain ⟨inner, hholds, hgrid⟩ := codes.of_encodeQR_eq_ok hcode
  obtain ⟨v, level, mask, h1, h40, hmask, hfits, hdrawn⟩ := hcodes inner frame hholds
  obtain ⟨pre, g, post, rfl, hpre, hnear⟩ := h
  have hcapacity := hnear v level mask frame h1 h40 hmask hfits (hgrid.trans hdrawn)
  rw [hgrid, hdrawn] at hcapacity
  exact firstReadable_append hpre (decode_near h1 h40 hmask hfits hcapacity) none

end Dhow.Optical

/-! ### The standard's encoder -/

namespace Dhow.Reference
open Bytes Qr Optical

/-- The cells of a rectangle row by row, and by their number. -/
lemma flatMap_rows {α : Type} (f : ℕ → ℕ → α) (n m : ℕ) :
    ((List.range m).flatMap fun y => (List.range n).map fun x => f x y)
      = (List.range (m * n)).map fun k => f (k % n) (k / n) := by
  induction m with
  | zero => simp
  | succ m ih =>
    rw [List.range_succ, List.flatMap_append, ih, List.flatMap_singleton, Nat.succ_mul,
      List.range_add, List.map_append, List.map_map]
    congr 1
    apply List.map_congr_left
    intro x hx
    have hx := List.mem_range.mp hx
    have hmod : (m * n + x) % n = x := by
      rw [Nat.mul_add_mod_self_right, Nat.mod_eq_of_lt hx]
    have hdiv : (m * n + x) / n = m := by
      rw [Nat.add_comm, Nat.add_mul_div_right _ _ (by omega), Nat.div_eq_of_lt hx, Nat.zero_add]
    rw [Function.comp_apply, hmod, hdiv]

lemma side_le {version : ℕ} (h40 : version ≤ 40) : side version ≤ 177 := by
  unfold side
  omega

lemma codes_grid {version mask : ℕ} {l : Level} {data : Str} (h40 : version ≤ 40) :
    codes.grid (encodedGrid version l mask data) = encodedGrid version l mask data := by
  have hsize : codes.size (encodedGrid version l mask data) = side version :=
    min_eq_left (side_le h40)
  have hdark : ((codes.toModules (encodedGrid version l mask data)).map fun m => decide (m = 1))
      = (encodedGrid version l mask data).dark := by
    unfold QrCodegen.Codes.toModules
    rw [hsize, flatMap_rows, List.map_map]
    conv_rhs => rw [encodedGrid]
    apply List.map_congr_left
    intro k hk
    have hk := List.mem_range.mp hk
    have hpos : 0 < side version := Nat.pos_of_ne_zero fun h => by simp [h] at hk
    have hmodule : codes.getModule (encodedGrid version l mask data) (k % side version)
        (k / side version) = encodedModule version l mask
          (BitList.ofBytes (encodedCodewords version l data))
          (k % side version, k / side version) :=
      moduleAt_encodedGrid (Nat.mod_lt k hpos) (Nat.div_lt_of_lt_mul hk)
    rw [Function.comp_apply, hmodule]
    cases encodedModule version l mask (BitList.ofBytes (encodedCodewords version l data))
      (k % side version, k / side version) <;> rfl
  unfold QrCodegen.Codes.grid
  rw [hdark, hsize]
  rfl

lemma codes_standard : codes.Standard := by
  rintro code data ⟨ecl, lo, hi, boost, hcode⟩
  obtain ⟨version, hfirst, rfl⟩ := Option.map_eq_some_iff.mp hcode
  change firstFit (level ecl) lo.value.toNat hi.value.toNat data = some version at hfirst
  unfold firstFit at hfirst
  have hfits := List.find?_some hfirst
  rw [decide_eq_true_eq] at hfits
  have hmem := List.mem_of_find?_eq_some hfirst
  obtain ⟨i, hi', hversion⟩ := List.mem_iff_getElem.mp hmem
  rw [List.getElem_drop, List.getElem_range] at hversion
  rw [List.length_drop, List.length_range] at hi'
  have h1 : 1 ≤ lo.value.toNat := UInt8.le_iff_toNat_le.mp lo.value_mem.1
  have h40 : hi.value.toNat ≤ 40 := UInt8.le_iff_toNat_le.mp hi.value_mem.2
  exact ⟨version, level ecl, 0, by omega, by omega, by decide, hfits, codes_grid (by omega)⟩

/-- What is shown is near to itself. -/
lemma near_self (code : QRCode) : Near code code.grid := by
  intro version l mask data h1 h40 hmask hfits hgrid
  rw [hgrid]
  refine ⟨⟨rfl, by rw [encodedGrid, List.length_map, List.length_range]⟩, fun copy _ => ?_,
    fun j _ => ?_⟩
  · rw [ReedSolomon.mismatches_self]
    exact Nat.zero_le _
  · simp

end Dhow.Reference
