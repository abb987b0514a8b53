import Dhow.Qr.Encoder

/-!
# Decoding within the capacity

A grid that differs from an encoded one in no more codewords and format modules than the codes
correct is decoded to what was encoded.
-/

namespace Dhow.Qr
open Bytes BitList Checked ReedSolomon

/-- The modules of codeword `i` of block `j`. -/
def codewordModules (version : ℕ) (s : Shape) (j i : ℕ) : List (ℕ × ℕ) :=
  ((dataModules version).drop (8 * s.order.idxOf (j, i))).take 8

/-- Codewords of every block and modules of the format information may be wrong, up to what the
codes correct, and all other modules may be anything. -/
structure WithinCapacity (version : ℕ) (level : Level) (sent g : Grid) : Prop where
  square : g.Square (side version)
  format_le : ∀ copy ∈ formatCopies (side version),
    mismatches (copy.map g.moduleAt) (copy.map sent.moduleAt) ≤ 3
  codewords_le : ∀ j < (shape version level).numBlocks,
    (List.range ((shape version level).blockLen j)).countP (fun i =>
      (codewordModules version (shape version level) j i).map g.moduleAt ≠
        (codewordModules version (shape version level) j i).map sent.moduleAt) ≤
      (shape version level).eccLen / 2

/-- It is enough to know which modules may be wrong. -/
lemma withinCapacity_of_wrong {version : ℕ} {level : Level} {sent g : Grid}
    (wrong : ℕ × ℕ → Bool) (hsquare : g.Square (side version))
    (hright : ∀ p, wrong p = false → g.moduleAt p = sent.moduleAt p)
    (hformat : ∀ copy ∈ formatCopies (side version), copy.countP wrong ≤ 3)
    (hcodewords : ∀ j < (shape version level).numBlocks,
      (List.range ((shape version level).blockLen j)).countP
        (fun i => (codewordModules version (shape version level) j i).any wrong) ≤
        (shape version level).eccLen / 2) :
    WithinCapacity version level sent g := by
  refine ⟨hsquare, fun copy hcopy => ?_, fun j hj => ?_⟩
  · rw [mismatches_map_map]
    refine (List.countP_mono_left ?_).trans (hformat copy hcopy)
    intro p _ hne
    rw [decide_eq_true_eq] at hne
    exact Bool.of_not_eq_false fun hp => hne (hright p hp)
  · refine (List.countP_mono_left ?_).trans (hcodewords j hj)
    intro i _ hne
    rw [decide_eq_true_eq] at hne
    rw [List.any_eq_true]
    by_contra hnone
    push Not at hnone
    exact hne (List.map_congr_left fun p hp => hright p (Bool.of_not_eq_true (hnone p hp)))

section Codewords
variable {version mask : ℕ} {s : Shape} {g sent : Grid} {out word : Str}

/-- The codewords are the bits of the unmasked modules. -/
def ReadsAs (version mask : ℕ) (g : Grid) (out : Str) : Prop :=
  ofBytes out = ((dataModules version).map (g.unmasked mask)).take (8 * out.length)

/-- A codeword is read from its own modules. -/
lemma ReadsAs.codeword (h : ReadsAs version mask g out) (hlen : s.order.length = out.length)
    {j i : ℕ} (hmem : (j, i) ∈ s.order) :
    ofNat 8 (out.getD (s.order.idxOf (j, i)) 0).toNat =
      (codewordModules version s j i).map (g.unmasked mask) := by
  have hlt := List.idxOf_lt_length_of_mem hmem
  rw [hlen] at hlt
  have hget : out[s.order.idxOf (j, i)]? = some (out.getD (s.order.idxOf (j, i)) 0) := by
    rw [List.getD_eq_getElem?_getD, List.getElem?_eq_getElem hlt, Option.getD_some]
  rw [← take_drop_ofBytes hget, h, List.drop_take, List.take_take, Nat.min_eq_left (by omega),
    codewordModules, List.map_take, List.map_drop]

lemma map_unmasked_congr {places : List (ℕ × ℕ)}
    (h : places.map g.moduleAt = places.map sent.moduleAt) :
    places.map (g.unmasked mask) = places.map (sent.unmasked mask) := by
  apply List.map_congr_left
  intro p hp
  rw [Grid.unmasked, Grid.unmasked, List.map_inj_left.mp h p hp]

/-- A codeword whose modules are right is right. -/
lemma mismatches_block_le (hout : ReadsAs version mask g out)
    (hword : ReadsAs version mask sent word) (hlen : s.order.length = out.length)
    (hlen' : s.order.length = word.length) {j : ℕ} (hj : j < s.numBlocks) :
    mismatches (s.block out j) (s.block word j) ≤ (List.range (s.blockLen j)).countP fun i =>
      (codewordModules version s j i).map g.moduleAt ≠
        (codewordModules version s j i).map sent.moduleAt := by
  rw [Shape.block, Shape.block, mismatches_map_map]
  apply List.countP_mono_left
  intro i hi hne
  have hmem : (j, i) ∈ s.order := (Shape.mem_order _).mpr ⟨hj, List.mem_range.mp hi⟩
  rw [decide_eq_true_eq] at hne ⊢
  intro heq
  have hbyte := (hout.codeword hlen hmem).trans
    ((map_unmasked_congr heq).trans (hword.codeword hlen' hmem).symm)
  exact hne (UInt8.toNat_inj.mp (ofNat_inj (UInt8.toNat_lt _) (UInt8.toNat_lt _) hbyte))

end Codewords

section Decoding
variable {version mask : ℕ} {level : Level} {payload out : Str} {g : Grid}

/-- The data fills the blocks. -/
lemma length_dataCodewords_eq (h1 : 1 ≤ version) (h40 : version ≤ 40)
    (hfits : Fits version level payload) : (dataCodewords version level payload).length =
      (shape version level).dataStart (shape version level).numBlocks := by
  obtain ⟨hcapacity, -⟩ := capacity_cases version (by omega) h1 level (by cases level <;> decide)
  have hshort := (shape_wellFormed h1 h40 level).numShort_le
  rw [length_dataCodewords hfits, Shape.dataStart]
  rw [Shape.layout] at hcapacity
  dsimp only at hcapacity
  rw [← Nat.cast_sub hshort] at hcapacity
  exact_mod_cast hcapacity

/-- Every block is near the one that was encoded. -/
lemma WithinCapacity.near_encodedBlock
    (h : WithinCapacity version level (encodedGrid version level mask payload) g)
    (h1 : 1 ≤ version) (h40 : version ≤ 40) (hfits : Fits version level payload)
    (hout : ReadsAs version mask g out)
    (hlen : (out.length : ℤ) = (shape version level).layout.totalCodewords) {j : ℕ}
    (hj : j < (shape version level).numBlocks) :
    Near (shape version level).eccLen ((shape version level).block out j)
      ((shape version level).encodedBlock (dataCodewords version level payload) j) := by
  have hdata := length_dataCodewords_eq h1 h40 hfits
  have hblock := Shape.length_encodedBlock hdata hj
  have hsorted := Shape.block_interleave hj hblock
  have htotal := length_encodedCodewords level payload h1 h40
  have horder := Shape.length_order (shape_wellFormed h1 h40 level)
  have hword : ReadsAs version mask (encodedGrid version level mask payload)
      (encodedCodewords version level payload) := by
    have hwalk := map_unmasked_encodedGrid level mask payload h1 h40
    rw [length_ofBytes] at hwalk
    exact hwalk.symm
  refine ⟨?_, inCode_encodeBlock _ _, ?_⟩
  · rw [hblock, Shape.block, List.length_map, List.length_range]
  · have hle := mismatches_block_le hout hword (by omega) (by omega) hj
    rw [encodedCodewords, hsorted] at hle
    rw [mismatches_comm]
    exact hle.trans (h.codewords_le j hj)

lemma forall₂_near_unique {parity : ℕ} {blocks words words' : List Str}
    (hlen : ∀ block ∈ blocks, block.length ≤ 255) (h : List.Forall₂ (Near parity) blocks words)
    (h' : List.Forall₂ (Near parity) blocks words') : words = words' := by
  have hunique : Relator.RightUnique
      fun block w : Str => block.length ≤ 255 ∧ Near parity block w :=
    fun _ _ _ hv hw => hv.2.unique hv.1 hw.2
  exact List.right_unique_forall₂' hunique ((List.forall₂_and_left ..).mpr ⟨hlen, h⟩)
    ((List.forall₂_and_left ..).mpr ⟨hlen, h'⟩)

/-- The blocks are corrected to those that were encoded. -/
lemma WithinCapacity.gives_deinterleaveAndCorrect
    (h : WithinCapacity version level (encodedGrid version level mask payload) g)
    (h1 : 1 ≤ version) (h40 : version ≤ 40) (hfits : Fits version level payload)
    (hout : ReadsAs version mask g out)
    (hlen : (out.length : ℤ) = (shape version level).layout.totalCodewords) :
    Gives (· = dataCodewords version level payload)
      (deinterleaveAndCorrect out (shape version level).layout) := by
  have hwell := shape_wellFormed h1 h40 level
  have hnear : List.Forall₂ (Near (shape version level).eccLen) ((shape version level).blocks out)
      ((List.range (shape version level).numBlocks).map
        ((shape version level).encodedBlock (dataCodewords version level payload))) := by
    rw [Shape.blocks, List.forall₂_map_left_iff, List.forall₂_map_right_iff, List.forall₂_same]
    intro j hj
    exact h.near_encodedBlock h1 h40 hfits hout hlen (List.mem_range.mp hj)
  have hshort : ∀ block ∈ (shape version level).blocks out, block.length ≤ 255 := by
    intro block hblock
    obtain ⟨j, -, rfl⟩ := List.mem_map.mp hblock
    have hle := (shape version level).dataLen_le j
    have hlength := hwell.length_le
    rw [Shape.block, List.length_map, List.length_range, Shape.blockLen]
    omega
  refine Ends.weaken (ends_deinterleaveAndCorrect hwell hlen) ?_ ?_
  · rintro data ⟨words, hwords, rfl⟩
    rw [forall₂_near_unique hshort hwords hnear]
    exact Shape.dataOf_encodedBlocks (length_dataCodewords_eq h1 h40 hfits)
  · rintro e ⟨j, hj, -, hnone⟩
    exact hnone _ (h.near_encodedBlock h1 h40 hfits hout hlen hj)

/-- A payload that fits in byte mode is decoded with its version, level and mask from every grid
that differs from the one it is encoded as in at most half the error correction of each block and
three modules of each copy of the format information, whatever the other modules are. -/
theorem decode_withinCapacity (h1 : 1 ≤ version) (h40 : version ≤ 40) (hmask : mask < 8)
    (hfits : Fits version level payload)
    (h : WithinCapacity version level (encodedGrid version level mask payload) g) :
    decode (some g) = .ok ⟨payload, version, level, mask⟩ := by
  have hsquare := h.square
  have hn : 21 ≤ side version := by
    unfold side
    omega
  have hside : sizeForVersion version = (side version : ℕ) := by
    unfold sizeForVersion side
    omega
  have hversion : versionForSize g.size = some (version : ℤ) := by
    rw [hsquare.size_eq, ← hside]
    exact versionForSize_sizeForVersion (by omega) (by omega)
  have hformat : readFormatInfo g = .ok (level, mask) := by
    apply hsquare.readFormatInfo_eq hn level hmask
    intro copy hcopy
    have hle := h.format_le copy hcopy
    rwa [map_formatCopy h1 hcopy] at hle
  obtain ⟨total, htotal⟩ : ∃ n : ℕ, (shape version level).layout.totalCodewords = n :=
    ⟨_, (Shape.length_order (shape_wellFormed h1 h40 level)).symm⟩
  have hroom := totalCodewords_le h1 h40 level
  rw [htotal] at hroom
  have harea : (g.dark.length : ℤ) = intMul g.size g.size := by
    rw [hsquare.length_eq, hsquare.size_eq, intMul_side h40]
  rw [← gives_eq_iff, decode]
  dsimp only
  rw [if_neg (not_not.mpr harea), hversion, hformat]
  dsimp only
  rw [ok_bind, blockLayout_eq h1 h40 level, ok_bind]
  dsimp only
  rw [htotal]
  refine Gives.bind (hsquare.gives_readCodewords h1 h40 mask (by omega)) ?_
  rintro out ⟨hcount, hbits⟩
  have hreads : ReadsAs version mask g out := by
    rw [ReadsAs, hcount]
    exact hbits
  refine Gives.bind (h.gives_deinterleaveAndCorrect h1 h40 hfits hreads (by rw [htotal, hcount])) ?_
  rintro data rfl
  have hsegments := segments_dataCodewords h1 h40 hfits
  refine Gives.bind (P := (· = payload)) ?_ ?_
  · refine Ends.weaken (ends_parseSegments _ _) ?_ ?_
    · exact fun parsed hparsed => hparsed.unique hsegments
    · exact fun _ hfault => hfault.not_segments hsegments
  · rintro parsed rfl
    exact .ok rfl

theorem decode_withinCapacity_corner_lost :
    decode (some ⟨21, (encodedGrid 1 .low 2 [0x44, 0x48]).dark.zipIdx.map fun (dark, k) =>
      dark ^^ decide (k % 21 < 8 ∧ k / 21 < 8 ∨ 19 ≤ k % 21 ∧ 8 ≤ k / 21)⟩) =
      .ok ⟨[0x44, 0x48], 1, .low, 2⟩ := by
  apply decode_withinCapacity (show 1 ≤ 1 from le_rfl) (by decide) (by decide) (by decide)
  apply withinCapacity_of_wrong fun p =>
    let k := p.2 * 21 + p.1
    decide (k % 21 < 8 ∧ k / 21 < 8 ∨ 19 ≤ k % 21 ∧ 8 ≤ k / 21)
  · exact ⟨rfl, by decide +kernel⟩
  · rintro ⟨x, y⟩ hright
    have hsize : (encodedGrid 1 .low 2 [0x44, 0x48]).size.toNat = 21 := rfl
    dsimp only at hright
    rw [Grid.moduleAt, Grid.moduleAt, hsize, show ((21 : ℤ)).toNat = 21 from rfl]
    dsimp only
    rw [List.getD_eq_getElem?_getD, List.getD_eq_getElem?_getD, List.getElem?_map,
      List.getElem?_zipIdx, Option.map_map, Nat.zero_add]
    cases (encodedGrid 1 .low 2 [0x44, 0x48]).dark[y * 21 + x]? with
    | none => rfl
    | some dark =>
      exact (congrArg (dark ^^ ·) hright).trans (Bool.xor_false dark)
  · decide +kernel
  · decide +kernel
end Decoding

end Dhow.Qr
