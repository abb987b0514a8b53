import Dhow.Lib.ReedSolomonEncoder
import Dhow.Qr.Decode

/-!
# The encoder of the standard

A payload in byte mode as a grid: one segment with its terminator and padding, the error correction
of each block, the interleaving, the placement along the walk and the function patterns.
-/

namespace Dhow.Qr
open Bytes BitList Interleaving ReedSolomon

/-! ### The data -/

/-- How many codewords carry data, by the version. -/
def dataCapacity : Level → List ℕ
  | .low => [0, 19, 34, 55, 80, 108, 136, 156, 194, 232, 274, 324, 370, 428, 461, 523, 589, 647,
    721, 795, 861, 932, 1006, 1094, 1174, 1276, 1370, 1468, 1531, 1631, 1735, 1843, 1955, 2071,
    2191, 2306, 2434, 2566, 2702, 2812, 2956]
  | .medium => [0, 16, 28, 44, 64, 86, 108, 124, 154, 182, 216, 254, 290, 334, 365, 415, 453, 507,
    563, 627, 669, 714, 782, 860, 914, 1000, 1062, 1128, 1193, 1267, 1373, 1455, 1541, 1631, 1725,
    1812, 1914, 1992, 2102, 2216, 2334]
  | .quartile => [0, 13, 22, 34, 48, 62, 76, 88, 110, 132, 154, 180, 206, 244, 261, 295, 325, 367,
    397, 445, 485, 512, 568, 614, 664, 718, 754, 808, 871, 911, 985, 1033, 1115, 1171, 1231, 1286,
    1354, 1426, 1502, 1582, 1666]
  | .high => [0, 9, 16, 26, 36, 46, 60, 66, 86, 100, 122, 140, 158, 180, 197, 223, 253, 283, 313,
    341, 385, 406, 442, 464, 514, 538, 596, 628, 661, 701, 745, 793, 845, 901, 961, 986, 1054, 1096,
    1142, 1222, 1276]

def capacity (version : ℕ) (level : Level) : ℕ := (dataCapacity level).getD version 0

/-- The width of the character count of byte mode. -/
def countBits (version : ℕ) : ℕ := if 10 ≤ version then 16 else 8

/-- The whole payload as one segment. -/
def segment (version : ℕ) (payload : Str) : List Bool :=
  ofNat 4 0b0100 ++ (ofNat (countBits version) payload.length ++ ofBytes payload)

/-- A payload that byte mode has room for. -/
def Fits (version : ℕ) (level : Level) (payload : Str) : Prop :=
  (segment version payload).length ≤ 8 * capacity version level

instance (version : ℕ) (level : Level) (payload : Str) : Decidable (Fits version level payload) :=
  inferInstanceAs (Decidable (_ ≤ _))

/-- The terminator, as much of it as there is room for, and zeros up to a whole byte. -/
def terminated (room : ℕ) (bits : List Bool) : List Bool :=
  let bits := bits ++ List.replicate (min 4 (8 * room - bits.length)) false
  bits ++ List.replicate ((8 - bits.length % 8) % 8) false

/-- What room is left is filled with the two pad codewords in turn. -/
def padded (room : ℕ) (data : Str) : Str :=
  data ++ (List.range (room - data.length)).map fun i => if i % 2 = 0 then 0xEC else 0x11

def dataCodewords (version : ℕ) (level : Level) (payload : Str) : Str :=
  padded (capacity version level)
    (toBytes (terminated (capacity version level) (segment version payload)))

/-! ### The codewords -/

/-- The data of a block and its error correction. -/
def encodeBlock (parity : ℕ) (data : Str) : Str :=
  (encode GF256.alpha parity (elems data)).map GF256.byte

namespace Shape
variable (s : Shape)

/-- Where the data of block `j` begins. -/
def dataStart (j : ℕ) : ℕ := j * s.shortDataLen + (j - s.numShort)

def encodedBlock (data : Str) (j : ℕ) : Str :=
  encodeBlock s.eccLen ((data.drop (s.dataStart j)).take (s.dataLen j))

/-- The codewords in the order they are sent in. -/
def interleave (blocks : ℕ → Str) : Str := s.order.map fun p => (blocks p.1).getD p.2 0

end Shape

def encodedCodewords (version : ℕ) (level : Level) (payload : Str) : Str :=
  (shape version level).interleave
    ((shape version level).encodedBlock (dataCodewords version level payload))

/-! ### The grid -/

/-- The distance in rings around a centre. -/
def ring (c p : ℕ × ℕ) : ℕ := max ((p.1 - c.1) + (c.1 - p.1)) ((p.2 - c.2) + (c.2 - p.2))

/-- A finder pattern with its separator. -/
def finderDark (r : ℕ) : Bool := r ≠ 2 ∧ r < 4

/-- The version in six bits and twelve for their remainder by the generator of the code. -/
def versionInformation (version : ℕ) : ℕ :=
  version <<< 12 ||| polyMod 0b1111100100101 12 6 (version <<< 12)

/-- The two places of a bit of the version information. -/
def versionModules (n i : ℕ) : List (ℕ × ℕ) :=
  [(n - 11 + i % 3, i / 3), (i / 3, n - 11 + i % 3)]

/-- The modules of both copies of the format information, each from its lowest bit. -/
def formatModules (n : ℕ) : List (ℕ × ℕ) := (formatCopies n).flatten

/-- The centre of the alignment pattern that a module is in. -/
def alignmentCentre (version : ℕ) (p : ℕ × ℕ) : Option (ℕ × ℕ) :=
  ((alignmentCentres version).product (alignmentCentres version)).find? fun c => ring c p ≤ 2 ∧
    c ∉ [(6, 6), (6, side version - 7), (side version - 7, 6)]

instance (version x y : ℕ) : Decidable (IsVersionInfo version x y) :=
  inferInstanceAs (Decidable (_ ∧ _))

def functionModule (version : ℕ) (level : Level) (mask : ℕ) (p : ℕ × ℕ) : Bool :=
  let n := side version
  if p ∈ formatModules n then
    (formatInformation level mask).testBit ((formatModules n).idxOf p % 15)
  else if p = (8, n - 8) then true
  else if p.1 < 8 ∧ p.2 < 8 then finderDark (ring (3, 3) p)
  else if n ≤ p.1 + 8 ∧ p.2 < 8 then finderDark (ring (n - 4, 3) p)
  else if p.1 < 8 ∧ n ≤ p.2 + 8 then finderDark (ring (3, n - 4) p)
  else if IsVersionInfo version p.1 p.2 then
    (versionInformation version).testBit
      ((List.range 18).findIdx fun i => decide (p ∈ versionModules n i))
  else
    match alignmentCentre version p with
    | some c => ring c p ≠ 1
    | none => (p.1 + p.2) % 2 = 0

/-- A module with the bits of the codewords, with zeros for the modules that are left over. -/
def encodedModule (version : ℕ) (level : Level) (mask : ℕ) (bits : List Bool) (p : ℕ × ℕ) : Bool :=
  if IsFunction version p.1 p.2 then functionModule version level mask p
  else bits.getD ((dataModules version).idxOf p) false ^^ inverts mask p

def encodedGrid (version : ℕ) (level : Level) (mask : ℕ) (payload : Str) : Grid where
  size := side version
  dark := (List.range (side version * side version)).map fun k =>
    encodedModule version level mask (ofBytes (encodedCodewords version level payload))
      (k % side version, k / side version)

/-! ### What the data says -/

lemma capacity_cases : ∀ version : ℕ, version < 41 → 1 ≤ version →
    ∀ level ∈ [Level.low, .medium, .quartile, .high],
      (capacity version level : ℤ) = (shape version level).layout.dataCodewords ∧
        capacity version level < 2 ^ countBits version := by
  decide +kernel

lemma eight_dvd_countBits (version : ℕ) : 8 ∣ countBits version := by
  unfold countBits
  split_ifs <;> decide

/-- The decoder reads the character count in the width of the standard. -/
lemma charCountBits_eq (version : ℕ) : charCountBits version = countBits version := by
  unfold charCountBits countBits
  split_ifs <;> omega

section Data
variable {version : ℕ} {level : Level} {payload : Str}

lemma length_segment (version : ℕ) (payload : Str) :
    (segment version payload).length = 4 + countBits version + 8 * payload.length := by
  rw [segment, List.length_append, List.length_append, length_ofNat, length_ofNat, length_ofBytes,
    Nat.add_assoc]

/-- A segment that fits leaves room for the terminator, after which a byte is full. -/
lemma terminated_segment (h : Fits version level payload) :
    terminated (capacity version level) (segment version payload) =
      segment version payload ++ ofNat 4 modeTerminator := by
  have hlen := length_segment version payload
  have hcount := eight_dvd_countBits version
  unfold Fits at h
  have hroom : min 4 (8 * capacity version level - (segment version payload).length) = 4 := by omega
  have hfull : (8 - (segment version payload ++ List.replicate 4 false).length % 8) % 8 = 0 := by
    rw [List.length_append, List.length_replicate]
    omega
  rw [terminated, hroom, hfull, List.replicate_zero, List.append_nil]
  rfl

lemma length_terminated_segment (h : Fits version level payload) :
    8 ∣ (segment version payload ++ ofNat 4 modeTerminator).length ∧
      (segment version payload ++ ofNat 4 modeTerminator).length ≤ 8 * capacity version level := by
  have hlen := length_segment version payload
  have hcount := eight_dvd_countBits version
  unfold Fits at h
  rw [List.length_append, length_ofNat]
  omega

lemma length_dataCodewords (h : Fits version level payload) :
    (dataCodewords version level payload).length = capacity version level := by
  have hle := (length_terminated_segment h).2
  rw [dataCodewords, terminated_segment h, padded, List.length_append, List.length_map,
    List.length_range, length_toBytes]
  omega

/-- The data is one segment, whose bytes are the payload. -/
lemma segments_dataCodewords (h1 : 1 ≤ version) (h40 : version ≤ 40)
    (h : Fits version level payload) :
    Segments (charCountBits version) (ofBytes (dataCodewords version level payload)) payload := by
  rw [charCountBits_eq]
  have hcount : payload.length < 2 ^ countBits version := by
    obtain ⟨-, hlt⟩ := capacity_cases version (by omega) h1 level (by cases level <;> decide)
    have hlen := length_segment version payload
    unfold Fits at h
    omega
  obtain ⟨pads, hpads⟩ : ∃ pads, dataCodewords version level payload =
      toBytes (segment version payload ++ ofNat 4 modeTerminator) ++ pads := by
    rw [dataCodewords, terminated_segment h, padded]
    exact ⟨_, rfl⟩
  have hsegments := Segments.bytes hcount (.terminator (ofBytes pads))
  rw [List.append_nil] at hsegments
  rw [hpads, ofBytes_append, ofBytes_toBytes (length_terminated_segment h).1, segment,
    show ofNat 4 0b0100 = ofNat 4 modeByte from rfl]
  simpa only [List.append_assoc] using hsegments

end Data

/-! ### The blocks -/

lemma length_encodeBlock (parity : ℕ) (data : Str) :
    (encodeBlock parity data).length = data.length + parity := by
  rw [encodeBlock, List.length_map, length_encode, length_elems]

lemma take_encodeBlock (parity : ℕ) (data : Str) :
    (encodeBlock parity data).take data.length = data := by
  have hdata : (elems data).map GF256.byte = data := by
    rw [elems, List.map_map]
    exact List.map_id data
  rw [encodeBlock, encode, List.map_append, hdata, List.take_left']
  rfl

lemma inCode_encodeBlock (parity : ℕ) (data : Str) : InCode parity (encodeBlock parity data) := by
  have hword : elems (encodeBlock parity data) = encode GF256.alpha parity (elems data) := by
    rw [encodeBlock, elems, List.map_map]
    exact List.map_id _
  rw [InCode, hword]
  exact isCodeword_encode GF256.alpha parity (elems data)

namespace Shape
variable {s : Shape} {data : Str}

lemma dataStart_succ (s : Shape) (j : ℕ) : s.dataStart (j + 1) = s.dataStart j + s.dataLen j := by
  unfold dataStart dataLen
  rw [Nat.succ_mul]
  split_ifs <;> omega

lemma dataStart_mono (s : Shape) : Monotone s.dataStart := by
  apply monotone_nat_of_le_succ
  intro j
  rw [dataStart_succ]
  exact Nat.le_add_right _ _

/-- Data enough for all blocks fills each of them. -/
lemma length_blockData (h : data.length = s.dataStart s.numBlocks) {j : ℕ} (hj : j < s.numBlocks) :
    ((data.drop (s.dataStart j)).take (s.dataLen j)).length = s.dataLen j := by
  have hle := s.dataStart_mono (Nat.succ_le_of_lt hj)
  rw [Nat.succ_eq_add_one, dataStart_succ] at hle
  rw [List.length_take, List.length_drop]
  omega

lemma length_encodedBlock (h : data.length = s.dataStart s.numBlocks) {j : ℕ}
    (hj : j < s.numBlocks) : (s.encodedBlock data j).length = s.blockLen j := by
  rw [encodedBlock, length_encodeBlock, length_blockData h hj, blockLen]

/-- The data of the blocks is the data that was split. -/
lemma dataOf_encodedBlocks (h : data.length = s.dataStart s.numBlocks) :
    s.dataOf ((List.range s.numBlocks).map (s.encodedBlock data)) = data := by
  have hfirst : ∀ m ≤ s.numBlocks, s.dataOf ((List.range m).map (s.encodedBlock data)) =
      data.take (s.dataStart m) := by
    intro m hm
    induction m with
    | zero =>
      rw [dataStart, Nat.zero_mul, Nat.zero_sub, List.take_zero]
      rfl
    | succ m ih =>
      have hblock := length_blockData h (Nat.lt_of_succ_le hm)
      have htake : (s.encodedBlock data m).take (s.dataLen m) =
          (data.drop (s.dataStart m)).take (s.dataLen m) := by
        have hdata := take_encodeBlock s.eccLen ((data.drop (s.dataStart m)).take (s.dataLen m))
        rwa [hblock] at hdata
      rw [List.range_succ, List.map_append, List.map_singleton, dataOf_concat, List.length_map,
        List.length_range, ih (Nat.le_of_succ_le hm), htake, dataStart_succ, List.take_add]
  rw [hfirst _ le_rfl, ← h, List.take_length]

/-- Sorting undoes the interleaving. -/
lemma block_interleave {blocks : ℕ → Str} {j : ℕ} (hj : j < s.numBlocks)
    (hlen : (blocks j).length = s.blockLen j) : s.block (s.interleave blocks) j = blocks j := by
  apply List.ext_getElem
  · rw [block, List.length_map, List.length_range, hlen]
  · intro i hi hi'
    have hmem : (j, i) ∈ s.order := (mem_order _).mpr ⟨hj, hlen ▸ hi'⟩
    simp only [block, interleave, List.getElem_map, List.getElem_range]
    rw [getD_idxOf hmem, List.getD_eq_getElem?_getD, List.getElem?_eq_getElem hi', Option.getD_some]

end Shape

/-! ### The modules -/

section Modules
variable {version : ℕ}

lemma moduleAt_encodedGrid {level : Level} {mask : ℕ} {payload : Str} {p : ℕ × ℕ}
    (hx : p.1 < side version) (hy : p.2 < side version) :
    (encodedGrid version level mask payload).moduleAt p =
      encodedModule version level mask (ofBytes (encodedCodewords version level payload)) p := by
  have hpos := Nat.zero_lt_of_lt hx
  have hmod : (p.2 * side version + p.1) % side version = p.1 := by
    rw [Nat.mul_add_mod_self_right, Nat.mod_eq_of_lt hx]
  have hdiv : (p.2 * side version + p.1) / side version = p.2 := by
    rw [Nat.add_comm, Nat.add_mul_div_right _ _ hpos, Nat.div_eq_of_lt hx, Nat.zero_add]
  rw [Grid.moduleAt, encodedGrid, Int.toNat_natCast, List.getD_eq_getElem?_getD, List.getElem?_map,
    List.getElem?_range (cell_lt hx hy), Option.map_some, Option.getD_some, hmod, hdiv]

lemma nodup_formatModules {n : ℕ} (hn : 21 ≤ n) : (formatModules n).Nodup := by
  simp [formatModules, formatCopies]
  omega

lemma mem_formatModules (hn : 21 ≤ side version) {p : ℕ × ℕ}
    (hp : p ∈ formatModules (side version)) :
    p.1 < side version ∧ p.2 < side version ∧ IsFunction version p.1 p.2 := by
  obtain ⟨copy, hcopy, hp⟩ := List.mem_flatten.mp hp
  obtain ⟨hx, hy⟩ := (mem_formatCopies hn hcopy).2 p hp
  refine ⟨hx, hy, .inr (.inr (.inr (.inl ?_)))⟩
  unfold IsFormat
  simp only [formatCopies, List.mem_cons, List.not_mem_nil, or_false] at hcopy
  rcases hcopy with rfl | rfl
  · simp only [List.mem_cons, List.not_mem_nil, or_false, Prod.ext_iff] at hp
    omega
  · simp only [List.mem_cons, List.not_mem_nil, or_false, Prod.ext_iff] at hp
    omega

/-- Both copies hold the format information. -/
lemma map_formatModules (level : Level) (mask : ℕ) (payload : Str) (h1 : 1 ≤ version) :
    (formatModules (side version)).map (encodedGrid version level mask payload).moduleAt =
      lowBits 15 (formatInformation level mask) ++ lowBits 15 (formatInformation level mask) := by
  have hn : 21 ≤ side version := by
    unfold side
    omega
  have hlen : (formatModules (side version)).length = 30 := rfl
  apply List.ext_getElem
  · rw [List.length_map, hlen, List.length_append, length_lowBits]
  · intro i hi hi'
    rw [List.length_map, hlen] at hi
    have hmem := List.getElem_mem (hlen ▸ hi)
    obtain ⟨hx, hy, hfunction⟩ := mem_formatModules hn hmem
    rw [List.getElem_map, moduleAt_encodedGrid hx hy, encodedModule, if_pos hfunction,
      functionModule]
    rw [if_pos hmem, (nodup_formatModules hn).idxOf_getElem, List.getElem_append]
    simp only [lowBits, List.getElem_map, List.getElem_range, List.length_map, List.length_range]
    split_ifs with h15
    · rw [Nat.mod_eq_of_lt h15]
    · congr 1
      omega

lemma map_formatCopy {level : Level} {mask : ℕ} {payload : Str} (h1 : 1 ≤ version)
    {copy : List (ℕ × ℕ)} (hcopy : copy ∈ formatCopies (side version)) :
    copy.map (encodedGrid version level mask payload).moduleAt =
      lowBits 15 (formatInformation level mask) := by
  have hboth := map_formatModules level mask payload h1
  simp only [formatCopies, List.mem_cons, List.not_mem_nil, or_false] at hcopy
  rw [formatModules, formatCopies, List.flatten_cons, List.flatten_cons, List.flatten_nil,
    List.append_nil, List.map_append] at hboth
  obtain ⟨hfirst, hsecond⟩ := List.append_inj hboth rfl
  rcases hcopy with rfl | rfl
  · exact hfirst
  · exact hsecond

lemma length_encodedCodewords (level : Level) (payload : Str) (h1 : 1 ≤ version)
    (h40 : version ≤ 40) :
    ((encodedCodewords version level payload).length : ℤ) =
      (shape version level).layout.totalCodewords := by
  rw [encodedCodewords, Shape.interleave, List.length_map,
    Shape.length_order (shape_wellFormed h1 h40 level)]

/-- The walk finds the bits of the codewords. -/
lemma map_unmasked_encodedGrid (level : Level) (mask : ℕ) (payload : Str) (h1 : 1 ≤ version)
    (h40 : version ≤ 40) :
    ((dataModules version).map ((encodedGrid version level mask payload).unmasked mask)).take
      (ofBytes (encodedCodewords version level payload)).length =
      ofBytes (encodedCodewords version level payload) := by
  have hlen : (ofBytes (encodedCodewords version level payload)).length ≤
      (dataModules version).length := by
    have htotal := length_encodedCodewords level payload h1 h40
    have hle := totalCodewords_le h1 h40 level
    rw [length_ofBytes]
    omega
  have hmap : (dataModules version).map ((encodedGrid version level mask payload).unmasked mask) =
      (dataModules version).map fun p =>
        (ofBytes (encodedCodewords version level payload)).getD ((dataModules version).idxOf p)
          false := by
    apply List.map_congr_left
    intro p hp
    obtain ⟨hx, hy, hdata⟩ := (mem_dataModules p).mp hp
    rw [Grid.unmasked, moduleAt_encodedGrid hx hy, encodedModule, if_neg hdata, Bool.xor_assoc,
      Bool.xor_self, Bool.xor_false]
  rw [hmap, take_map_getD_idxOf nodup_dataModules hlen]

end Modules

end Dhow.Qr
