import Dhow.Abi.Boundary
import Dhow.Optical.Rendering
import Dhow.QrSizing

/-!
# Encoding a frame

The way of a frame to its grid: the choice between a version and the smallest that fits (`qr.rs`),
the grid as bytes through the foreign interface (`handle.rs`), and what Go makes of it (`ffi.go`).
-/

namespace Dhow
open Bytes Checked Abi

/-- A letter in either case. -/
def Ecc.fromLetter (c : UInt8) : Option Ecc :=
  let c := if 0x61 ≤ c ∧ c ≤ 0x7A then c - 0x20 else c
  if c = 0x4C then some .low
  else if c = 0x4D then some .medium
  else if c = 0x51 then some .quartile
  else if c = 0x48 then some .high
  else none

def Ecc.toString : Ecc → String
  | low => "Low"
  | medium => "Medium"
  | quartile => "Quartile"
  | high => "High"

def QrError.toString : QrError → String
  | dataTooLong length version ecc =>
    s!"data too large for QR encoding: {length} bytes exceeds the capacity of version " ++
      s!"{version} at {ecc.toString}"
  | invalidVersion version => s!"invalid QR version {version}, must be 1..=40"

/-- A grid that the crate has made, by its side and its modules. The side is at most that of the
last version. -/
structure QrCodegen.Codes (qr : QrCodegen) where
  size : qr.QrCode → ℕ
  getModule : qr.QrCode → ℕ → ℕ → Bool
  size_le : ∀ code, size code ≤ 177

namespace QrCodegen
variable {qr : QrCodegen}

/-- `encode_binary` of the crate: the first version with room, and the highest level that it then
still has room at. -/
def encodeBinary (data : Str) (ecl : QrCodeEcc) : Option qr.QrCode :=
  qr.encodeSegmentsAdvanced [qr.makeBytes data] ecl ⟨minVersion, by decide⟩ ⟨maxVersion, by decide⟩
    none true

def encodeWith (data : Str) (ecc : Ecc) : Checked QrError (QrCodeEncoder qr) :=
  match qr.encodeBinary data ecc.toQrcodegen with
  | none => fail (.dataTooLong data.length maxVersion ecc)
  | some inner => .ok ⟨inner, ecc⟩

variable (codes : qr.Codes)

namespace Codes

/-- One byte a module, row by row. -/
def toModules (code : qr.QrCode) : Str :=
  (List.range (codes.size code)).flatMap fun y =>
    (List.range (codes.size code)).map fun x => if codes.getModule code x y then 1 else 0

lemma length_toModules (code : qr.QrCode) :
    (codes.toModules code).length = codes.size code * codes.size code := by
  unfold toModules
  simp [List.length_flatMap]

/-- The frame and its pointer are never null, and the level is the byte of a `c_char`. -/
def qrOf (frame : Str) (version ecc : UInt8) : Checked (DhowStatus × String) (UInt32 × Str) :=
  match Ecc.fromLetter ecc with
  | none => fail (.invalidArgument, "error-correction level must be L, M, Q, or H")
  | some level =>
    match if version = 0 then qr.encodeWith frame level else qr.encodeAt frame version level with
    | .error (.panic p) => .error (.panic p)
    | .error (.fail e) => fail (.invalidArgument, e.toString)
    | .ok code => .ok (UInt32.ofNat (codes.size code.inner), codes.toModules code.inner)

def dhowQrEncodeFrame (frame : Str) (version ecc : UInt8) (buf : Option Str) :
    CoreCall (UInt32 × ℕ × Option Str) :=
  Abi.guard (codes.qrOf frame version ecc >>= fun x => do
    let out ← writeOut x.2 buf
    .ok (x.1, out))

/-- The version is converted to eight bits. -/
def encodeModules (frame : Str) (version : ℤ) (ecc : UInt8) : Locked (UInt32 × Str) :=
  if frame = [] then fun last => (.error .emptyFrame, last)
  else twoCalls (codes.dhowQrEncodeFrame frame (UInt8.ofInt version) ecc)

lemma encodeModules_eq (frame : Str) (version : ℤ) (ecc : UInt8) (last : LastError) :
    (codes.encodeModules frame version ecc last).1 =
      if frame = [] then .error .emptyFrame
      else (codes.qrOf frame (UInt8.ofInt version) ecc).mapError failureOf := by
  unfold encodeModules
  split_ifs
  · rfl
  · exact twoCalls_eq _ last

/-- A grid that the crate has made of data as one segment in byte mode. -/
def Holds (code : qr.QrCode) (data : Str) : Prop := ∃ ecl lo hi boost,
  qr.encodeSegmentsAdvanced [qr.makeBytes data] ecl lo hi none boost = some code

omit codes in
lemma holds_of_encodeWith {data : Str} {ecc : Ecc} {code : QrCodeEncoder qr}
    (h : qr.encodeWith data ecc = .ok code) : Holds code.inner data := by
  unfold encodeWith at h
  split at h
  · cases h
  · next inner hinner =>
    cases h
    exact ⟨_, _, _, _, hinner⟩

omit codes in
lemma holds_of_encodeAt {data : Str} {version : UInt8} {ecc : Ecc} {code : QrCodeEncoder qr}
    (h : qr.encodeAt data version ecc = .ok code) : Holds code.inner data := by
  unfold encodeAt at h
  split at h
  · rcases hcap : qr.capacity version ecc with e | cap
    · rw [hcap] at h
      cases h
    · rw [hcap, ok_bind] at h
      split at h
      · cases h
      · split at h
        · cases h
        · next inner hinner =>
          cases h
          exact ⟨_, _, _, _, hinner⟩
  · cases h

/-- A grid that crosses the interface is the one the crate has made. -/
lemma of_qrOf_eq_ok {frame : Str} {version ecc : UInt8} {size : UInt32} {modules : Str}
    (h : codes.qrOf frame version ecc = .ok (size, modules)) :
    ∃ code, Holds code frame ∧ size.toNat = codes.size code ∧
      modules = codes.toModules code := by
  unfold qrOf at h
  split at h
  · cases h
  · split at h
    · cases h
    · cases h
    · next code hcode =>
      cases h
      have hle := codes.size_le code.inner
      refine ⟨code.inner, ?_, by rw [UInt32.toNat_ofNat_of_lt' (by rw [UInt32.size]; omega)], rfl⟩
      split_ifs at hcode
      · exact holds_of_encodeWith hcode
      · exact holds_of_encodeAt hcode

lemma length_of_encodeModules {frame : Str} {version : ℤ} {ecc : UInt8} {size : UInt32}
    {modules : Str} (h : (codes.encodeModules frame version ecc "").1 = .ok (size, modules)) :
    modules.length = size.toNat * size.toNat := by
  rw [encodeModules_eq] at h
  split_ifs at h
  rcases hq : codes.qrOf frame (UInt8.ofInt version) ecc with e | ⟨size', modules'⟩
  · rw [hq] at h
    cases h
  · rw [hq] at h
    cases h
    obtain ⟨code, -, hsize, rfl⟩ := codes.of_qrOf_eq_ok hq
    rw [codes.length_toModules, hsize]

/-- What the thread keeps makes no difference, by `encodeModules_eq`. -/
def encodeQR (frame : Str) (version : ℤ) (ecc : UInt8) : Except FfiError Optical.QRCode :=
  match h : (codes.encodeModules frame version ecc "").1 with
  | .error e => .error e
  | .ok (size, modules) => .ok ⟨size.toNat, modules, codes.length_of_encodeModules h⟩

/-- The grid of a code as the receiver has grids. -/
def grid (code : qr.QrCode) : Qr.Grid := ⟨codes.size code, (codes.toModules code).map (· = 1)⟩

end Codes

end QrCodegen

/-- A grid as the receiver has grids. -/
def Optical.QRCode.grid (qr : Optical.QRCode) : Qr.Grid := ⟨qr.size, qr.modules.map (· = 1)⟩

namespace QrCodegen.Codes
variable {qr : QrCodegen} (codes : qr.Codes)

/-- What comes out on the Go side is a grid that the crate has made of the frame. -/
lemma of_encodeQR_eq_ok {frame : Str} {version : ℤ} {ecc : UInt8} {code : Optical.QRCode}
    (h : codes.encodeQR frame version ecc = .ok code) :
    ∃ inner, Holds inner frame ∧ code.grid = codes.grid inner := by
  unfold encodeQR at h
  split at h
  · cases h
  · next size modules hmodules =>
    cases h
    rw [encodeModules_eq] at hmodules
    split_ifs at hmodules
    rcases hq : codes.qrOf frame (UInt8.ofInt version) ecc with e | ⟨size', modules'⟩
    · rw [hq] at hmodules
      cases hmodules
    · rw [hq] at hmodules
      cases hmodules
      obtain ⟨inner, hholds, hsize, rfl⟩ := codes.of_qrOf_eq_ok hq
      refine ⟨inner, hholds, ?_⟩
      change (⟨size.toNat, (codes.toModules inner).map (· = 1)⟩ : Qr.Grid) = _
      rw [hsize]
      rfl

/-- A frame that the crate has a version for is encoded. -/
lemma exists_encodeQR {frame : Str} {ecc : UInt8} (level : Ecc) (hframe : frame ≠ [])
    (hlevel : Ecc.fromLetter ecc = some level)
    (hroom : (qr.encodeBinary frame level.toQrcodegen).isSome) :
    ∃ code, codes.encodeQR frame 0 ecc = .ok code := by
  obtain ⟨inner, hinner⟩ := Option.isSome_iff_exists.mp hroom
  have hwith : qr.encodeWith frame level = .ok ⟨inner, level⟩ := by
    rw [encodeWith, hinner]
  have hqr : codes.qrOf frame (UInt8.ofInt 0) ecc
      = .ok (UInt32.ofNat (codes.size inner), codes.toModules inner) := by
    have hzero : UInt8.ofInt 0 = 0 := rfl
    rw [qrOf, hlevel, hzero]
    dsimp only
    rw [if_pos rfl, hwith]
  unfold encodeQR
  split
  · next e he =>
    rw [encodeModules_eq, if_neg hframe, hqr] at he
    cases he
  · exact ⟨_, rfl⟩

/-- What the code relies on of the crate: its grids are those of the standard, whatever version,
level and mask it takes. -/
def Standard : Prop := ∀ (code : qr.QrCode) (data : Str), Holds code data →
  ∃ version level mask, 1 ≤ version ∧ version ≤ 40 ∧ mask < 8 ∧ Qr.Fits version level data ∧
    codes.grid code = Qr.encodedGrid version level mask data

end QrCodegen.Codes

/-- The grids of the standard's encoder. -/
def Reference.codes : Reference.qrcodegen.Codes where
  size g := min g.size.toNat 177
  getModule g x y := Qr.Grid.moduleAt g (x, y)
  size_le _ := min_le_right _ _

end Dhow
