import Dhow.Blake3Reference
import Dhow.Dataset
import Dhow.Lib.Steps
import Dhow.Lib.Utf8

/-!
# Writing a secret key file

How `key.rs` writes a secret: open with owner-only permissions, which count for a new file only,
truncate, write, and set the permissions of a file that was there. Another user may look at the
file between any two of these, and each may fail or be the last.
-/

namespace Dhow
open Bytes

def keyMagic : Arr 4 := ⟨asBytes "DHKY", by decide +kernel⟩
def keyVersion : UInt8 := 1

/-- The length of what stands before the key material. -/
def keyHeaderLen : ℕ := 8

/-- The permission bits that must not be set on a secret key file. -/
def forbiddenModeBits : UInt32 := 0o077

inductive KeyKind
  | identity
  | operator
  deriving DecidableEq

def KeyKind.toU8 : KeyKind → UInt8
  | identity => 1
  | operator => 2

inductive KeyError
  | cannotCreate
  | cannotWrite
  | cannotSetPermissions
  deriving DecidableEq

def encodeKeyFile (b3 : Blake3) (kind : KeyKind) (material : Arr 32) : Str :=
  let buf := keyMagic.toList ++ [keyVersion, kind.toU8] ++ (zeros 2).toList ++ material.toList
  buf ++ (blake3Digest b3 buf).toList

/-- What is at the path of a key file: nothing, or a file. -/
abbrev KeyPath := Option File

/-- `write_owner_only`. The mode of the open is that of a new file, less the umask. -/
def writeOwnerOnly (umask : UInt32) (bytes : Str) : Steps KeyPath KeyError Unit := do
  Steps.change .cannotCreate fun file =>
    some ⟨[], (file.map File.mode).getD (0o600 &&& ~~~umask)⟩
  Steps.step .cannotWrite (fun file => (.ok (), file.map fun f => { f with content := bytes }))
    fun n file => file.map fun f => { f with content := bytes.take n }
  Steps.change .cannotSetPermissions fun file => file.map fun f => { f with mode := 0o600 }

/-- An identity key is saved as its seed. -/
def saveIdentity (b3 : Blake3) (umask : UInt32) (seed : Arr 32) : Steps KeyPath KeyError Unit :=
  writeOwnerOnly umask (encodeKeyFile b3 .identity seed)

def saveOperator (b3 : Blake3) (umask : UInt32) (bytes : Arr 32) : Steps KeyPath KeyError Unit :=
  writeOwnerOnly umask (encodeKeyFile b3 .operator bytes)

/-! ### Exposure -/

/-- Only the owner has a permission on the file. -/
def File.OwnerOnly (f : File) : Prop := f.mode &&& forbiddenModeBits = 0

/-- The file has a byte of the key material in its place. -/
def File.HasMaterial (material : Arr 32) (f : File) : Prop :=
  ∃ i : Fin 32, f.content[keyHeaderLen + i.val]? = some (material.get i)

/-- Another user may read a byte of the key material. -/
def Exposed (material : Arr 32) (file : KeyPath) : Prop :=
  ∃ f, file = some f ∧ ¬f.OwnerOnly ∧ f.HasMaterial material

lemma ownerOnly_of_masked (content : Str) (umask : UInt32) :
    File.OwnerOnly ⟨content, 0o600 &&& umask⟩ := by
  change 0o600 &&& umask &&& forbiddenModeBits = 0
  rw [UInt32.and_comm 0o600, UInt32.and_assoc]
  exact UInt32.and_zero

lemma hasMaterial_encodeKeyFile (b3 : Blake3) (kind : KeyKind) (material : Arr 32) (mode : UInt32) :
    File.HasMaterial material ⟨encodeKeyFile b3 kind material, mode⟩ := by
  have hlength : (keyMagic.toList ++ [keyVersion, kind.toU8] ++ (zeros 2).toList).length =
      keyHeaderLen := rfl
  refine ⟨0, ?_⟩
  dsimp only [encodeKeyFile]
  rw [List.append_assoc _ material.toList, List.getElem?_append_right (by rw [hlength]; simp),
    hlength, Nat.add_sub_cancel_left, List.getElem?_append_left (by simp),
    List.getElem?_eq_getElem (by simp)]
  rfl

section Save
variable {file file' : KeyPath} {umask : UInt32} {bytes : Str} {material : Arr 32}

/-- A file that only its owner has a permission on stays one at every instant. -/
lemma ownerOnly_of_instant (hfile : ∀ f, file = some f → f.OwnerOnly)
    (h : Steps.Instant (writeOwnerOnly umask bytes) file file') :
    ∀ f, file' = some f → f.OwnerOnly := by
  have hmap : ∀ (g : File → File) (file : KeyPath), (∀ f, (g f).mode = f.mode) →
      (∀ f, file = some f → f.OwnerOnly) → ∀ f, file.map g = some f → f.OwnerOnly := by
    intro g file hg hfile f hf
    obtain ⟨f', hf', rfl⟩ := Option.map_eq_some_iff.mp hf
    rw [File.OwnerOnly, hg]
    exact hfile f' hf'
  refine Steps.Ensures.instant (P := fun file => ∀ f, file = some f → f.OwnerOnly)
    (.bind (R := fun _ file => ∀ f, file = some f → f.OwnerOnly)
      (.change (fun file hfile f hf => ?_) fun _ h => h) fun _ =>
      .bind (R := fun _ file => ∀ f, file = some f → f.OwnerOnly)
        (.step (fun file a file' hfile hop => ?_) (fun file e file' _ hop => by cases hop)
          fun file n hfile => hmap _ file (fun _ => by rfl) hfile) fun _ =>
        .change (fun file hfile f hf => ?_) fun _ h => h) hfile h
  · cases hf
    cases file with
    | none => exact ownerOnly_of_masked [] (~~~umask)
    | some f => exact hfile f rfl
  · cases hop
    exact hmap _ file (fun _ => rfl) hfile
  · obtain ⟨f', -, rfl⟩ := Option.map_eq_some_iff.mp hf
    exact ownerOnly_of_masked f'.content 0o600

/-- Before the permissions are set, what is written into a file has its old ones. -/
lemma instant_of_some (f : File) (umask : UInt32) (bytes : Str) :
    Steps.Instant (writeOwnerOnly umask bytes) (some f) (some ⟨bytes, f.mode⟩) :=
  ⟨[none, none, some ⟨0, true⟩], rfl⟩

lemma exposed_iff (b3 : Blake3) (kind : KeyKind) (umask : UInt32) (material : Arr 32)
    (file : KeyPath) :
    (∀ file', Steps.Instant (writeOwnerOnly umask (encodeKeyFile b3 kind material)) file file' →
      ¬Exposed material file') ↔ ∀ f, file = some f → f.OwnerOnly := by
  constructor
  · rintro h f rfl
    by_contra hf
    exact h _ (instant_of_some f umask _) ⟨_, rfl, hf, hasMaterial_encodeKeyFile b3 kind material f.mode⟩
  · rintro hfile file' hinstant ⟨f, hf, hnot, -⟩
    exact hnot (ownerOnly_of_instant hfile hinstant f hf)

end Save

/-- A secret is never exposed while it is written if and only if there was no file at its path, or
one that nobody but its owner had a permission on. -/
theorem save_never_exposes_iff (b3 : Blake3) (umask : UInt32) (material : Arr 32) (file : KeyPath) :
    ((∀ file', Steps.Instant (saveIdentity b3 umask material) file file' →
        ¬Exposed material file') ↔ ∀ f, file = some f → f.OwnerOnly) ∧
      ((∀ file', Steps.Instant (saveOperator b3 umask material) file file' →
        ¬Exposed material file') ↔ ∀ f, file = some f → f.OwnerOnly) :=
  ⟨exposed_iff b3 .identity umask material file, exposed_iff b3 .operator umask material file⟩

lemma not_ownerOnly_readable (content : Str) : ¬File.OwnerOnly ⟨content, 0o644⟩ := by
  change ¬(0o644 : UInt32) &&& forbiddenModeBits = 0
  decide

/-- A new operator key over a file that everybody may read. -/
theorem readable_key_exposed : ∃ file',
    Steps.Instant (saveOperator Blake3Reference.blake3 0o022 (zeros 32)) (some ⟨[], 0o644⟩) file' ∧
      Exposed (zeros 32) file' :=
  ⟨_, instant_of_some ⟨[], 0o644⟩ 0o022 _, _, rfl, not_ownerOnly_readable _,
    hasMaterial_encodeKeyFile Blake3Reference.blake3 .operator (zeros 32) 0o644⟩

end Dhow
