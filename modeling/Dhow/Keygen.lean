import Dhow.KeyLoading

/-!
# Generating keys

The command that draws a key and saves it: an operator key as one file, an identity as its secret
and then its public half. Any step of it may fail or be the last.
-/

namespace Dhow
open Bytes

/-- The files at the paths that key generation names. -/
abbrev KeyStore := Str → KeyPath

/-- The kinds as the command's flag names them. -/
def KeyKind.flag : KeyKind → Str
  | .identity => asBytes "identity"
  | .operator => asBytes "operator"

inductive KeygenError
  | alreadyExists (path : Str)
  | generating
  | writing (path : Str) (e : KeyError)
  | unknownKind (kind : Str)
  deriving DecidableEq

/-- The path of the public half: `.pub` in the place of a trailing `.key`, or after the path. -/
def publicPathFor (path : Str) : Str :=
  (if (asBytes ".key").isSuffixOf path then path.take (path.length - 4) else path) ++ asBytes ".pub"

/-- `save_public`. The permissions of the file are the default ones, or those it had. -/
def savePublic {ed : Ed25519} (codec : KeyCodec ed) (umask : UInt32) (pk : ed.PublicIdentity) :
    Steps KeyPath KeyError Unit := do
  Steps.change .cannotWrite fun file =>
    some ⟨[], (file.map File.mode).getD (0o666 &&& ~~~umask)⟩
  Steps.step .cannotWrite
    (fun file => (.ok (), file.map fun f => { f with content := (codec.publicBytes pk).toList }))
    fun n file => file.map fun f => { f with content := (codec.publicBytes pk).toList.take n }

/-- A secret that is there cannot be regenerated. Where `Stat` fails, whatever is there counts as
nothing. -/
def refuseToClobber (statFails : Str → Bool) (path : Str) (force : Bool) :
    Steps KeyStore KeygenError Unit :=
  if force then pure ()
  else do
    let there ← Steps.get fun store : KeyStore => (store path).isSome && !statFails path
    if there then Steps.throw (.alreadyExists path) else pure ()

section Keygen
variable {ed : Ed25519} (b3 : Blake3) (codec : KeyCodec ed) (umask : UInt32)
  (statFails : Str → Bool) (drawn : Option (Arr 32))

def keygenOperator (out : Str) (force : Bool) : Steps KeyStore KeygenError Unit := do
  refuseToClobber statFails out force
  match drawn with
  | none => Steps.throw .generating
  | some bytes => (Steps.focus out (saveOperator b3 umask bytes)).mapError (.writing out)

/-- The secret first, and its public half once it is whole. -/
def keygenIdentity (out : Str) (force : Bool) : Steps KeyStore KeygenError Unit := do
  let pubPath := publicPathFor out
  refuseToClobber statFails out force
  refuseToClobber statFails pubPath force
  match drawn with
  | none => Steps.throw .generating
  | some seed => do
    let identity := codec.fromSeed seed
    (Steps.focus out (saveIdentity b3 umask (codec.seedOf identity))).mapError (.writing out)
    (Steps.focus pubPath (savePublic codec umask (ed.publicOf identity))).mapError
      (.writing pubPath)

/-- The path of the key where the command is not given one. -/
def keyPathFor (kind out : Str) : Str :=
  if out = [] then
    if kind = KeyKind.operator.flag then asBytes "operator.key"
    else if kind = KeyKind.identity.flag then asBytes "sender.key"
    else out
  else out

def runKeygen (kind out : Str) (force : Bool) : Steps KeyStore KeygenError Unit :=
  if kind = KeyKind.operator.flag then
    keygenOperator b3 umask statFails drawn (keyPathFor kind out) force
  else if kind = KeyKind.identity.flag then
    keygenIdentity b3 codec umask statFails drawn (keyPathFor kind out) force
  else Steps.throw (.unknownKind kind)

end Keygen

/-! ### Files that are cut short -/

/-- The public half never takes the secret's place. -/
lemma publicPathFor_ne (path : Str) : publicPathFor path ≠ path := by
  unfold publicPathFor
  split_ifs with h
  · obtain ⟨stem, rfl⟩ := List.isSuffixOf_iff_suffix.mp h
    have hlen : (stem ++ asBytes ".key").length - 4 = stem.length := by
      rw [List.length_append]
      rfl
    rw [hlen, List.take_left]
    intro heq
    exact absurd (List.append_cancel_left heq) (by decide +kernel)
  · intro heq
    have hlen := congrArg List.length heq
    rw [List.length_append] at hlen
    exact absurd (Nat.add_eq_left.mp hlen) (by decide +kernel)

/-- What is at a path while a file is written there: what there was, or a beginning of the file. -/
def Torn (bytes : Str) (before file : KeyPath) : Prop :=
  file = before ∨ ∃ f, file = some f ∧ f.content <+: bytes

lemma writeOwnerOnly_ensures (umask : UInt32) (bytes : Str) (before : KeyPath) :
    Steps.Ensures (· = before) (writeOwnerOnly umask bytes)
      (fun _ file => file = some ⟨bytes, 0o600⟩) (Torn bytes before) := by
  refine .bind (R := fun _ file => ∃ f, file = some f ∧ f.content = []) (.change ?_ ?_) fun _ =>
    .bind (R := fun _ file => ∃ f, file = some f ∧ f.content = bytes) (.step ?_ ?_ ?_) fun _ =>
      .change ?_ ?_
  · rintro file rfl
    exact ⟨_, rfl, rfl⟩
  · rintro file rfl
    exact .inl rfl
  · rintro file _ file' ⟨f, rfl, -⟩ h
    cases h
    exact ⟨_, rfl, rfl⟩
  · intro file e file' _ h
    cases h
  · rintro file n ⟨f, rfl, -⟩
    exact .inr ⟨_, rfl, List.take_prefix n bytes⟩
  · rintro file ⟨f, rfl, rfl⟩
    rfl
  · rintro file ⟨f, rfl, rfl⟩
    exact .inr ⟨f, rfl, List.prefix_rfl⟩

section Cut
variable {ed : Ed25519} {b3 : Blake3} {codec : KeyCodec ed} {before file : KeyPath}

lemma savePublic_ensures (umask : UInt32) (pk : ed.PublicIdentity) (before : KeyPath) :
    Steps.Ensures (· = before) (savePublic codec umask pk)
      (fun _ file => ∃ mode, file = some ⟨(codec.publicBytes pk).toList, mode⟩)
      (Torn (codec.publicBytes pk).toList before) := by
  refine .bind (R := fun _ file => ∃ f, file = some f ∧ f.content = []) (.change ?_ ?_) fun _ =>
    .step ?_ ?_ ?_
  · rintro file rfl
    exact ⟨_, rfl, rfl⟩
  · rintro file rfl
    exact .inl rfl
  · rintro file _ file' ⟨f, rfl, -⟩ h
    cases h
    exact ⟨_, rfl⟩
  · intro file e file' _ h
    cases h
  · rintro file n ⟨f, rfl, -⟩
    exact .inr ⟨_, rfl, List.take_prefix n _⟩

/-- A beginning of a key file loads as that key or not at all. -/
lemma Torn.loadSecret {kind : KeyKind} {material : Arr 32} {key : SecretKey ed}
    (h : Torn (encodeKeyFile b3 kind material) before file)
    (hload : loadSecret b3 codec none file = .ok key) :
    loadSecret b3 codec none before = .ok key ∨ key = .of codec kind material := by
  obtain rfl | ⟨f, rfl, hpre⟩ := h
  · exact .inl hload
  · obtain ⟨-, f', kind', material', hf', -, hcontent, rfl⟩ := loadSecret_eq_ok_iff.mp hload
    cases hf'
    have hwhole : encodeKeyFile b3 kind' material' = encodeKeyFile b3 kind material :=
      hcontent ▸ hpre.eq_of_length (by rw [hcontent, length_encodeKeyFile, length_encodeKeyFile])
    obtain ⟨rfl, rfl⟩ := encodeKeyFile_inj hwhole
    exact .inr rfl

lemma loadPublic_whole (hcodec : codec.Correct) (pk : ed.PublicIdentity) (mode : UInt32) :
    Dhow.loadPublic codec none (some ⟨(codec.publicBytes pk).toList, mode⟩) = .ok pk := by
  have hread : arrAt 32 (codec.publicBytes pk).toList 0 = codec.publicBytes pk := by
    have h := arrAt_append_zero (codec.publicBytes pk) []
    rwa [List.append_nil] at h
  simp [Dhow.loadPublic, readKeyFile, hread, hcodec.publicFrom_publicBytes]

lemma Torn.loadPublic (hcodec : codec.Correct) {pk pk' : ed.PublicIdentity}
    (h : Torn (codec.publicBytes pk).toList before file)
    (hload : loadPublic codec none file = .ok pk') :
    loadPublic codec none before = .ok pk' ∨ pk' = pk := by
  obtain rfl | ⟨f, rfl, hpre⟩ := h
  · exact .inl hload
  · have hlen : f.content.length = 32 := by
      by_contra hlen
      simp [Dhow.loadPublic, readKeyFile, hlen] at hload
    have hf : f = ⟨(codec.publicBytes pk).toList, f.mode⟩ :=
      congrArg (File.mk · f.mode) (hpre.eq_of_length (by simp [hlen]))
    rw [hf, loadPublic_whole hcodec, Except.ok.injEq] at hload
    exact .inr hload.symm

end Cut

/-! ### The run -/

section Run
variable {ed : Ed25519} {b3 : Blake3} {codec : KeyCodec ed} {umask : UInt32} {material : Arr 32}
  {statFails : Str → Bool} {drawn : Option (Arr 32)} {kind : KeyKind} {out path : Str} {force : Bool}
  {store store' : KeyStore}

/-- The bytes of a drawn key that its file holds. -/
def KeyCodec.saved (codec : KeyCodec ed) : KeyKind → Arr 32 → Arr 32
  | .identity, seed => codec.seedOf (codec.fromSeed seed)
  | .operator, bytes => bytes

lemma SecretKey.of_saved (hcodec : codec.Correct) (kind : KeyKind) (material : Arr 32) :
    SecretKey.of codec kind (codec.saved kind material) = .of codec kind material := by
  cases kind with
  | identity => exact congrArg SecretKey.identity (hcodec.fromSeed_seedOf _)
  | operator => rfl

/-- How far the saving of a drawn key has come: it is at the secret, or past it and at the public
half. -/
inductive Progress (b3 : Blake3) (codec : KeyCodec ed) (kind : KeyKind) (material : Arr 32)
    (out : Str) (store : KeyStore) : KeyStore → Prop
  | secret {file : KeyPath}
      (h : Torn (encodeKeyFile b3 kind (codec.saved kind material)) (store out) file) :
      Progress b3 codec kind material out store (Function.update store out file)
  | publicHalf {file : KeyPath} (hkind : kind = .identity)
      (h : Torn (codec.publicBytes (ed.publicOf (codec.fromSeed material))).toList
        (store (publicPathFor out)) file) :
      Progress b3 codec kind material out store (Function.update (Function.update store out
        (some ⟨encodeKeyFile b3 kind (codec.saved kind material), 0o600⟩)) (publicPathFor out) file)

/-- The command passed its checks: it has a key, and writes over nothing that `Stat` finds and it was
not forced to. -/
structure Passed (statFails : Str → Bool) (drawn : Option (Arr 32)) (kind : KeyKind) (out : Str)
    (force : Bool) (store : KeyStore) (material : Arr 32) : Prop where
  drawn_eq : drawn = some material
  out_none : force = false → statFails out = false → store out = none
  public_none : kind = .identity → force = false → statFails (publicPathFor out) = false →
    store (publicPathFor out) = none

/-- The files of a command that succeeded. -/
structure Saved (b3 : Blake3) (codec : KeyCodec ed) (kind : KeyKind) (material : Arr 32)
    (out : Str) (store : KeyStore) : Prop where
  secret : store out = some ⟨encodeKeyFile b3 kind (codec.saved kind material), 0o600⟩
  publicHalf : kind = .identity → ∃ mode, store (publicPathFor out) =
    some ⟨(codec.publicBytes (ed.publicOf (codec.fromSeed material))).toList, mode⟩

lemma refuseToClobber_ensures (path : Str) (force : Bool) (store : KeyStore) :
    Steps.Ensures (· = store) (refuseToClobber statFails path force)
      (fun _ s => (force = false → statFails path = false → store path = none) ∧ s = store)
      (· = store) := by
  unfold refuseToClobber
  split_ifs with hforce
  · exact .pure fun s hs => ⟨fun h => absurd (hforce.symm.trans h) (by decide), hs⟩
  · refine .bind (R := fun there s => there = ((store path).isSome && !statFails path) ∧ s = store)
      (.get ?_) fun there => .of_and ?_
    · rintro s rfl
      exact ⟨rfl, rfl⟩
    · rintro rfl
      split_ifs with h
      · exact .throw fun _ hs => hs
      · refine .pure fun s hs => ⟨fun _ hstat => ?_, hs⟩
        rw [hstat] at h
        simpa using h

lemma keygenOperator_ensures (codec : KeyCodec ed) :
    Steps.Ensures (· = store) (keygenOperator b3 umask statFails drawn out force)
      (fun _ s => ∃ material, Passed statFails drawn .operator out force store material ∧
        Progress b3 codec .operator material out store s ∧ Saved b3 codec .operator material out s)
      fun s => s = store ∨ ∃ material, Passed statFails drawn .operator out force store material ∧
        Progress b3 codec .operator material out store s := by
  refine .bind ((refuseToClobber_ensures out force store).weaken (fun _ h => h) (fun _ _ h => h)
    fun _ h => .inl h) fun _ => .of_and fun hout => ?_
  cases drawn with
  | none => exact .throw fun _ h => .inl h
  | some bytes =>
    have hpassed : Passed statFails (some bytes) .operator out force store bytes := ⟨rfl, hout, nofun⟩
    refine ((writeOwnerOnly_ensures umask _ (store out)).focus.mapError).weaken
      (fun _ h => h) ?_ ?_
    · rintro _ s ⟨file, rfl, rfl⟩
      exact ⟨bytes, hpassed, .secret (.inr ⟨_, rfl, List.prefix_rfl⟩), Function.update_self _ _ _,
        nofun⟩
    · rintro s ⟨file, hfile, rfl⟩
      exact .inr ⟨bytes, hpassed, .secret hfile⟩

lemma keygenIdentity_ensures :
    Steps.Ensures (· = store) (keygenIdentity b3 codec umask statFails drawn out force)
      (fun _ s => ∃ material, Passed statFails drawn .identity out force store material ∧
        Progress b3 codec .identity material out store s ∧ Saved b3 codec .identity material out s)
      fun s => s = store ∨ ∃ material, Passed statFails drawn .identity out force store material ∧
        Progress b3 codec .identity material out store s := by
  refine .bind ((refuseToClobber_ensures out force store).weaken (fun _ h => h) (fun _ _ h => h)
    fun _ h => .inl h) fun _ => .of_and fun hout => ?_
  refine .bind ((refuseToClobber_ensures (publicPathFor out) force store).weaken (fun _ h => h)
    (fun _ _ h => h) fun _ h => .inl h) fun _ => .of_and fun hpublic => ?_
  cases drawn with
  | none => exact .throw fun _ h => .inl h
  | some seed =>
    have hpassed : Passed statFails (some seed) .identity out force store seed :=
      ⟨rfl, hout, fun _ => hpublic⟩
    refine .bind (R := fun _ s => s = Function.update store out
        (some ⟨encodeKeyFile b3 .identity (codec.saved .identity seed), 0o600⟩))
      (((writeOwnerOnly_ensures umask _ (store out)).focus.mapError).weaken (fun _ h => h) ?_ ?_)
      fun _ => ?_
    · rintro _ s ⟨file, rfl, rfl⟩
      rfl
    · rintro s ⟨file, hfile, rfl⟩
      exact .inr ⟨seed, hpassed, .secret hfile⟩
    have hbefore : Function.update store out
        (some ⟨encodeKeyFile b3 .identity (codec.saved .identity seed), 0o600⟩)
        (publicPathFor out) = store (publicPathFor out) :=
      Function.update_of_ne (publicPathFor_ne out) _ _
    refine (Steps.Ensures.mapError (Steps.Ensures.focus
      (savePublic_ensures umask (ed.publicOf (codec.fromSeed seed)) _))).weaken
      (fun _ h => h) ?_ ?_
    · rintro _ s ⟨file, ⟨mode, rfl⟩, rfl⟩
      refine ⟨seed, hpassed, .publicHalf rfl (.inr ⟨_, rfl, List.prefix_rfl⟩), ?_,
        fun _ => ⟨mode, ?_⟩⟩
      · rw [Function.update_of_ne (publicPathFor_ne out).symm, Function.update_self]
      · exact Function.update_self _ _ _
    · rintro s ⟨file, hfile, rfl⟩
      exact .inr ⟨seed, hpassed, .publicHalf rfl (hbefore ▸ hfile)⟩

/-- What holds at every instant of the generation of a key. -/
structure Undamaged (b3 : Blake3) (codec : KeyCodec ed) (statFails : Str → Bool)
    (drawn : Option (Arr 32)) (kind : KeyKind) (out : Str) (force : Bool)
    (store store' : KeyStore) : Prop where
  others : ∀ path ≠ out, (kind = .identity → path ≠ publicPathFor out) → store' path = store path
  unforced : force = false → ∀ path f, statFails path = false → store path = some f →
    store' path = some f
  secret : ∀ key, loadSecret b3 codec none (store' out) = .ok key →
    loadSecret b3 codec none (store out) = .ok key ∨
      ∃ material, drawn = some material ∧ key = .of codec kind material
  publicHalf : ∀ pk, loadPublic codec none (store' (publicPathFor out)) = .ok pk →
    loadPublic codec none (store (publicPathFor out)) = .ok pk ∨
      ∃ seed, drawn = some seed ∧ pk = ed.publicOf (codec.fromSeed seed)
  secretFirst : store' (publicPathFor out) ≠ store (publicPathFor out) →
    ∃ seed, drawn = some seed ∧ loadIdentity b3 codec none (store' out) = .ok (codec.fromSeed seed)

lemma Undamaged.refl : Undamaged b3 codec statFails drawn kind out force store store :=
  ⟨fun _ _ _ => rfl, fun _ _ _ _ h => h, fun _ h => .inl h, fun _ h => .inl h,
    fun h => absurd rfl h⟩

/-- A key file that is whole and its owner's loads. -/
lemma loadSecret_whole (hcodec : codec.Correct) (kind : KeyKind) (material : Arr 32) :
    loadSecret b3 codec none (some ⟨encodeKeyFile b3 kind (codec.saved kind material), 0o600⟩) =
      .ok (.of codec kind material) :=
  loadSecret_eq_ok_iff.mpr
    ⟨rfl, _, kind, codec.saved kind material, rfl, ownerOnly_of_masked _ 0xffffffff, rfl,
      (SecretKey.of_saved hcodec kind material).symm⟩

/-- What was not there is not written over. -/
lemma eq_some_of_update {i : Str} {file : KeyPath} {f : File} (hnone : path = i → store path = none)
    (hf : store path = some f) : Function.update store i file path = some f := by
  rw [Function.update_of_ne, hf]
  intro h
  rw [hnone h] at hf
  cases hf

lemma Progress.undamaged (hcodec : codec.Correct)
    (hpassed : Passed statFails drawn kind out force store material)
    (h : Progress b3 codec kind material out store store') :
    Undamaged b3 codec statFails drawn kind out force store store' := by
  have hpub := publicPathFor_ne out
  obtain ⟨hdrawn, hout, hpublic⟩ := hpassed
  cases h with
  | secret h =>
    refine ⟨fun path hpath _ => Function.update_of_ne hpath _ _,
      fun hforce path f hstat hf => eq_some_of_update ?_ hf, fun key hkey => ?_,
      fun pk hpk => ?_, fun hne => absurd (Function.update_of_ne hpub _ _) hne⟩
    · rintro rfl
      exact hout hforce hstat
    · rw [Function.update_self] at hkey
      exact (h.loadSecret hkey).imp_right fun hkey =>
        ⟨material, hdrawn, hkey.trans (SecretKey.of_saved hcodec kind material)⟩
    · rw [Function.update_of_ne hpub] at hpk
      exact .inl hpk
  | publicHalf hkind h =>
    subst hkind
    have hsecret : ∀ file, Function.update (Function.update store out
        (some ⟨encodeKeyFile b3 .identity (codec.saved .identity material), 0o600⟩))
        (publicPathFor out) file out =
          some ⟨encodeKeyFile b3 .identity (codec.saved .identity material), 0o600⟩ := by
      intro file
      rw [Function.update_of_ne hpub.symm, Function.update_self]
    refine ⟨fun path hpath hpath' => ?_, fun hforce path f hstat hf => ?_, fun key hkey => ?_,
      fun pk hpk => ?_, fun _ => ⟨material, hdrawn, ?_⟩⟩
    · rw [Function.update_of_ne (hpath' rfl), Function.update_of_ne hpath]
    · refine eq_some_of_update ?_ (eq_some_of_update ?_ hf)
      · rintro rfl
        rw [Function.update_of_ne hpub, hpublic rfl hforce hstat]
      · rintro rfl
        exact hout hforce hstat
    · rw [hsecret, loadSecret_whole hcodec, Except.ok.injEq] at hkey
      exact .inr ⟨material, hdrawn, hkey.symm⟩
    · rw [Function.update_self] at hpk
      exact (h.loadPublic hcodec hpk).imp_right fun hpk => ⟨material, hdrawn, hpk⟩
    · rw [hsecret]
      exact loadIdentity_eq_ok_iff.mpr (loadSecret_whole hcodec .identity material)

lemma runKeygen_ensures (kind : KeyKind) :
    Steps.Ensures (· = store) (runKeygen b3 codec umask statFails drawn kind.flag out force)
      (fun _ s => ∃ material,
        Passed statFails drawn kind (keyPathFor kind.flag out) force store material ∧
        Progress b3 codec kind material (keyPathFor kind.flag out) store s ∧
        Saved b3 codec kind material (keyPathFor kind.flag out) s)
      fun s => s = store ∨ ∃ material,
        Passed statFails drawn kind (keyPathFor kind.flag out) force store material ∧
        Progress b3 codec kind material (keyPathFor kind.flag out) store s := by
  cases kind with
  | operator =>
    rw [runKeygen, if_pos rfl]
    exact keygenOperator_ensures codec
  | identity =>
    rw [runKeygen, if_neg (by decide +kernel), if_pos rfl]
    exact keygenIdentity_ensures

end Run

/-- Wherever the generation of a key is stopped: without `-force` no file that was there has changed,
unless `Stat` failed on it, and with it none but the key's own; at the path of the secret loads what
was loaded there before or the key that was drawn, or nothing does; and the public half has changed
only if its secret already loads. When the command succeeds, both load. -/
theorem keygen_undamaged {ed : Ed25519} {codec : KeyCodec ed} (hcodec : codec.Correct) (b3 : Blake3)
    (umask : UInt32) (statFails : Str → Bool) (drawn : Option (Arr 32)) (kind : KeyKind) (out : Str)
    (force : Bool) (store : KeyStore) :
    (∀ store', Steps.Instant (runKeygen b3 codec umask statFails drawn kind.flag out force) store
        store' →
      Undamaged b3 codec statFails drawn kind (keyPathFor kind.flag out) force store store') ∧
    ∀ cuts cuts' store',
      runKeygen b3 codec umask statFails drawn kind.flag out force cuts store =
        (.ok (), cuts', store') →
      ∃ material, drawn = some material ∧
        loadSecret b3 codec none (store' (keyPathFor kind.flag out)) = .ok (.of codec kind material) ∧
        (kind = .identity →
          loadPublic codec none (store' (publicPathFor (keyPathFor kind.flag out))) =
            .ok (ed.publicOf (codec.fromSeed material))) := by
  constructor
  · intro store' hinstant
    obtain rfl | ⟨material, hpassed, hprogress⟩ := ((runKeygen_ensures kind).weaken (fun _ h => h)
      (fun _ _ ⟨material, hpassed, hprogress, _⟩ => .inr ⟨material, hpassed, hprogress⟩)
      fun _ h => h).instant rfl hinstant
    · exact .refl
    · exact hprogress.undamaged hcodec hpassed
  · intro cuts cuts' store' hrun
    have hensures : Steps.Ensures (· = store) (runKeygen b3 codec umask statFails drawn kind.flag out force)
      _ _ := runKeygen_ensures kind
    have h := hensures cuts store rfl
    rw [hrun] at h
    obtain ⟨material, hpassed, -, hsaved⟩ := h
    refine ⟨material, hpassed.drawn_eq, ?_, fun hkind => ?_⟩
    · rw [hsaved.secret]
      exact loadSecret_whole hcodec kind material
    · obtain ⟨mode, hmode⟩ := hsaved.publicHalf hkind
      rw [hmode]
      exact loadPublic_whole hcodec _ mode

namespace Reference

/-- The keys of the reference signatures are their bytes. -/
def codec : KeyCodec ed := ⟨id, id, id, some⟩

lemma codec_correct : codec.Correct := ⟨fun _ => rfl, fun _ => rfl⟩

end Reference

/-- A machine that crashes amid the public half of an identity that is written over another. -/
theorem keygen_undamaged_reference :
    let store : KeyStore := Function.update (fun _ => none) (asBytes "sender.key")
      (some ⟨[7], 0o600⟩)
    Undamaged Blake3Reference.blake3 Reference.codec (fun _ => false) (some (zeros 32)) .identity
      (asBytes "sender.key") true store
      (runKeygen Blake3Reference.blake3 Reference.codec 0o022 (fun _ => false) (some (zeros 32))
        KeyKind.identity.flag [] true [none, none, none, none, some ⟨3, true⟩] store).2.2 :=
  (keygen_undamaged Reference.codec_correct Blake3Reference.blake3 0o022 (fun _ => false) (some (zeros 32))
    .identity [] true _).1 _ ⟨_, rfl⟩

end Dhow
