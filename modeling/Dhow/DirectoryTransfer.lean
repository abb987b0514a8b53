import Dhow.EndToEnd
import Dhow.FrameDirectory
import Dhow.ManifestBuild

/-!
# A transfer through a directory

The sending command into its directory, whose every step may fail or be the last, and the receiving
command on such a directory. The manifest is written last: until it is whole a receiver refuses the
directory, and from then on it gets the dataset.
-/

namespace Dhow
open Bytes FileSystem FrameDirectory

/-! ### The commands -/

inductive SendFailure (δ : Type)
  | send (e : SendError)
  | write (e : WriteError δ)

/-- `runSend` with what it writes: the frames are there before the manifest is signed. -/
def runSendInto {ed : Ed25519} {δ : Type} (b3 : Blake3) (aead : Aead) (rq : RaptorQ)
    (s : Sender ed) (flags : SendFlags) (fs : FileTree) (root : Path Component)
    (draw : Option (Str → Except δ Str)) : Steps FrameDirectory (SendFailure δ) Unit :=
  match fs.lookup root with
  | none => Steps.throw (.send .reading)
  | some (.file _) | some .irregular => Steps.throw (.send .notDirectory)
  | some .dir =>
    match Pack.create b3 fs root with
    | .error e => Steps.throw (.send (.packing e))
    | .ok (payload, entries) =>
      match planSession payload.length flags.symbolSize flags.blocks flags.overheadPct with
      | .error e => Steps.throw (.send (.planning e))
      | .ok params =>
        match dhowEncoderNew b3 aead rq s.key s.sessionId s.salt s.nonce params payload with
        | .error e => Steps.throw (.send (.building e))
        | .ok encoder => do
          (writeFrames draw 0 encoder.frames).mapError .write
          match dhowManifestBuild ed s.identity s.sessionId s.salt s.nonce encoder.params
              (inventoryOf entries) with
          | .error e => Steps.throw (.send (.signing e))
          | .ok manifest =>
            (writeFile (.writing manifestName) manifestName manifest.bytes).mapError .write

inductive RecvFailure
  | unsignedRecord
  | noManifest
  | readingManifest
  | receive (e : ReceiveError)
  | listing (e : ListingError)
  deriving DecidableEq

/-- The manifest file. Earlier versions left an unsigned record in its place. -/
def manifestIn (d : FrameDirectory) : Except RecvFailure Str :=
  match d.lookup manifestName with
  | none =>
    if (d.lookup (asBytes "transfer.json")).isSome then .error .unsignedRecord
    else .error .noManifest
  | some .dir => .error .readingManifest
  | some (.file raw) => .ok raw

/-- The receiving command on the directory at `dir`. -/
def runRecvFrom {ed : Ed25519} (b3 : Blake3) (aead : Aead) (rq : RaptorQ) (r : Receiver ed)
    (dir : Str) (globbed : Except ListingError (List Str)) (d : FrameDirectory) (fs : FileTree)
    (outDir : Path Component) :
    Except RecvFailure (List Pack.Entry) × FileTree :=
  match manifestIn d with
  | .error e => (.error e, fs)
  | .ok raw =>
    match startReceiver ed b3 rq r.key r.signer raw with
    | .error e => (.error (.receive e), fs)
    | .ok _ =>
      match d.readFrames dir globbed with
      | .error e => (.error (.listing e), fs)
      | .ok frames =>
        match runRecv b3 aead rq r raw frames fs outDir with
        | (.error e, fs) => (.error (.receive e), fs)
        | (.ok entries, fs) => (.ok entries, fs)

/-! ### A manifest that is cut short -/

/-- No serialized manifest is a proper beginning of another. -/
lemma Manifest.Wf.eq_of_prefix {m m' : Manifest} (h : m.Wf) (h' : m'.Wf)
    (hpre : m'.toVec <+: m.toVec) : m' = m := by
  obtain ⟨rest, hrest⟩ := hpre
  have hread : ManifestHeader.fromBytes m.toVec = .ok m.header :=
    ManifestHeader.fromBytes_eq_ok_iff.mpr ⟨_, rfl⟩
  have hheader : m'.header = m.header := by
    rw [ManifestHeader.fromBytes_eq_ok_iff.mpr
      ⟨m'.entries.flatMap FileEntry.toVec ++ rest, by rw [← hrest, toVec, List.append_assoc]⟩,
      Except.ok.injEq] at hread
    exact hread
  have hlen : m'.entries.length = m.entries.length := by
    rw [← h.fileCount_eq, ← h'.fileCount_eq, hheader]
  have hentries : m'.entries.flatMap FileEntry.toVec ++ rest =
      m.entries.flatMap FileEntry.toVec := by
    rw [toVec, toVec, hheader, List.append_assoc] at hrest
    exact List.append_cancel_left hrest
  have he := entriesFrom_append [] m.entries h.entries_wf []
  have he' := entriesFrom_append [] m'.entries h'.entries_wf rest
  rw [hentries, hlen, ← List.append_nil (m.entries.flatMap FileEntry.toVec), he, Except.ok.injEq,
    Prod.mk.injEq] at he'
  calc m' = ⟨m'.header, m'.entries⟩ := rfl
    _ = m := by rw [hheader, ← he'.1]

/-- A receiver refuses a manifest that is not whole. -/
lemma startReceiver_of_cut {ed : Ed25519} (b3 : Blake3) (rq : RaptorQ) (key : Arr 32)
    (signer : ed.PublicIdentity) {m : Manifest} (hm : m.Wf) {n : ℕ} (hn : n < m.toVec.length) :
    ∃ e, startReceiver ed b3 rq key signer (m.toVec.take n) = .error e := by
  have hread : ∃ e, readManifest ed signer (m.toVec.take n) = .error e := by
    unfold readManifest
    split_ifs
    · exact ⟨_, rfl⟩
    · cases hv : verifyManifestWith ed signer (m.toVec.take n) none .default with
      | error e => exact ⟨_, rfl⟩
      | ok v =>
        obtain ⟨hwf, hbytes, -⟩ := verifyManifestWith_eq_ok_iff.mp hv
        have heq := hm.eq_of_prefix hwf (hbytes ▸ List.take_prefix n m.toVec)
        rw [heq] at hbytes
        have hlen := congrArg List.length hbytes
        rw [List.length_take] at hlen
        omega
  obtain ⟨e, he⟩ := hread
  exact ⟨e, by simp only [startReceiver, he]⟩

/-! ### What arrives -/

/-- The files below the destination are those that were sent, its directories are those they need,
and verifying them against the manifest finds nothing. -/
structure Intact (b3 : Blake3) (fs : FileTree) (root : Path Component) (manifest : Manifest)
    (out : FileTree) (outDir : Path Component) : Prop where
  view_eq : ∀ p, (out.lookup (outDir ++ p)).bind nodeView = (fs.lookup (root ++ p)).bind nodeView
  directories : ∀ p ≠ [], out.lookup (outDir ++ p) = some .dir →
    ∃ x ∈ fs.walk root, p <+: x.1 ∧ p ≠ x.1
  verified : (inspectDataset b3 out outDir (manifestFields manifest).inventory).1 = []

section Transfer
variable {ed : Ed25519} {b3 : Blake3} {aead : Aead} {rq : RaptorQ} {s : Sender ed}
  {flags : SendFlags} {fs : FileTree} {root : Path Component} {payload : Str}
  {entries : List Pack.Entry} {params : DhowSessionParams} {encoder : DhowEncoder}
  {manifest : DhowManifest} {δ : Type}

/-- The archive that was sent is extracted, agrees with the inventory, and is the dataset. -/
lemma Sends.exists_extracted (hed : ed.Correct) (hroot : fs.lookup root = some .dir)
    (h : Sends b3 aead rq s flags fs root payload entries params encoder manifest)
    {umask : UInt32} (hu : umask &&& 0o700 = 0) {random : Component} {dst : FileTree}
    {outDir : Path Component} (hready : Ready dst outDir random) :
    ∃ extracted out, extractAtomically umask random dst payload outDir = (.ok extracted, out) ∧
      reconcile extracted (inventoryOf entries) = .ok () ∧
      Intact b3 fs root manifest.manifest out outDir := by
  obtain ⟨hpack, hpayload, -⟩ := Pack.create_eq_ok h.packs
  have hfiles : ∀ x, x ∈ Pack.sorted (fs.walk root) ↔ x ∈ fs.walk root :=
    fun x => (Pack.sorted_perm _).mem_iff
  obtain ⟨out, hextract, hholds⟩ := extractAtomically_spec umask hready hpack
    (Pack.prefixFree_sorted fs root)
    fun x hx => Pack.ne_nil_of_mem_walk hroot ((hfiles x).mp hx)
  rw [← hpayload] at hextract
  have hinventory := inventoryOf_create h.packs
  obtain ⟨v, -, hfields, -, hv⟩ := h.verifies hed (.inl (rfl : (none : Option (Arr 16)) = none))
  refine ⟨_, out, hextract, ?_, hholds.view_eq hu hroot hfiles,
    fun p hp => hholds.directories hfiles hp, ?_⟩
  · rw [hinventory]
    exact reconcile_inventoryFor b3 hpack
  · rw [← hv, hfields, hinventory]
    exact hholds.inspectDataset_eq_nil hu hpack

/-- A session has frames. -/
lemma Sends.frames_ne_nil (hed : ed.Correct) (haead : aead.Correct)
    (h : Sends b3 aead rq s flags fs root payload entries params encoder manifest)
    (hrq : ∀ p c, encoderSession b3 aead s.key s.sessionId s.salt s.nonce params payload =
      .ok (p, c) → p.RaptorQIdeal rq c) : encoder.frames ≠ [] := by
  obtain ⟨p, ciphertext, hsession, hframes, -⟩ :=
    startReceiver_of_build hed h.encodes h.signs h.admissible
  obtain ⟨keys, -, hc, -⟩ := encoderSession_eq_ok hsession
  have hclen := (decryptPayloadInPlace_of_encryptPayload haead hc).1
  have hblocks := hasBlocks_run hframes (hrq p ciphertext hsession) (List.Subset.refl _)
    fun pre bytes post he => .inl (he ▸ by simp)
  exact ne_nil_of_hasBlocks (Pipeline.payload_length_of_encode hframes)
    (List.ne_nil_of_length_pos (by rw [hclen]; exact Nat.add_pos_right _ (by decide))) hblocks

/-- What the sending command does in its directory, where all of it goes well. -/
lemma runSendInto_of_sends (draw : Option (Str → Except δ Str))
    (hroot : fs.lookup root = some .dir)
    (h : Sends b3 aead rq s flags fs root payload entries params encoder manifest) :
    runSendInto b3 aead rq s flags fs root draw =
      (writeSent draw encoder.frames manifest.bytes).mapError .write := by
  simp only [runSendInto, hroot, h.packs, h.plans, h.encodes, h.signs]
  rw [writeSent, Steps.mapError_bind]

/-- A receiver with a directory that a sender has finished with gets the dataset, if its decoder
refuses the frames that were there before. -/
lemma Sends.receives (hed : ed.Correct) (haead : aead.Correct)
    (hroot : fs.lookup root = some .dir)
    (h : Sends b3 aead rq s flags fs root payload entries params encoder manifest)
    (hrq : ∀ p c, encoderSession b3 aead s.key s.sessionId s.salt s.nonce params payload =
      .ok (p, c) → p.RaptorQIdeal rq c)
    {r : Receiver ed} (hkey : r.key = s.key) (hsigner : r.signer = ed.publicOf s.identity)
    (hu : r.umask &&& 0o700 = 0) {dst : FileTree} {outDir : Path Component}
    (hready : Ready dst outDir r.random) {dir : Str} (hdir : hasMeta dir = false)
    (globbed : Except ListingError (List Str)) {d₀ d : FrameDirectory} (hd : Readable d₀)
    (hleft : ∀ transfer dec, startReceiver ed b3 rq r.key r.signer manifest.bytes =
      .ok (transfer, dec) → ∀ name ∈ leftNames d₀ encoder.frames.length, ∀ t,
        Rejects b3 (dec.run b3 t) (content d₀ name))
    (hwrote : Wrote d₀ encoder.frames d)
    (hmanifest : d.lookup manifestName = some (.file manifest.bytes)) :
    ∃ extracted out, runRecvFrom b3 aead rq r dir globbed d dst outDir = (.ok extracted, out) ∧
      Intact b3 fs root manifest.manifest out outDir := by
  obtain ⟨p, ciphertext, -, -, hstart⟩ :=
    startReceiver_of_build hed h.encodes h.signs h.admissible
  rw [← hkey, ← hsigner] at hstart
  obtain ⟨extracted, out, hextract, hreconcile, hintact⟩ :=
    h.exists_extracted hed hroot hu hready
  have hframes := hwrote.readFrames_eq hd (h.frames_ne_nil hed haead hrq) hdir globbed
  have hperm := hwrote.frameNames_perm.map (content d)
  rw [List.map_append, hwrote.content_frameName, hwrote.content_left] at hperm
  have hall : encoder.frames ⊆ d.frameNames.map (content d) := fun bytes hbytes =>
    hperm.mem_iff.mpr (List.mem_append_left _ hbytes)
  have hrun := runRecv_of_captured hed haead h.encodes h.signs h.admissible hrq hkey hsigner hall
    (fun transfer dec hdec pre bytes post hcaptured => ?_) hextract
  · rw [hreconcile] at hrun
    refine ⟨extracted, out, ?_, hintact⟩
    simp only [runRecvFrom, manifestIn, hmanifest, hstart, hframes, hrun]
  · have hbytes : bytes ∈ d.frameNames.map (content d) := by
      rw [hcaptured]
      exact List.mem_append_right _ List.mem_cons_self
    rcases List.mem_append.mp (hperm.mem_iff.mp hbytes) with hnew | hold
    · exact .inl hnew
    · obtain ⟨name, hname, rfl⟩ := List.mem_map.mp hold
      exact .inr (hleft transfer dec hdec name hname pre)

/-- A receiver refuses a directory, and changes nothing, while the manifest is not whole. -/
lemma runRecvFrom_of_cut {r : Receiver ed} {dir : Str} {globbed : Except ListingError (List Str)}
    {d : FrameDirectory} {dst : FileTree} {outDir : Path Component} {m : Manifest} (hm : m.Wf)
    (h : d.lookup manifestName = none ∨
      ∃ n < m.toVec.length, d.lookup manifestName = some (.file (m.toVec.take n))) :
    ∃ e, runRecvFrom b3 aead rq r dir globbed d dst outDir = (.error e, dst) := by
  rcases h with hnone | ⟨n, hn, hcut⟩
  · have hrefused : ∃ e, manifestIn d = .error e := by
      simp only [manifestIn, hnone]
      split_ifs
      · exact ⟨_, rfl⟩
      · exact ⟨_, rfl⟩
    obtain ⟨e, he⟩ := hrefused
    exact ⟨e, by simp only [runRecvFrom, he]⟩
  · obtain ⟨e, he⟩ := startReceiver_of_cut b3 rq r.key r.signer hm hn
    exact ⟨.receive e, by simp only [runRecvFrom, manifestIn, hcut, he]⟩

/-- A send into a directory that has no manifest and whose path is no pattern, wherever it stops: a
receiver refuses what is there and changes nothing, or gets the dataset; and it gets the dataset when
the send succeeds. -/
theorem interrupted_send (draw : Option (Str → Except δ Str)) (hed : ed.Correct)
    (haead : aead.Correct) (hroot : fs.lookup root = some .dir)
    (h : Sends b3 aead rq s flags fs root payload entries params encoder manifest)
    (hrq : ∀ p c, encoderSession b3 aead s.key s.sessionId s.salt s.nonce params payload =
      .ok (p, c) → p.RaptorQIdeal rq c)
    {r : Receiver ed} (hkey : r.key = s.key) (hsigner : r.signer = ed.publicOf s.identity)
    (hu : r.umask &&& 0o700 = 0) {dst : FileTree} {outDir : Path Component}
    (hready : Ready dst outDir r.random) {dir : Str} (hdir : hasMeta dir = false)
    (globbed : Except ListingError (List Str)) {d₀ : FrameDirectory} (hd : Readable d₀)
    (hnone : d₀.lookup manifestName = none)
    (hleft : ∀ transfer dec, startReceiver ed b3 rq r.key r.signer manifest.bytes =
      .ok (transfer, dec) → ∀ name ∈ leftNames d₀ encoder.frames.length, ∀ t,
        Rejects b3 (dec.run b3 t) (content d₀ name)) :
    let send := runSendInto b3 aead rq s flags fs root draw
    (∀ d, Steps.Instant send d₀ d →
      (∃ e, runRecvFrom b3 aead rq r dir globbed d dst outDir = (.error e, dst)) ∨
        ∃ extracted out, runRecvFrom b3 aead rq r dir globbed d dst outDir = (.ok extracted, out) ∧
          Intact b3 fs root manifest.manifest out outDir) ∧
      ∀ cuts cuts' d, send cuts d₀ = (.ok (), cuts', d) →
        ∃ extracted out, runRecvFrom b3 aead rq r dir globbed d dst outDir = (.ok extracted, out) ∧
          Intact b3 fs root manifest.manifest out outDir := by
  intro send
  have hsend : send = (writeSent draw encoder.frames manifest.bytes).mapError .write :=
    runSendInto_of_sends draw hroot h
  obtain ⟨v, hv, -, -, hvm⟩ := h.verifies hed (.inl (rfl : (none : Option (Arr 16)) = none))
  obtain ⟨hwf, hbytes, -⟩ := verifyManifestWith_eq_ok_iff.mp hv
  have hwhole := fun d => h.receives (d := d) hed haead hroot hrq hkey hsigner hu hready hdir
    globbed hd hleft
  constructor
  · intro d hinstant
    rw [hsend, Steps.instant_mapError_iff] at hinstant
    rcases begun_of_instant hinstant with hkeeps | ⟨hwrote, n, hn⟩
    · exact .inl (runRecvFrom_of_cut hwf (.inl (hkeeps.trans hnone)))
    · by_cases hcut : n < manifest.bytes.length
      · rw [hbytes] at hn hcut
        exact .inl (runRecvFrom_of_cut hwf (.inr ⟨n, hcut, hn⟩))
      · rw [List.take_of_length_le (Nat.le_of_not_lt hcut)] at hn
        exact .inr (hwhole d hwrote hn)
  · intro cuts cuts' d hrun
    rw [hsend, Steps.mapError_eq_ok_iff] at hrun
    have hensures := ensures_writeSent draw encoder.frames manifest.bytes cuts d₀ rfl
    rw [hrun] at hensures
    exact hwhole d hensures.1 hensures.2

end Transfer

/-- The reference tree is sent into an empty directory. -/
lemma Reference.exists_directory : ∃ payload entries encoder manifest d, payload.length = 114 ∧
    Sends b3 XChaCha20Poly1305.aead rq sender flags tree [top] payload entries (planOf 64 3)
      encoder manifest ∧
    runSendInto (δ := Empty) b3 XChaCha20Poly1305.aead rq sender flags tree [top] none [] ∅ =
      (.ok (), [], d) := by
  obtain ⟨payload, entries, encoder, manifest, hlen, hpacks, hplans, hencodes, hsigns⟩ :=
    exists_sent
  have h : Sends b3 XChaCha20Poly1305.aead rq sender flags tree [top] payload entries
      (planOf 64 3) encoder manifest := ⟨hpacks, hplans, hencodes, hsigns⟩
  obtain ⟨d, hd⟩ : ∃ d, writeSent (δ := Empty) none encoder.frames manifest.bytes [] ∅ =
      (.ok (), [], d) := exists_writeSent_nil (by simp) plain_empty manifest.bytes
  refine ⟨payload, entries, encoder, manifest, d, hlen, h, ?_⟩
  rw [runSendInto_of_sends none lookup_top h]
  exact Steps.mapError_eq_ok_iff.mpr hd

/-- The reference tree, sent into an empty directory and received from it. -/
theorem interrupted_send_reference : ∃ d extracted out,
    runSendInto (δ := Empty) Reference.b3 XChaCha20Poly1305.aead Reference.rq Reference.sender
      Reference.flags Reference.tree [Reference.top] none [] ∅ = (.ok (), [], d) ∧
    runRecvFrom Reference.b3 XChaCha20Poly1305.aead Reference.rq Reference.receiver [0x61]
      (.error .noFrames) d Reference.emptyDir [Reference.note] = (.ok extracted, out) ∧
    ∀ p, (out.lookup (Reference.note :: p)).bind nodeView =
      (Reference.tree.lookup (Reference.top :: p)).bind nodeView := by
  obtain ⟨payload, entries, encoder, manifest, d, hlen, h, hrun⟩ := Reference.exists_directory
  obtain ⟨-, hreceives⟩ := interrupted_send (none : Option (Str → Except Empty Str))
    Reference.ed_correct XChaCha20Poly1305.aead_correct Reference.lookup_top h
    (r := Reference.receiver) (fun p c hs => Reference.ideal_session hlen hs) rfl rfl (by decide)
    Reference.ready hasMeta_a (.error .noFrames) (fun name _ => plain_empty name)
    (AList.lookup_empty _)
    fun _ _ _ name hname => absurd hname (by simp [leftNames])
  obtain ⟨extracted, out, hrecv, hintact⟩ := hreceives [] [] d hrun
  exact ⟨d, extracted, out, hrun, hrecv, hintact.view_eq⟩

end Dhow
