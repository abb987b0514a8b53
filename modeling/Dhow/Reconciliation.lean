import Dhow.EndToEnd
import Dhow.Extraction

/-!
# What a successful receive verifies

The receiving command compares the archive's entries with the signed inventory by position and
leaves their digests alone, the verifying command compares the files with it by name. They agree
on the inventories whose names are those of paths and whose digests are those of the archive's
contents.
-/

namespace Dhow
open Bytes FileSystem

/-! ### Clean names -/

/-- A name that joining does not change: none of its parts is empty or a dot. -/
def CleanName (name : Str) : Prop := ∀ part ∈ name.splitOn slash, IsComponent part

/-- The clean names are those of paths. -/
lemma cleanName_iff {name : Str} : CleanName name ↔ ∃ p, p ≠ [] ∧ name = relName p := by
  constructor
  · intro h
    let p : Path Component := (name.splitOn slash).attach.map fun part => ⟨part.1, h part.1 part.2⟩
    have hne : p ≠ [] := by
      simp [p, List.splitOn_ne_nil]
    refine ⟨p, hne, ?_⟩
    have hval : p.map Subtype.val = name.splitOn slash := by
      simp [p]
    rw [relName, if_neg hne, hval, List.intercalate_splitOn]
  · rintro ⟨p, hp, rfl⟩ part hpart
    rw [splitOn_relName hp] at hpart
    obtain ⟨c, -, rfl⟩ := List.mem_map.mp hpart
    exact c.2

namespace Pack

/-- The contents of the entries of an archive, in order. -/
def contents (data : Str) : List Str :=
  match parse data with
  | .error _ => []
  | .ok items => items.map Prod.snd

/-- An entry with a clean name is written where the name says. -/
lemma itemFile_of_name {item : Entry × Str} {p : Path Component}
    (h : item.1.name = relName p) : (itemFile item).1 = p := by
  rw [itemFile, h, join_relName]
  rfl

end Pack

/-! ### The two comparisons -/

lemma forall₂_imp_mem {α β : Type} {R S : α → β → Prop} {l : List α} {l' : List β}
    (h : List.Forall₂ R l l') (hRS : ∀ a ∈ l, ∀ b ∈ l', R a b → S a b) : List.Forall₂ S l l' := by
  induction h with
  | nil => exact .nil
  | cons hab _ ih =>
    refine .cons (hRS _ List.mem_cons_self _ List.mem_cons_self hab) (ih fun a ha b hb => ?_)
    exact hRS a (List.mem_cons_of_mem _ ha) b (List.mem_cons_of_mem _ hb)

lemma exists_of_forall₂ {α β : Type} {R : α → β → Prop} {l : List α} {l' : List β}
    (h : List.Forall₂ R l l') {a : α} (ha : a ∈ l) : ∃ b ∈ l', R a b := by
  induction h with
  | nil => cases ha
  | cons hab _ ih =>
    rcases List.mem_cons.mp ha with rfl | ha
    · exact ⟨_, List.mem_cons_self, hab⟩
    · obtain ⟨b, hb, hr⟩ := ih ha
      exact ⟨b, List.mem_cons_of_mem _ hb, hr⟩

section Verifies
variable {b3 : Blake3} {umask : UInt32} {out : FileTree} {outDir : Path Component}
  {items : List (Pack.Entry × Str)} {inventory : List InventoryEntry}

/-- The file that extraction made of an entry with a clean name. -/
lemma Holds.lookup_item (h : Holds umask out outDir (items.map Pack.itemFile))
    {item : Pack.Entry × Str} (hitem : item ∈ items) {p : Path Component}
    (hname : item.1.name = relName p) : out.lookup (outDir ++ p) =
      some (.file (Pack.extractedFile umask (Pack.itemFile item).2)) := by
  have hhas := h.has _ (List.mem_map_of_mem hitem)
  rwa [Pack.itemFile_of_name hname] at hhas

/-- Every file of the destination is one of the archive's. -/
lemma Holds.exists_item (h : Holds umask out outDir (items.map Pack.itemFile))
    {p : Path Component} {f : File} (hf : out.lookup (outDir ++ p) = some (.file f)) :
    ∃ item ∈ items, p = (Pack.itemFile item).1 := by
  have hp : p ≠ [] := by
    rintro rfl
    rw [List.append_nil, h.directory] at hf
    cases hf
  obtain ⟨x, hx, -, hn⟩ := h.only p _ hp hf
  obtain ⟨item, hitem, rfl⟩ := List.mem_map.mp hx
  refine ⟨item, hitem, ?_⟩
  by_contra hne
  rw [if_neg hne] at hn
  cases hn

/-- Entries that agree by position agree by name, where the names are clean and the digests are
those of the contents. -/
lemma verifies_of_clean (hu : umask &&& 0o700 = 0)
    (h : Holds umask out outDir (items.map Pack.itemFile))
    (hvalid : ∀ item ∈ items, Pack.ValidItem item)
    (hagrees : List.Forall₂ (fun item want => Agrees item.1 want ∧
      want.digest = blake3Digest b3 item.2) items inventory)
    (hclean : ∀ e ∈ inventory, CleanName e.name) :
    (inspectDataset b3 out outDir inventory).1 = [] := by
  apply inspectDataset_eq_nil h.directory
  · intro e he
    obtain ⟨item, hitem, hagree, hdigest⟩ := exists_of_forall₂ hagrees.flip he
    obtain ⟨p, -, hp⟩ := cleanName_iff.mp (hclean e he)
    refine ⟨p, _, hp, h.lookup_item hitem (hagree.name_eq.trans hp), ?_, ?_, hdigest.symm⟩
    · exact (hvalid item hitem).length_eq.trans hagree.size_eq
    · rw [Pack.executable_extractedFile hu, Pack.itemFile, Pack.executable_mk_fileMode,
        hagree.executable_eq]
  · intro p f hf
    obtain ⟨item, hitem, rfl⟩ := h.exists_item hf
    obtain ⟨e, he, hagree, -⟩ := exists_of_forall₂ hagrees hitem
    obtain ⟨p, -, hp⟩ := cleanName_iff.mp (hclean e he)
    refine ⟨e, he, ?_⟩
    rw [Pack.itemFile_of_name (hagree.name_eq.trans hp), hp]

/-- Entries that agree by name have clean names, and their digests are those of the contents of
the entries in their places. -/
lemma clean_of_verifies (h : Holds umask out outDir (items.map Pack.itemFile))
    (hagrees : List.Forall₂ (fun item want => Agrees item.1 want) items inventory)
    (hverifies : (inspectDataset b3 out outDir inventory).1 = []) :
    (∀ e ∈ inventory, CleanName e.name) ∧
      List.Forall₂ (fun item want => want.digest = blake3Digest b3 item.2) items inventory := by
  obtain ⟨hwant, -⟩ := (inspectDataset_eq_nil_iff h.directory).mp hverifies
  constructor
  · intro e he
    obtain ⟨p, f, hname, hf, -⟩ := hwant e he
    refine cleanName_iff.mpr ⟨p, ?_, hname⟩
    rintro rfl
    rw [List.append_nil, h.directory] at hf
    cases hf
  · apply forall₂_imp_mem hagrees
    intro item hitem e he hagree
    obtain ⟨p, f, hname, hf, -, -, hdigest⟩ := hwant e he
    rw [h.lookup_item hitem (hagree.name_eq.trans hname)] at hf
    cases hf
    exact hdigest.symm

/-- A receive that succeeds verifies exactly if the inventory's names are clean and its digests
are those of the archive's contents, in order. -/
theorem receive_verifies_iff (b3 : Blake3) (hu : umask &&& 0o700 = 0) {random : Component}
    {fs : FileTree} {payload : Str} {entries : List Pack.Entry}
    (hextract : extractAtomically umask random fs payload outDir = (.ok entries, out))
    (hreconcile : reconcile entries inventory = .ok ()) :
    (inspectDataset b3 out outDir inventory).1 = [] ↔ (∀ e ∈ inventory, CleanName e.name) ∧
      inventory.map InventoryEntry.digest = (Pack.contents payload).map (blake3Digest b3) := by
  obtain ⟨items, hparse, rfl, -, hholds⟩ := extractAtomically_eq_ok hextract
  have hvalid := Pack.parseFrom_eq_ok hparse
  have hagrees := reconcile_eq_ok_iff.mp hreconcile
  rw [List.forall₂_map_left_iff] at hagrees
  have hdigests : inventory.map InventoryEntry.digest =
        (Pack.contents payload).map (blake3Digest b3) ↔
      List.Forall₂ (fun item want => want.digest = blake3Digest b3 item.2) items inventory := by
    rw [Pack.contents, hparse, List.map_map, ← List.forall₂_eq_eq_eq, List.forall₂_map_left_iff,
      List.forall₂_map_right_iff]
    exact ⟨fun h => h.flip, fun h => h.flip⟩
  rw [hdigests]
  constructor
  · exact clean_of_verifies hholds hagrees
  · rintro ⟨hclean, hd⟩
    exact verifies_of_clean hu hholds hvalid (hagrees.mp (fun _ _ h h' => ⟨h, h'⟩) hd) hclean

theorem receive_verifies_iff_reference : ∃ payload entries out,
    extractAtomically 0o022 Reference.run Reference.emptyDir payload [Reference.note] =
      (.ok entries, out) ∧
    ((inspectDataset Reference.b3 out [Reference.note]
        (inventoryFor Reference.b3 Reference.files)).1 = [] ↔
      (∀ e ∈ inventoryFor Reference.b3 Reference.files, CleanName e.name) ∧
      (inventoryFor Reference.b3 Reference.files).map InventoryEntry.digest =
        (Pack.contents payload).map (blake3Digest Reference.b3)) := by
  obtain ⟨out, hextract, -⟩ := Reference.exists_extracted
  exact ⟨_, _, out, hextract, receive_verifies_iff Reference.b3 (by decide) hextract
    (reconcile_inventoryFor Reference.b3 Reference.packableAll_files)⟩

end Verifies

namespace Reference

def cleared (e : InventoryEntry) : InventoryEntry := { e with digest := zeros 32 }

/-- The inventory of the reference tree with no digest right. -/
def misdigested : List InventoryEntry := (inventoryFor b3 files).map cleared

lemma admissible_misdigested : Admissible misdigested := by
  obtain ⟨hnul, hlen, hsize, htotal⟩ := admissible_inventoryFor b3 packableAll_files
  refine ⟨?_, ?_, ?_, ?_⟩
  · intro e he
    obtain ⟨e', he', rfl⟩ := List.mem_map.mp he
    exact hnul e' he'
  · rw [misdigested, List.length_map]
    exact hlen
  · intro e he
    obtain ⟨e', he', rfl⟩ := List.mem_map.mp he
    exact hsize e' he'
  · rw [misdigested, List.map_map]
    exact htotal

lemma names_misdigested :
    ∀ e ∈ misdigested, e.name = asBytes "a-b" ∨ e.name = asBytes "a/b" := by
  intro e he
  obtain ⟨e', he', rfl⟩ := List.mem_map.mp he
  exact names_inventoryFor e' he'

lemma reconcile_misdigested : reconcile (files.map Pack.Entry.ofFile) misdigested = .ok () := by
  have hagrees := reconcile_eq_ok_iff.mp (reconcile_inventoryFor b3 packableAll_files)
  rw [reconcile_eq_ok_iff, misdigested, List.forall₂_map_right_iff]
  exact hagrees.imp fun _ _ h => ⟨h.name_eq, h.size_eq, h.executable_eq⟩

end Reference

/-- A manifest whose digests are wrong is signed, its transfer is received without an error, and
the dataset it leaves does not verify against it. -/
theorem received_not_verified : ∃ frames manifest v extracted out,
    verifyManifestWith Reference.ed Reference.receiver.signer manifest none .default = .ok v ∧
    runRecv Reference.b3 XChaCha20Poly1305.aead Reference.rq Reference.receiver manifest frames
      Reference.emptyDir [Reference.note] = (.ok extracted, out) ∧
    (inspectDataset Reference.b3 out [Reference.note]
      (manifestFields v.manifest).inventory).1 ≠ [] := by
  obtain ⟨frames, manifest, v, out, hv, hfields, hholds, hrun⟩ :=
    Reference.exists_received Reference.admissible_misdigested Reference.names_misdigested
  rw [Reference.reconcile_misdigested] at hrun
  refine ⟨frames, manifest, v, _, out, hv, hrun, fun hverifies => ?_⟩
  rw [hfields, inspectDataset_eq_nil_iff hholds.directory] at hverifies
  obtain ⟨p, f, hname, hf, -, -, hdigest⟩ := hverifies.1 (Reference.cleared
    ⟨relName [Reference.note], 0, blake3Digest Reference.b3 [], false⟩) List.mem_cons_self
  have hp : p = [Reference.note] := relName_injective hname.symm
  rw [hp, hholds.has _ List.mem_cons_self] at hf
  cases hf
  have hne : blake3Digest Reference.b3 [] ≠ zeros 32 := by decide +kernel
  exact hne hdigest

end Dhow
