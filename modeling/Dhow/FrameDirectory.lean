import Dhow.Dataset
import Dhow.Lib.Except
import Dhow.Lib.Filepath
import Dhow.Lib.PaddedDecimal
import Dhow.Lib.Steps
import Dhow.Lib.Utf8
import Mathlib.Data.List.AList

/-!
# The directory of frames

The sending command writes its frames into a directory as files that are numbered, with their codes
as images beside them where it is asked to, and the manifest after them all. What receives or
displays lists the files of that shape and reads them in the order of their names.
-/

namespace Dhow
open Bytes

/-- What a name in a directory leads to. -/
inductive Item
  | dir
  | file (content : Str)

/-- What a directory holds, by name. -/
abbrev FrameDirectory := AList fun _ : Str => Item

namespace FrameDirectory

def frameStem (i : ℕ) : Str := asBytes "frame-" ++ paddedDecimal 6 i

def frameName (i : ℕ) : Str := frameStem i ++ asBytes ".bin"

/-- The image of a frame's code. -/
def imageName (i : ℕ) : Str := frameStem i ++ asBytes ".png"

def manifestName : Str := asBytes "manifest.bin"

/-! ### Writing -/

inductive WriteError (δ : Type)
  | writing (name : Str)
  | willNotFit (i length : ℕ) (e : δ)
  | creating (name : Str)
  | rendering (name : Str)
  | closing (name : Str)
  deriving DecidableEq

section Write
variable {ε δ : Type}

/-- A file is created or emptied, written to and closed, and each of the three may fail. -/
def putFile (create write close : ε) (name data : Str) : Steps FrameDirectory ε Unit := do
  Steps.step create (fun d => match d.lookup name with
    | some .dir => (.error create, d)
    | _ => (.ok (), d.insert name (.file []))) fun _ d => d
  Steps.step write (fun d => (.ok (), d.insert name (.file data)))
    fun n d => d.insert name (.file (data.take n))
  Steps.settle close

/-- `os.WriteFile`. -/
def writeFile (e : ε) (name data : Str) : Steps FrameDirectory ε Unit := putFile e e e name data

/-- The image beside a frame, where it is asked for. `draw` gives what is written of it, if the
frame fits its code. -/
def renderFrame (draw : Option (Str → Except δ Str)) (frame : Str) (i : ℕ) :
    Steps FrameDirectory (WriteError δ) Unit :=
  match draw with
  | none => pure ()
  | some draw =>
    match draw frame with
    | .error e => Steps.throw (.willNotFit i frame.length e)
    | .ok image =>
      putFile (.creating (imageName i)) (.rendering (imageName i)) (.closing (imageName i))
        (imageName i) image

/-- The frames from number `i` on. -/
def writeFrames (draw : Option (Str → Except δ Str)) :
    ℕ → List Str → Steps FrameDirectory (WriteError δ) Unit
  | _, [] => pure ()
  | i, frame :: frames => do
    writeFile (.writing (frameName i)) (frameName i) frame
    renderFrame draw frame i
    writeFrames draw (i + 1) frames

/-- The frames and then the manifest. -/
def writeSent (draw : Option (Str → Except δ Str)) (frames : List Str) (manifest : Str) :
    Steps FrameDirectory (WriteError δ) Unit := do
  writeFrames draw 0 frames
  writeFile (.writing manifestName) manifestName manifest

end Write

/-! ### Reading -/

inductive ListingError
  | badPattern
  | noFrames
  | reading (name : Str)
  deriving DecidableEq

/-- Whether `filepath.Glob` takes the path of a directory for a pattern. -/
def hasMeta (dir : Str) : Bool :=
  (Filepath.clean slash 0x2E dir).any (asBytes "*?[\\").contains

/-- A name that `frame-*.bin` matches. -/
def isFrameName (name : Str) : Bool :=
  (asBytes "frame-").isPrefixOf name && (asBytes ".bin").isSuffixOf (name.drop 6)

/-- The files that are frames by their names, sorted. -/
def frameNames (d : FrameDirectory) : List Str :=
  (d.keys.filter isFrameName).insertionSort (· ≤ ·)

/-- `os.ReadFile`. -/
def readFile (d : FrameDirectory) (name : Str) : Option Str :=
  match d.lookup name with
  | some (.file content) => some content
  | _ => none

def readFrame (d : FrameDirectory) (name : Str) : Except ListingError Str :=
  match d.readFile name with
  | some content => .ok content
  | none => .error (.reading name)

/-- The frames of the directory at `dir` as they are received or displayed. Where the path is a
pattern, they are those of the directories that match it, which `globbed` is about. -/
def readFrames (d : FrameDirectory) (dir : Str) (globbed : Except ListingError (List Str)) :
    Except ListingError (List Str) :=
  if hasMeta dir then globbed
  else if d.frameNames = [] then .error .noFrames
  else d.frameNames.mapM d.readFrame

/-! ### Names -/

lemma isFrameName_iff {name : Str} : isFrameName name ↔
    asBytes "frame-" <+: name ∧ asBytes ".bin" <:+ name.drop 6 := by
  rw [isFrameName, Bool.and_eq_true, List.isPrefixOf_iff_prefix, List.isSuffixOf_iff_suffix]

lemma drop_frameStem_append (i : ℕ) (s : Str) :
    (frameStem i ++ s).drop 6 = paddedDecimal 6 i ++ s := by
  rw [frameStem, List.append_assoc]
  exact List.drop_left' rfl

lemma isFrameName_frameName (i : ℕ) : isFrameName (frameName i) := by
  rw [isFrameName_iff, frameName, drop_frameStem_append]
  refine ⟨?_, List.suffix_append _ _⟩
  rw [frameStem, List.append_assoc]
  exact List.prefix_append _ _

lemma not_isFrameName_imageName (i : ℕ) : isFrameName (imageName i) = false := by
  rw [Bool.eq_false_iff, ne_eq, isFrameName_iff, imageName, drop_frameStem_append]
  rintro ⟨-, hsuffix⟩
  have hshort := List.suffix_of_suffix_length_le hsuffix (List.suffix_append _ (asBytes ".png"))
    (by decide)
  exact absurd (hshort.eq_of_length (by decide)) (by decide)

lemma not_isFrameName_manifestName : isFrameName manifestName = false := by decide

lemma frameName_injective : Function.Injective frameName := fun _ _ h =>
  paddedDecimal_injective 6 (List.append_cancel_left (List.append_cancel_right h))

/-- Up to a million frames, the names stand in the order of the numbers. -/
lemma frameName_lt {i j : ℕ} (h : i < j) (hj : j < 10 ^ 6) : frameName i < frameName j := by
  rw [frameName, frameName, frameStem, frameStem, List.append_assoc, List.append_assoc]
  exact List.append_left_lt (paddedDecimal_append_lt h hj _ _)

/-- The frame after them comes before the last of them by its name. -/
lemma frameName_million_lt : frameName (10 ^ 6) < frameName (10 ^ 6 - 1) := by
  decide +kernel

/-! ### What is written -/

/-- The frames are there under their numbers, and the other files of that shape are as they were. -/
structure Wrote (d₀ : FrameDirectory) (frames : List Str) (d : FrameDirectory) : Prop where
  frame : ∀ i frame, frames[i]? = some frame → d.lookup (frameName i) = some (.file frame)
  other : ∀ name, isFrameName name → (∀ i < frames.length, name ≠ frameName i) →
    d.lookup name = d₀.lookup name

/-- The manifest is as it was. -/
def KeepsManifest (d₀ d : FrameDirectory) : Prop :=
  d.lookup manifestName = d₀.lookup manifestName

/-- There is no more of the manifest than there was, or the frames are there and a beginning of
it. -/
def Begun (d₀ : FrameDirectory) (frames : List Str) (manifest : Str) (d : FrameDirectory) : Prop :=
  KeepsManifest d₀ d ∨
    Wrote d₀ frames d ∧ ∃ n, d.lookup manifestName = some (.file (manifest.take n))

section Wrote
variable {d₀ d : FrameDirectory} {frames : List Str} {frame name : Str} {item : Item}

lemma Wrote.start (d : FrameDirectory) : Wrote d [] d := by
  refine ⟨fun i frame h => ?_, fun _ _ _ => rfl⟩
  rw [List.getElem?_nil] at h
  cases h

/-- The next frame. -/
lemma Wrote.concat (h : Wrote d₀ frames d) (frame : Str) :
    Wrote d₀ (frames ++ [frame]) (d.insert (frameName frames.length) (.file frame)) := by
  constructor
  · intro i other hi
    by_cases hlt : i < frames.length
    · have hne : frameName i ≠ frameName frames.length := fun he =>
        absurd (frameName_injective he) hlt.ne
      rw [AList.lookup_insert_ne hne]
      exact h.frame i other (by rwa [List.getElem?_append_left hlt] at hi)
    · have hlen : i < frames.length + 1 := by
        have hsome := (List.getElem?_eq_some_iff.mp hi).1
        rwa [List.length_append, List.length_singleton] at hsome
      obtain rfl : i = frames.length := by omega
      rw [List.getElem?_concat_length, Option.some.injEq] at hi
      rw [AList.lookup_insert, hi]
  · intro name hname hne
    rw [List.length_append, List.length_singleton] at hne
    rw [AList.lookup_insert_ne (hne _ (Nat.lt_succ_self _))]
    exact h.other name hname fun i hi => hne i (hi.trans (Nat.lt_succ_self _))

/-- What is no frame by its name does not matter. -/
lemma Wrote.insert (h : Wrote d₀ frames d) (hname : isFrameName name = false) :
    Wrote d₀ frames (d.insert name item) := by
  have hne : ∀ other, isFrameName other → other ≠ name := by
    rintro other hother rfl
    rw [hname] at hother
    cases hother
  constructor
  · intro i frame hi
    rw [AList.lookup_insert_ne (hne _ (isFrameName_frameName i))]
    exact h.frame i frame hi
  · intro other hother hout
    rw [AList.lookup_insert_ne (hne _ hother)]
    exact h.other other hother hout

lemma KeepsManifest.insert (h : KeepsManifest d₀ d) (hne : manifestName ≠ name) :
    KeepsManifest d₀ (d.insert name item) := by
  rw [KeepsManifest, AList.lookup_insert_ne hne]
  exact h

lemma manifestName_ne_frameName (i : ℕ) : manifestName ≠ frameName i := by
  intro h
  have hname := isFrameName_frameName i
  rw [← h, not_isFrameName_manifestName] at hname
  cases hname

lemma manifestName_ne_imageName (i : ℕ) : manifestName ≠ imageName i := by
  intro h
  have hhead : manifestName.head? = (asBytes "frame-").head? := by
    rw [h, imageName, frameStem, List.append_assoc]
    rfl
  exact absurd hhead (by decide)

end Wrote

section Steps
open Steps
variable {ε δ : Type} {P Q E : FrameDirectory → Prop} {d₀ : FrameDirectory} {frames : List Str}
  {draw : Option (Str → Except δ Str)}

/-- A file is there with what was to be written, or with a part of it where the writing stops. -/
lemma ensures_putFile {create write close : ε} {name data : Str}
    (hdone : ∀ d, P d → Q (d.insert name (.file data))) (hstart : ∀ d, P d → E d)
    (hpart : ∀ d n, P d → E (d.insert name (.file (data.take n)))) :
    Ensures P (putFile create write close name data) (fun _ => Q) E := by
  have hagain : ∀ (d : FrameDirectory) (content : Str),
      (d.insert name (.file [])).insert name (.file content) = d.insert name (.file content) :=
    fun d content => d.insert_insert
  refine .bind (R := fun _ d' => ∃ d, P d ∧ d' = d.insert name (.file [])) (.step ?_ ?_ ?_)
    fun _ => .bind (R := fun _ d' => ∃ d, P d ∧ d' = d.insert name (.file data)) (.step ?_ ?_ ?_)
      fun _ => .weaken (.settle ?_) (fun _ h => h) ?_ fun _ h => h
  · intro d _ d' hd hop
    split at hop
    · cases hop
    · cases hop
      exact ⟨d, hd, rfl⟩
  · intro d _ d' hd hop
    split at hop
    · cases hop
      exact hstart d hd
    · cases hop
  · intro d _ hd
    exact hstart d hd
  · rintro _ _ _ ⟨d, hd, rfl⟩ hop
    cases hop
    exact ⟨d, hd, hagain d data⟩
  · rintro _ _ _ - hop
    cases hop
  · rintro _ n ⟨d, hd, rfl⟩
    rw [hagain]
    exact hpart d n hd
  · rintro _ ⟨d, hd, rfl⟩
    have h := hpart d data.length hd
    rwa [List.take_length] at h
  · rintro _ _ ⟨d, hd, rfl⟩
    exact hdone d hd

/-- The image beside a frame changes nothing that is read. -/
lemma ensures_renderFrame (frame : Str) (i : ℕ) :
    Ensures (fun d => Wrote d₀ frames d ∧ KeepsManifest d₀ d) (renderFrame draw frame i)
      (fun _ d => Wrote d₀ frames d ∧ KeepsManifest d₀ d) (KeepsManifest d₀) := by
  rcases draw with _ | draw
  · exact .pure fun _ h => h
  · unfold renderFrame
    dsimp only
    cases draw frame with
    | error e => exact .throw fun _ h => h.2
    | ok image =>
      refine ensures_putFile ?_ (fun _ h => h.2) ?_
      · rintro d ⟨hwrote, hkeeps⟩
        exact ⟨hwrote.insert (not_isFrameName_imageName _),
          hkeeps.insert (manifestName_ne_imageName _)⟩
      · rintro d n ⟨-, hkeeps⟩
        exact hkeeps.insert (manifestName_ne_imageName _)

/-- Writing the frames from where it stands leaves them all, and wherever it stops the manifest is
as it was. -/
lemma ensures_writeFrames (done : List Str) :
    Ensures (fun d => Wrote d₀ done d ∧ KeepsManifest d₀ d) (writeFrames draw done.length frames)
      (fun _ d => Wrote d₀ (done ++ frames) d ∧ KeepsManifest d₀ d) (KeepsManifest d₀) := by
  induction frames generalizing done with
  | nil =>
    rw [List.append_nil]
    exact .pure fun _ h => h
  | cons frame frames ih =>
    refine .bind (R := fun _ d => Wrote d₀ (done ++ [frame]) d ∧ KeepsManifest d₀ d)
      (ensures_putFile ?_ (fun _ h => h.2) ?_) fun _ =>
        .bind (R := fun _ d => Wrote d₀ (done ++ [frame]) d ∧ KeepsManifest d₀ d) ?_ fun _ => ?_
    · rintro d ⟨hwrote, hkeeps⟩
      exact ⟨hwrote.concat frame, hkeeps.insert (manifestName_ne_frameName _)⟩
    · rintro d n ⟨-, hkeeps⟩
      exact hkeeps.insert (manifestName_ne_frameName _)
    · exact ensures_renderFrame frame done.length
    · have h := ih (done ++ [frame])
      rwa [List.length_append, List.length_singleton, List.append_assoc] at h

lemma ensures_writeSent (draw : Option (Str → Except δ Str)) (frames : List Str)
    (manifest : Str) :
    Ensures (· = d₀) (writeSent draw frames manifest)
      (fun _ d => Wrote d₀ frames d ∧ d.lookup manifestName = some (.file manifest))
      (Begun d₀ frames manifest) := by
  refine .bind (.weaken (ensures_writeFrames []) ?_ (fun _ _ h => h) fun _ h => .inl h) fun _ =>
    ensures_putFile ?_ (fun _ h => .inl h.2) ?_
  · rintro d rfl
    exact ⟨.start d, rfl⟩
  · rintro d ⟨hwrote, -⟩
    exact ⟨hwrote.insert not_isFrameName_manifestName, AList.lookup_insert _⟩
  · rintro d n ⟨hwrote, -⟩
    exact .inr ⟨hwrote.insert not_isFrameName_manifestName, n, AList.lookup_insert _⟩

/-- At every instant of a send, what is new of the manifest comes after all the frames. -/
lemma begun_of_instant {manifest : Str} {d : FrameDirectory}
    (h : Instant (writeSent draw frames manifest) d₀ d) : Begun d₀ frames manifest d := by
  have hwhole : ∀ d, Wrote d₀ frames d ∧ d.lookup manifestName = some (.file manifest) →
      Begun d₀ frames manifest d := by
    rintro d ⟨hwrote, hmanifest⟩
    exact .inr ⟨hwrote, manifest.length, by rw [List.take_length, hmanifest]⟩
  exact ((ensures_writeSent draw frames manifest).weaken (fun _ h => h)
    (fun _ d hd => hwhole d hd) fun _ h => h).instant rfl h

end Steps

/-! ### Nothing in the way -/

section Unhindered
variable {ε δ : Type} {d : FrameDirectory} {draw : Option (Str → Except δ Str)}

/-- There are only files. -/
def Plain (d : FrameDirectory) : Prop := ∀ name, d.lookup name ≠ some .dir

lemma Plain.insert (h : Plain d) (name content : Str) : Plain (d.insert name (.file content)) := by
  intro other
  by_cases hother : other = name
  · rw [hother, AList.lookup_insert]
    simp
  · rw [AList.lookup_insert_ne hother]
    exact h other

lemma plain_empty : Plain ∅ := by
  intro name
  rw [AList.lookup_empty]
  simp

lemma putFile_nil (h : Plain d) (create write close : ε) (name data : Str) :
    putFile create write close name data [] d = (.ok (), [], d.insert name (.file data)) := by
  have hopen : (match d.lookup name with
      | some .dir => (.error create, d)
      | _ => (.ok (), d.insert name (.file []))) =
        ((.ok (), d.insert name (.file [])) : Except ε Unit × FrameDirectory) := by
    split
    next hdir => exact absurd hdir (h name)
    next => rfl
  rw [putFile, Steps.bind_of_ok (by rw [Steps.step_nil, hopen]),
    Steps.bind_of_ok (by rw [Steps.step_nil]), Steps.settle_nil, AList.insert_insert]

lemma exists_writeFrames_nil {frames : List Str}
    (hdraw : ∀ f ∈ draw, ∀ frame ∈ frames, ∃ image, f frame = .ok image) (h : Plain d) (i : ℕ) :
    ∃ d', writeFrames draw i frames [] d = (.ok (), [], d') ∧ Plain d' := by
  induction frames generalizing i d with
  | nil => exact ⟨d, rfl, h⟩
  | cons frame frames ih =>
    have hbeside : ∃ d', renderFrame draw frame i [] (d.insert (frameName i) (.file frame)) =
        (.ok (), [], d') ∧ Plain d' := by
      rcases draw with _ | draw
      · exact ⟨_, rfl, h.insert _ _⟩
      · obtain ⟨image, himage⟩ := hdraw draw rfl frame List.mem_cons_self
        simp only [renderFrame, himage]
        exact ⟨_, putFile_nil (h.insert _ _) _ _ _ _ _, (h.insert _ _).insert _ _⟩
    obtain ⟨d', hd', hplain⟩ := hbeside
    obtain ⟨d'', hd'', hplain'⟩ :=
      ih (fun f hf frame hframe => hdraw f hf frame (List.mem_cons_of_mem _ hframe)) hplain (i + 1)
    refine ⟨d'', ?_, hplain'⟩
    rw [writeFrames, writeFile, Steps.bind_of_ok (putFile_nil h _ _ _ _ _),
      Steps.bind_of_ok hd', hd'']

/-- Where there are only files and each frame fits its code, all is written if no step is cut
short. -/
lemma exists_writeSent_nil {frames : List Str}
    (hdraw : ∀ f ∈ draw, ∀ frame ∈ frames, ∃ image, f frame = .ok image) (h : Plain d)
    (manifest : Str) : ∃ d', writeSent draw frames manifest [] d = (.ok (), [], d') := by
  obtain ⟨d', hd', hplain⟩ := exists_writeFrames_nil hdraw h 0
  exact ⟨_, by rw [writeSent, Steps.bind_of_ok hd', writeFile, putFile_nil hplain]⟩

end Unhindered

/-! ### What is read -/

/-- The content of a file, or nothing where there is none. -/
def content (d : FrameDirectory) (name : Str) : Str := (d.readFile name).getD []

/-- The frames that stay when `n` frames are written, by their names. -/
def leftNames (d : FrameDirectory) (n : ℕ) : List Str :=
  d.keys.filter fun name => isFrameName name && !((List.range n).map frameName).contains name

/-- What is a frame by its name is a file. -/
def Readable (d : FrameDirectory) : Prop := ∀ name, isFrameName name → d.lookup name ≠ some .dir

section Read
variable {d₀ d : FrameDirectory} {frames : List Str} {name : Str} {n : ℕ}

lemma mem_keys_iff : name ∈ d.keys ↔ (d.lookup name).isSome := by
  rw [← AList.mem_keys, AList.lookup_isSome]

lemma mem_leftNames : name ∈ leftNames d n ↔
    (d.lookup name).isSome ∧ isFrameName name ∧ ∀ i < n, name ≠ frameName i := by
  rw [leftNames, List.mem_filter, mem_keys_iff, Bool.and_eq_true, Bool.not_eq_true',
    List.contains_eq_mem, decide_eq_false_iff_not]
  simp only [List.mem_map, List.mem_range, not_exists, not_and, ne_eq, eq_comm (a := name)]

lemma mem_frameNames : name ∈ d.frameNames ↔ (d.lookup name).isSome ∧ isFrameName name := by
  rw [frameNames, List.mem_insertionSort, List.mem_filter, mem_keys_iff]

lemma nodup_frameNames : d.frameNames.Nodup :=
  (List.perm_insertionSort _ _).nodup_iff.mpr (d.keys_nodup.filter _)

/-- What is listed: the frames that were written and those that stayed. -/
lemma Wrote.frameNames_perm (h : Wrote d₀ frames d) : d.frameNames.Perm
    ((List.range frames.length).map frameName ++ leftNames d₀ frames.length) := by
  have hnodup : ((List.range frames.length).map frameName ++
      leftNames d₀ frames.length).Nodup := by
    refine List.Nodup.append (List.nodup_range.map frameName_injective)
      (d₀.keys_nodup.filter _) ?_
    intro name hname hleft
    obtain ⟨i, hi, rfl⟩ := List.mem_map.mp hname
    exact (mem_leftNames.mp hleft).2.2 i (List.mem_range.mp hi) rfl
  apply (List.perm_ext_iff_of_nodup nodup_frameNames hnodup).mpr
  intro name
  rw [mem_frameNames, List.mem_append, mem_leftNames, List.mem_map]
  constructor
  · rintro ⟨hsome, hname⟩
    by_cases hnew : ∃ i < frames.length, name = frameName i
    · obtain ⟨i, hi, rfl⟩ := hnew
      exact .inl ⟨i, List.mem_range.mpr hi, rfl⟩
    · have hout : ∀ i < frames.length, name ≠ frameName i := fun i hi he => hnew ⟨i, hi, he⟩
      exact .inr ⟨h.other name hname hout ▸ hsome, hname, hout⟩
  · rintro (⟨i, hi, rfl⟩ | ⟨hsome, hname, hout⟩)
    · have hlt := List.mem_range.mp hi
      rw [h.frame i _ (List.getElem?_eq_getElem hlt)]
      exact ⟨rfl, isFrameName_frameName i⟩
    · exact ⟨(h.other name hname hout).symm ▸ hsome, hname⟩

lemma Wrote.content_frameName (h : Wrote d₀ frames d) :
    ((List.range frames.length).map frameName).map (content d) = frames := by
  apply List.ext_getElem (by simp)
  intro i hi hi'
  rw [List.getElem_map, List.getElem_map, List.getElem_range, content, readFile,
    h.frame i _ (List.getElem?_eq_getElem hi')]
  rfl

lemma Wrote.content_left (h : Wrote d₀ frames d) :
    (leftNames d₀ frames.length).map (content d) =
      (leftNames d₀ frames.length).map (content d₀) := by
  apply List.map_congr_left
  intro name hname
  obtain ⟨-, hframe, hout⟩ := mem_leftNames.mp hname
  rw [content, content, readFile, readFile, h.other name hframe hout]

/-- Files are listed and read. -/
lemma Wrote.readFrames_eq (h : Wrote d₀ frames d) (hd : Readable d₀) (hne : frames ≠ [])
    {dir : Str} (hdir : hasMeta dir = false) (globbed : Except ListingError (List Str)) :
    d.readFrames dir globbed = .ok (d.frameNames.map (content d)) := by
  have hread : ∀ name ∈ d.frameNames, d.readFrame name = .ok (content d name) := by
    intro name hname
    rcases List.mem_append.mp (h.frameNames_perm.mem_iff.mp hname) with hnew | hleft
    · obtain ⟨i, hi, rfl⟩ := List.mem_map.mp hnew
      have hframe := h.frame i _ (List.getElem?_eq_getElem (List.mem_range.mp hi))
      simp only [readFrame, content, readFile, hframe, Option.getD_some]
    · obtain ⟨hsome, hframe, hout⟩ := mem_leftNames.mp hleft
      have hlookup := h.other name hframe hout
      obtain ⟨_ | c, hnode⟩ := Option.isSome_iff_exists.mp hsome
      · exact absurd hnode (hd name hframe)
      · simp only [readFrame, content, readFile, hlookup, hnode, Option.getD_some]
  have hlisted : d.frameNames ≠ [] := by
    intro hnil
    have hlen := h.frameNames_perm.length_eq
    rw [hnil, List.length_append, List.length_map, List.length_range, List.length_nil] at hlen
    exact hne (List.length_eq_zero_iff.mp (by omega))
  rw [readFrames, hdir, if_neg Bool.false_ne_true, if_neg hlisted, Except.mapM_eq_ok_iff,
    List.forall₂_map_right_iff, List.forall₂_same]
  exact hread

/-- Where no other frame stays, the frames are listed in their order up to a million of them, and
not beyond. -/
lemma Wrote.frameNames_eq_iff (h : Wrote d₀ frames d)
    (hleft : leftNames d₀ frames.length = []) :
    d.frameNames = (List.range frames.length).map frameName ↔ frames.length ≤ 10 ^ 6 := by
  have hsorted : d.frameNames.Pairwise (· ≤ ·) := List.pairwise_insertionSort _ _
  constructor
  · intro heq
    by_contra hmany
    rw [heq, List.pairwise_map] at hsorted
    have hle := List.pairwise_iff_getElem.mp hsorted (10 ^ 6 - 1) (10 ^ 6)
      (by rw [List.length_range]; omega) (by rw [List.length_range]; omega) (by decide)
    rw [List.getElem_range, List.getElem_range] at hle
    exact hle frameName_million_lt
  · intro hle
    have hperm := h.frameNames_perm
    rw [hleft, List.append_nil] at hperm
    refine hperm.eq_of_pairwise' hsorted (List.pairwise_map.mpr ?_)
    refine List.pairwise_lt_range.imp_of_mem fun hi hj hij => ?_
    have hlt := List.mem_range.mp hj
    exact List.le_of_lt (frameName_lt hij (by omega))

end Read

/-- What a sender has written at a path that is no pattern is read: the manifest, each frame, and
what other frames there were before. Where there were none, up to a million frames are read in their
order. -/
theorem read_written {δ : Type} {draw : Option (Str → Except δ Str)} {frames : List Str}
    {manifest dir : Str} {d₀ d : FrameDirectory} {cuts cuts' : List (Option Cut)}
    (hne : frames ≠ []) (hdir : hasMeta dir = false) (hd : Readable d₀)
    (globbed : Except ListingError (List Str))
    (hrun : writeSent draw frames manifest cuts d₀ = (.ok (), cuts', d)) :
    d.readFile manifestName = some manifest ∧ ∃ read, d.readFrames dir globbed = .ok read ∧
      read.Perm (frames ++ (leftNames d₀ frames.length).map (content d₀)) ∧
      (leftNames d₀ frames.length = [] →
        (d.frameNames = (List.range frames.length).map frameName ↔ frames.length ≤ 10 ^ 6) ∧
          (frames.length ≤ 10 ^ 6 → read = frames)) := by
  have hensures := ensures_writeSent draw frames manifest cuts d₀ rfl
  rw [hrun] at hensures
  obtain ⟨hwrote, hmanifest⟩ := hensures
  have hperm := hwrote.frameNames_perm.map (content d)
  rw [List.map_append, hwrote.content_frameName, hwrote.content_left] at hperm
  refine ⟨by rw [readFile, hmanifest], _, hwrote.readFrames_eq hd hne hdir globbed, hperm, fun hleft => ?_⟩
  have horder := hwrote.frameNames_eq_iff hleft
  refine ⟨horder, fun hle => ?_⟩
  rw [horder.mpr hle, hwrote.content_frameName]

/-- The directory `a` is none that `Glob` takes for a pattern. -/
lemma hasMeta_a : hasMeta [0x61] = false := by decide +kernel

/-- Two frames beside a third that was there before, in the directory `a`. -/
theorem read_written_beside : ∃ d read, readFile d manifestName = some [3] ∧
    readFrames d [0x61] (.error .noFrames) = .ok read ∧ read.Perm [[1], [2], [9]] := by
  have hplain : Plain ((∅ : FrameDirectory).insert (frameName 2) (.file [9])) :=
    plain_empty.insert _ _
  obtain ⟨d, hrun⟩ : ∃ d, writeSent (δ := Empty) none [[1], [2]] [3] []
      ((∅ : FrameDirectory).insert (frameName 2) (.file [9])) = (.ok (), [], d) :=
    exists_writeSent_nil (by simp) hplain [3]
  obtain ⟨hmanifest, read, hread, hperm, -⟩ := read_written (by simp) hasMeta_a
    (fun name _ => hplain name) (.error .noFrames) hrun
  refine ⟨d, read, hmanifest, hread, hperm.trans ?_⟩
  have hleft : (leftNames ((∅ : FrameDirectory).insert (frameName 2) (.file [9])) 2).map
      (content ((∅ : FrameDirectory).insert (frameName 2) (.file [9]))) = [[9]] := by
    decide +kernel
  rw [List.length_cons, List.length_singleton, hleft]
  rfl

end FrameDirectory
end Dhow
