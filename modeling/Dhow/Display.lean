import Dhow.Optical.EncodeQR
import Dhow.Optical.Terminal

/-!
# The display

What the sending screen shows. There is no way back from the receiver to the sender, so the frames
are shown again and again until the operator stops the run: what has come out at any time is the
opening and the first so many screens of one endless stream, each of them whole but for a last one
that the terminal failed at.
-/

namespace Dhow.Display
open Bytes Writing Optical Abi

variable {δ : Type}

def minFPS : ℤ := 1
def maxFPS : ℤ := 120

structure Config where
  fps : ℤ
  loops : ℤ
  calibrationSeconds : ℤ
  sessionId : Arr 16
  clearScreen : Bool

inductive DisplayError (δ : Type)
  | fps (got : ℤ)
  | loops (got : ℤ)
  | calibrationSeconds (got : ℤ)
  | noFrames
  | encodingCalibration (e : FfiError)
  | clearing (e : δ)
  | renderingCalibration (e : TerminalError δ)
  | announcing (e : δ)
  | encodingFrame (index : ℕ) (e : FfiError)
  | renderingFrame (index : ℕ) (e : TerminalError δ)
  | status (e : δ)
  deriving DecidableEq

def DisplayError.text (text : δ → String) : DisplayError δ → String
  | fps got => s!"fps must be between {minFPS} and {maxFPS}, got {got}"
  | loops got => s!"loops cannot be negative, got {got}"
  | calibrationSeconds got => s!"calibration seconds cannot be negative, got {got}"
  | noFrames => "no frames to display"
  | encodingCalibration e => s!"encoding calibration pattern: {e.text}"
  | clearing e => s!"clearing screen: {text e}"
  | renderingCalibration e => s!"rendering calibration pattern: {e.text text}"
  | announcing e => text e
  | encodingFrame index e => s!"encoding frame {index}: {e.text}"
  | renderingFrame index e => s!"rendering frame {index}: {e.text text}"
  | status e => text e

def Config.validate (c : Config) : Except (DisplayError δ) Unit :=
  if c.fps < minFPS ∨ c.fps > maxFPS then .error (.fps c.fps)
  else if c.loops < 0 then .error (.loops c.loops)
  else if c.calibrationSeconds < 0 then .error (.calibrationSeconds c.calibrationSeconds)
  else .ok ()

structure Stats where
  framesShown : ℕ
  loopsCompleted : ℕ
  deriving DecidableEq

/-! ### Texts -/

/-- A byte as two upper-case digits. -/
def upperHex (b : UInt8) : String :=
  String.ofList [(Nat.digitChar (b.toNat / 16)).toUpper, (Nat.digitChar (b.toNat % 16)).toUpper]

/-- The first half of a session identifier, for operators to compare. -/
def fingerprint (sessionId : Arr 16) : String :=
  "-".intercalate ((List.range 4).map fun i =>
    upperHex (sessionId.toList.getD (i * 2) 0) ++ upperHex (sessionId.toList.getD (i * 2 + 1) 0))

def clear : Str := asBytes "\x1b[2J\x1b[H"

def calibrationPayload (cfg : Config) : Str :=
  asBytes s!"DHOW-CALIBRATION session={fingerprint cfg.sessionId}"

def calibrationNote (cfg : Config) : Str :=
  asBytes (s!"\nCALIBRATION  session {fingerprint cfg.sessionId}\n"
    ++ "Align the receiver on this pattern, then the transfer begins.\n")

def statusLine (cfg : Config) (index total loop : ℕ) : Str :=
  asBytes s!"\nsession {fingerprint cfg.sessionId}   frame {index + 1}/{total}   pass {loop + 1}\n"

/-! ### A run -/

/-- The case of a `select` that is taken: the context is done, or the timer has fired. -/
inductive Select
  | done
  | due
  deriving DecidableEq

/-- How a run is left: in a `select` that no case of has come up, or returned from. -/
inductive Ending (ε : Type)
  | waiting
  | returned (err : Option ε)
  deriving DecidableEq

/-- What the code draws with. -/
structure Means (δ : Type) where
  sink : Sink δ
  qr : QrCodegen
  codes : qr.Codes
  version : ℤ
  ecc : UInt8

def Means.encode (m : Means δ) (frame : Str) : Except FfiError QRCode :=
  m.codes.encodeQR frame m.version m.ecc

/-- A grid on the screen, cleared before where the configuration says so. -/
def drawCode (m : Means δ) (cfg : Config) (qr : QRCode)
    (rendering : TerminalError δ → DisplayError δ) : Writing (DisplayError δ) Unit := do
  if cfg.clearScreen then (write m.sink clear).mapError .clearing
  (terminal m.sink qr).mapError rendering

def calibration (m : Means δ) (cfg : Config) : Writing (DisplayError δ) Unit :=
  match m.encode (calibrationPayload cfg) with
  | .error e => throw (.encodingCalibration e)
  | .ok qr => do
    drawCode m cfg qr .renderingCalibration
    (write m.sink (calibrationNote cfg)).mapError .announcing

def drawFrame (m : Means δ) (cfg : Config) (frame : Str) (index total loop : ℕ) :
    Writing (DisplayError δ) Unit :=
  match m.encode frame with
  | .error e => throw (.encodingFrame index e)
  | .ok qr => do
    drawCode m cfg qr (.renderingFrame index)
    (write m.sink (statusLine cfg index total loop)).mapError .status

/-- A run that returns early does so as an error does. -/
abbrev Run (δ α : Type) : Type := Writing (Stats × Ending (DisplayError δ)) α

def select (stats : Stats) : List Select → Run δ (List Select)
  | [] => throw (stats, .waiting)
  | .done :: _ => throw (stats, .returned none)
  | .due :: events => pure events

/-- The frames that are left of one pass, each with its index. -/
def pass (m : Means δ) (cfg : Config) (total loop : ℕ) :
    List (Str × ℕ) → Stats → List Select → Run δ (Stats × List Select)
  | [], stats, events => pure (stats, events)
  | (frame, i) :: rest, stats, events => do
    let events ← select stats events
    (drawFrame m cfg frame i total loop).mapError fun e => (stats, .returned (some e))
    pass m cfg total loop rest ⟨stats.framesShown + 1, stats.loopsCompleted⟩ events

/-- The passes from number `loop` on. Each takes at least one event, so that they can be counted. -/
def loopFrom (m : Means δ) (cfg : Config) (frames : List Str) :
    ℕ → ℕ → Stats → List Select → Run δ Stats
  | 0, _, stats, _ => throw (stats, .waiting)
  | fuel + 1, loop, stats, events =>
    if cfg.loops = 0 ∨ loop < cfg.loops then do
      let (stats, events) ← pass m cfg frames.length loop frames.zipIdx stats events
      loopFrom m cfg frames fuel (loop + 1) ⟨stats.framesShown, stats.loopsCompleted + 1⟩ events
    else pure stats

/-- What comes before the passes. -/
def hold (m : Means δ) (cfg : Config) (stats : Stats) (events : List Select) :
    Run δ (List Select) :=
  if 0 < cfg.calibrationSeconds then do
    (calibration m cfg).mapError fun e => (stats, .returned (some e))
    select stats events
  else pure events

/-- A run whose selects take the cases `events`. -/
def run (m : Means δ) (cfg : Config) (frames : List Str) (events : List Select) :
    List Str → (Stats × Ending (DisplayError δ)) × List Str :=
  let stats : Stats := ⟨0, 0⟩
  result (match cfg.validate with
    | .error e => throw (stats, .returned (some e))
    | .ok () =>
      if frames = [] then throw (stats, .returned (some .noFrames))
      else do
        let events ← hold m cfg stats events
        let stats ← loopFrom m cfg frames (events.length + 1) 0 stats events
        pure (stats, .returned none))

/-! ### What a run shows -/

section draws
variable (m : Means δ) (cfg : Config)

/-- What is on the screen once a grid and the text under it have been drawn. -/
def codeText (qr : QRCode) (note : Str) : Str :=
  (if cfg.clearScreen then clear else []) ++ qr.picture ++ note

/-- What cannot be encoded has no text. -/
def shownText (payload note : Str) : Str :=
  match m.encode payload with
  | .error _ => []
  | .ok qr => codeText cfg qr note

/-- What stops a payload from being drawn. -/
def Fault (payload : Str) : Prop := m.sink.Faulty ∨ ∃ e, m.encode payload = .error e

variable {m cfg}

lemma emits_drawCode {fault : Prop} (hfault : m.sink.Faulty → fault) (qr : QRCode)
    (rendering : TerminalError δ → DisplayError δ) :
    Emits fault (drawCode m cfg qr rendering) (fun _ => [])
      ((if cfg.clearScreen then clear else []) ++ qr.picture) := by
  have hpicture := (terminal_emits hfault qr).mapError rendering
  unfold drawCode
  split_ifs
  · exact ((emits_write hfault clear).mapError _).bind fun _ => hpicture
  · rw [List.nil_append]
    exact hpicture

/-- A grid, then the text under it. -/
lemma emits_noted {fault : Prop} (hfault : m.sink.Faulty → fault) (qr : QRCode)
    (rendering : TerminalError δ → DisplayError δ) (noting : δ → DisplayError δ) (note : Str) :
    Emits fault (do drawCode m cfg qr rendering; (write m.sink note).mapError noting)
      (fun _ => []) (codeText cfg qr note) :=
  (emits_drawCode hfault qr rendering).bind fun _ => (emits_write hfault note).mapError noting

lemma emits_calibration (m : Means δ) (cfg : Config) :
    Emits (Fault m (calibrationPayload cfg)) (calibration m cfg) (fun _ => [])
      (shownText m cfg (calibrationPayload cfg) (calibrationNote cfg)) := by
  unfold calibration shownText
  rcases h : m.encode (calibrationPayload cfg) with e | qr
  · exact emits_throw (.inr ⟨e, h⟩) _
  · exact emits_noted .inl qr .renderingCalibration .announcing (calibrationNote cfg)

lemma emits_drawFrame (frame : Str) (index total loop : ℕ) :
    Emits (Fault m frame) (drawFrame m cfg frame index total loop) (fun _ => [])
      (shownText m cfg frame (statusLine cfg index total loop)) := by
  unfold drawFrame shownText
  rcases h : m.encode frame with e | qr
  · exact emits_throw (.inr ⟨e, h⟩) _
  · exact emits_noted .inl qr (.renderingFrame index) .status (statusLine cfg index total loop)

end draws

/-! ### One pass

The screens are numbered through all passes; `text` is what each of them shows. -/

/-- The text of `j` screens from number `k` on. -/
def screens (text : ℕ → Str) (k j : ℕ) : Str := (List.range' k j).flatMap text

@[simp] lemma screens_zero (text : ℕ → Str) (k : ℕ) : screens text k 0 = [] := rfl

lemma screens_add (text : ℕ → Str) (k i j : ℕ) :
    screens text k (i + j) = screens text k i ++ screens text (k + i) j := by
  unfold screens
  rw [← List.range'_append_1, List.flatMap_append]

lemma screens_one (text : ℕ → Str) (k : ℕ) : screens text k 1 = text k := by
  simp [screens]

/-- How a run is left short of its end, `j` screens after number `k`. -/
def Halts (text : ℕ → Str) (fault : ℕ → Prop) (k j : ℕ) (events : List Select) (out : Str) :
    Ending (DisplayError δ) → Prop
  | .waiting => events = List.replicate j .due ∧ out = screens text k j
  | .returned none => List.replicate j .due ++ [.done] <+: events ∧ out = screens text k j
  | .returned (some _) => List.replicate (j + 1) .due <+: events ∧ fault (k + j) ∧
      ∃ part, part <+: text (k + j) ∧ out = screens text k j ++ part

/-- What comes after `i` screens comes later by as many. -/
lemma Halts.later {text : ℕ → Str} {fault : ℕ → Prop} {i j k : ℕ} {events rest : List Select}
    {out : Str} {ending : Ending (DisplayError δ)}
    (hevents : events = List.replicate i .due ++ rest)
    (h : Halts text fault (k + i) j rest out ending) :
    Halts text fault k (i + j) events (screens text k i ++ out) ending := by
  have hdue : ∀ tail : List Select, tail <+: rest → List.replicate i .due ++ tail <+: events :=
    fun tail ht => by
      rw [hevents]
      exact (List.prefix_append_right_inj _).mpr ht
  rcases ending with _ | (_ | e)
  · obtain ⟨rfl, rfl⟩ := h
    refine ⟨?_, (screens_add text k i j).symm⟩
    rw [hevents, List.replicate_add]
  · obtain ⟨hpre, rfl⟩ := h
    refine ⟨?_, (screens_add text k i j).symm⟩
    rw [List.replicate_add, List.append_assoc]
    exact hdue _ hpre
  · obtain ⟨hpre, hfault, part, hpart, rfl⟩ := h
    rw [Nat.add_assoc] at hfault hpart
    refine ⟨?_, hfault, part, hpart, ?_⟩
    · rw [Nat.add_assoc, List.replicate_add]
      exact hdue _ hpre
    · rw [screens_add, List.append_assoc]

section runs
variable {m : Means δ} {cfg : Config}

/-- A frame that the timer fires for. -/
lemma pass_due (total loop : ℕ) (frame : Str) (i : ℕ) (rest : List (Str × ℕ)) (stats : Stats)
    (events : List Select) :
    pass m cfg total loop ((frame, i) :: rest) stats (.due :: events)
      = ((drawFrame m cfg frame i total loop).mapError fun e => (stats, Ending.returned (some e)))
        >>= fun _ =>
          pass m cfg total loop rest ⟨stats.framesShown + 1, stats.loopsCompleted⟩ events :=
  rfl

/-- One pass over what is left of the frames, of which the first is screen number `k`. -/
lemma pass_spec (text : ℕ → Str) (fault : ℕ → Prop) (total loop k : ℕ) {items : List (Str × ℕ)}
    (hdraw : ∀ j item, items[j]? = some item → Emits (fault (k + j))
      (drawFrame m cfg item.1 item.2 total loop) (fun _ => []) (text (k + j)))
    (stats : Stats) (events : List Select) (taken : List Str) :
    ∃ out, (pass m cfg total loop items stats events taken).2.flatten = taken.flatten ++ out ∧
      match (pass m cfg total loop items stats events taken).1 with
      | .ok (stats', rest) => events = List.replicate items.length .due ++ rest ∧
        stats' = ⟨stats.framesShown + items.length, stats.loopsCompleted⟩ ∧
        out = screens text k items.length
      | .error (stats', ending) => ∃ j < items.length,
        stats' = ⟨stats.framesShown + j, stats.loopsCompleted⟩ ∧
        Halts text fault k j events out ending := by
  induction items generalizing k stats events taken with
  | nil => exact ⟨[], (List.append_nil _).symm, rfl, rfl, rfl⟩
  | cons item items ih =>
    obtain ⟨frame, i⟩ := item
    rcases events with _ | ⟨_ | _, events⟩
    · exact ⟨[], (List.append_nil _).symm, 0, by simp, rfl, rfl, rfl⟩
    · exact ⟨[], (List.append_nil _).symm, 0, by simp, rfl, by simp [Halts]⟩
    · obtain ⟨out, hout, hres⟩ := hdraw 0 (frame, i) rfl taken
      rw [pass_due]
      rcases hrun : drawFrame m cfg frame i total loop taken with ⟨e | _, taken'⟩
      · rw [hrun] at hout hres
        rw [bind_of_error (mapError_of_error hrun _)]
        exact ⟨out, hout, 0, by simp, rfl, by simp, hres.1, out, hres.2, rfl⟩
      · rw [hrun] at hout hres
        rw [bind_of_ok (mapError_of_ok hrun _)]
        have hout' : out = text k := by simpa using hres
        obtain ⟨later, hlater, hrest⟩ := ih (k + 1)
          (fun j item hj => by
            have := hdraw (j + 1) item hj
            rwa [show k + (j + 1) = k + 1 + j by omega] at this)
          ⟨stats.framesShown + 1, stats.loopsCompleted⟩ events taken'
        refine ⟨out ++ later, by rw [hlater, hout, List.append_assoc], ?_⟩
        have hone : screens text k 1 = out := by rw [screens_one, hout']
        rcases hpass : (pass m cfg total loop items ⟨stats.framesShown + 1, stats.loopsCompleted⟩
          events taken').1 with ⟨stats', ending⟩ | ⟨stats', rest⟩
        · rw [hpass] at hrest
          obtain ⟨j, hj, hstats, hhalts⟩ := hrest
          refine ⟨1 + j, by simp; omega, by rw [hstats, Nat.add_assoc], ?_⟩
          rw [← hone]
          exact hhalts.later rfl
        · rw [hpass] at hrest
          obtain ⟨hevents, hstats, hscreens⟩ := hrest
          refine ⟨by rw [hevents]; rfl, ?_, ?_⟩
          · rw [hstats, List.length_cons, Nat.add_assoc, Nat.add_comm 1]
          · rw [hscreens, ← hone, List.length_cons, Nat.add_comm items.length, screens_add]

end runs

/-! ### All passes -/

section stream
variable (m : Means δ) (cfg : Config) (frames : List Str)

/-- The frame on screen number `k` of the stream, which goes through the frames again and again. -/
def frameAt (k : ℕ) : Str := frames.getD (k % frames.length) []

def screen (k : ℕ) : Str :=
  shownText m cfg (frameAt frames k)
    (statusLine cfg (k % frames.length) frames.length (k / frames.length))

/-- What is shown before the stream begins. -/
def opening : Str :=
  if 0 < cfg.calibrationSeconds then
    shownText m cfg (calibrationPayload cfg) (calibrationNote cfg)
  else []

/-- The number of waits before the stream begins. -/
def lead : ℕ := if 0 < cfg.calibrationSeconds then 1 else 0

variable {m cfg frames}

/-- The frames of one pass are the next ones of the stream. -/
lemma emits_screen {loop j : ℕ} {item : Str × ℕ} (h : frames.zipIdx[j]? = some item) :
    Emits (Fault m (frameAt frames (loop * frames.length + j)))
      (drawFrame m cfg item.1 item.2 frames.length loop) (fun _ => [])
      (screen m cfg frames (loop * frames.length + j)) := by
  rw [List.getElem?_zipIdx] at h
  obtain ⟨frame, hframe, rfl⟩ := Option.map_eq_some_iff.mp h
  have hj : j < frames.length := (List.getElem?_eq_some_iff.mp hframe).1
  have hmod : (loop * frames.length + j) % frames.length = j := by
    rw [Nat.mul_add_mod_self_right, Nat.mod_eq_of_lt hj]
  have hdiv : (loop * frames.length + j) / frames.length = loop := by
    rw [Nat.add_comm, Nat.add_mul_div_right _ _ (by omega), Nat.div_eq_of_lt hj, Nat.zero_add]
  have hat : frameAt frames (loop * frames.length + j) = frame := by
    rw [frameAt, hmod, List.getD_eq_getElem?_getD, hframe]
    rfl
  rw [screen, hat, hmod, hdiv, Nat.zero_add]
  exact emits_drawFrame frame j frames.length loop

/-- The passes from number `loop` on. -/
lemma loopFrom_spec (m : Means δ) {p : ℕ} (hp : cfg.loops = p) (hframes : 0 < frames.length)
    {fuel : ℕ} {events : List Select} (hfuel : events.length < fuel) {loop : ℕ}
    (hloop : p = 0 ∨ loop ≤ p) (taken : List Str) :
    ∃ out j, (loopFrom m cfg frames fuel loop ⟨loop * frames.length, loop⟩ events taken).2.flatten
        = taken.flatten ++ out ∧
      match (loopFrom m cfg frames fuel loop ⟨loop * frames.length, loop⟩ events taken).1 with
      | .ok stats' => p ≠ 0 ∧ loop * frames.length + j = p * frames.length ∧
        stats' = ⟨loop * frames.length + j, p⟩ ∧ List.replicate j .due <+: events ∧
        out = screens (screen m cfg frames) (loop * frames.length) j
      | .error (stats', ending) => (p = 0 ∨ loop * frames.length + j < p * frames.length) ∧
        stats' = ⟨loop * frames.length + j, (loop * frames.length + j) / frames.length⟩ ∧
        Halts (screen m cfg frames) (fun k => Fault m (frameAt frames k))
          (loop * frames.length) j events out ending := by
  induction fuel generalizing loop events taken with
  | zero => omega
  | succ fuel ih =>
    unfold loopFrom
    by_cases hcond : cfg.loops = 0 ∨ loop < cfg.loops
    · simp only [if_pos hcond]
      obtain ⟨out, hout, hres⟩ := pass_spec (screen m cfg frames)
        (fun k => Fault m (frameAt frames k)) frames.length loop (loop * frames.length)
        (fun j item => emits_screen) ⟨loop * frames.length, loop⟩ events taken
      rcases hrun : pass m cfg frames.length loop frames.zipIdx ⟨loop * frames.length, loop⟩ events
        taken with ⟨⟨stats', ending⟩ | ⟨stats', rest⟩, taken'⟩
      · rw [hrun] at hout hres
        rw [bind_of_error hrun]
        obtain ⟨j, hj, hstats, hhalts⟩ := hres
        rw [List.length_zipIdx] at hj
        refine ⟨out, j, hout, ?_, ?_, hhalts⟩
        · rcases Nat.eq_zero_or_pos p with hzero | hpos
          · exact .inl hzero
          · have hle : (loop + 1) * frames.length ≤ p * frames.length :=
              Nat.mul_le_mul_right _ (by omega)
            exact .inr (by linarith)
        · rw [hstats]
          congr 1
          rw [Nat.add_comm, Nat.add_mul_div_right _ _ hframes, Nat.div_eq_of_lt hj, Nat.zero_add]
      · rw [hrun] at hout hres
        rw [bind_of_ok hrun]
        obtain ⟨hevents, hstats, hscreens⟩ := hres
        rw [List.length_zipIdx] at hevents hstats hscreens
        have hrest : rest.length < fuel := by
          rw [hevents, List.length_append, List.length_replicate] at hfuel
          omega
        have hnext : loop * frames.length + frames.length = (loop + 1) * frames.length := by ring
        obtain ⟨later, j, hlater, hloops⟩ := ih hrest (show p = 0 ∨ loop + 1 ≤ p by omega) taken'
        rw [hstats]
        dsimp only
        rw [hnext]
        refine ⟨out ++ later, frames.length + j, by rw [hlater, hout, List.append_assoc], ?_⟩
        rw [← Nat.add_assoc, hnext]
        rcases hlast : (loopFrom m cfg frames fuel (loop + 1) ⟨(loop + 1) * frames.length, loop + 1⟩
          rest taken').1 with ⟨stats'', ending⟩ | stats''
        · rw [hlast] at hloops
          obtain ⟨hbound, hstats', hhalts⟩ := hloops
          rw [← hnext] at hhalts
          exact ⟨hbound, hstats', hscreens ▸ hhalts.later hevents⟩
        · rw [hlast] at hloops
          obtain ⟨hne, hcount, hstats', hdue, hscreens'⟩ := hloops
          refine ⟨hne, hcount, hstats', ?_, ?_⟩
          · rw [hevents, List.replicate_add]
            exact (List.prefix_append_right_inj _).mpr hdue
          · rw [hscreens, hscreens', ← hnext, screens_add]
    · simp only [if_neg hcond]
      have hend : p = loop := by omega
      exact ⟨[], 0, (List.append_nil _).symm, by omega, by rw [hend]; rfl, by rw [hend]; rfl,
        List.nil_prefix, rfl⟩

/-- How a run ends, and what is then on the terminal: `k` screens after the opening. The first event
of a run with an opening is the end of its wait. -/
def Shows (m : Means δ) (cfg : Config) (frames : List Str) (k : ℕ) (events : List Select)
    (out : Str) : Ending (DisplayError δ) → Prop
  | .waiting => (∀ e ∈ events, e = .due) ∧ k = events.length - lead cfg ∧
      out = opening m cfg ++ screens (screen m cfg frames) 0 k
  | .returned none => out = opening m cfg ++ screens (screen m cfg frames) 0 k ∧
      ((∃ i, List.replicate i .due ++ [.done] <+: events ∧ k = i - lead cfg) ∨
        cfg.loops ≠ 0 ∧ k = cfg.loops.toNat * frames.length ∧
          List.replicate (lead cfg + k) .due <+: events)
  | .returned (some _) =>
      (0 < cfg.calibrationSeconds ∧ k = 0 ∧ Fault m (calibrationPayload cfg) ∧
        out <+: opening m cfg) ∨
      (Fault m (frameAt frames k) ∧ List.replicate (lead cfg + k + 1) .due <+: events ∧
        ∃ part, part <+: screen m cfg frames k ∧
          out = opening m cfg ++ screens (screen m cfg frames) 0 k ++ part)

/-- What the passes show, after the opening. -/
lemma shows_of_halts {k : ℕ} {events rest : List Select} {out : Str}
    {ending : Ending (DisplayError δ)} (hevents : events = List.replicate (lead cfg) .due ++ rest)
    (h : Halts (screen m cfg frames) (fun k => Fault m (frameAt frames k)) 0 k rest out ending) :
    Shows m cfg frames k events (opening m cfg ++ out) ending := by
  have hdue : ∀ tail : List Select, tail <+: rest →
      List.replicate (lead cfg) .due ++ tail <+: events := fun tail ht => by
    rw [hevents]
    exact (List.prefix_append_right_inj _).mpr ht
  rcases ending with _ | (_ | e)
  · obtain ⟨rfl, rfl⟩ := h
    rw [← List.replicate_add] at hevents
    refine ⟨fun e he => ?_, ?_, rfl⟩
    · rw [hevents] at he
      exact List.eq_of_mem_replicate he
    · rw [hevents, List.length_replicate, Nat.add_sub_cancel_left]
  · obtain ⟨hpre, rfl⟩ := h
    refine ⟨rfl, .inl ⟨lead cfg + k, ?_, (Nat.add_sub_cancel_left ..).symm⟩⟩
    rw [List.replicate_add, List.append_assoc]
    exact hdue _ hpre
  · obtain ⟨hpre, hfault, part, hpart, rfl⟩ := h
    rw [Nat.zero_add] at hfault hpart
    refine .inr ⟨hfault, ?_, part, hpart, (List.append_assoc ..).symm⟩
    rw [Nat.add_assoc, List.replicate_add]
    exact hdue _ hpre

/-- What the passes come to, after the opening. -/
lemma passes_spec (hloops : 0 ≤ cfg.loops) (hframes : frames ≠ []) {events rest : List Select}
    (hevents : events = List.replicate (lead cfg) .due ++ rest) {taken : List Str}
    (htaken : taken.flatten = opening m cfg) :
    let r := result (do
      let stats ← loopFrom m cfg frames (rest.length + 1) 0 ⟨0, 0⟩ rest
      pure (stats, Ending.returned none)) taken
    ∃ k, r.1.1 = ⟨k, k / frames.length⟩ ∧ (cfg.loops = 0 ∨ k ≤ cfg.loops.toNat * frames.length) ∧
      Shows m cfg frames k events r.2.flatten r.1.2 := by
  dsimp only
  have hn : 0 < frames.length := List.length_pos_iff.mpr hframes
  obtain ⟨out, k, hout, hres⟩ := loopFrom_spec m
    (Int.toNat_of_nonneg hloops).symm hn (Nat.lt_succ_self rest.length) (.inr (Nat.zero_le _)) taken
  simp only [Nat.zero_mul, Nat.zero_add, htaken] at hout hres
  rcases hrun : loopFrom m cfg frames (rest.length + 1) 0 ⟨0, 0⟩ rest taken
    with ⟨⟨stats, ending⟩ | stats, taken'⟩
  · rw [hrun] at hout hres
    obtain ⟨hbound, hstats, hhalts⟩ := hres
    have h : result (loopFrom m cfg frames (rest.length + 1) 0 ⟨0, 0⟩ rest >>= fun stats =>
        pure (stats, Ending.returned none)) taken = ((stats, ending), taken') := by
      rw [result, bind_of_error hrun]
    rw [h]
    refine ⟨k, hstats, ?_, hout ▸ shows_of_halts hevents hhalts⟩
    exact hbound.imp (fun h0 => by omega) fun hlt => by omega
  · rw [hrun] at hout hres
    obtain ⟨hne, hcount, hstats, hdue, hscreens⟩ := hres
    have h : result (loopFrom m cfg frames (rest.length + 1) 0 ⟨0, 0⟩ rest >>= fun stats =>
        pure (stats, Ending.returned none)) taken = ((stats, .returned none), taken') := by
      rw [result, bind_of_ok hrun]
      rfl
    have hdiv : k / frames.length = cfg.loops.toNat := by
      rw [hcount, Nat.mul_div_cancel _ hn]
    rw [h]
    refine ⟨k, by rw [hstats, hdiv], .inr hcount.le, by rw [hout, hscreens], .inr ⟨?_, hcount, ?_⟩⟩
    · omega
    · rw [hevents, List.replicate_add]
      exact (List.prefix_append_right_inj _).mpr hdue

/-- A run that is not refused. -/
lemma run_eq (hvalid : cfg.validate = (.ok () : Except (DisplayError δ) Unit))
    (hframes : frames ≠ []) (events : List Select) : run m cfg frames events [] = result (do
      let events ← hold m cfg ⟨0, 0⟩ events
      let stats ← loopFrom m cfg frames (events.length + 1) 0 ⟨0, 0⟩ events
      pure (stats, .returned none)) [] := by
  unfold run
  rw [hvalid, if_neg hframes]

/-- Where nothing stops it, a run without limit shows a screen each time that the timer fires. -/
lemma Shows.eq_of_due {k j : ℕ} {events : List Select} {out : Str}
    {ending : Ending (DisplayError δ)} (h : Shows m cfg frames k events out ending)
    (hevents : events = List.replicate (lead cfg + j) .due) (hloops : cfg.loops = 0)
    (hcal : ¬Fault m (calibrationPayload cfg)) (hfault : ¬Fault m (frameAt frames k)) : k = j := by
  subst hevents
  rcases ending with _ | (_ | e)
  · rw [h.2.1, List.length_replicate, Nat.add_sub_cancel_left]
  · rcases h.2 with ⟨i, hpre, -⟩ | ⟨hne, -⟩
    · have hdone := hpre.subset (List.mem_append_right _ (List.mem_singleton_self Select.done))
      cases List.eq_of_mem_replicate hdone
    · exact absurd hloops hne
  · rcases h with ⟨-, -, hf, -⟩ | ⟨hf, -⟩
    · exact absurd hf hcal
    · exact absurd hf hfault

/-- Whatever the selects of a run meet, what has come out of it is the opening and the first `k`
screens of the endless stream, `k` is the number it counts, it has counted the passes they make, and
it ends by itself only after the last of the passes it is limited to. -/
theorem run_shows (m : Means δ) {cfg : Config} {frames : List Str}
    (hvalid : cfg.validate = (.ok () : Except (DisplayError δ) Unit)) (hframes : frames ≠ [])
    (events : List Select) :
    let r := run m cfg frames events []
    ∃ k, r.1.1 = ⟨k, k / frames.length⟩ ∧ (cfg.loops = 0 ∨ k ≤ cfg.loops.toNat * frames.length) ∧
      Shows m cfg frames k events r.2.flatten r.1.2 := by
  have hloops : 0 ≤ cfg.loops := by
    unfold Config.validate at hvalid
    split_ifs at hvalid
    omega
  dsimp only
  rw [run_eq hvalid hframes]
  by_cases hcal : 0 < cfg.calibrationSeconds
  · have hlead : lead cfg = 1 := if_pos hcal
    have hopening :
        opening m cfg = shownText m cfg (calibrationPayload cfg) (calibrationNote cfg) :=
      if_pos hcal
    obtain ⟨out, hout, hres⟩ := emits_calibration m cfg []
    unfold hold
    rw [if_pos hcal]
    rcases hdrawn : calibration m cfg [] with ⟨e | _, taken⟩
    · rw [hdrawn] at hout hres
      have hstop := mapError_of_error hdrawn fun e =>
        ((⟨0, 0⟩, Ending.returned (some e)) : Stats × Ending (DisplayError δ))
      rw [result, bind_of_error (bind_of_error hstop)]
      refine ⟨0, by rw [Nat.zero_div], .inr (Nat.zero_le _), .inl ⟨hcal, rfl, hres.1, ?_⟩⟩
      rw [hopening, hout]
      exact hres.2
    · rw [hdrawn] at hout hres
      have hdone := mapError_of_ok hdrawn fun e =>
        ((⟨0, 0⟩, Ending.returned (some e)) : Stats × Ending (DisplayError δ))
      have htaken : taken.flatten = opening m cfg := by
        rw [hopening, hout]
        simpa using hres
      rcases events with _ | ⟨_ | _, rest⟩
      · rw [result, bind_of_error ((bind_of_ok hdone).trans rfl)]
        refine ⟨0, by rw [Nat.zero_div], .inr (Nat.zero_le _), by simp, by simp, ?_⟩
        rw [screens_zero, List.append_nil, htaken]
      · rw [result, bind_of_error ((bind_of_ok hdone).trans rfl)]
        refine ⟨0, by rw [Nat.zero_div], .inr (Nat.zero_le _), ?_, .inl ⟨0, by simp, by simp⟩⟩
        rw [screens_zero, List.append_nil, htaken]
      · rw [result, bind_of_ok ((bind_of_ok hdone).trans rfl)]
        exact passes_spec hloops hframes (by rw [hlead]; rfl) htaken
  · have hopening : opening m cfg = [] := if_neg hcal
    have hlead : lead cfg = 0 := if_neg hcal
    unfold hold
    rw [if_neg hcal]
    exact passes_spec hloops hframes (by rw [hlead]; rfl) (by rw [hopening]; rfl)

end stream

/-- Three frames in byte mode, shown twice. -/
theorem run_shows_reference :
    let m : Means String := ⟨fun _ _ => none, Reference.qrcodegen, Reference.codes, 5, 0x4D⟩
    let cfg : Config := ⟨10, 2, 3, List.Vector.replicate 16 7, true⟩
    let frames : List Str := [[1], [2, 3], [4]]
    let r := run m cfg frames (List.replicate 9 .due) []
    ∃ k, r.1.1 = ⟨k, k / frames.length⟩ ∧ (cfg.loops = 0 ∨ k ≤ cfg.loops.toNat * frames.length) ∧
      Shows m cfg frames k (List.replicate 9 .due) r.2.flatten r.1.2 :=
  run_shows _ (by rfl) (by simp) _

end Dhow.Display
