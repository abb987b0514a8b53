import Dhow.Capture
import Dhow.Lib.Shuffle

/-!
# Where the captured images go

The channel of the buffered mode keeps the newest image: every image produced is received or
dropped, in order, and the last one is received. The statistics put every image in one bucket as
long as the handler returns no error: the image of a failed call is in none.
-/

namespace Dhow.Capture
open Bytes

variable {Image σ ε η : Type} {read : Image → Option Str} {handle : Handler σ ε} {r : Reader}
  {ending : Ending η}

/-! ### The images of a run -/

section Events
variable (evs : List (Event Image)) (ev : Event Image)

lemma imagesProduced_concat :
    imagesProduced (evs ++ [ev]) = imagesProduced evs ++ ev.producedImage.toList := by
  rw [imagesProduced, List.filterMap_append, imagesProduced]
  cases ev <;> rfl

lemma imagesDropped_concat :
    imagesDropped (evs ++ [ev]) = imagesDropped evs ++ ev.droppedImage.toList := by
  rw [imagesDropped, List.filterMap_append, imagesDropped]
  cases ev <;> rfl

lemma imagesReceived_concat :
    imagesReceived (evs ++ [ev]) = imagesReceived evs ++ ev.receivedImage.toList := by
  rw [imagesReceived, List.filterMap_append, imagesReceived]
  cases ev <;> rfl

end Events

/-! ### The channel -/

/-- The image in the producer's hand. -/
def Producer.hand : Producer Image → List Image
  | .next => []
  | .send img => [img]
  | .drain img => [img]
  | .resend img => [img]
  | .stopped => []

/-- The images on their way from the source to the consumer, the oldest first. -/
def Buffered.inFlight (b : Buffered Image σ ε η) : List Image := b.channel.toList ++ b.producer.hand

/-- Where the images are after a run from `source`: `settled` are the ones received or dropped. -/
structure Buffered.Flow (source : List Image) (b : Buffered Image σ ε η)
    (evs : List (Event Image)) (settled : List Image) : Prop where
  source_eq : source = imagesProduced evs ++ b.source
  images_eq : b.production.images = (imagesProduced evs).length
  dropped_eq : b.production.dropped = (imagesDropped evs).length
  room : ∀ img, b.producer = .resend img → b.channel = none
  produced_eq : imagesProduced evs = settled ++ b.inFlight
  shuffle : Shuffle (imagesReceived evs) (imagesDropped evs) settled
  newest : b.inFlight = [] → (imagesReceived evs).getLast? = settled.getLast?
  returned : ∀ stats err, b.consumer = .returned stats err →
    b.producer = .stopped ∧ b.channel = none ∧ stats.images = b.production.images ∧
      stats.dropped = b.production.dropped

namespace Buffered.Flow
variable {source settled : List Image} {b c : Buffered Image σ ε η} {evs : List (Event Image)}

lemma start (source : List Image) (handler : σ) :
    (Buffered.start source handler : Buffered Image σ ε η).Flow source [] [] where
  source_eq := rfl
  images_eq := rfl
  dropped_eq := rfl
  room := fun _ _ => rfl
  produced_eq := rfl
  shuffle := .nil
  newest := fun _ => rfl
  returned := by
    intro stats err hc
    cases hc

/-- A step that moves no image keeps the flow. -/
lemma silent (h : b.Flow source evs settled) (hsource : c.source = b.source)
    (himages : c.production.images = b.production.images)
    (hdropped : c.production.dropped = b.production.dropped) (hflight : c.inFlight = b.inFlight)
    (hroom : ∀ img, c.producer = .resend img → c.channel = none)
    (hreturned : ∀ stats err, c.consumer = .returned stats err →
      c.producer = .stopped ∧ c.channel = none ∧ stats.images = c.production.images ∧
        stats.dropped = c.production.dropped) :
    c.Flow source (evs ++ [.silent]) settled := by
  have hp := imagesProduced_concat evs (.silent : Event Image)
  have hd := imagesDropped_concat evs (.silent : Event Image)
  have hr := imagesReceived_concat evs (.silent : Event Image)
  simp only [Event.producedImage, Event.droppedImage, Event.receivedImage, Option.toList_none,
    List.append_nil] at hp hd hr
  constructor
  case source_eq => rw [hp, hsource, ← h.source_eq]
  case images_eq => rw [hp, himages, h.images_eq]
  case dropped_eq => rw [hd, hdropped, h.dropped_eq]
  case room => exact hroom
  case produced_eq => rw [hp, hflight, h.produced_eq]
  case shuffle => rw [hr, hd]; exact h.shuffle
  case newest => rw [hr, hflight]; exact h.newest
  case returned => exact hreturned

/-- A consumer that has returned has no producer to wait for. -/
lemma not_returned (h : b.Flow source evs settled) (hp : b.producer ≠ .stopped) (stats : Stats)
    (err : Option (RunError ε η)) : b.consumer ≠ .returned stats err := by
  intro hc
  exact hp (h.returned stats err hc).1

/-- A step of the producer that moves no image keeps the flow. -/
lemma producer (h : b.Flow source evs settled) (hp : b.producer ≠ .stopped)
    (hconsumer : c.consumer = b.consumer) (hsource : c.source = b.source)
    (himages : c.production.images = b.production.images)
    (hdropped : c.production.dropped = b.production.dropped) (hflight : c.inFlight = b.inFlight)
    (hroom : ∀ img, c.producer = .resend img → c.channel = none) :
    c.Flow source (evs ++ [.silent]) settled := by
  apply h.silent hsource himages hdropped hflight hroom
  intro stats err hc
  rw [hconsumer] at hc
  exact absurd hc (h.not_returned hp stats err)

/-- An image of the source goes into the producer's hand. -/
lemma yield {img : Image} {rest : List Image} (h : b.Flow source evs settled)
    (hp : b.producer = .next) (hs : b.source = img :: rest) :
    Flow source { b with
      source := rest
      producer := .send img
      production := { b.production with images := b.production.images + 1 } }
      (evs ++ [.produced img]) settled := by
  have hflight : b.inFlight = b.channel.toList := by simp [Buffered.inFlight, Producer.hand, hp]
  constructor
  case source_eq =>
    rw [imagesProduced_concat, h.source_eq, hs, List.append_assoc]
    rfl
  case images_eq =>
    rw [imagesProduced_concat, List.length_append, ← h.images_eq]
    rfl
  case dropped_eq =>
    rw [imagesDropped_concat, List.length_append, ← h.dropped_eq]
    rfl
  case room =>
    intro other ho
    cases ho
  case produced_eq =>
    rw [imagesProduced_concat, h.produced_eq, hflight, List.append_assoc]
    rfl
  case shuffle =>
    rw [imagesReceived_concat, imagesDropped_concat]
    simpa only [Event.receivedImage, Event.droppedImage, Option.toList_none, List.append_nil]
      using h.shuffle
  case newest =>
    intro hnil
    simp [Buffered.inFlight, Producer.hand] at hnil
  case returned =>
    intro stats err hc
    exact absurd hc (h.not_returned (by simp [hp]) stats err)

/-- The image in the channel is older than the one in the producer's hand, and dropped for it. -/
lemma drained {img pending : Image} (h : b.Flow source evs settled) (hp : b.producer = .drain img)
    (hc : b.channel = some pending) :
    Flow source { b with
      producer := .resend img
      channel := none
      production := { b.production with dropped := b.production.dropped + 1 } }
      (evs ++ [.dropped pending]) (settled ++ [pending]) := by
  have hflight : b.inFlight = [pending, img] := by
    simp [Buffered.inFlight, Producer.hand, hp, hc]
  constructor
  case source_eq =>
    rw [imagesProduced_concat]
    simpa [Event.producedImage] using h.source_eq
  case images_eq =>
    rw [imagesProduced_concat]
    simpa [Event.producedImage] using h.images_eq
  case dropped_eq =>
    rw [imagesDropped_concat, List.length_append, ← h.dropped_eq]
    rfl
  case room =>
    intro other _
    rfl
  case produced_eq =>
    rw [imagesProduced_concat, h.produced_eq, hflight]
    simp [Event.producedImage, Buffered.inFlight, Producer.hand]
  case shuffle =>
    rw [imagesReceived_concat, imagesDropped_concat]
    simpa [Event.receivedImage, Event.droppedImage] using h.shuffle.right pending
  case newest =>
    intro hnil
    simp [Buffered.inFlight, Producer.hand] at hnil
  case returned =>
    intro stats err hc
    exact absurd hc (h.not_returned (by simp [hp]) stats err)

/-- The image in the channel goes to the consumer. -/
lemma received {img : Image} (h : b.Flow source evs settled) (hc : b.channel = some img) :
    Flow source { b with consumer := .taken img, channel := none } (evs ++ [.received img])
      (settled ++ [img]) := by
  have hflight : b.inFlight = img :: b.producer.hand := by simp [Buffered.inFlight, hc]
  constructor
  case source_eq =>
    rw [imagesProduced_concat]
    simpa [Event.producedImage] using h.source_eq
  case images_eq =>
    rw [imagesProduced_concat]
    simpa [Event.producedImage] using h.images_eq
  case dropped_eq =>
    rw [imagesDropped_concat]
    simpa [Event.droppedImage] using h.dropped_eq
  case room =>
    intro other _
    rfl
  case produced_eq =>
    rw [imagesProduced_concat, h.produced_eq, hflight]
    simp [Event.producedImage, Buffered.inFlight]
  case shuffle =>
    rw [imagesReceived_concat, imagesDropped_concat]
    simpa [Event.receivedImage, Event.droppedImage] using h.shuffle.left img
  case newest =>
    intro _
    rw [imagesReceived_concat, Event.receivedImage, Option.toList_some, List.getLast?_concat,
      List.getLast?_concat]
  case returned =>
    intro stats err hret
    cases hret

/-- The consumer goes on, and no image moves. -/
lemma ranging (h : b.Flow source evs settled) (reading : Reading σ)
    (handleErr : Option (HandleError ε)) (cancelled : Bool) :
    Flow source { b with
      consumer := .ranging
      reading := reading
      handleErr := handleErr
      cancelled := cancelled } (evs ++ [.silent]) settled := by
  refine h.silent rfl rfl rfl rfl h.room ?_
  intro stats err hc
  cases hc

end Buffered.Flow

/-- Where the images are after one more step. -/
lemma Reader.Step.flow {source settled : List Image} {b c : Buffered Image σ ε η}
    {ev : Event Image} {evs : List (Event Image)} (hstep : r.Step read handle ending b ev c)
    (h : b.Flow source evs settled) : ∃ settled, c.Flow source (evs ++ [ev]) settled := by
  cases hstep with
  | yield hp hs => exact ⟨settled, h.yield hp hs⟩
  | ended hp hs =>
    exact ⟨settled, h.producer (by simp [hp]) rfl rfl rfl rfl
      (by simp [Buffered.inFlight, Producer.hand, hp]) (by simp)⟩
  | interrupted hp hc =>
    exact ⟨settled, h.producer (by simp [hp]) rfl rfl rfl rfl
      (by simp [Buffered.inFlight, Producer.hand, hp]) (by simp)⟩
  | sent hp hc =>
    exact ⟨settled, h.producer (by simp [hp]) rfl rfl rfl rfl
      (by simp [Buffered.inFlight, Producer.hand, hp, hc]) (by simp)⟩
  | full hp hc =>
    exact ⟨settled, h.producer (by simp [hp]) rfl rfl rfl rfl
      (by simp [Buffered.inFlight, Producer.hand, hp]) (by simp)⟩
  | @drained img pending hp hc => exact ⟨settled ++ [pending], h.drained hp hc⟩
  | emptied hp hc =>
    exact ⟨settled, h.producer (by simp [hp]) rfl rfl rfl rfl
      (by simp [Buffered.inFlight, Producer.hand, hp]) fun _ _ => hc⟩
  | resent hp hc =>
    exact ⟨settled, h.producer (by simp [hp]) rfl rfl rfl rfl
      (by simp [Buffered.inFlight, Producer.hand, hp, hc]) (by simp)⟩
  | @discarded img pending hp hc =>
    -- the consumer can only have made the channel emptier since the drain
    rw [h.room img hp] at hc
    cases hc
  | @received img hr hc => exact ⟨settled ++ [img], h.received hc⟩
  | skipped ht he => exact ⟨settled, h.ranging _ _ _⟩
  | consumed ht he => exact ⟨settled, h.ranging _ _ _⟩
  | returned hr hc hp =>
    refine ⟨settled, h.silent rfl rfl rfl rfl h.room ?_⟩
    intro stats err he
    cases he
    exact ⟨hp, hc, rfl, rfl⟩
  | cancel hc => exact ⟨settled, h.silent rfl rfl rfl rfl h.room h.returned⟩

lemma Reader.Steps.flow {source : List Image} {handler : σ} {b : Buffered Image σ ε η}
    {evs : List (Event Image)} (h : r.Steps read handle ending (.start source handler) evs b) :
    ∃ settled, b.Flow source evs settled := by
  induction h with
  | refl => exact ⟨[], Buffered.Flow.start source handler⟩
  | tail _ hstep ih =>
    obtain ⟨settled, hflow⟩ := ih
    exact hstep.flow hflow

/-! ### The end of a run -/

def Producer.weight : Producer Image → ℕ
  | .next => 1
  | .send _ => 7
  | .drain _ => 6
  | .resend _ => 5
  | .stopped => 0

def Consumer.weight : Consumer Image ε η → ℕ
  | .ranging => 1
  | .taken _ => 2
  | .returned _ _ => 0

/-- A bound on the steps that are left. -/
def Buffered.weight (b : Buffered Image σ ε η) : ℕ :=
  7 * b.source.length + b.producer.weight + 3 * b.channel.toList.length + b.consumer.weight +
    if b.cancelled then 0 else 1

lemma Reader.Step.weight_lt {b c : Buffered Image σ ε η} {ev : Event Image}
    (h : r.Step read handle ending b ev c) : c.weight < b.weight := by
  cases h <;> simp_all only [Buffered.weight, Producer.weight, Consumer.weight,
    Option.toList_none, Option.toList_some, List.length_nil, List.length_cons]
  case consumed =>
    cases b.cancelled <;> cases (Reader.consume read handle r _ b.reading).2 <;> simp
  all_goals simp
  all_goals omega

/-- Until it has returned a run can go on. -/
lemma Reader.exists_step (b : Buffered Image σ ε η) :
    (∃ stats err, b.consumer = .returned stats err) ∨
      ∃ ev c, r.Step read handle ending b ev c := by
  cases hconsumer : b.consumer with
  | returned stats err => exact .inl ⟨stats, err, rfl⟩
  | taken img =>
    cases herr : b.handleErr with
    | none => exact .inr ⟨_, _, .consumed hconsumer herr⟩
    | some err => exact .inr ⟨_, _, .skipped hconsumer herr⟩
  | ranging =>
    cases hchannel : b.channel with
    | some img => exact .inr ⟨_, _, .received hconsumer hchannel⟩
    | none =>
      cases hproducer : b.producer with
      | next =>
        cases hsource : b.source with
        | nil => exact .inr ⟨_, _, .ended hproducer hsource⟩
        | cons img rest => exact .inr ⟨_, _, .yield hproducer hsource⟩
      | send img => exact .inr ⟨_, _, .sent hproducer hchannel⟩
      | drain img => exact .inr ⟨_, _, .emptied hproducer hchannel⟩
      | resend img => exact .inr ⟨_, _, .resent hproducer hchannel⟩
      | stopped => exact .inr ⟨_, _, .returned hconsumer hchannel hproducer⟩

lemma Reader.Steps.length_add_weight_le {b c : Buffered Image σ ε η} {evs : List (Event Image)}
    (h : r.Steps read handle ending b evs c) : evs.length + c.weight ≤ b.weight := by
  induction h with
  | refl => simp
  | tail _ hstep ih =>
    have hlt := hstep.weight_lt
    rw [List.length_append, List.length_singleton]
    omega

/-- In every run of the buffered mode, in whatever order the two sides take their steps: an image
just produced is never the one dropped, since the channel is empty when it is sent again; what was
neither received nor dropped is in flight; the run ends; and when it has, every image produced was
received or dropped, in order, and the last one was received. -/
theorem Reader.keeps_newest {source : List Image} {handler : σ} {b : Buffered Image σ ε η}
    {evs : List (Event Image)} (h : r.Steps read handle ending (.start source handler) evs b) :
    (∀ img, b.producer = .resend img → b.channel = none) ∧
    imagesProduced evs <+: source ∧
    evs.length ≤ 7 * source.length + 3 ∧
    ((∃ stats err, b.consumer = .returned stats err) ∨
      ∃ ev c, r.Step read handle ending b ev c) ∧
    (∃ settled, imagesProduced evs = settled ++ b.inFlight ∧
      Shuffle (imagesReceived evs) (imagesDropped evs) settled) ∧
    ∀ stats err, b.consumer = .returned stats err →
      stats.images = (imagesProduced evs).length ∧
      stats.dropped = (imagesDropped evs).length ∧
      stats.images = stats.dropped + (imagesReceived evs).length ∧
      Shuffle (imagesReceived evs) (imagesDropped evs) (imagesProduced evs) ∧
      (imagesReceived evs).Sublist (imagesProduced evs) ∧
      (imagesReceived evs).getLast? = (imagesProduced evs).getLast? := by
  obtain ⟨settled, hflow⟩ := h.flow
  refine ⟨hflow.room, ⟨b.source, hflow.source_eq.symm⟩, ?_, r.exists_step b,
    ⟨settled, hflow.produced_eq, hflow.shuffle⟩, ?_⟩
  · have hle := h.length_add_weight_le
    simp only [Buffered.start, Buffered.weight, Producer.weight, Consumer.weight] at hle
    simp at hle
    omega
  · intro stats err hreturned
    obtain ⟨hproducer, hchannel, himages, hdropped⟩ := hflow.returned stats err hreturned
    have hflight : b.inFlight = [] := by simp [Buffered.inFlight, Producer.hand, hproducer, hchannel]
    have hproduced : imagesProduced evs = settled := by
      rw [hflow.produced_eq, hflight, List.append_nil]
    have hlength := hflow.shuffle.length_eq
    rw [hproduced, himages, hdropped, hflow.images_eq, hflow.dropped_eq, hproduced]
    refine ⟨rfl, rfl, ?_, hflow.shuffle, hflow.shuffle.sublist_left, hflow.newest hflight⟩
    omega

/-- The consumer is busy while the second image replaces the first. -/
theorem Reader.keeps_newest_two_images :
    let evs : List (Event ℕ) := [.produced 1, .silent, .produced 2, .silent, .dropped 1, .silent,
      .received 2, .silent, .silent, .silent]
    (imagesProduced evs).length = 2 ∧
      Shuffle (imagesReceived evs) (imagesDropped evs) (imagesProduced evs) ∧
      (imagesReceived evs).getLast? = (imagesProduced evs).getLast? := by
  let r : Reader := ⟨⟨zeros 16⟩, true⟩
  let handle : Handler Unit Unit := fun _ _ => (.ok true, ())
  have h : r.Steps (fun _ => none) handle (.exhausted : Ending Unit) (.start [1, 2] ()) [] _ := .refl
  have h := h.tail (.yield rfl rfl)
  have h := h.tail (.sent rfl rfl)
  have h := h.tail (.yield rfl rfl)
  have h := h.tail (.full rfl rfl)
  have h := h.tail (.drained rfl rfl)
  have h := h.tail (.resent rfl rfl)
  have h := h.tail (.received rfl rfl)
  have h := h.tail (.ended rfl rfl)
  have h := h.tail (.consumed rfl rfl)
  have h := h.tail (.returned rfl rfl rfl)
  obtain ⟨himages, -, -, hshuffle, -, hlast⟩ := (Reader.keeps_newest h).2.2.2.2.2 _ _ rfl
  exact ⟨himages.symm, hshuffle, hlast⟩

/-! ### One image -/

lemma position_of_accept {p : Prefilter} {frame : Str} (h : p.accept frame = .ok ()) :
    position frame = some (u32At frame offsetBlockIndex, u32At frame offsetSymbolIndex) := by
  have hlen : ¬frame.length < headerSize := by
    intro hlt
    rw [Prefilter.accept, if_pos hlt] at h
    cases h
  rw [position, if_neg hlen]

/-- The frame of an image that gets through the pre-filter. -/
def Reader.passing (read : Image → Option Str) (r : Reader) (img : Image) : Option Str :=
  (read img).filter fun frame => (r.prefilter.accept frame).isOk

lemma Reader.passing_eq_some_iff {img : Image} {frame : Str} :
    r.passing read img = some frame ↔
      read img = some frame ∧ r.prefilter.accept frame = .ok () := by
  rw [passing, Option.filter_eq_some_iff]
  cases r.prefilter.accept frame <;> simp [Except.isOk, Except.toBool]

/-- The key of the position that a frame names. -/
def keyOf (frame : Str) : UInt64 :=
  heldKey (u32At frame offsetBlockIndex) (u32At frame offsetSymbolIndex)

/-- The buckets of an image that was looked at. -/
def Stats.examined (s : Stats) : ℕ := s.unreadable + s.foreign + s.damaged + s.repeats + s.frames

lemma Stats.accounted_def (s : Stats) :
    s.Accounted ↔ s.images = s.dropped + (s.examined + s.skipped) := by
  unfold Accounted examined
  omega

/-- One image more was looked at. -/
structure Stats.Counts (s t : Stats) : Prop where
  images_eq : t.images = s.images
  dropped_eq : t.dropped = s.dropped
  skipped_eq : t.skipped = s.skipped
  examined_eq : t.examined = s.examined + 1

section Counts
variable (s : Stats)

lemma Stats.counts_unreadable : s.Counts { s with unreadable := s.unreadable + 1 } := by
  constructor <;> simp only [examined]
  omega

lemma Stats.counts_foreign : s.Counts { s with foreign := s.foreign + 1 } := by
  constructor <;> simp only [examined]
  omega

lemma Stats.counts_damaged : s.Counts { s with damaged := s.damaged + 1 } := by
  constructor <;> simp only [examined]
  omega

lemma Stats.counts_repeats : s.Counts { s with repeats := s.repeats + 1 } := by
  constructor <;> simp only [examined]
  omega

lemma Stats.counts_frames : s.Counts { s with frames := s.frames + 1 } := by
  constructor <;> simp only [examined]
  omega

end Counts

/-- What one image can do to the consumer. -/
inductive Reader.Consumed (read : Image → Option Str) (handle : Handler σ ε) (r : Reader)
    (img : Image) (s : Reading σ) : Reading σ × Option (HandleError ε) → Prop
  | filtered {stats} (hp : r.passing read img = none) (hc : s.stats.Counts stats)
      (hr : stats.repeats = s.stats.repeats) (hf : stats.frames = s.stats.frames) :
    Consumed read handle r img s ({ s with stats := stats }, none)
  | repeated {frame} (hp : r.passing read img = some frame) (hk : keyOf frame ∈ s.held) :
    Consumed read handle r img s
      ({ s with stats := { s.stats with repeats := s.stats.repeats + 1 } }, none)
  | failed {frame err h} (hp : r.passing read img = some frame) (hk : keyOf frame ∉ s.held)
      (hh : handle s.handler frame = (.error err, h)) :
    Consumed read handle r img s ({ s with handler := h },
      some ⟨u32At frame offsetBlockIndex, u32At frame offsetSymbolIndex, err⟩)
  | refused {frame h} (hp : r.passing read img = some frame) (hk : keyOf frame ∉ s.held)
      (hh : handle s.handler frame = (.ok false, h)) :
    Consumed read handle r img s ({ s with
      handler := h, stats := { s.stats with foreign := s.stats.foreign + 1 } }, none)
  | accepted {frame h} (hp : r.passing read img = some frame) (hk : keyOf frame ∉ s.held)
      (hh : handle s.handler frame = (.ok true, h)) :
    Consumed read handle r img s
      ({ held := insert (keyOf frame) s.held
         handler := h
         stats := { s.stats with frames := s.stats.frames + 1 } }, none)

lemma Reader.consumed_consume (read : Image → Option Str) (handle : Handler σ ε) (r : Reader)
    (img : Image) (s : Reading σ) : r.Consumed read handle img s (r.consume read handle img s) := by
  unfold consume
  cases hread : read img with
  | none =>
    have hp : r.passing read img = none := by rw [passing, hread, Option.filter_none]
    exact .filtered hp s.stats.counts_unreadable rfl rfl
  | some frame =>
    cases haccept : r.prefilter.accept frame with
    | error e =>
      have hp : r.passing read img = none := by
        simp [passing, hread, haccept, Except.isOk, Except.toBool]
      simp only [haccept]
      by_cases he : e = .frameDamaged
      · subst he
        exact .filtered hp s.stats.counts_damaged rfl rfl
      · cases e with
        | frameDamaged => exact absurd rfl he
        | _ => exact .filtered hp s.stats.counts_foreign rfl rfl
    | ok u =>
      have hp := Reader.passing_eq_some_iff.mpr ⟨hread, haccept⟩
      simp only [haccept, position_of_accept haccept]
      change r.Consumed read handle img s (if keyOf frame ∈ s.held then _ else _)
      by_cases hk : keyOf frame ∈ s.held
      · rw [if_pos hk]
        exact .repeated hp hk
      · rw [if_neg hk]
        cases hh : handle s.handler frame with
        | mk answer h =>
          cases answer with
          | error err => exact .failed hp hk hh
          | ok accepted =>
            cases accepted with
            | false => exact .refused hp hk hh
            | true => exact .accepted hp hk hh

/-! ### Many images -/

/-- The image gets as far as the handler, and the handler returns an error. -/
def Reader.Fails (read : Image → Option Str) (handle : Handler σ ε) (r : Reader) (img : Image)
    (s : Reading σ) : Prop :=
  ∃ frame, r.passing read img = some frame ∧ keyOf frame ∉ s.held ∧
    ∃ err, (handle s.handler frame).1 = .error err

/-- The handler returns an error for one of the images, taken one after the other. -/
def Reader.HandlerFails (read : Image → Option Str) (handle : Handler σ ε) (r : Reader) :
    List Image → Reading σ → Prop
  | [], _ => False
  | img :: images, s =>
    r.Fails read handle img s ∨ HandlerFails read handle r images (r.consume read handle img s).1

lemma Reader.consume_cases (read : Image → Option Str) (handle : Handler σ ε) (r : Reader)
    (img : Image) (s : Reading σ) :
    (r.Fails read handle img s ∧ (∃ err, (r.consume read handle img s).2 = some err) ∧
      (r.consume read handle img s).1.stats = s.stats) ∨
    (¬r.Fails read handle img s ∧ (r.consume read handle img s).2 = none ∧
      s.stats.Counts (r.consume read handle img s).1.stats) := by
  have h := r.consumed_consume read handle img s
  generalize r.consume read handle img s = out at h
  cases h with
  | filtered hp hc _ _ =>
    refine .inr ⟨?_, rfl, hc⟩
    rintro ⟨frame, hp', -⟩
    rw [hp] at hp'
    cases hp'
  | repeated hp hk =>
    refine .inr ⟨?_, rfl, s.stats.counts_repeats⟩
    rintro ⟨frame, hp', hk', -⟩
    rw [hp, Option.some.injEq] at hp'
    exact hk' (hp' ▸ hk)
  | failed hp hk hh => exact .inl ⟨⟨_, hp, hk, _, by rw [hh]⟩, ⟨_, rfl⟩, rfl⟩
  | refused hp hk hh =>
    refine .inr ⟨?_, rfl, s.stats.counts_foreign⟩
    rintro ⟨frame, hp', -, err, he⟩
    rw [hp, Option.some.injEq] at hp'
    rw [← hp', hh] at he
    cases he
  | accepted hp hk hh =>
    refine .inr ⟨?_, rfl, s.stats.counts_frames⟩
    rintro ⟨frame, hp', -, err, he⟩
    rw [hp, Option.some.injEq] at hp'
    rw [← hp', hh] at he
    cases he

/-- The counters do not change what happens to an image. -/
lemma Reader.consume_withStats (img : Image) (s : Reading σ) (stats : Stats) :
    ∃ stats', (r.consume read handle img { s with stats := stats }).1 =
      { (r.consume read handle img s).1 with stats := stats' } := by
  unfold consume
  cases read img with
  | none => exact ⟨_, rfl⟩
  | some frame =>
    dsimp only
    cases r.prefilter.accept frame with
    | error e => cases e <;> exact ⟨_, rfl⟩
    | ok u =>
      cases position frame with
      | none => exact ⟨_, rfl⟩
      | some key =>
        dsimp only
        by_cases hk : heldKey key.1 key.2 ∈ s.held
        · rw [if_pos hk, if_pos hk]
          exact ⟨_, rfl⟩
        · rw [if_neg hk, if_neg hk]
          split <;> exact ⟨_, rfl⟩

lemma Reader.handlerFails_withStats (images : List Image) (s : Reading σ) (stats : Stats) :
    r.HandlerFails read handle images { s with stats := stats } ↔
      r.HandlerFails read handle images s := by
  induction images generalizing s stats with
  | nil => rfl
  | cons img images ih =>
    obtain ⟨stats', hstats⟩ : ∃ stats', (r.consume read handle img { s with stats := stats }).1 =
      { (r.consume read handle img s).1 with stats := stats' } := r.consume_withStats img s stats
    rw [HandlerFails, HandlerFails, hstats, ih]
    rfl

/-- The direct mode: every image taken is looked at, but for the one of a failed call. -/
lemma Reader.runDirect_accounted (ending : Ending η) (cancelled : Bool) (images : List Image)
    {s : Reading σ} (hs : s.stats.Accounted) :
    (r.runDirect read handle ending cancelled images s).1.stats.Accounted ↔
      ¬r.HandlerFails read handle images s := by
  induction images generalizing s with
  | nil => exact ⟨fun _ => id, fun _ => hs⟩
  | cons img images ih =>
    have hfails : r.HandlerFails read handle (img :: images)
        { s with stats := { s.stats with images := s.stats.images + 1 } } ↔
        r.HandlerFails read handle (img :: images) s :=
      r.handlerFails_withStats (img :: images) s { s.stats with images := s.stats.images + 1 }
    rw [← hfails, runDirect, HandlerFails]
    dsimp only
    rw [Stats.accounted_def] at hs
    generalize hs' : ({ s with stats := { s.stats with images := s.stats.images + 1 } } : Reading σ)
      = s'
    have himages : s'.stats.images = s'.stats.dropped + (s'.stats.examined + s'.stats.skipped) + 1 := by
      subst hs'
      simp only [Stats.examined] at hs ⊢
      omega
    rcases r.consume_cases read handle img s' with ⟨hf, ⟨err, he⟩, hstats⟩ | ⟨hf, he, hcounts⟩
    · generalize r.consume read handle img s' = out at he hstats ⊢
      obtain ⟨t, e⟩ := out
      subst he
      dsimp only at hstats ⊢
      rw [Stats.accounted_def, hstats]
      constructor
      · omega
      · intro hn
        exact absurd (.inl hf) hn
    · generalize r.consume read handle img s' = out at he hcounts ⊢
      obtain ⟨t, e⟩ := out
      subst he
      dsimp only at hcounts ⊢
      have ht : t.stats.Accounted := by
        rw [Stats.accounted_def, hcounts.images_eq, hcounts.dropped_eq, hcounts.skipped_eq,
          hcounts.examined_eq]
        omega
      rw [ih ht, or_iff_right hf]

/-- The body of the consumer's loop in the buffered mode. -/
def Reader.digest (read : Image → Option Str) (handle : Handler σ ε) (r : Reader)
    (s : Reading σ × Option (HandleError ε)) (img : Image) :
    Reading σ × Option (HandleError ε) :=
  match s.2 with
  | some err => ({ s.1 with stats := { s.1.stats with skipped := s.1.stats.skipped + 1 } }, some err)
  | none => r.consume read handle img s.1

lemma Reader.foldl_digest_of_some (images : List Image) (s : Reading σ) (err : HandleError ε) :
    images.foldl (r.digest read handle) (s, some err) =
      ({ s with stats := { s.stats with skipped := s.stats.skipped + images.length } },
        some err) := by
  induction images generalizing s with
  | nil => rfl
  | cons img images ih =>
    rw [List.foldl_cons]
    change images.foldl _ ({ s with
      stats := { s.stats with skipped := s.stats.skipped + 1 } }, some err) = _
    rw [ih, List.length_cons, Nat.add_assoc, Nat.add_comm 1]

/-- The consumer's loop over the images it receives. -/
def Reader.digestAll (read : Image → Option Str) (handle : Handler σ ε) (r : Reader)
    (images : List Image) (s : Reading σ) : Reading σ × Option (HandleError ε) :=
  images.foldl (r.digest read handle) (s, none)

/-- Of the images of the consumer's loop all but the one of a failed call are counted. -/
lemma Reader.digestAll_examined (images : List Image) (s : Reading σ) :
    ((r.digestAll read handle images s).1.stats.examined +
        (r.digestAll read handle images s).1.stats.skipped =
      s.stats.examined + s.stats.skipped + images.length ↔
        ¬r.HandlerFails read handle images s) ∧
    (r.digestAll read handle images s).1.stats.examined +
        (r.digestAll read handle images s).1.stats.skipped ≤
      s.stats.examined + s.stats.skipped + images.length := by
  induction images generalizing s with
  | nil => exact ⟨⟨fun _ => id, fun _ => rfl⟩, le_rfl⟩
  | cons img images ih =>
    have hall : r.digestAll read handle (img :: images) s =
        images.foldl (r.digest read handle) (r.consume read handle img s) := rfl
    rw [hall, HandlerFails, List.length_cons]
    rcases r.consume_cases read handle img s with ⟨hf, ⟨err, he⟩, hstats⟩ | ⟨hf, he, hcounts⟩
    · generalize r.consume read handle img s = out at he hstats ⊢
      obtain ⟨t, e⟩ := out
      subst he
      dsimp only at hstats ⊢
      rw [r.foldl_digest_of_some, hstats]
      simp only [Stats.examined]
      refine ⟨⟨?_, ?_⟩, ?_⟩
      · omega
      · intro hn
        exact absurd (.inl hf) hn
      · omega
    · have hrest := ih (r.consume read handle img s).1
      generalize r.consume read handle img s = out at he hcounts hrest ⊢
      obtain ⟨t, e⟩ := out
      subst he
      dsimp only at hcounts hrest ⊢
      rw [hcounts.examined_eq, hcounts.skipped_eq, digestAll] at hrest
      rw [or_iff_right hf, ← hrest.1]
      omega

/-- The image the consumer has taken. -/
def Consumer.hand : Consumer Image ε η → List Image
  | .ranging => []
  | .taken img => [img]
  | .returned _ _ => []

/-- The consumer's state is that of its loop over the images it is done with. -/
structure Buffered.Digested (read : Image → Option Str) (handle : Handler σ ε) (r : Reader)
    (handler : σ) (b : Buffered Image σ ε η) (evs : List (Event Image)) (done : List Image) :
    Prop where
  received_eq : imagesReceived evs = done ++ b.consumer.hand
  reading_eq : (b.reading, b.handleErr) = r.digestAll read handle done (.start handler)
  returned : ∀ stats err, b.consumer = .returned stats err →
    stats.examined = b.reading.stats.examined ∧ stats.skipped = b.reading.stats.skipped

lemma Reader.Step.digested {handler : σ} {done : List Image} {b c : Buffered Image σ ε η}
    {ev : Event Image} {evs : List (Event Image)} (hstep : r.Step read handle ending b ev c)
    (h : b.Digested read handle r handler evs done) :
    ∃ done, c.Digested read handle r handler (evs ++ [ev]) done := by
  have hr := imagesReceived_concat evs ev
  cases hstep with
  | received hc hi =>
    refine ⟨done, ?_, h.reading_eq, ?_⟩
    · rw [hr, h.received_eq, hc]
      simp [Event.receivedImage, Consumer.hand]
    · intro stats err hreturned
      cases hreturned
  | @skipped img err ht he =>
    refine ⟨done ++ [img], ?_, ?_, ?_⟩
    · rw [hr, h.received_eq, ht]
      rfl
    · rw [digestAll, List.foldl_append, ← digestAll, ← h.reading_eq, he]
      rfl
    · intro stats err hreturned
      cases hreturned
  | @consumed img ht he =>
    refine ⟨done ++ [img], ?_, ?_, ?_⟩
    · rw [hr, h.received_eq, ht]
      rfl
    · rw [digestAll, List.foldl_append, ← digestAll, ← h.reading_eq, he]
      rfl
    · intro stats err hreturned
      cases hreturned
  | returned hc hn hp =>
    refine ⟨done, ?_, h.reading_eq, ?_⟩
    · rw [hr, h.received_eq, hc]
      simp [Event.receivedImage, Consumer.hand]
    · intro stats err hreturned
      cases hreturned
      exact ⟨rfl, rfl⟩
  | _ =>
    refine ⟨done, ?_, h.reading_eq, h.returned⟩
    rw [hr]
    simpa [Event.receivedImage] using h.received_eq

lemma Reader.Steps.digested {source : List Image} {handler : σ} {b : Buffered Image σ ε η}
    {evs : List (Event Image)} (h : r.Steps read handle ending (.start source handler) evs b) :
    ∃ done, b.Digested read handle r handler evs done := by
  induction h with
  | refl =>
    refine ⟨[], rfl, rfl, ?_⟩
    intro stats err hreturned
    cases hreturned
  | tail _ hstep ih =>
    obtain ⟨done, hdigested⟩ := ih
    exact hstep.digested hdigested

/-- In the direct mode and in every run of the buffered mode, every image is in exactly one bucket
if and only if the handler returns no error: the image of the failed call was taken from the
source and is in none. -/
theorem Reader.accounted_iff (read : Image → Option Str) (handle : Handler σ ε) (r : Reader)
    (ending : Ending η) (handler : σ) :
    (∀ cancelled images,
      (r.runDirect read handle ending cancelled images (.start handler)).1.stats.Accounted ↔
        ¬r.HandlerFails read handle images (.start handler)) ∧
    ∀ source evs b stats err, r.Steps read handle ending (.start source handler) evs b →
      b.consumer = .returned stats err →
      (stats.Accounted ↔ ¬r.HandlerFails read handle (imagesReceived evs) (.start handler)) := by
  refine ⟨fun cancelled images => r.runDirect_accounted ending cancelled images rfl, ?_⟩
  intro source evs b stats err hrun hreturned
  obtain ⟨settled, hflow⟩ := hrun.flow
  obtain ⟨done, hdigested⟩ := hrun.digested
  obtain ⟨hproducer, hchannel, himages, hdropped⟩ := hflow.returned stats err hreturned
  obtain ⟨hexamined, hskipped⟩ := hdigested.returned stats err hreturned
  have hflight : b.inFlight = [] := by simp [Buffered.inFlight, Producer.hand, hproducer, hchannel]
  have hproduced : imagesProduced evs = settled := by
    rw [hflow.produced_eq, hflight, List.append_nil]
  have hreceived : imagesReceived evs = done := by
    rw [hdigested.received_eq, hreturned]
    exact List.append_nil _
  have hexaminedAll : (r.digestAll read handle done (.start handler)).1.stats.examined +
      (r.digestAll read handle done (.start handler)).1.stats.skipped =
      (Reading.start handler).stats.examined + (Reading.start handler).stats.skipped +
        done.length ↔ ¬r.HandlerFails read handle done (.start handler) :=
    (r.digestAll_examined done (.start handler)).1
  have hzero : (Reading.start handler).stats.examined + (Reading.start handler).stats.skipped = 0 :=
    rfl
  have hlength := hflow.shuffle.length_eq
  rw [hreceived] at hlength ⊢
  rw [← hdigested.reading_eq, hzero, ← hexamined, ← hskipped] at hexaminedAll
  rw [Stats.accounted_def, ← hexaminedAll, himages, hdropped, hflow.images_eq, hflow.dropped_eq,
    hproduced]
  omega

/-- A source of one unreadable image, in the buffered mode. -/
theorem Reader.accounted_iff_unreadable :
    let r : Reader := ⟨⟨zeros 16⟩, true⟩
    let handle : Handler Unit Unit := fun _ _ => (.ok true, ())
    let stats : Stats := ⟨1, 0, 1, 0, 0, 0, 0, 0⟩
    stats.Accounted ↔ ¬r.HandlerFails (fun _ => none) handle [1] (.start ()) := by
  intro r handle stats
  have h : r.Steps (fun _ => none) handle (.exhausted : Ending Unit) (.start [1] ()) [] _ := .refl
  have h := h.tail (.yield rfl rfl)
  have h := h.tail (.sent rfl rfl)
  have h := h.tail (.received rfl rfl)
  have h := h.tail (.consumed rfl rfl)
  have h := h.tail (.ended rfl rfl)
  have h := h.tail (.returned rfl rfl rfl)
  exact (Reader.accounted_iff _ handle r .exhausted ()).2 [1] _ _ stats none h rfl

/-- A frame of the session of zeros with a payload of one byte. -/
def zeroFrame : Str :=
  frameMagic.toList ++ ([frameVersion] ++ ((zeros 35).toList ++ ([1, 0] ++
    (u32le (crc32cDigest [0]) ++ [0]))))

/-- The handler stops the receiver at the first frame, as `-stop-after 1` does: one image was
taken and it is in no bucket. -/
theorem Reader.not_accounted :
    let r : Reader := ⟨⟨zeros 16⟩, false⟩
    let handle : Handler Unit String := fun _ _ => (.error "frame limit reached", ())
    let stats := (r.runDirect some handle (.exhausted : Ending Unit) false [zeroFrame]
      (.start ())).1.stats
    stats = ⟨1, 0, 0, 0, 0, 0, 0, 0⟩ ∧ ¬stats.Accounted := by
  decide +kernel

end Dhow.Capture
