import OnnxInference.SPSCQueue

/-!
# The video example (`examples/yolo_infer/video_infer.cpp`)

The main thread reads the frames of a video, detects and draws, and pushes them into the queue; the thread `display`
pops them and counts the frames of each second.  The two step through the accesses of the queue in any order.  The
frames that are displayed are the first of those that were accepted, and a frame is turned away only at a full queue
(`displayed`).  When a pop fails `display` looks whether the main thread is still running, and ends if it is not: the
frames that were pushed in between are left in the queue (`left_behind`).
-/

namespace OnnxInference.VideoInfer

open Transition SPSCQueue

/-! ### The model -/

section Model

variable {Frame : Type}

/-- The main thread before it reads a frame, with the frame it works on, and behind its loop. -/
inductive Main (Frame : Type)
  | read
  | detect (frame : Frame)
  | push (frame : Frame)
  | pushing (frame : Frame)
  | stop
  | join
  | finished
  | terminated
  deriving DecidableEq

/-- The thread `display` before it reads the first time, in its loop, and behind it. -/
inductive Display
  | start
  | pop
  | popping
  | check
  | clock
  | ended
  deriving DecidableEq

/-- The queue, the flag and the two threads, with the lines that `display` has printed: the frames and the milliseconds
of each.  The frames that were offered to the queue with what `push` returned, and the number of elements that had been
pushed when the last pop failed, do not exist in the program. -/
structure State (Frame : Type) where
  queue : SPSCQueue.State Frame
  is_running : Bool
  video : List Frame
  main : Main Frame
  display : Display
  time_start : Int
  size : Nat
  printed : List (Nat × Nat)
  offered : List (Frame × Bool)
  looked : Nat

/-- The process has ended: `main` has returned, or an exception has left it. -/
def Main.over : Main Frame → Bool
  | .finished | .terminated => true
  | _ => false

/-- A step of the main thread.  The thread `display` can be joined until `main` returns, so that an exception of the
detector ends the process. -/
def mainStep (annotate : Frame → Option Frame) (default : Frame) (s : State Frame) : Option (State Frame) :=
  match s.main with
  | .read =>
    match s.video with
    | [] => some { s with main := .stop }
    | frame :: video => some { s with video := video, main := .detect frame }
  | .detect frame =>
    match annotate frame with
    | none => some { s with main := .terminated }
    | some frame => some { s with main := .push frame }
  | .push frame =>
    (SPSCQueue.step default s.queue (.call .producer (.pushTail frame))).map fun queue =>
      { s with queue := queue, main := .pushing frame }
  | .pushing frame =>
    (SPSCQueue.step default s.queue (.advance .producer)).map fun queue =>
      match queue.at_ .producer with
      | .returned (.push ok) => { s with queue := queue, main := .read, offered := s.offered ++ [(frame, ok)] }
      | _ => { s with queue := queue }
  | .stop => some { s with is_running := false, main := .join }
  | .join =>
    match s.display with
    | .ended => some { s with main := .finished }
    | _ => none
  | .finished | .terminated => none

/-- `duration_cast<milliseconds>` of nanoseconds, as a `size_t`. -/
def milliseconds (nanoseconds : Int) : Nat := (nanoseconds.tdiv 1000000 % 2 ^ 64).toNat

/-- A step of the thread `display`, where the clock shows `time` if it is read. -/
def displayStep (default : Frame) (s : State Frame) (time : Int) : Option (State Frame) :=
  match s.display with
  | .start => some { s with time_start := time, display := .pop }
  | .pop =>
    (SPSCQueue.step default s.queue (.call .consumer .popHead)).map fun queue =>
      { s with queue := queue, display := .popping }
  | .popping =>
    (SPSCQueue.step default s.queue (.advance .consumer)).map fun queue =>
      match queue.at_ .consumer with
      | .returned (.pop (some _)) => { s with queue := queue, size := s.size + 1, display := .clock }
      | .returned (.pop none) => { s with queue := queue, looked := queue.pushed.length, display := .check }
      | _ => { s with queue := queue }
  | .check => some { s with display := if s.is_running then .clock else .ended }
  | .clock =>
    let spend := milliseconds (time - s.time_start)
    if 1000 < spend then
      some { s with printed := s.printed ++ [(s.size, spend)], time_start := time, size := 0, display := .pop }
    else some { s with display := .pop }
  | .ended => none

inductive Label
  | main
  | display (time : Int)

def step (annotate : Frame → Option Frame) (default : Frame) (s : State Frame) : Label → Option (State Frame)
  | .main => mainStep annotate default s
  | .display time => if s.main.over then none else displayStep default s time

/-- The program with a video, once it is open and the detector is loaded.  What `detect` and `draw_boxs` make of a frame
is given, and is nothing where they throw. -/
def system (annotate : Frame → Option Frame) (default : Frame) (q : Queue Frame) (video : List Frame) :
    System (State Frame) Label where
  init := ⟨(SPSCQueue.system default q).init, true, video, .read, .start, 0, 0, [], [], 0⟩
  step := step annotate default

/-- `SPSCQueue<cv::Mat> imgs(100)`. -/
def capacity : UInt64 := 100

end Model

/-! ### A call of the queue -/

section Calls

variable {Frame : Type} {k : Nat} {q : SPSCQueue.State Frame}

/-- The frame that a call of `push` has still to hand over. -/
def pushes : At Frame → Option Frame
  | .pushTail item | .pushHead item _ | .pushWrite item _ _ | .pushStore item _ => some item
  | _ => none

/-- A call of `pop` is in progress. -/
def pops : At Frame → Bool
  | .popHead | .popTail _ | .popRead _ | .popStore _ _ => true
  | _ => false

/-- The accesses that are left of a call of `push` or `pop`. -/
def accesses : At Frame → Nat
  | .pushTail _ | .popHead => 4
  | .pushHead _ _ | .popTail _ => 3
  | .pushWrite _ _ _ | .popRead _ => 2
  | .pushStore _ _ | .popStore _ _ => 1
  | _ => 0

theorem accesses_le (l : At Frame) : accesses l ≤ 4 := by
  cases l <;> simp [accesses]

/-- What an access of a call of `push` does to the queue. -/
structure PushAccess (item : Frame) (q q' : SPSCQueue.State Frame) : Prop where
  consumer : q'.at_ .consumer = q.at_ .consumer
  popped : q'.popped = q.popped
  usable : q'.q.usable = q.q.usable
  accesses : accesses (q'.at_ .producer) < accesses (q.at_ .producer)
  outcome :
    (pushes (q'.at_ .producer) = some item ∧ q'.pushed = q.pushed) ∨
    (q'.at_ .producer = .returned (.push true) ∧ q'.pushed = q.pushed ++ [item]) ∨
    (q'.at_ .producer = .returned (.push false) ∧ q'.pushed = q.pushed ∧ q.count = q.q.usable.toNat)

/-- What an access of a call of `pop` does to the queue. -/
structure PopAccess (q q' : SPSCQueue.State Frame) : Prop where
  producer : q'.at_ .producer = q.at_ .producer
  pushed : q'.pushed = q.pushed
  usable : q'.q.usable = q.q.usable
  accesses : accesses (q'.at_ .consumer) < accesses (q.at_ .consumer)
  outcome :
    (pops (q'.at_ .consumer) = true ∧ q'.popped = q.popped) ∨
    (∃ item, q'.at_ .consumer = .returned (.pop (some item)) ∧ q'.popped = q.popped ++ [item]) ∨
    (q'.at_ .consumer = .returned (.pop none) ∧ q'.popped = q.popped ∧ q.count = 0)

theorem exists_pushAccess (default : Frame) (hi : SPSCQueue.Inv k q) {item : Frame}
    (hat : pushes (q.at_ .producer) = some item) :
    ∃ q', SPSCQueue.step default q (.advance .producer) = some q' ∧ SPSCQueue.Inv k q' ∧ PushAccess item q q' := by
  obtain ⟨q', hq'⟩ : ∃ q', advance default q .producer = some q' := by
    unfold advance
    cases h : q.at_ .producer <;> simp [h, pushes] at hat ⊢
  have hstep : SPSCQueue.step default q (.advance .producer) = some q'.record := by
    rw [SPSCQueue.step, hq', Option.map_some]
  refine ⟨_, hstep, hi.of_step hstep, ?_⟩
  have hfull := hi.push_false hq'
  unfold advance at hq'
  cases h : q.at_ .producer with
  | pushTail x | pushWrite x tail next | pushStore x next =>
    simp only [h, Option.some.injEq] at hq'
    subst hq'
    simp only [h, pushes, Option.some.injEq] at hat
    subst hat
    constructor <;> simp [State.record, State.goto, accesses, pushes, h, Queue.usable]
  | pushHead x tail =>
    simp only [h, Option.some.injEq] at hq'
    simp only [h, pushes, Option.some.injEq] at hat
    subst hat
    by_cases hnext : (tail + 1) &&& (q.q.capacity - 1) = q.q.head
    · rw [if_pos hnext] at hq'
      subst hq'
      have hcount := (hfull (by simp [State.goto])).2
      constructor <;> simp [State.record, State.goto, accesses, h, hcount]
    · rw [if_neg hnext] at hq'
      subst hq'
      constructor <;> simp [State.record, State.goto, accesses, pushes, h]
  | _ => simp [h, pushes] at hat

theorem exists_popAccess (default : Frame) (hi : SPSCQueue.Inv k q) (hat : pops (q.at_ .consumer) = true) :
    ∃ q', SPSCQueue.step default q (.advance .consumer) = some q' ∧ SPSCQueue.Inv k q' ∧ PopAccess q q' := by
  obtain ⟨q', hq'⟩ : ∃ q', advance default q .consumer = some q' := by
    unfold advance
    cases h : q.at_ .consumer <;> simp [h, pops] at hat ⊢
  have hstep : SPSCQueue.step default q (.advance .consumer) = some q'.record := by
    rw [SPSCQueue.step, hq', Option.map_some]
  refine ⟨_, hstep, hi.of_step hstep, ?_⟩
  have hempty := hi.pop_none hq'
  unfold advance at hq'
  cases h : q.at_ .consumer with
  | popHead | popRead head | popStore head x =>
    simp only [h, Option.some.injEq] at hq'
    subst hq'
    constructor <;> simp [State.record, State.goto, accesses, pops, h, Queue.usable]
  | popTail head =>
    simp only [h, Option.some.injEq] at hq'
    by_cases htail : head = q.q.tail
    · rw [if_pos htail] at hq'
      subst hq'
      have hcount := (hempty (by simp [State.goto])).2
      constructor <;> simp [State.record, State.goto, accesses, h, hcount]
    · rw [if_neg htail] at hq'
      subst hq'
      constructor <;> simp [State.record, State.goto, accesses, pops, h]
  | _ => simp [h, pops] at hat

/-- Where no call is in progress one can begin, and the elements stay what they are. -/
theorem exists_call (default : Frame) (hi : SPSCQueue.Inv k q) {p : Party} {l : At Frame}
    (hidle : (q.at_ p).busy = false) (hl : l.entry p = true) :
    ∃ q', SPSCQueue.step default q (.call p l) = some q' ∧ SPSCQueue.Inv k q' ∧ q'.at_ p = l ∧
      (∀ p' ≠ p, q'.at_ p' = q.at_ p') ∧ q'.pushed = q.pushed ∧ q'.popped = q.popped ∧ q'.q = q.q := by
  have hstep : SPSCQueue.step default q (.call p l) =
      some ({ q.goto p l with moments := Function.update q.moments p [] } : SPSCQueue.State Frame).record := by
    simp [SPSCQueue.step, call, hidle, hl]
  refine ⟨_, hstep, hi.of_step hstep, ?_, fun p' hp => ?_, rfl, rfl, rfl⟩
  · exact SPSCQueue.State.goto_self l
  · exact SPSCQueue.State.goto_of_ne hp l

end Calls

/-! ### What a step does -/

section Moves

variable {Frame : Type} {annotate : Frame → Option Frame} {default : Frame} {k : Nat} {s s' : State Frame} {l : Label}

/-- A call of `push` is in progress with the frame that the main thread is about to hand over, or none is. -/
def Main.Producing (l : At Frame) : Main Frame → Prop
  | .pushing frame => pushes l = some frame
  | _ => l.busy = false

/-- A call of `pop` is in progress, or none is. -/
def Display.Consuming (l : At Frame) : Display → Prop
  | .popping => pops l = true
  | _ => l.busy = false

/-- The queue, with both threads where their calls say. -/
structure Calls (k : Nat) (s : State Frame) : Prop where
  queue : SPSCQueue.Inv k s.queue
  producing : s.main.Producing (s.queue.at_ .producer)
  consuming : s.display.Consuming (s.queue.at_ .consumer)

/-- What a step does. -/
inductive Move (annotate : Frame → Option Frame) (s : State Frame) : Label → State Frame → Prop
  | eof (at_ : s.main = .read) (video : s.video = []) : Move annotate s .main { s with main := .stop }
  | read {frame video} (at_ : s.main = .read) (hv : s.video = frame :: video) :
    Move annotate s .main { s with video := video, main := .detect frame }
  | throw {frame} (at_ : s.main = .detect frame) (threw : annotate frame = none) :
    Move annotate s .main { s with main := .terminated }
  | detect {frame drawn} (at_ : s.main = .detect frame) (drew : annotate frame = some drawn) :
    Move annotate s .main { s with main := .push drawn }
  | push {frame} {queue : SPSCQueue.State Frame} (at_ : s.main = .push frame)
    (producer : queue.at_ .producer = .pushTail frame) (consumer : queue.at_ .consumer = s.queue.at_ .consumer)
    (pushed : queue.pushed = s.queue.pushed) (popped : queue.popped = s.queue.popped) :
    Move annotate s .main { s with queue := queue, main := .pushing frame }
  | access {frame} {queue : SPSCQueue.State Frame} (at_ : s.main = .pushing frame)
    (acc : PushAccess frame s.queue queue) (producer : pushes (queue.at_ .producer) = some frame)
    (pushed : queue.pushed = s.queue.pushed) : Move annotate s .main { s with queue := queue }
  | pushed {frame} {queue : SPSCQueue.State Frame} (at_ : s.main = .pushing frame)
    (acc : PushAccess frame s.queue queue) (producer : queue.at_ .producer = .returned (.push true))
    (pushed : queue.pushed = s.queue.pushed ++ [frame]) :
    Move annotate s .main { s with queue := queue, main := .read, offered := s.offered ++ [(frame, true)] }
  | dropped {frame} {queue : SPSCQueue.State Frame} (at_ : s.main = .pushing frame)
    (acc : PushAccess frame s.queue queue) (producer : queue.at_ .producer = .returned (.push false))
    (pushed : queue.pushed = s.queue.pushed) (full : s.queue.count = s.queue.q.usable.toNat) :
    Move annotate s .main { s with queue := queue, main := .read, offered := s.offered ++ [(frame, false)] }
  | stop (at_ : s.main = .stop) : Move annotate s .main { s with is_running := false, main := .join }
  | join (at_ : s.main = .join) (ended : s.display = .ended) : Move annotate s .main { s with main := .finished }
  | start {time} (running : s.main.over = false) (at_ : s.display = .start) :
    Move annotate s (.display time) { s with time_start := time, display := .pop }
  | pop {time} {queue : SPSCQueue.State Frame} (running : s.main.over = false) (at_ : s.display = .pop)
    (consumer : queue.at_ .consumer = .popHead) (producer : queue.at_ .producer = s.queue.at_ .producer)
    (pushed : queue.pushed = s.queue.pushed) (popped : queue.popped = s.queue.popped) :
    Move annotate s (.display time) { s with queue := queue, display := .popping }
  | look {time} {queue : SPSCQueue.State Frame} (running : s.main.over = false) (at_ : s.display = .popping)
    (acc : PopAccess s.queue queue) (consumer : pops (queue.at_ .consumer) = true)
    (popped : queue.popped = s.queue.popped) : Move annotate s (.display time) { s with queue := queue }
  | popped {time item} {queue : SPSCQueue.State Frame} (running : s.main.over = false) (at_ : s.display = .popping)
    (acc : PopAccess s.queue queue) (consumer : queue.at_ .consumer = .returned (.pop (some item)))
    (popped : queue.popped = s.queue.popped ++ [item]) :
    Move annotate s (.display time) { s with queue := queue, size := s.size + 1, display := .clock }
  | empty {time} {queue : SPSCQueue.State Frame} (running : s.main.over = false) (at_ : s.display = .popping)
    (acc : PopAccess s.queue queue) (consumer : queue.at_ .consumer = .returned (.pop none))
    (popped : queue.popped = s.queue.popped) (count : s.queue.count = 0) :
    Move annotate s (.display time) { s with queue := queue, looked := queue.pushed.length, display := .check }
  | check {time} (running : s.main.over = false) (at_ : s.display = .check) :
    Move annotate s (.display time) { s with display := if s.is_running then .clock else .ended }
  | print {time} (running : s.main.over = false) (at_ : s.display = .clock)
    (late : 1000 < milliseconds (time - s.time_start)) :
    Move annotate s (.display time) { s with
      printed := s.printed ++ [(s.size, milliseconds (time - s.time_start))], time_start := time, size := 0,
      display := .pop }
  | clock {time} (running : s.main.over = false) (at_ : s.display = .clock)
    (early : milliseconds (time - s.time_start) ≤ 1000) : Move annotate s (.display time) { s with display := .pop }

/-- A step of the main thread, if it does not wait for `display`. -/
theorem exists_mainMove (annotate : Frame → Option Frame) (default : Frame) (h : Calls k s)
    (hover : s.main.over = false) (hjoin : s.main = .join → s.display = .ended) :
    ∃ s', mainStep annotate default s = some s' ∧ Move annotate s .main s' ∧ Calls k s' := by
  obtain ⟨hq, hp, hc⟩ := h
  cases hat : s.main with
  | read =>
    rw [hat] at hp
    cases hv : s.video with
    | nil => exact ⟨_, by simp only [mainStep, hat, hv], .eof hat hv, hq, hp, hc⟩
    | cons frame video => exact ⟨_, by simp only [mainStep, hat, hv], .read hat hv, hq, hp, hc⟩
  | detect frame =>
    rw [hat] at hp
    cases hf : annotate frame with
    | none => exact ⟨_, by simp only [mainStep, hat, hf], .throw hat hf, hq, hp, hc⟩
    | some drawn => exact ⟨_, by simp only [mainStep, hat, hf], .detect hat hf, hq, hp, hc⟩
  | push frame =>
    rw [hat] at hp
    obtain ⟨queue, hstep, hq', hproducer, hother, hpushed, hpopped, -⟩ :=
      exists_call default hq (l := .pushTail frame) hp rfl
    have hconsumer := hother .consumer (by decide)
    refine ⟨_, by simp only [mainStep, hat, hstep, Option.map_some], .push hat hproducer hconsumer hpushed hpopped,
      hq', ?_, ?_⟩
    · simp [Main.Producing, hproducer, pushes]
    · exact hconsumer.symm ▸ hc
  | pushing frame =>
    rw [hat] at hp
    obtain ⟨queue, hstep, hq', hacc⟩ := exists_pushAccess default hq hp
    have hc' : s.display.Consuming (queue.at_ .consumer) := hacc.consumer.symm ▸ hc
    rcases hacc.outcome with ⟨hproducer, hpushed⟩ | ⟨hproducer, hpushed⟩ | ⟨hproducer, hpushed, hfull⟩
    · refine ⟨{ s with queue := queue }, ?_, .access hat hacc hproducer hpushed, hq', ?_, hc'⟩
      · simp only [mainStep, hat, hstep, Option.map_some]
        cases h : queue.at_ .producer <;> simp [h, pushes] at hproducer ⊢
      · simpa [Main.Producing, hat] using hproducer
    · refine ⟨_, by simp only [mainStep, hat, hstep, Option.map_some, hproducer], .pushed hat hacc hproducer hpushed,
        hq', ?_, hc'⟩
      simp [Main.Producing, hproducer, At.busy]
    · refine ⟨_, by simp only [mainStep, hat, hstep, Option.map_some, hproducer],
        .dropped hat hacc hproducer hpushed hfull, hq', ?_, hc'⟩
      simp [Main.Producing, hproducer, At.busy]
  | stop =>
    rw [hat] at hp
    exact ⟨_, by simp only [mainStep, hat], .stop hat, hq, hp, hc⟩
  | join =>
    rw [hat] at hp
    have hended := hjoin hat
    exact ⟨_, by simp only [mainStep, hat, hended], .join hat hended, hq, hp, hc⟩
  | finished | terminated =>
    rw [hat] at hover
    cases hover

/-- A step of `display`. -/
theorem exists_displayMove (annotate : Frame → Option Frame) (default : Frame) (h : Calls k s)
    (hover : s.main.over = false) (hended : s.display ≠ .ended) (time : Int) :
    ∃ s', displayStep default s time = some s' ∧ Move annotate s (.display time) s' ∧ Calls k s' := by
  obtain ⟨hq, hp, hc⟩ := h
  cases hat : s.display with
  | start =>
    rw [hat] at hc
    exact ⟨_, by simp only [displayStep, hat], .start hover hat, hq, hp, hc⟩
  | pop =>
    rw [hat] at hc
    obtain ⟨queue, hstep, hq', hconsumer, hother, hpushed, hpopped, -⟩ :=
      exists_call default hq (p := .consumer) (l := .popHead) hc rfl
    have hproducer := hother .producer (by decide)
    refine ⟨_, by simp only [displayStep, hat, hstep, Option.map_some],
      .pop hover hat hconsumer hproducer hpushed hpopped, hq', ?_, ?_⟩
    · exact hproducer.symm ▸ hp
    · simp [Display.Consuming, hconsumer, pops]
  | popping =>
    rw [hat] at hc
    obtain ⟨queue, hstep, hq', hacc⟩ := exists_popAccess default hq hc
    have hp' : s.main.Producing (queue.at_ .producer) := hacc.producer.symm ▸ hp
    rcases hacc.outcome with ⟨hconsumer, hpopped⟩ | ⟨item, hconsumer, hpopped⟩ | ⟨hconsumer, hpopped, hcount⟩
    · refine ⟨{ s with queue := queue }, ?_, .look hover hat hacc hconsumer hpopped, hq', hp', ?_⟩
      · simp only [displayStep, hat, hstep, Option.map_some]
        cases h : queue.at_ .consumer <;> simp [h, pops] at hconsumer ⊢
      · simpa [Display.Consuming, hat] using hconsumer
    · refine ⟨_, by simp only [displayStep, hat, hstep, Option.map_some, hconsumer],
        .popped hover hat hacc hconsumer hpopped, hq', hp', ?_⟩
      simp [Display.Consuming, hconsumer, At.busy]
    · refine ⟨_, by simp only [displayStep, hat, hstep, Option.map_some, hconsumer],
        .empty hover hat hacc hconsumer hpopped hcount, hq', hp', ?_⟩
      simp [Display.Consuming, hconsumer, At.busy]
  | check =>
    rw [hat] at hc
    refine ⟨_, by simp only [displayStep, hat], .check hover hat, hq, hp, ?_⟩
    cases s.is_running <;> exact hc
  | clock =>
    rw [hat] at hc
    by_cases hlate : 1000 < milliseconds (time - s.time_start)
    · exact ⟨_, by simp only [displayStep, hat, if_pos hlate], .print hover hat hlate, hq, hp, hc⟩
    · exact ⟨_, by simp only [displayStep, hat, if_neg hlate], .clock hover hat (Nat.le_of_not_lt hlate), hq, hp, hc⟩
  | ended => exact absurd hat hended

theorem Move.of_step (h : Calls k s) (hs : step annotate default s l = some s') :
    Move annotate s l s' ∧ Calls k s' := by
  cases l with
  | main =>
    have hs : mainStep annotate default s = some s' := hs
    have hover : s.main.over = false := by
      unfold mainStep at hs
      cases hat : s.main <;> simp [hat, Main.over] at hs ⊢
    have hjoin : s.main = .join → s.display = .ended := by
      intro hat
      unfold mainStep at hs
      cases hd : s.display <;> simp [hat, hd] at hs ⊢
    obtain ⟨s'', hs'', hm⟩ := exists_mainMove annotate default h hover hjoin
    obtain rfl : s' = s'' := Option.some.inj (hs.symm.trans hs'')
    exact hm
  | display time =>
    obtain ⟨hover, hs⟩ : s.main.over = false ∧ displayStep default s time = some s' := by simpa [step] using hs
    have hended : s.display ≠ .ended := by
      intro hat
      simp [displayStep, hat] at hs
    obtain ⟨s'', hs'', hm⟩ := exists_displayMove annotate default h hover hended time
    obtain rfl : s' = s'' := Option.some.inj (hs.symm.trans hs'')
    exact hm

end Moves

/-! ### The invariant -/

section Invariant

variable {Frame : Type} {annotate : Frame → Option Frame} {default : Frame} {k : Nat} {video : List Frame}
  {s s' : State Frame} {l : Label}

/-- What becomes of the frame that the main thread works on. -/
def Main.ahead (annotate : Frame → Option Frame) : Main Frame → List (Option Frame)
  | .detect frame => [annotate frame]
  | .push frame | .pushing frame => [some frame]
  | .terminated => [none]
  | _ => []

/-- The loop of the main thread has ended. -/
def Main.ended : Main Frame → Bool
  | .stop | .join | .finished => true
  | _ => false

/-- `is_running` has been cleared. -/
def Main.stopped : Main Frame → Bool
  | .join | .finished => true
  | _ => false

/-- The last pop of `display` has failed. -/
def Display.idles : Display → Bool
  | .check | .ended => true
  | _ => false

/-- The frames that the queue has accepted. -/
def accepted (offered : List (Frame × Bool)) : List Frame := (offered.filter Prod.snd).map Prod.fst

theorem accepted_append (offered : List (Frame × Bool)) (frame : Frame) (ok : Bool) :
    accepted (offered ++ [(frame, ok)]) = accepted offered ++ if ok then [frame] else [] := by
  cases ok <;> simp [accepted]

/-- What has become, and what is still to become, of the frames of the video. -/
def State.frames (annotate : Frame → Option Frame) (s : State Frame) : List (Option Frame) :=
  s.offered.map (some ∘ Prod.fst) ++ s.main.ahead annotate ++ s.video.map annotate

/-- The frames that `display` has counted. -/
def State.counted (s : State Frame) : Nat := (s.printed.map Prod.fst).sum + s.size

theorem Move.frames (m : Move annotate s l s') : s'.frames annotate = s.frames annotate := by
  cases m <;> simp_all [State.frames, Main.ahead]

theorem Move.pushed_eq (m : Move annotate s l s') (h : s.queue.pushed = accepted s.offered) :
    s'.queue.pushed = accepted s'.offered := by
  cases m with
  | pushed _ _ _ hpushed | dropped _ _ _ hpushed => simp [accepted_append, hpushed, h]
  | push _ _ _ hpushed _ | access _ _ _ hpushed | pop _ _ _ _ hpushed _ => exact hpushed.trans h
  | look _ _ hacc _ _ | popped _ _ hacc _ _ | empty _ _ hacc _ _ _ => exact hacc.pushed.trans h
  | _ => exact h

theorem Move.counted (m : Move annotate s l s') (h : s.counted = s.queue.popped.length) :
    s'.counted = s'.queue.popped.length := by
  cases m with
  | push _ _ _ _ hpopped | pop _ _ _ _ _ hpopped | look _ _ _ _ hpopped | empty _ _ _ _ hpopped _ =>
    exact h.trans (congrArg List.length hpopped.symm)
  | access _ hacc _ _ | pushed _ hacc _ _ | dropped _ hacc _ _ _ =>
    exact h.trans (congrArg List.length hacc.popped.symm)
  | popped _ _ _ _ hpopped =>
    rw [hpopped, List.length_append, List.length_singleton, ← h]
    simp [State.counted, Nat.add_assoc]
  | print _ _ _ =>
    refine Eq.trans ?_ h
    simp [State.counted]
  | _ => exact h

/-- The flag, the loop of the main thread and the end of `display` belong together. -/
structure Ends (s : State Frame) : Prop where
  read : s.main.ended = true → s.video = []
  running : s.is_running = !s.main.stopped
  joined : s.main = .finished → s.display = .ended
  ended : s.display = .ended → s.is_running = false

theorem Ends.of_move (h : Ends s) (m : Move annotate s l s') : Ends s' := by
  obtain ⟨read, running, joined, ended⟩ := h
  cases m with
  | check hover at_ =>
    cases hrun : s.is_running <;> constructor <;> simp_all
  | _ => constructor <;> simp_all [Main.ended, Main.stopped, Main.over]

/-- The invariant. -/
structure Inv (annotate : Frame → Option Frame) (k : Nat) (video : List Frame) (s : State Frame) : Prop where
  calls : Calls k s
  threads : Ends s
  frames : s.frames annotate = video.map annotate
  pushed : s.queue.pushed = accepted s.offered
  looked : s.display.idles = true → s.queue.popped.length = s.looked
  counted : s.counted = s.queue.popped.length

/-- The queue was empty when `display` has looked. -/
theorem Move.looked (hc : Calls k s) (m : Move annotate s l s')
    (h : s.display.idles = true → s.queue.popped.length = s.looked) (hidles : s'.display.idles = true) :
    s'.queue.popped.length = s'.looked := by
  cases m with
  | empty _ _ hacc _ hpopped hcount =>
    have hle := hc.queue.ring.le
    simp only [SPSCQueue.State.count] at hcount
    simp only [hpopped, hacc.pushed]
    omega
  | push _ _ _ _ hpopped => exact (congrArg List.length hpopped).trans (h hidles)
  | access _ hacc _ _ | pushed _ hacc _ _ | dropped _ hacc _ _ _ =>
    exact (congrArg List.length hacc.popped).trans (h hidles)
  | check _ at_ => exact h (by rw [at_]; rfl)
  | eof | read | throw | detect | stop | join => exact h hidles
  | look _ at_ _ _ _ =>
    rw [at_] at hidles
    cases hidles
  | start | pop | popped | print | clock => cases hidles

theorem Inv.of_step (h : Inv annotate k video s) (hs : step annotate default s l = some s') :
    Inv annotate k video s' := by
  obtain ⟨m, hc⟩ := Move.of_step h.calls hs
  exact ⟨hc, h.threads.of_move m, m.frames.trans h.frames, m.pushed_eq h.pushed, m.looked h.calls h.looked,
    m.counted h.counted⟩

theorem create_capacity (default : Frame) :
    create default capacity = some ⟨List.replicate 128 default, 128, 0, 0⟩ := by
  have hmax : ¬maxSize < capacity := by decide +kernel
  have hpow : capacity &&& (capacity - 1) ≠ 0 := by decide +kernel
  have hround : roundUp capacity 64 1 = 128 := by decide +kernel
  have hmax' : ¬maxSize < 128 := by decide +kernel
  unfold create
  rw [if_neg hmax, if_pos hpow]
  simp only [hround, if_neg hmax']
  rfl

/-- The ring of the queue has 128 slots. -/
theorem reachable_inv {q : Queue Frame} (hq : create default capacity = some q)
    (hs : (system annotate default q video).Reachable s) : Inv annotate 7 video s := by
  obtain ⟨k, hring⟩ := (create_spec (by decide +kernel) hq).2
  obtain rfl : k = 7 := by
    rw [create_capacity, Option.some.injEq] at hq
    have hsize := hring.size
    have hslots : (128 : UInt64).toNat = 2 ^ 7 := by decide
    rw [← hq] at hsize
    exact Nat.pow_right_injective le_rfl (hsize.symm.trans hslots)
  have hqueue : SPSCQueue.Inv 7 (SPSCQueue.system default q).init := SPSCQueue.inv_of_reachable hring .init
  refine hs.invariant ⟨⟨hqueue, rfl, rfl⟩, ?_, ?_, rfl, ?_, rfl⟩ fun h _ => h.of_step
  · constructor <;> simp [system, Main.ended, Main.stopped]
  · simp [system, State.frames, Main.ahead]
  · simp [system, Display.idles]

end Invariant

/-! ### What is displayed -/

section Displayed

variable {Frame : Type} {annotate : Frame → Option Frame} {default : Frame} {k : Nat} {video : List Frame}
  {q : Queue Frame} {s s' : State Frame} {l : Label}

/-- What a state of the program promises.  The frames that were offered to the queue are the first of the video, each
detected and drawn; those that it has accepted are displayed in their order, and each is counted once. -/
structure Displayed (annotate : Frame → Option Frame) (video : List Frame) (s : State Frame) : Prop where
  offered : s.offered.map (some ∘ Prod.fst) <+: video.map annotate
  fifo : s.queue.popped <+: accepted s.offered
  bounded : (accepted s.offered).length ≤ s.queue.popped.length + 127
  counted : (s.printed.map Prod.fst).sum + s.size = s.queue.popped.length
  finished : s.main = .finished → s.offered.map (some ∘ Prod.fst) = video.map annotate
  threw : s.main = .terminated → s.offered.map (some ∘ Prod.fst) ++ [none] <+: video.map annotate

theorem Inv.promises (h : Inv annotate 7 video s) : Displayed annotate video s := by
  have hframes := h.frames
  have hring := h.calls.queue.ring
  unfold State.frames at hframes
  refine ⟨?_, h.pushed ▸ hring.fifo, ?_, h.counted, fun at_ => ?_, fun at_ => ?_⟩
  · rw [← hframes, List.append_assoc]
    exact List.prefix_append _ _
  · have hroom := hring.room
    rw [← h.pushed]
    omega
  · have hread : s.video = [] := h.threads.read (by rw [at_]; rfl)
    rw [← hframes, at_, hread]
    simp [Main.ahead]
  · rw [← hframes, at_]
    exact List.prefix_append _ _

theorem Move.full (m : Move annotate s l s') {frame : Frame} (h : s'.offered = s.offered ++ [(frame, false)]) :
    s.queue.count = s.queue.q.usable.toNat := by
  cases m with
  | dropped _ _ _ _ hfull => exact hfull
  | pushed => simp at h
  | _ => simp at h

/-- The frames that are displayed are the first of those that the queue has accepted, whatever order the accesses of
the two threads come in, and a frame is only turned away when 127 others wait in the queue. -/
theorem displayed (hq : create default capacity = some q) (hs : (system annotate default q video).Reachable s) :
    Displayed annotate video s ∧
    ∀ l s' frame, (system annotate default q video).step s l = some s' →
      s'.offered = s.offered ++ [(frame, false)] → s.queue.count = 127 := by
  have hi := reachable_inv hq hs
  refine ⟨hi.promises, fun l s' frame hstep hdropped => ?_⟩
  rw [((Move.of_step hi.calls hstep).1).full hdropped, hi.calls.queue.ring.toNat_usable]
  rfl

/-- Of three frames the first one is displayed and counted.  The next pop fails, and the other two are pushed before
`display` looks at the flag. -/
def lateFrames : List Label :=
  [List.replicate 7 .main, List.replicate 6 (.display 0), [.display 1500000000], List.replicate 3 (.display 0),
    List.replicate 16 .main].flatten

theorem displayed_lateFrames : ∃ q s, create 0 capacity = some q ∧
    (system (fun frame => some (frame + 10)) 0 q [5, 6, 7]).Reachable s ∧
    s.offered = [(15, true), (16, true), (17, true)] ∧ s.queue.popped = [15] ∧ s.printed = [(1, 1500)] ∧
    Displayed (fun frame => some (frame + 10)) [5, 6, 7] s := by
  obtain ⟨s, hs, hp⟩ := System.exists_reachable_of_run
    (system (fun frame => some (frame + 10)) 0 ⟨List.replicate 128 0, 128, 0, 0⟩ [5, 6, 7]) lateFrames
    (fun s => s.offered == [(15, true), (16, true), (17, true)] && s.queue.popped == [15] && s.printed == [(1, 1500)])
    (by decide +kernel)
  simp only [Bool.and_eq_true, beq_iff_eq] at hp
  exact ⟨_, s, create_capacity 0, hs, hp.1.1, hp.1.2, hp.2, (displayed (create_capacity 0) hs).1⟩

/-! ### The end of the video -/

/-- Once the flag is cleared nothing is pushed any more, and a pop fails only when all has been popped. -/
theorem Move.stopped (hi : Inv annotate k video s) (m : Move annotate s l s') (hstop : s.main.stopped = true) :
    s'.main.stopped = true ∧ s'.queue.pushed = s.queue.pushed ∧
      ((s.display.idles = true → s'.display.idles = true ∧ s'.looked = s.looked) ∧
      (s.display.idles = false → s'.display.idles = true → s'.looked = s.queue.pushed.length)) := by
  have hrun : s.is_running = false := by rw [hi.threads.running, hstop]; rfl
  cases m with
  | eof at_ | read at_ | throw at_ | detect at_ | push at_ | access at_ | pushed at_ | dropped at_ | stop at_ =>
    rw [at_] at hstop
    cases hstop
  | join at_ ended => exact ⟨rfl, rfl, by simp_all [Display.idles]⟩
  | start _ at_ | print _ at_ | clock _ at_ => exact ⟨hstop, rfl, by simp [at_, Display.idles]⟩
  | pop _ at_ _ _ hpushed => exact ⟨hstop, hpushed, by simp [at_, Display.idles]⟩
  | look _ at_ hacc => exact ⟨hstop, hacc.pushed, by simp [at_, Display.idles]⟩
  | popped _ at_ hacc => exact ⟨hstop, hacc.pushed, by simp [at_, Display.idles]⟩
  | empty _ at_ hacc => exact ⟨hstop, hacc.pushed, by simp [at_, Display.idles, hacc.pushed]⟩
  | check _ at_ => exact ⟨hstop, rfl, by simp [at_, hrun, Display.idles]⟩

/-- What is displayed in the end is decided when the flag is cleared: if the last pop of `display` had failed before,
the frames that were pushed since are left in the queue, else none is. -/
theorem left_behind (hq : create default capacity = some q) (hs : (system annotate default q video).Reachable s)
    (hjoin : s.main = .join) {ls : List Label} (hrun : (system annotate default q video).run s ls = some s')
    (hfinished : s'.main = .finished) :
    s'.queue.pushed = s.queue.pushed ∧
      s'.queue.popped = if s.display.idles then s.queue.pushed.take s.looked else s.queue.pushed := by
  have hi := reachable_inv hq hs
  have hi' := reachable_inv hq (hs.of_run hrun)
  have hkept : (Inv annotate 7 video s' ∧ s'.main.stopped = true) ∧ s'.queue.pushed = s.queue.pushed ∧
      ((s.display.idles = true → s'.display.idles = true ∧ s'.looked = s.looked) ∧
      (s.display.idles = false → s'.display.idles = true → s'.looked = s.queue.pushed.length)) := by
    refine System.run_invariant (M := system annotate default q video)
      (P := fun t => (Inv annotate 7 video t ∧ t.main.stopped = true) ∧ t.queue.pushed = s.queue.pushed ∧
        ((s.display.idles = true → t.display.idles = true ∧ t.looked = s.looked) ∧
        (s.display.idles = false → t.display.idles = true → t.looked = s.queue.pushed.length)))
      ?_ ⟨⟨hi, by rw [hjoin]; rfl⟩, rfl, fun h => ⟨h, rfl⟩, fun h h' => by simp [h] at h'⟩ hrun
    rintro t l t' ⟨⟨ht, hstop⟩, hpushed, hidles, hbusy⟩ hstep
    obtain ⟨hstop', hpushed', hidles', hbusy'⟩ := (Move.of_step ht.calls hstep).1.stopped ht hstop
    refine ⟨⟨ht.of_step hstep, hstop'⟩, hpushed'.trans hpushed, fun h => ?_, fun h h' => ?_⟩
    · obtain ⟨hd, hlooked⟩ := hidles h
      obtain ⟨hd', hlooked'⟩ := hidles' hd
      exact ⟨hd', hlooked'.trans hlooked⟩
    · cases hd : t.display.idles with
      | true => exact ((hidles' hd).2).trans (hbusy h hd)
      | false => exact (hbusy' hd h').trans (congrArg List.length hpushed)
  obtain ⟨-, hpushed, hidles, hbusy⟩ := hkept
  have hended : s'.display.idles = true := by
    rw [hi'.threads.joined hfinished]
    rfl
  have hlooked := hi'.looked hended
  have hpopped : s'.queue.popped = s.queue.pushed.take s'.looked := by
    rw [← hpushed, ← hlooked]
    exact List.prefix_iff_eq_take.1 hi'.calls.queue.ring.fifo
  refine ⟨hpushed, ?_⟩
  cases hd : s.display.idles with
  | true => rw [hpopped, (hidles hd).2, if_pos rfl]
  | false =>
    rw [hpopped, hbusy hd hended, List.take_length]
    rfl

/-- The last two frames are accepted, and never displayed. -/
theorem left_behind_lateFrames : ∃ q s ls s', create 0 capacity = some q ∧
    (system (fun frame => some (frame + 10)) 0 q [5, 6, 7]).Reachable s ∧ s.main = .join ∧
    (system (fun frame => some (frame + 10)) 0 q [5, 6, 7]).run s ls = some s' ∧ s'.main = .finished ∧
    s'.queue.pushed = [15, 16, 17] ∧ s'.queue.popped = [15] := by
  obtain ⟨s, s', hs, hp, hrun, hq⟩ := System.exists_run_through
    (system (fun frame => some (frame + 10)) 0 ⟨List.replicate 128 0, 128, 0, 0⟩ [5, 6, 7]) lateFrames
    [.display 0, .main]
    (fun s => s.main == .join && s.queue.pushed == [15, 16, 17] && s.display.idles && s.looked == 1)
    (fun s => s.main == .finished) (by decide +kernel) (by decide +kernel)
  simp only [Bool.and_eq_true, beq_iff_eq] at hp hq
  obtain ⟨⟨⟨hjoin, hpushed⟩, hidles⟩, hlooked⟩ := hp
  obtain ⟨hpushed', hpopped'⟩ := left_behind (create_capacity 0) hs hjoin hrun hq
  rw [hidles, if_pos rfl, hlooked, hpushed] at hpopped'
  exact ⟨_, s, _, s', create_capacity 0, hs, hjoin, hrun, hq, hpushed'.trans hpushed, hpopped'⟩

end Displayed

end OnnxInference.VideoInfer
