import OnnxInference.Benchmark.Config
import OnnxInference.Latency
import OnnxInference.Ledger
import OnnxInference.Transition

/-!
# Measuring the requests of a mode (`run_pipeline` in `benchmark/benchmark_runner.h`)

After the warm-up each client is a thread that submits one request after the other, with a time before and after each,
until the test has lasted long enough and it has made enough requests.  At its end it appends its latencies to those of
the others, under a mutex.  The clock is a number that a step of its own raises: it never goes back, as that of a
`high_resolution_clock` that is the system's clock may when it is set.  Whether a request comes through is decided from
outside; an exception that leaves a thread ends the process.
-/

namespace OnnxInference.Benchmark.Pipeline

open Transition Latency

/-- Where a client is in `submit_and_measure`. -/
inductive ClientAt
  /-- at the head of the loop -/
  | check
  | start
  | submit (t0 : ℚ)
  | get (t0 : ℚ)
  /-- the request is back, and the time of this is not yet read -/
  | back (t0 : ℚ)
  | lock
  | insert
  | unlock
  | ended
  deriving DecidableEq

structure Client where
  pc : ClientAt
  localLatencies : List ℚ

/-- Where the thread is that has called `run_pipeline`. -/
inductive MainAt
  | warmup (i : Nat)
  | warmupGet (i : Nat)
  | wallStart
  | reserve
  | spawn (i : Nat)
  | join (i : Nat)
  | wallEnd
  /-- `none` if `compute_result` has left its vector -/
  | returned (result : Option BenchmarkResult)
  | threw

def MainAt.result : MainAt → Option BenchmarkResult
  | .returned result => result
  | _ => none

structure State where
  now : ℚ
  main : MainAt
  wallStart : ℚ
  clients : List Client
  mutex : Option Nat
  latenciesMs : List ℚ
  /-- how many requests of the clients have come back; the program does not count them -/
  requests : Nat
  terminated : Bool

inductive Label
  /-- time passes -/
  | tick (d : ℚ)
  | main (ok : Bool)
  | client (i : Nat) (ok : Bool)

def init (now : ℚ) : State := ⟨now, .warmup 0, 0, [], none, [], 0, false⟩

def State.turn (s : State) (m : MainAt) : State := { s with main := m }

def State.setClient (s : State) (i : Nat) (c : Client) : State := { s with clients := s.clients.set i c }

section Model

variable (config : Config) (modeName : String) (overrideBatch : Nat)

/-- The thread of `run_pipeline`; `ok` says whether a request of the warm-up comes through. -/
def mainStep (s : State) (ok : Bool) : Option State :=
  match s.main with
  | .warmup i =>
    some (s.turn (if i < config.warmupCount then (if ok then .warmupGet i else .threw) else .wallStart))
  | .warmupGet i => some (s.turn (if ok then .warmup (i + 1) else .threw))
  | .wallStart => some { s.turn .reserve with wallStart := s.now }
  -- a negative number of clients is above `max_size()` as a `size_t`
  | .reserve => some (s.turn (if config.concurrentClients < 0 then .threw else .spawn 0))
  | .spawn i =>
    if (i : Int) < config.concurrentClients then
      some { s.turn (.spawn (i + 1)) with clients := s.clients ++ [⟨.check, []⟩] }
    else some (s.turn (.join 0))
  | .join i =>
    match s.clients[i]? with
    | some c => if c.pc = .ended then some (s.turn (.join (i + 1))) else none
    | none => some (s.turn .wallEnd)
  | .wallEnd =>
    let totalWallMs := (s.now - s.wallStart) * 1000
    some (s.turn (.returned (computeResult modeName s.latenciesMs totalWallMs overrideBatch)))
  | .returned _ | .threw => none

/-- A thread of `submit_and_measure`; `ok` says whether `submit_fn` and `get` return. -/
def clientStep (s : State) (i : Nat) (ok : Bool) : Option State := do
  let c ← s.clients[i]?
  match c.pc with
  | .check =>
    let elapsed := s.now - s.wallStart
    let enough := elapsed ≥ config.testDurationSec ∧ c.localLatencies.length ≥ config.minIterations
    some (s.setClient i { c with pc := if enough then .lock else .start })
  | .start => some (s.setClient i { c with pc := .submit s.now })
  | .submit t0 => some (if ok then s.setClient i { c with pc := .get t0 } else { s with terminated := true })
  | .get t0 =>
    some (if ok then { s.setClient i { c with pc := .back t0 } with requests := s.requests + 1 }
      else { s with terminated := true })
  | .back t0 =>
    let latMs := (s.now - t0) * 1000
    some (s.setClient i ⟨.check, c.localLatencies ++ [latMs]⟩)
  | .lock => if s.mutex = none then some { s.setClient i { c with pc := .insert } with mutex := some i } else none
  | .insert =>
    some { s.setClient i { c with pc := .unlock } with latenciesMs := s.latenciesMs ++ c.localLatencies }
  | .unlock => some { s.setClient i { c with pc := .ended } with mutex := none }
  | .ended => none

def step (s : State) (l : Label) : Option State :=
  if s.terminated then none
  else
    match l with
    -- the clock does not go back
    | .tick d => if 0 ≤ d then some { s with now := s.now + d } else none
    | .main ok => mainStep config modeName overrideBatch s ok
    | .client i ok => clientStep config s i ok

def system (now : ℚ) : System State Label := ⟨init now, step config modeName overrideBatch⟩

/-! ### Moves -/

/-- The thread of `run_pipeline` goes to `m` and does nothing else. -/
inductive Turn (s : State) : MainAt → Prop
  | submitWarm {i : Nat} (at_ : s.main = .warmup i) (lt : i < config.warmupCount) : Turn s (.warmupGet i)
  | getWarm {i : Nat} (at_ : s.main = .warmupGet i) : Turn s (.warmup (i + 1))
  | throwWarm {i : Nat} (at_ : s.main = .warmup i ∨ s.main = .warmupGet i) : Turn s .threw
  | warm {i : Nat} (at_ : s.main = .warmup i) : Turn s .wallStart
  | refuse (at_ : s.main = .reserve) : Turn s .threw
  | reserve (at_ : s.main = .reserve) (nonneg : 0 ≤ config.concurrentClients) : Turn s (.spawn 0)
  | spawned {i : Nat} (at_ : s.main = .spawn i) (all : config.concurrentClients ≤ i) : Turn s (.join 0)
  | joined {i : Nat} {c : Client} (at_ : s.main = .join i) (hc : s.clients[i]? = some c) (ended : c.pc = .ended) :
      Turn s (.join (i + 1))
  | joinedAll {i : Nat} (at_ : s.main = .join i) (none : s.clients[i]? = none) : Turn s .wallEnd

/-- A client goes to `pc` and does nothing else. -/
inductive ClientTurn (s : State) (c : Client) : ClientAt → Prop
  | again (at_ : c.pc = .check)
      (more : ¬(config.testDurationSec ≤ s.now - s.wallStart ∧ config.minIterations ≤ c.localLatencies.length)) :
      ClientTurn s c .start
  | leave (at_ : c.pc = .check) (late : config.testDurationSec ≤ s.now - s.wallStart)
      (enough : config.minIterations ≤ c.localLatencies.length) : ClientTurn s c .lock
  | start (at_ : c.pc = .start) : ClientTurn s c (.submit s.now)
  | submit {t0 : ℚ} (at_ : c.pc = .submit t0) : ClientTurn s c (.get t0)

/-- A step from `s` with its label and result. -/
inductive Move (s : State) : Label → State → Prop
  | tick {d : ℚ} (nonneg : 0 ≤ d) : Move s (.tick d) { s with now := s.now + d }
  | turn {ok : Bool} {m : MainAt} (h : Turn config s m) : Move s (.main ok) (s.turn m)
  | startWall {ok : Bool} (at_ : s.main = .wallStart) : Move s (.main ok) { s.turn .reserve with wallStart := s.now }
  | spawn {ok : Bool} {i : Nat} (at_ : s.main = .spawn i) (lt : (i : Int) < config.concurrentClients) :
      Move s (.main ok) { s.turn (.spawn (i + 1)) with clients := s.clients ++ [⟨.check, []⟩] }
  | endWall {ok : Bool} (at_ : s.main = .wallEnd) :
      Move s (.main ok) (s.turn (.returned
        (computeResult modeName s.latenciesMs ((s.now - s.wallStart) * 1000) overrideBatch)))
  | advance {i : Nat} {ok : Bool} {c : Client} {pc : ClientAt} (hc : s.clients[i]? = some c)
      (h : ClientTurn config s c pc) : Move s (.client i ok) (s.setClient i { c with pc := pc })
  | get {i : Nat} {c : Client} {t0 : ℚ} (hc : s.clients[i]? = some c) (at_ : c.pc = .get t0) :
      Move s (.client i true) { s.setClient i { c with pc := .back t0 } with requests := s.requests + 1 }
  | terminate {i : Nat} {c : Client} {t0 : ℚ} (hc : s.clients[i]? = some c) (at_ : c.pc = .submit t0 ∨ c.pc = .get t0) :
      Move s (.client i false) { s with terminated := true }
  | back {i : Nat} {ok : Bool} {c : Client} {t0 : ℚ} (hc : s.clients[i]? = some c) (at_ : c.pc = .back t0) :
      Move s (.client i ok) (s.setClient i ⟨.check, c.localLatencies ++ [(s.now - t0) * 1000]⟩)
  | lock {i : Nat} {ok : Bool} {c : Client} (hc : s.clients[i]? = some c) (at_ : c.pc = .lock) (free : s.mutex = none) :
      Move s (.client i ok) { s.setClient i { c with pc := .insert } with mutex := some i }
  | insert {i : Nat} {ok : Bool} {c : Client} (hc : s.clients[i]? = some c) (at_ : c.pc = .insert) :
      Move s (.client i ok)
        { s.setClient i { c with pc := .unlock } with latenciesMs := s.latenciesMs ++ c.localLatencies }
  | unlock {i : Nat} {ok : Bool} {c : Client} (hc : s.clients[i]? = some c) (at_ : c.pc = .unlock) :
      Move s (.client i ok) { s.setClient i { c with pc := .ended } with mutex := none }

variable {config modeName overrideBatch} {s s' : State} {l : Label}

private theorem move_of_mainStep {ok : Bool} (h : mainStep config modeName overrideBatch s ok = some s') :
    Move config modeName overrideBatch s (.main ok) s' := by
  unfold mainStep at h
  split at h
  · cases h
    split
    · split
      · exact .turn (.submitWarm ‹_› ‹_›)
      · exact .turn (.throwWarm (.inl ‹_›))
    · exact .turn (.warm ‹_›)
  · cases h
    split
    · exact .turn (.getWarm ‹_›)
    · exact .turn (.throwWarm (.inr ‹_›))
  · cases h
    exact .startWall ‹_›
  · cases h
    split
    · exact .turn (.refuse ‹_›)
    · exact .turn (.reserve ‹_› (not_lt.1 ‹_›))
  · split at h <;> cases h
    · exact .spawn ‹_› ‹_›
    · exact .turn (.spawned ‹_› (not_lt.1 ‹_›))
  · split at h
    · split at h <;> cases h
      exact .turn (.joined ‹_› ‹_› ‹_›)
    · cases h
      exact .turn (.joinedAll ‹_› ‹_›)
  · cases h
    exact .endWall ‹_›
  · cases h
  · cases h

private theorem move_of_clientStep {i : Nat} {ok : Bool} (h : clientStep config s i ok = some s') :
    Move config modeName overrideBatch s (.client i ok) s' := by
  simp only [clientStep, Option.bind_eq_bind, Option.bind_eq_some_iff] at h
  obtain ⟨c, hc, h⟩ := h
  split at h
  · cases h
    split
    · rename_i henough
      exact .advance hc (.leave ‹_› henough.1 henough.2)
    · exact .advance hc (.again ‹_› ‹_›)
  · cases h
    exact .advance hc (.start ‹_›)
  · cases h
    cases ok with
    | true => exact .advance hc (.submit ‹_›)
    | false => exact .terminate hc (.inl ‹_›)
  · cases h
    cases ok with
    | true => exact .get hc ‹_›
    | false => exact .terminate hc (.inr ‹_›)
  · cases h
    exact .back hc ‹_›
  · split at h <;> cases h
    exact .lock hc ‹_› ‹_›
  · cases h
    exact .insert hc ‹_›
  · cases h
    exact .unlock hc ‹_›
  · cases h

theorem Move.of_step (h : step config modeName overrideBatch s l = some s') :
    s.terminated = false ∧ Move config modeName overrideBatch s l s' := by
  unfold step at h
  split at h
  · cases h
  · refine ⟨by simpa using ‹¬s.terminated = true›, ?_⟩
    split at h
    · split at h <;> cases h
      exact .tick ‹_›
    · exact move_of_mainStep h
    · exact move_of_clientStep h

/-! ### What a client knows -/

namespace Client

variable (c : Client)

/-- The client has the mutex. -/
def Holds : Prop := c.pc = .insert ∨ c.pc = .unlock

/-- The client has left its loop. -/
def Left : Prop := c.pc = .lock ∨ c.Holds ∨ c.pc = .ended

/-- What the client has appended to the latencies of all. -/
def appended : Multiset ℚ :=
  match c.pc with
  | .unlock | .ended => c.localLatencies
  | _ => 0

/-- The requests of the client that have come back. -/
def answered : Nat :=
  match c.pc with
  | .back _ => c.localLatencies.length + 1
  | _ => c.localLatencies.length

/-- The time up to which the client has noted its latencies: that of its last submission, or the present. -/
def upTo (now : ℚ) : ℚ :=
  match c.pc with
  | .submit t0 | .get t0 | .back t0 => t0
  | _ => now

end Client

/-- The latencies of a client are those of requests one after the other since the start of the test. -/
structure Client.Sound (config : Config) (wallStart now : ℚ) (c : Client) : Prop where
  nonneg : ∀ x ∈ c.localLatencies, 0 ≤ x
  sum_le : c.localLatencies.sum ≤ (c.upTo now - wallStart) * 1000
  upTo_le : c.upTo now ≤ now
  enough : c.Left → config.minIterations ≤ c.localLatencies.length
  late : c.Left → config.testDurationSec ≤ now - wallStart

theorem Client.Sound.tick {wallStart now now' : ℚ} {c : Client} (h : c.Sound config wallStart now) (hle : now ≤ now') :
    c.Sound config wallStart now' := by
  have hup : c.upTo now ≤ c.upTo now' ∧ c.upTo now' ≤ now' := by
    obtain ⟨pc, latencies⟩ := c
    cases pc with
    | submit t0 | get t0 | back t0 => exact ⟨le_rfl, h.upTo_le.trans hle⟩
    | check | start | lock | insert | unlock | ended => exact ⟨hle, le_rfl⟩
  have hsum := h.sum_le
  refine ⟨h.nonneg, ?_, hup.2, h.enough, fun hl => ?_⟩
  · linarith [hup.1]
  · have := h.late hl
    linarith

/-- A client that goes on to where it has not noted anything new. -/
theorem Client.Sound.go {wallStart now : ℚ} {c : Client} (h : c.Sound config wallStart now) {pc : ClientAt}
    (hup : c.upTo now ≤ ({ c with pc := pc } : Client).upTo now) (hle : ({ c with pc := pc } : Client).upTo now ≤ now)
    (hleft : ({ c with pc := pc } : Client).Left → c.Left ∨
      config.testDurationSec ≤ now - wallStart ∧ config.minIterations ≤ c.localLatencies.length) :
    ({ c with pc := pc } : Client).Sound config wallStart now := by
  have hsum := h.sum_le
  refine ⟨h.nonneg, ?_, hle, fun hl => ?_, fun hl => ?_⟩
  · show c.localLatencies.sum ≤ _
    linarith
  · rcases hleft hl with hl | hl
    · exact h.enough hl
    · exact hl.2
  · rcases hleft hl with hl | hl
    · exact h.late hl
    · exact hl.1

/-- A move of the client `i` from `c` to `c'`. -/
structure Change (config : Config) (s s' : State) (i : Nat) (c c' : Client) : Prop where
  hc : s.clients[i]? = some c
  clients : s'.clients = s.clients.set i c'
  main : s'.main = s.main
  now : s'.now = s.now
  wallStart : s'.wallStart = s.wallStart
  running : c.pc ≠ .ended
  sound : c.Sound config s.wallStart s.now → c'.Sound config s.wallStart s.now
  mutex : (c.Holds ↔ s.mutex = some i) → (c'.Holds ↔ s'.mutex = some i) ∧ ∀ j ≠ i, s'.mutex = some j ↔ s.mutex = some j
  samples : (s'.latenciesMs : Multiset ℚ) + c.appended = s.latenciesMs + c'.appended
  requests : s'.requests + c.answered = s.requests + c'.answered

theorem ClientTurn.change {c : Client} {pc : ClientAt} {i : Nat} (hc : s.clients[i]? = some c)
    (h : ClientTurn config s c pc) : Change config s (s.setClient i { c with pc := pc }) i c { c with pc := pc } := by
  refine ⟨hc, rfl, rfl, rfl, rfl, ?_, fun hsound => ?_, fun hiff => ⟨?_, fun _ _ => Iff.rfl⟩, ?_, ?_⟩
  · cases h <;> simp [*]
  · cases h with
    | again at_ | start at_ => refine hsound.go ?_ ?_ ?_ <;> simp [Client.upTo, Client.Left, Client.Holds, at_]
    | leave at_ late enough => refine hsound.go ?_ ?_ fun _ => .inr ⟨late, enough⟩ <;> simp [Client.upTo, at_]
    | submit at_ =>
      have hle := hsound.upTo_le
      refine hsound.go ?_ ?_ ?_ <;> simp_all [Client.upTo, Client.Left, Client.Holds]
  · show _ ↔ s.mutex = some i
    rw [← hiff]
    cases h <;> simp [Client.Holds, *]
  · show (s.latenciesMs : Multiset ℚ) + _ = s.latenciesMs + _
    cases h <;> simp [Client.appended, *]
  · show s.requests + _ = s.requests + _
    cases h <;> simp [Client.answered, *]

/-- A step of a client is a move of it, or an exception has ended the process. -/
theorem Move.change_of_client {i : Nat} {ok : Bool} (hm : Move config modeName overrideBatch s (.client i ok) s') :
    s' = { s with terminated := true } ∨ ∃ c c', Change config s s' i c c' := by
  cases hm with
  | terminate => exact .inl rfl
  | advance hc h => exact .inr ⟨_, _, h.change hc⟩
  | @get _ c t0 hc at_ =>
    refine .inr ⟨c, { c with pc := .back t0 }, hc, rfl, rfl, rfl, rfl, by simp [at_], fun hsound => ?_,
      fun hiff => ⟨?_, fun _ _ => Iff.rfl⟩, ?_, ?_⟩
    · have hle := hsound.upTo_le
      refine hsound.go ?_ ?_ ?_ <;> simp_all [Client.upTo, Client.Left, Client.Holds]
    · show _ ↔ s.mutex = some i
      rw [← hiff]
      simp [Client.Holds, at_]
    · show (s.latenciesMs : Multiset ℚ) + _ = s.latenciesMs + _
      simp [Client.appended, at_]
    · show s.requests + 1 + _ = s.requests + _
      simp only [Client.answered, at_]
      omega
  | @back _ _ c t0 hc at_ =>
    refine .inr ⟨c, ⟨.check, c.localLatencies ++ [(s.now - t0) * 1000]⟩, hc, rfl, rfl, rfl, rfl, by simp [at_],
      fun hsound => ?_, fun hiff => ⟨?_, fun _ _ => Iff.rfl⟩, ?_, ?_⟩
    · have hle : t0 ≤ s.now := by simpa [Client.upTo, at_] using hsound.upTo_le
      have hsum : c.localLatencies.sum ≤ (t0 - s.wallStart) * 1000 := by simpa [Client.upTo, at_] using hsound.sum_le
      refine ⟨fun x hx => ?_, ?_, le_rfl, ?_, ?_⟩
      · rcases List.mem_append.1 hx with hx | hx
        · exact hsound.nonneg x hx
        · rw [List.mem_singleton] at hx
          linarith
      · simp only [List.sum_append, List.sum_singleton, Client.upTo]
        linarith
      · simp [Client.Left, Client.Holds]
      · simp [Client.Left, Client.Holds]
    · show _ ↔ s.mutex = some i
      rw [← hiff]
      simp [Client.Holds, at_]
    · show (s.latenciesMs : Multiset ℚ) + _ = s.latenciesMs + _
      simp [Client.appended, at_]
    · show s.requests + _ = s.requests + _
      simp [Client.answered, at_]
  | @lock _ _ c hc at_ free =>
    refine .inr ⟨c, { c with pc := .insert }, hc, rfl, rfl, rfl, rfl, by simp [at_], fun hsound => ?_,
      fun hiff => ⟨?_, fun j hj => ?_⟩, ?_, ?_⟩
    · refine hsound.go ?_ ?_ fun _ => .inl (.inl at_) <;> simp [Client.upTo, at_]
    · simp [Client.Holds]
    · simp [free, Ne.symm hj]
    · show (s.latenciesMs : Multiset ℚ) + _ = s.latenciesMs + _
      simp [Client.appended, at_]
    · show s.requests + _ = s.requests + _
      simp [Client.answered, at_]
  | @insert _ _ c hc at_ =>
    refine .inr ⟨c, { c with pc := .unlock }, hc, rfl, rfl, rfl, rfl, by simp [at_], fun hsound => ?_,
      fun hiff => ⟨?_, fun _ _ => Iff.rfl⟩, ?_, ?_⟩
    · refine hsound.go ?_ ?_ fun _ => .inl (.inr (.inl (.inl at_))) <;> simp [Client.upTo, at_]
    · show _ ↔ s.mutex = some i
      rw [← hiff]
      simp [Client.Holds, at_]
    · show ((s.latenciesMs ++ c.localLatencies : List ℚ) : Multiset ℚ) + _ = s.latenciesMs + _
      simp [Client.appended, at_]
    · show s.requests + _ = s.requests + _
      simp [Client.answered, at_]
  | @unlock _ _ c hc at_ =>
    refine .inr ⟨c, { c with pc := .ended }, hc, rfl, rfl, rfl, rfl, by simp [at_], fun hsound => ?_,
      fun hiff => ⟨?_, fun j hj => ?_⟩, ?_, ?_⟩
    · refine hsound.go ?_ ?_ fun _ => .inl (.inr (.inl (.inr at_))) <;> simp [Client.upTo, at_]
    · simp [Client.Holds]
    · have hi : s.mutex = some i := hiff.1 (.inr at_)
      simp [hi, Ne.symm hj]
    · show (s.latenciesMs : Multiset ℚ) + _ = s.latenciesMs + _
      simp [Client.appended, at_]
    · show s.requests + _ = s.requests + _
      simp [Client.answered, at_]

/-! ### What every run keeps -/

variable (config) in
/-- The number of clients to start. -/
def count : Nat := config.concurrentClients.toNat

/-- How many of `n` clients have been started. -/
def MainAt.spawned (n : Nat) : MainAt → Nat
  | .spawn i => i
  | .join _ | .wallEnd | .returned _ => n
  | _ => 0

/-- How many of `n` clients have been joined. -/
def MainAt.joined (n : Nat) : MainAt → Nat
  | .join i => i
  | .wallEnd | .returned _ => n
  | _ => 0

/-- The test has started. -/
def MainAt.Measures : MainAt → Prop
  | .reserve | .spawn _ | .join _ | .wallEnd | .returned _ => True
  | _ => False

structure Inv (config : Config) (s : State) : Prop where
  length : s.clients.length = s.main.spawned (count config)
  spawn_le : ∀ i, s.main = .spawn i → i ≤ count config
  joined : ∀ (i : Nat) (c : Client), s.clients[i]? = some c → i < s.main.joined (count config) → c.pc = .ended
  wall : s.main.Measures → s.wallStart ≤ s.now
  sound : ∀ (i : Nat) (c : Client), s.clients[i]? = some c → c.Sound config s.wallStart s.now
  mutex : ∀ (i : Nat) (c : Client), s.clients[i]? = some c → (c.Holds ↔ s.mutex = some i)
  mutex_lt : ∀ i, s.mutex = some i → i < s.clients.length
  samples : (s.latenciesMs : Multiset ℚ) = (s.clients.map Client.appended).sum
  requests : s.requests = (s.clients.map Client.answered).sum

theorem Inv.init (now : ℚ) : Inv config (init now) := by
  refine ⟨rfl, ?_, ?_, ?_, ?_, ?_, ?_, rfl, rfl⟩ <;> simp [Pipeline.init, MainAt.Measures]

/-- The thread of `run_pipeline` goes on, and the clients are as they were. -/
theorem Inv.turn (h : Inv config s) {m : MainAt} (hlen : m.spawned (count config) = s.main.spawned (count config))
    (hspawn : ∀ i, m = .spawn i → i ≤ count config)
    (hjoin : ∀ (i : Nat) (c : Client), s.clients[i]? = some c → i < m.joined (count config) → c.pc = .ended)
    (hwall : m.Measures → s.main.Measures) : Inv config (s.turn m) :=
  ⟨h.length.trans hlen.symm, hspawn, hjoin, fun hm => h.wall (hwall hm), h.sound, h.mutex, h.mutex_lt, h.samples,
    h.requests⟩

theorem Turn.inv {m : MainAt} (h : Inv config s) (ht : Turn config s m) : Inv config (s.turn m) := by
  have hlen := h.length
  cases ht with
  | submitWarm at_ | getWarm at_ | refuse at_ | warm at_ =>
    refine h.turn ?_ ?_ ?_ ?_ <;> simp [at_, MainAt.spawned, MainAt.joined, MainAt.Measures]
  | throwWarm at_ =>
    rcases at_ with at_ | at_ <;> refine h.turn ?_ ?_ ?_ ?_ <;>
      simp [at_, MainAt.spawned, MainAt.joined, MainAt.Measures]
  | reserve at_ nonneg =>
    refine h.turn ?_ ?_ ?_ ?_ <;> simp [at_, MainAt.spawned, MainAt.joined, MainAt.Measures]
  | @spawned i at_ all =>
    have hle := h.spawn_le i at_
    have hi : i = count config := by
      unfold count at hle ⊢
      omega
    refine h.turn ?_ ?_ ?_ ?_ <;> simp [at_, hi, MainAt.spawned, MainAt.joined, MainAt.Measures]
  | @joined i c at_ hc ended =>
    refine h.turn ?_ ?_ (fun j x hx hj => ?_) ?_
    · simp [at_, MainAt.spawned]
    · simp
    · rcases Nat.lt_or_eq_of_le (Nat.le_of_lt_succ hj) with hlt | rfl
      · exact h.joined j x hx (by simpa [at_, MainAt.joined] using hlt)
      · rw [hc, Option.some.injEq] at hx
        exact hx ▸ ended
    · simp [at_, MainAt.Measures]
  | @joinedAll i at_ none =>
    refine h.turn ?_ ?_ (fun j x hx hj => ?_) ?_
    · simp [at_, MainAt.spawned]
    · simp
    · have hlt := (List.getElem?_eq_some_iff.1 hx).1
      have hge := List.getElem?_eq_none_iff.1 none
      exact h.joined j x hx (by simp only [at_, MainAt.joined]; omega)
    · simp [at_, MainAt.Measures]

theorem Inv.change (h : Inv config s) {i : Nat} {c c' : Client} (hch : Change config s s' i c c') : Inv config s' := by
  have hlt := (List.getElem?_eq_some_iff.1 hch.hc).1
  have hget : ∀ (j : Nat) (x : Client), s'.clients[j]? = some x → j = i ∧ x = c' ∨ j ≠ i ∧ s.clients[j]? = some x := by
    intro j x hx
    rw [hch.clients, List.getElem?_set] at hx
    split at hx
    · rename_i heq
      exact .inl ⟨heq.symm, by simpa using hx.symm⟩
    · exact .inr ⟨Ne.symm ‹_›, hx⟩
  have hlen : s'.clients.length = s.clients.length := by rw [hch.clients, List.length_set]
  obtain ⟨hholds, hother⟩ := hch.mutex (h.mutex i c hch.hc)
  refine ⟨?_, fun j hj => h.spawn_le j (hch.main ▸ hj), fun j x hx hj => ?_, fun hm => ?_, fun j x hx => ?_,
    fun j x hx => ?_, fun j hj => ?_, ?_, ?_⟩
  · rw [hlen, hch.main, h.length]
  · rw [hch.main] at hj
    rcases hget j x hx with ⟨rfl, rfl⟩ | ⟨-, hx⟩
    · exact absurd (h.joined j c hch.hc hj) hch.running
    · exact h.joined j x hx hj
  · rw [hch.now, hch.wallStart]
    exact h.wall (hch.main ▸ hm)
  · rw [hch.now, hch.wallStart]
    rcases hget j x hx with ⟨rfl, rfl⟩ | ⟨-, hx⟩
    · exact hch.sound (h.sound j c hch.hc)
    · exact h.sound j x hx
  · rcases hget j x hx with ⟨rfl, rfl⟩ | ⟨hne, hx⟩
    · exact hholds
    · rw [hother j hne]
      exact h.mutex j x hx
  · rw [hlen]
    by_cases hji : j = i
    · exact hji ▸ hlt
    · exact h.mutex_lt j ((hother j hji).1 hj)
  · rw [hch.clients]
    have hsum := Ledger.sum_map_set Client.appended hch.hc c'
    refine add_right_cancel (b := c.appended) ?_
    rw [hsum, hch.samples, h.samples]
  · rw [hch.clients]
    have hsum := Ledger.sum_map_set Client.answered hch.hc c'
    have hreq := hch.requests
    have hbefore := h.requests
    omega

theorem Inv.step (h : Inv config s) (hm : Move config modeName overrideBatch s l s') : Inv config s' := by
  cases l with
  | client i ok =>
    rcases hm.change_of_client with rfl | ⟨c, c', hch⟩
    · exact ⟨h.length, h.spawn_le, h.joined, h.wall, h.sound, h.mutex, h.mutex_lt, h.samples, h.requests⟩
    · exact h.change hch
  | tick d =>
    cases hm with
    | tick nonneg =>
      have hle : s.now ≤ s.now + d := by linarith
      exact ⟨h.length, h.spawn_le, h.joined, fun hw => (h.wall hw).trans hle, fun i c hc => (h.sound i c hc).tick hle,
        h.mutex, h.mutex_lt, h.samples, h.requests⟩
  | main ok =>
    have hlen := h.length
    cases hm with
    | turn ht => exact ht.inv h
    | startWall at_ =>
      have hnil : s.clients = [] := List.eq_nil_of_length_eq_zero (by simpa [at_, MainAt.spawned] using hlen)
      exact ⟨by simp [State.turn, hnil, MainAt.spawned], by simp [State.turn], by simp [State.turn, hnil],
        fun _ => le_rfl, by simp [State.turn, hnil], by simp [State.turn, hnil], h.mutex_lt, h.samples, h.requests⟩
    | @spawn _ i at_ lt =>
      have hi : i < count config := by
        unfold count
        omega
      have hsi : s.clients.length = i := by simpa [at_, MainAt.spawned] using hlen
      have hwall : s.wallStart ≤ s.now := h.wall (by simp [at_, MainAt.Measures])
      have hget : ∀ (j : Nat) (x : Client), (s.clients ++ [⟨.check, []⟩])[j]? = some x →
          s.clients[j]? = some x ∨ j = i ∧ x = ⟨.check, []⟩ := by
        intro j x hx
        rw [List.getElem?_append] at hx
        split at hx
        · exact .inl hx
        · rw [List.getElem?_singleton] at hx
          split at hx
          · exact .inr ⟨by omega, by simpa using hx.symm⟩
          · cases hx
      refine ⟨?_, ?_, ?_, fun _ => hwall, fun j x hx => ?_, fun j x hx => ?_, fun j hj => ?_, ?_, ?_⟩
      · simp [State.turn, MainAt.spawned, hsi]
      · simpa [State.turn] using hi
      · simp [State.turn, MainAt.joined]
      · rcases hget j x hx with hx | ⟨-, rfl⟩
        · exact h.sound j x hx
        · refine ⟨by simp, ?_, le_rfl, ?_, ?_⟩
          · simp only [List.sum_nil, Client.upTo]
            show 0 ≤ (s.now - s.wallStart) * 1000
            linarith
          · simp [Client.Left, Client.Holds]
          · simp [Client.Left, Client.Holds]
      · rcases hget j x hx with hx | ⟨rfl, rfl⟩
        · exact h.mutex j x hx
        · have hfree : s.mutex ≠ some j := fun hj => absurd (h.mutex_lt j hj) (by omega)
          simp [Client.Holds, State.turn, hfree]
      · have := h.mutex_lt j hj
        simp
        omega
      · simp [State.turn, h.samples, Client.appended]
      · simp [State.turn, h.requests, Client.answered]
    | endWall at_ =>
      refine h.turn ?_ ?_ (fun i c hc hi => ?_) ?_
      · simp [at_, MainAt.spawned]
      · simp
      · exact h.joined i c hc (by rw [at_]; exact hi)
      · simp [at_, MainAt.Measures]

theorem reachable_inv {now : ℚ} (h : (system config modeName overrideBatch now).Reachable s) : Inv config s := by
  induction h with
  | init => exact Inv.init now
  | step _ _ hs ih => exact ih.step (Move.of_step hs).2

/-! ### The result -/

/-- What a result says of the requests: every latency of every client is in it once, and each client has made its
requests one after the other until the test was over.  The order in which the clients have come in does not matter. -/
structure Measured (config : Config) (modeName : String) (overrideBatch : Nat) (s : State) (r : BenchmarkResult) :
    Prop where
  clients : s.clients.length = config.concurrentClients.toNat
  samples : (r.latencySamplesMs : Multiset ℚ) = (s.clients.map fun c => (c.localLatencies : Multiset ℚ)).sum
  requests : r.totalRequests = s.requests
  enough : ∀ c ∈ s.clients, config.minIterations ≤ c.localLatencies.length
  latency : ∀ x ∈ r.latencySamplesMs, 0 ≤ x ∧ x ≤ r.totalWallMs
  late : s.clients ≠ [] → config.testDurationSec * 1000 ≤ r.totalWallMs
  /-- no more requests are under way at a time than there are clients -/
  concurrency : r.throughputFps * r.latencyAvgMs ≤ s.clients.length * 1000
  order : ∀ samples, samples.Perm r.latencySamplesMs →
    computeResult modeName samples r.totalWallMs overrideBatch = some { r with latencySamplesMs := samples }

theorem Measured.congr {r : BenchmarkResult} (h : Measured config modeName overrideBatch s r)
    (hclients : s'.clients = s.clients) (hrequests : s'.requests = s.requests) :
    Measured config modeName overrideBatch s' r := by
  obtain ⟨h1, h2, h3, h4, h5, h6, h7, h8⟩ := h
  rw [← hclients] at h1 h2 h4 h6 h7
  exact ⟨h1, h2, h3.trans hrequests.symm, h4, h5, h6, h7, h8⟩

theorem exists_result (modeName : String) (samples : List ℚ) (wall : ℚ) (overrideBatch : Nat) :
    ∃ r, computeResult modeName samples wall overrideBatch = some r ∧ r.totalRequests = samples.length ∧
      r.totalWallMs = wall ∧ r.latencySamplesMs = samples ∧
      r.throughputFps * r.latencyAvgMs = (if wall > 0 then samples.sum / wall * 1000 else 0) ∧
      ∀ samples', samples'.Perm samples →
        computeResult modeName samples' wall overrideBatch = some { r with latencySamplesMs := samples' } := by
  by_cases hne : samples = []
  · subst hne
    refine ⟨_, rfl, rfl, rfl, rfl, by simp, fun samples' hp => ?_⟩
    rw [hp.eq_nil]
    rfl
  · refine ⟨_, computeResult_eq hne _ _ _, rfl, rfl, rfl, ?_, fun samples' hp => ?_⟩
    · have hlen : (samples.length : ℚ) ≠ 0 := by
        have := List.length_pos_iff.2 hne
        positivity
      simp only [statistics]
      split
      · field_simp
      · rw [zero_mul]
    · have hne' : samples' ≠ [] := fun hnil => hne (hnil ▸ hp).symm.eq_nil
      rw [computeResult_eq hne', statistics_congr hp.symm]

theorem Inv.exists_measured (h : Inv config s) (at_ : s.main = .wallEnd) (modeName : String) (overrideBatch : Nat) :
    ∃ r, computeResult modeName s.latenciesMs ((s.now - s.wallStart) * 1000) overrideBatch = some r ∧
      Measured config modeName overrideBatch s r := by
  have hwall := h.wall (by simp [at_, MainAt.Measures])
  have hlen : s.clients.length = count config := by simpa [at_, MainAt.spawned] using h.length
  have hended : ∀ c ∈ s.clients, c.pc = .ended := by
    intro c hc
    obtain ⟨i, hi⟩ := List.mem_iff_getElem?.1 hc
    have hlt := (List.getElem?_eq_some_iff.1 hi).1
    exact h.joined i c hi (by simp [at_, MainAt.joined]; omega)
  have hsound : ∀ c ∈ s.clients, c.Sound config s.wallStart s.now ∧ c.Left ∧ c.upTo s.now = s.now := by
    intro c hc
    obtain ⟨i, hi⟩ := List.mem_iff_getElem?.1 hc
    exact ⟨h.sound i c hi, by simp [Client.Left, hended c hc], by simp [Client.upTo, hended c hc]⟩
  have hsamples : (s.latenciesMs : Multiset ℚ) = (s.clients.map fun c => (c.localLatencies : Multiset ℚ)).sum := by
    rw [h.samples]
    refine congrArg List.sum (List.map_congr_left fun c hc => ?_)
    simp [Client.appended, hended c hc]
  have hrequests : s.requests = s.latenciesMs.length := by
    have hcard := map_list_sum Multiset.cardHom (s.clients.map fun c => (c.localLatencies : Multiset ℚ))
    rw [← hsamples, List.map_map] at hcard
    refine h.requests.trans (Eq.trans (congrArg List.sum (List.map_congr_left fun c hc => ?_)) hcard.symm)
    simp [Client.answered, hended c hc]
  obtain ⟨r, hr, hcount, htotal, hlist, hproduct, horder⟩ :=
    exists_result modeName s.latenciesMs ((s.now - s.wallStart) * 1000) overrideBatch
  have hclient : ∀ c ∈ s.clients, c.localLatencies.sum ≤ (s.now - s.wallStart) * 1000 := by
    intro c hc
    obtain ⟨hs, -, hup⟩ := hsound c hc
    exact hup ▸ hs.sum_le
  refine ⟨r, hr, hlen, hlist ▸ hsamples, hcount.trans hrequests.symm, fun c hc => ?_, fun x hx => ?_, fun hne => ?_, ?_,
    ?_⟩
  · exact (hsound c hc).1.enough (hsound c hc).2.1
  · rw [hlist] at hx
    have hmem : x ∈ (s.clients.map fun c => (c.localLatencies : Multiset ℚ)).sum := hsamples ▸ hx
    obtain ⟨c, hc, hxc⟩ := Ledger.mem_sum_map.1 hmem
    have hnonneg := (hsound c hc).1.nonneg
    have hle : x ≤ c.localLatencies.sum := List.single_le_sum hnonneg x hxc
    rw [htotal]
    exact ⟨hnonneg x hxc, hle.trans (hclient c hc)⟩
  · obtain ⟨c, hc⟩ := List.exists_mem_of_ne_nil _ hne
    have hlate := (hsound c hc).1.late (hsound c hc).2.1
    rw [htotal]
    linarith
  · have hsum : s.latenciesMs.sum ≤ s.clients.length * ((s.now - s.wallStart) * 1000) := by
      have hsplit : s.latenciesMs.sum = (s.clients.map fun c => c.localLatencies.sum).sum := by
        rw [← Multiset.sum_coe, hsamples, ← Multiset.coe_sumAddMonoidHom, map_list_sum, List.map_map]
        rfl
      rw [hsplit]
      have := List.sum_le_card_nsmul (s.clients.map fun c => c.localLatencies.sum) ((s.now - s.wallStart) * 1000) (by
        intro x hx
        obtain ⟨c, hc, rfl⟩ := List.mem_map.1 hx
        exact hclient c hc)
      simpa using this
    rw [hproduct]
    split
    · rename_i hpos
      have hdiv : s.latenciesMs.sum / ((s.now - s.wallStart) * 1000) ≤ s.clients.length := (div_le_iff₀ hpos).2 hsum
      linarith
    · positivity
  · intro samples hp
    have heq := horder samples (hlist ▸ hp)
    rwa [← htotal] at heq

/-- Whenever `run_pipeline` returns, in whatever order its threads have run on a clock that never goes back, its
result is what the clients have measured. -/
theorem measured {now : ℚ} {result : Option BenchmarkResult}
    (h : (system config modeName overrideBatch now).Reachable s) (hr : s.main = .returned result) :
    ∃ r, result = some r ∧ Measured config modeName overrideBatch s r := by
  induction h with
  | init => cases hr
  | @step s s' l hreach _ hs ih =>
    have hi := reachable_inv hreach
    obtain ⟨-, hm⟩ := Move.of_step hs
    cases l with
    | tick d =>
      cases hm with
      | tick =>
        obtain ⟨r, heq, hm⟩ := ih hr
        exact ⟨r, heq, hm.congr rfl rfl⟩
    | client i ok =>
      rcases hm.change_of_client with rfl | ⟨c, c', hch⟩
      · obtain ⟨r, heq, hm⟩ := ih hr
        exact ⟨r, heq, hm.congr rfl rfl⟩
      · have hlt := (List.getElem?_eq_some_iff.1 hch.hc).1
        have hlen := hi.length
        rw [← hch.main, hr] at hlen
        refine absurd (hi.joined i c hch.hc ?_) hch.running
        rw [← hch.main, hr]
        exact hlt.trans_eq hlen
    | main ok =>
      cases hm with
      | turn ht => cases ht <;> cases hr
      | endWall at_ =>
        cases hr
        obtain ⟨r, heq, hm⟩ := hi.exists_measured at_ modeName overrideBatch
        exact ⟨r, heq, hm.congr rfl rfl⟩
      | startWall | spawn => cases hr

end Model

/-- Two clients with a request each, after one of the warm-up. -/
def twoClients : Config where
  mode := "sync"
  syncOverride := .default
  asyncOverride := .default
  batchOverride := .default
  configPath := "config/model_config.yaml"
  imagePath := "assets/bus.png"
  warmupCount := 1
  testDurationSec := 1
  minIterations := 1
  concurrentClients := 2
  modelType := "yolo"
  showGpuStats := false
  outputDir := "./benchmark_output"
  exportJson := false
  exportCsv := false

/-- The request of the first client takes one second and that of the second one two. -/
def twoRequests : List Label :=
  List.replicate 8 (.main true) ++ [0, 1, 0, 1, 0, 1].map (.client · true) ++
    .tick 1 :: [.client 0 true, .client 0 true, .tick 1, .client 1 true, .client 1 true]

/-- The clients come in. -/
def twoEnds : List Label := [0, 0, 1, 0, 0, 1, 1, 1].map (.client · true)

theorem measured_twoClients : ∃ s r, Measured twoClients "Sync" 0 s r ∧ r.totalRequests = 2 ∧
    r.latencyMaxMs = 2000 := by
  obtain ⟨s, hs, hp⟩ := System.exists_reachable_of_run (system twoClients "Sync" 0 0)
    (twoRequests ++ twoEnds ++ List.replicate 4 (.main true))
    (fun s => s.main.result.any fun r => r.totalRequests == 2 && r.latencyMaxMs == 2000) (by decide +kernel)
  obtain ⟨r, hr, hp⟩ := (Option.any_eq_true _ _).1 hp
  simp only [Bool.and_eq_true, beq_iff_eq] at hp
  have hmain : s.main = .returned (some r) := by
    cases hm : s.main <;> simp [MainAt.result, hm] at hr
    rw [hr]
  obtain ⟨r', heq, hm⟩ := measured hs hmain
  cases heq
  exact ⟨s, r, hm, hp.1, hp.2⟩

end OnnxInference.Benchmark.Pipeline
