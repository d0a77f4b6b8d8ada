import OnnxInference.Monitor

/-!
# The workers of the thread pool (`include/thread/ThreadPool.h`)

The worker loops, the calls of `enqueue` and the destructor are the threads of a monitor.  What a job does is not
known: it calls `enqueue` on its own pool as often as it likes and returns.  `exited` are the workers whose threads
have ended, which the joins wait for; `accepted`, `taken` and `finished` are the jobs that were pushed, popped and
executed, and do not exist in the program.  Every accepted job is executed once (`pool_sound`).
-/

namespace OnnxInference.PoolWorkers

open Concurrency Transition

variable {J : Type}

/-! ### The model -/

/-- The execution of the job that was accepted as number `index`. -/
structure Run (J : Type) where
  index : Nat
  worker : Nat
  job : J
  deriving DecidableEq

structure Pool (J : Type) where
  que : List J
  isRunning : Bool
  exited : List Nat
  accepted : List J
  taken : List (Run J)
  finished : List (Run J)

/-- Where a thread stands.  A call of `enqueue` is made by a job or by a thread that is no worker. -/
inductive Local (J : Type)
  | worker (w : Nat)
  | job (r : Run J)
  | exited (w : Nat)
  | enqueue (caller : Option (Run J)) (j : J)
  | notify (caller : Option (Run J))
  /-- `enqueue` has returned the future or has thrown -/
  | enqueued (caller : Option (Run J)) (ok : Bool)
  | destroy
  | destroyNotify
  | join (w : Nat)
  | destroyed
  deriving DecidableEq

/-- The critical section of the loop: the wait with its predicate, and a job or the `break`. -/
def work (p : Pool J) (w : Nat) : Act (Pool J) Unit (Local J) :=
  if !p.isRunning || !p.que.isEmpty then
    match p.que with
    | j :: que =>
      let r : Run J := ⟨p.taken.length, w, j⟩
      .goto { p with que := que, taken := p.taken ++ [r] } (.job r)
    | [] => .goto { p with exited := p.exited ++ [w] } (.exited w)
  else .sleep p () (.worker w)

/-- The critical section of `enqueue`. -/
def push (p : Pool J) (caller : Option (Run J)) (j : J) : Act (Pool J) Unit (Local J) :=
  if !p.isRunning then .goto p (.enqueued caller false)
  else .goto { p with que := p.que ++ [j], accepted := p.accepted ++ [j] } (.notify caller)

/-- The next step of a thread.  A job with the choice `some j` enqueues `j`, with `none` it returns. -/
def act (poolSize : Nat) (c : Option J) (p : Pool J) : Local J → Option (Act (Pool J) Unit (Local J))
  | .worker w => some (work p w)
  | .job r =>
    match c with
    | some j => some (.goto p (.enqueue (some r) j))
    | none => some (.goto { p with finished := p.finished ++ [r] } (.worker r.worker))
  | .enqueue caller j => some (push p caller j)
  | .notify caller => some (.notifyOne p () (.enqueued caller true))
  -- the exception of a call in a job is the job's, and ends in its `packaged_task` at the latest
  | .enqueued (some r) _ => some (.goto p (.job r))
  | .destroy => some (.goto { p with isRunning := false } .destroyNotify)
  | .destroyNotify => some (.notifyAll p () (.join 0))
  | .join w =>
    if w < poolSize then (if w ∈ p.exited then some (.goto p (.join (w + 1))) else none)
    else some (.goto p .destroyed)
  | .exited _ | .enqueued none _ | .destroyed => none

def entry : Local J → Bool
  | .enqueue none _ => true
  | _ => false

def monitor (J : Type) (poolSize : Nat) : Monitor (Option J) (Pool J) Unit (Local J) := ⟨entry, act poolSize⟩

def create : Pool J := ⟨[], true, [], [], [], []⟩

/-- The workers, and the thread that will destroy the pool. -/
def threads (poolSize : Nat) : List (Local J) := (List.range poolSize).map .worker ++ [.destroy]

def system (J : Type) (poolSize : Nat) :
    System (Monitor.State (Pool J) Unit (Local J)) (Monitor.Label (Option J) (Local J)) :=
  (monitor J poolSize).system create (threads poolSize)

/-- The execution that the thread is in. -/
def Local.run : Local J → Option (Run J)
  | .job r => some r
  | .enqueue caller _ | .notify caller | .enqueued caller _ => caller
  | _ => none

/-- The worker whose loop the thread is in. -/
def Local.live : Local J → Option Nat
  | .worker w => some w
  | l => l.run.map Run.worker

/-- The thread is about to notify one worker. -/
def notifies : Local J → Bool
  | .notify _ => true
  | _ => false

/-- The thread is about to notify all workers. -/
def notifiesAll : Local J → Bool
  | .destroyNotify => true
  | _ => false

def waits : Local J → Bool
  | .worker _ => true
  | _ => false

theorem mem_threads {poolSize : Nat} {l : Local J} (h : l ∈ threads poolSize) :
    (∃ w, l = .worker w) ∨ l = .destroy := by
  rcases List.mem_append.1 h with h | h
  · obtain ⟨w, -, rfl⟩ := List.mem_map.1 h
    exact .inl ⟨w, rfl⟩
  · exact .inr (List.mem_singleton.1 h)

theorem entry_eq_true {l : Local J} (h : entry l = true) : ∃ j, l = .enqueue none j := by
  cases l with
  | enqueue caller j =>
    cases caller with
    | none => exact ⟨j, rfl⟩
    | some r => cases h
  | _ => cases h

/-! ### What a thread does -/

inductive Moves (poolSize : Nat) (p : Pool J) : Local J → Act (Pool J) Unit (Local J) → Prop
  | take (w) {j que} (hque : p.que = j :: que) : Moves poolSize p (.worker w)
      (.goto { p with que := que, taken := p.taken ++ [⟨p.taken.length, w, j⟩] } (.job ⟨p.taken.length, w, j⟩))
  | exit (w) (hque : p.que = []) (hstop : p.isRunning = false) :
    Moves poolSize p (.worker w) (.goto { p with exited := p.exited ++ [w] } (.exited w))
  | wait (w) (hque : p.que = []) (hrun : p.isRunning = true) : Moves poolSize p (.worker w) (.sleep p () (.worker w))
  | call (r j) : Moves poolSize p (.job r) (.goto p (.enqueue (some r) j))
  | finish (r) :
    Moves poolSize p (.job r) (.goto { p with finished := p.finished ++ [r] } (.worker r.worker))
  | refuse (caller j) (hstop : p.isRunning = false) :
    Moves poolSize p (.enqueue caller j) (.goto p (.enqueued caller false))
  | accept (caller j) (hrun : p.isRunning = true) : Moves poolSize p (.enqueue caller j)
      (.goto { p with que := p.que ++ [j], accepted := p.accepted ++ [j] } (.notify caller))
  | notify (caller) : Moves poolSize p (.notify caller) (.notifyOne p () (.enqueued caller true))
  | resume (r ok) : Moves poolSize p (.enqueued (some r) ok) (.goto p (.job r))
  | destroy : Moves poolSize p .destroy (.goto { p with isRunning := false } .destroyNotify)
  | destroyNotify : Moves poolSize p .destroyNotify (.notifyAll p () (.join 0))
  | join {w} (hw : w < poolSize) (hexited : w ∈ p.exited) : Moves poolSize p (.join w) (.goto p (.join (w + 1)))
  | destroyed {w} (hw : poolSize ≤ w) : Moves poolSize p (.join w) (.goto p .destroyed)

section Moves

variable {poolSize : Nat} {c : Option J} {p : Pool J} {l : Local J} {a : Act (Pool J) Unit (Local J)}

theorem moves_work (w : Nat) : Moves poolSize p (.worker w) (work p w) := by
  unfold work
  split
  · rename_i hpred
    split
    · rename_i hque
      exact .take w hque
    · rename_i hque
      have hstop : p.isRunning = false := by simpa [hque] using hpred
      exact .exit w hque hstop
  · rename_i hpred
    simp only [Bool.or_eq_true, Bool.not_eq_true', not_or, Bool.not_eq_false, List.isEmpty_iff] at hpred
    exact .wait w hpred.2 hpred.1

theorem moves_push (caller : Option (Run J)) (j : J) : Moves poolSize p (.enqueue caller j) (push p caller j) := by
  unfold push
  split
  · rename_i hstop
    exact .refuse caller j (Bool.not_eq_true' _ ▸ hstop)
  · rename_i hrun
    exact .accept caller j (by simpa using hrun)

theorem moves_of_act (h : act poolSize c p l = some a) : Moves poolSize p l a := by
  cases l with
  | worker w => cases h; exact moves_work w
  | job r =>
    cases c with
    | some j => cases h; exact .call r j
    | none => cases h; exact .finish r
  | enqueue caller j => cases h; exact moves_push caller j
  | notify caller => cases h; exact .notify caller
  | enqueued caller ok =>
    cases caller with
    | none => cases h
    | some r => cases h; exact .resume r ok
  | destroy => cases h; exact .destroy
  | destroyNotify => cases h; exact .destroyNotify
  | join w =>
    simp only [act] at h
    split at h
    · rename_i hw
      split at h
      · rename_i hexited
        cases h
        exact .join hw hexited
      · cases h
    · rename_i hw
      cases h
      exact .destroyed (Nat.not_lt.1 hw)
  | exited _ | destroyed => cases h

end Moves

/-! ### The jobs -/

section Jobs

variable {poolSize : Nat} {p : Pool J} {l : Local J} {a : Act (Pool J) Unit (Local J)}
  {s : Monitor.State (Pool J) Unit (Local J)}

/-- Jobs are taken in the order in which they were accepted, and workers leave when there is no more to take. -/
structure Ordered (p : Pool J) : Prop where
  order : p.taken.map Run.job ++ p.que = p.accepted
  index : p.taken.map Run.index = List.range p.taken.length
  left : p.exited ≠ [] → p.isRunning = false ∧ p.que = []

theorem Ordered.move (h : Ordered p) (hm : Moves poolSize p l a) : Ordered a.shared := by
  cases hm with
  | @take w j que hque =>
    refine ⟨?_, ?_, fun hex => ?_⟩
    · show (p.taken ++ [_]).map Run.job ++ que = p.accepted
      rw [← h.order, hque, List.map_append, List.append_assoc, List.map_singleton, List.singleton_append]
    · show (p.taken ++ [_]).map Run.index = List.range (p.taken ++ [_]).length
      rw [List.map_append, h.index, List.length_append, List.length_singleton, List.range_succ, List.map_singleton]
    · have hnil := (h.left hex).2
      rw [hque] at hnil
      cases hnil
  | exit w hque hstop => exact ⟨h.order, h.index, fun _ => ⟨hstop, hque⟩⟩
  | accept caller j hrun =>
    refine ⟨?_, h.index, fun hex => ?_⟩
    · show p.taken.map Run.job ++ (p.que ++ [j]) = p.accepted ++ [j]
      rw [← h.order, List.append_assoc]
    · cases hrun.symm.trans (h.left hex).1
  | destroy => exact ⟨h.order, h.index, fun hex => ⟨rfl, (h.left hex).2⟩⟩
  | finish => exact ⟨h.order, h.index, h.left⟩
  | wait | call | refuse | notify | resume | destroyNotify | join | destroyed => exact h

/-- The joins that have returned. -/
def Joined (poolSize : Nat) (p : Pool J) (l : Local J) : Prop :=
  (∀ w, l = .join w → ∀ w' < w, w' ∈ p.exited) ∧ (l = .destroyed → ∀ w < poolSize, w ∈ p.exited)

theorem Moves.exited_subset (hm : Moves poolSize p l a) : p.exited ⊆ a.shared.exited := by
  cases hm with
  | exit => exact List.subset_append_left _ _
  | _ => exact List.Subset.refl _

theorem Joined.move (h : Joined poolSize p l) (hm : Moves poolSize p l a) : Joined poolSize a.shared a.next := by
  cases hm with
  | destroyNotify => exact ⟨fun w hw w' hlt => by cases hw; exact absurd hlt (Nat.not_lt_zero w'), nofun⟩
  | @join w hw hexited =>
    refine ⟨fun w₁ hw₁ w' hlt => ?_, nofun⟩
    cases hw₁
    rcases Nat.lt_succ_iff_lt_or_eq.1 hlt with hlt | rfl
    · exact h.1 w rfl w' hlt
    · exact hexited
  | @destroyed w hw => exact ⟨nofun, fun _ w' hlt => h.1 w rfl w' (hlt.trans_le hw)⟩
  | take | exit | wait | call | finish | refuse | accept | notify | resume | destroy => exact ⟨nofun, nofun⟩

theorem ordered_of_reachable (h : (system J poolSize).Reachable s) :
    Ordered s.shared ∧ ∀ l ∈ s.locs, Joined poolSize s.shared l := by
  refine Monitor.invariant (K := Ordered) ⟨rfl, rfl, fun hex => absurd rfl hex⟩ (fun l hl => ?_) (fun {_ l} _ hl => ?_)
    (fun {_ p l a} hK hJ ha => ?_) h
  · obtain ⟨w, rfl⟩ | rfl := mem_threads hl
    · exact ⟨nofun, nofun⟩
    · exact ⟨nofun, nofun⟩
  · obtain ⟨j, rfl⟩ := entry_eq_true hl
    exact ⟨nofun, nofun⟩
  · have hm := moves_of_act ha
    refine ⟨hK.move hm, hJ.move hm, fun l' hl' => ?_⟩
    exact ⟨fun w hw w' hlt => hm.exited_subset (hl'.1 w hw w' hlt), fun hd w hlt => hm.exited_subset (hl'.2 hd w hlt)⟩

/-- The executions that the thread is in, none or one. -/
def Local.runs (l : Local J) : Multiset (Run J) := l.run.toList

/-- The workers whose loop the thread is in. -/
def Local.workers (l : Local J) : Multiset Nat := l.live.toList

/-- Every run that has been taken is finished or is that of one thread. -/
theorem Moves.runs (hm : Moves poolSize p l a) {x : Multiset (Run J)}
    (h : (p.finished : Multiset (Run J)) + (l.runs + x) = p.taken) :
    (a.shared.finished : Multiset (Run J)) + (a.next.runs + x) = a.shared.taken := by
  cases hm with
  | take w hque =>
    show (p.finished : Multiset (Run J)) + ({_} + x) = ((p.taken ++ [_] : List (Run J)) : Multiset (Run J))
    have hx : (p.finished : Multiset (Run J)) + x = p.taken := by
      rw [← h]
      exact congrArg _ (zero_add x).symm
    rw [← Multiset.coe_add, ← hx, add_assoc, add_comm x]
    rfl
  | finish r =>
    show ((p.finished ++ [r] : List (Run J)) : Multiset (Run J)) + (0 + x) = p.taken
    rw [← Multiset.coe_add, zero_add, add_assoc]
    exact h
  | _ => exact h

/-- Every worker has left or is in the loop of one thread. -/
theorem Moves.workers (hm : Moves poolSize p l a) {x : Multiset Nat}
    (h : (p.exited : Multiset Nat) + (l.workers + x) = (List.range poolSize : Multiset Nat)) :
    (a.shared.exited : Multiset Nat) + (a.next.workers + x) = (List.range poolSize : Multiset Nat) := by
  cases hm with
  | exit w =>
    show ((p.exited ++ [w] : List Nat) : Multiset Nat) + (0 + x) = _
    rw [← Multiset.coe_add, zero_add, add_assoc]
    exact h
  | _ => exact h

theorem runs_eq (h : (system J poolSize).Reachable s) :
    (s.shared.finished : Multiset (Run J)) + (s.locs.map Local.runs).sum = s.shared.taken := by
  refine Monitor.balance (fun p => (p.finished : Multiset (Run J))) (fun p => (p.taken : Multiset (Run J)))
    Local.runs ?_ (fun l hl => ?_) (fun _ _ ha hx => (moves_of_act ha).runs hx) h
  · have hzero : ((threads poolSize : List (Local J)).map Local.runs).sum = 0 := by
      refine List.sum_eq_zero fun x hx => ?_
      obtain ⟨l, hl, rfl⟩ := List.mem_map.1 hx
      obtain ⟨w, rfl⟩ | rfl := mem_threads hl
      · rfl
      · rfl
    rw [hzero]
    rfl
  · obtain ⟨j, rfl⟩ := entry_eq_true hl
    rfl

theorem workers_eq (h : (system J poolSize).Reachable s) :
    (s.shared.exited : Multiset Nat) + (s.locs.map Local.workers).sum = (List.range poolSize : Multiset Nat) := by
  refine Monitor.balance (fun p => (p.exited : Multiset Nat)) (fun _ => (List.range poolSize : Multiset Nat))
    Local.workers ?_
    (fun l hl => ?_) (fun _ _ ha hx => (moves_of_act ha).workers hx) h
  · have hsum := Multiset.sum_map_singleton (List.range poolSize : Multiset Nat)
    rw [Multiset.map_coe, Multiset.sum_coe] at hsum
    rw [threads, List.map_append, List.map_map, List.sum_append]
    calc (0 : Multiset Nat) + (((List.range poolSize).map fun w => {w}).sum + (0 + 0))
        = ((List.range poolSize).map fun w => {w}).sum := by rw [zero_add, add_zero, add_zero]
      _ = (List.range poolSize : Multiset Nat) := hsum
  · obtain ⟨j, rfl⟩ := entry_eq_true hl
    rfl

theorem not_live_of_joined (h : (system J poolSize).Reachable s) (hjoined : ∀ w < poolSize, w ∈ s.shared.exited) :
    ∀ l ∈ s.locs, l.live = none := by
  have hsum := workers_eq h
  have hnodup : (s.shared.exited + (s.locs.map Local.workers).sum : Multiset Nat).Nodup := by
    rw [hsum]
    exact Multiset.coe_nodup.2 List.nodup_range
  intro l hl
  by_contra hlive
  obtain ⟨w, hw⟩ := Option.ne_none_iff_exists'.1 hlive
  have hmem : w ∈ (s.locs.map Local.workers).sum :=
    Ledger.mem_sum_map.2 ⟨l, hl, by rw [Local.workers, hw]; exact List.mem_singleton_self w⟩
  have hrange : w ∈ (List.range poolSize : Multiset Nat) := hsum ▸ Multiset.mem_add.2 (.inr hmem)
  have hexited := hjoined w (List.mem_range.1 hrange)
  exact Multiset.disjoint_left.1 (Multiset.nodup_add.1 hnodup).2.2 hexited hmem

theorem live_of_run {l : Local J} {r : Run J} (h : l.run = some r) : l.live = some r.worker := by
  cases l with
  | job => cases h; rfl
  | enqueue | notify | enqueued => exact congrArg (Option.map Run.worker) h
  | _ => cases h

theorem run_eq_none_of_live {l : Local J} (h : l.live = none) : l.run = none := by
  cases l with
  | job | enqueue | notify | enqueued => exact Option.map_eq_none_iff.1 h
  | _ => rfl

/-- When the joins have returned every job that was accepted has been executed. -/
theorem executed_of_destroyed (hpos : 0 < poolSize)
    (h : (system J poolSize).Reachable s) (hdestroyed : .destroyed ∈ s.locs) :
    s.shared.que = [] ∧ s.shared.finished.Perm s.shared.taken ∧ s.shared.taken.map Run.job = s.shared.accepted := by
  obtain ⟨hordered, hjoined⟩ := ordered_of_reachable h
  have hall := (hjoined _ hdestroyed).2 rfl
  have hque := (hordered.left (List.ne_nil_of_mem (hall 0 hpos))).2
  have hruns := runs_eq h
  have hzero : (s.locs.map Local.runs).sum = 0 := by
    refine List.sum_eq_zero fun x hx => ?_
    obtain ⟨l, hl, rfl⟩ := List.mem_map.1 hx
    rw [Local.runs, run_eq_none_of_live (not_live_of_joined h hall l hl)]
    rfl
  rw [hzero, add_zero] at hruns
  exact ⟨hque, Multiset.coe_eq_coe.1 hruns, by rw [← hordered.order, hque, List.append_nil]⟩

end Jobs

/-! ### Wake-ups -/

section Wakeups

variable {poolSize : Nat} {p : Pool J} {l : Local J} {a : Act (Pool J) Unit (Local J)}
  {s : Monitor.State (Pool J) Unit (Local J)}

theorem Moves.units (hm : Moves poolSize p l a) (hwait : a.wait ≠ some ()) :
    a.shared.que.length = 0 ∨ a.shared.que.length + (notifies l || waits l).toNat ≤
      p.que.length + (a.wait.isNone && notifies a.next).toNat + (if a.signal = .one () then 1 else 0) := by
  cases hm with
  | take w hque => exact .inr (by simp [Act.goto, notifies, waits, hque])
  | exit w hque => exact .inl (by rw [Act.goto, hque, List.length_nil])
  | wait => exact absurd rfl hwait
  | accept => exact .inr (by simp [Act.goto, notifies, waits])
  | call | finish | refuse | notify | resume | destroy | destroyNotify | join | destroyed => exact .inr le_rfl

theorem Moves.wait_units (hm : Moves poolSize p l a) (hwait : a.wait = some ()) :
    a.shared.que.length = 0 ∧ waits a.next = true ∧ a.shared.isRunning = true := by
  cases hm with
  | wait w hque hrun => exact ⟨by rw [Act.sleep, hque, List.length_nil], rfl, hrun⟩
  | take | exit | call | finish | refuse | accept | notify | resume | destroy | destroyNotify | join | destroyed =>
    cases hwait

/-- The destructor goes on to notify all workers. -/
theorem Moves.owe (hm : Moves poolSize p l a) (hstop : a.shared.isRunning = false)
    (howe : p.isRunning = true ∨ notifiesAll l = true) :
    a.signal = .all () ∨ (a.wait = none ∧ notifiesAll a.next = true) := by
  cases hm with
  | destroy => exact .inr ⟨rfl, rfl⟩
  | destroyNotify => exact .inl rfl
  | take | exit | wait | call | finish | refuse | accept | notify | resume | join | destroyed =>
    rcases howe with hrun | howe
    · cases hrun.symm.trans hstop
    · cases howe

/-- What the workers wait for are the jobs in the queue. -/
def condition (J : Type) (poolSize : Nat) : Monitor.Discipline (monitor J poolSize) create (threads poolSize) () where
  units p := p.que.length
  owes := notifies
  waits := waits
  wait _ _ ha hwait := ((moves_of_act ha).wait_units hwait).imp_right And.left
  move _ _ ha hwait := (moves_of_act ha).units hwait

def stopping (J : Type) (poolSize : Nat) : Monitor.Closing (monitor J poolSize) create (threads poolSize) () where
  closed p := !p.isRunning
  owesAll := notifiesAll
  wait _ _ ha hwait := by rw [((moves_of_act ha).wait_units hwait).2.2]; rfl
  owe _ _ ha hstop howe :=
    (moves_of_act ha).owe (Bool.not_eq_true' _ ▸ hstop) (howe.imp_left (Bool.not_eq_false' _ ▸ ·))

/-- While a job is queued, a worker is not asleep or somebody is about to notify one. -/
theorem exists_awake (hpos : 0 < poolSize) (h : (system J poolSize).Reachable s) (hque : s.shared.que ≠ []) :
    (∃ t ∈ s.threads, t.isAsleep = false ∧ ∃ w, t.loc.live = some w) ∨
      ∃ l, .awake l ∈ s.threads ∧ notifies l = true := by
  have hexited : s.shared.exited = [] := by
    by_contra hne
    exact hque ((ordered_of_reachable h).1.left hne).2
  have hworkers := workers_eq h
  rw [hexited, Multiset.coe_nil, zero_add] at hworkers
  have hzero : 0 ∈ (s.locs.map Local.workers).sum := hworkers ▸ List.mem_range.2 hpos
  obtain ⟨l, hl, hmem⟩ := Ledger.mem_sum_map.1 hzero
  obtain ⟨t, ht, rfl⟩ := List.mem_map.1 hl
  cases hsleep : t.isAsleep with
  | false => exact .inl ⟨t, ht, hsleep, 0, by simpa [Local.workers] using hmem⟩
  | true =>
    cases t with
    | awake _ | woken _ _ => cases hsleep
    | asleep v l =>
      have hle := (condition J poolSize).covered h ht
      have hlen : 0 < s.shared.que.length := List.length_pos_iff.2 hque
      obtain ⟨t', ht', halerted⟩ := List.countP_pos_iff.1 (hlen.trans_le hle)
      cases t' with
      | awake l' => exact .inr ⟨l', ht', halerted⟩
      | asleep _ _ => cases halerted
      | woken v' l' =>
        have hwaits := (Monitor.Discipline.Covered.of_reachable (D := condition J poolSize) h).woken l' ht'
        cases l' with
        | worker w => exact .inl ⟨_, ht', rfl, w, rfl⟩
        | _ => cases hwaits

end Wakeups

/-! ### The result -/

/-- What a state of the pool promises.  The runs that were taken, numbered by their order, are of the jobs in the
order in which they were accepted, and each of them is finished or is that of one thread, as is each worker. -/
structure Sound (poolSize : Nat) (s : Monitor.State (Pool J) Unit (Local J)) : Prop where
  order : s.shared.taken.map Run.job ++ s.shared.que = s.shared.accepted
  index : s.shared.taken.map Run.index = List.range s.shared.taken.length
  once : (s.shared.finished : Multiset (Run J)) + (s.locs.map Local.runs).sum = s.shared.taken
  workers : (s.shared.exited : Multiset Nat) + (s.locs.map Local.workers).sum = (List.range poolSize : Multiset Nat)
  drained : .destroyed ∈ s.locs → s.shared.que = [] ∧ s.shared.finished.Perm s.shared.taken ∧
    s.shared.taken.map Run.job = s.shared.accepted
  asleep : ∀ l, .asleep () l ∈ s.threads → s.shared.que.length ≤ s.threads.countP (Thread.alerted () notifies)
  awake : s.shared.que ≠ [] → (∃ t ∈ s.threads, t.isAsleep = false ∧ ∃ w, t.loc.live = some w) ∨
    ∃ l, .awake l ∈ s.threads ∧ notifies l = true
  stopped : s.shared.isRunning = false → ∀ l, .asleep () l ∈ s.threads →
    ∃ l', .awake l' ∈ s.threads ∧ notifiesAll l' = true

/-- Every accepted job is executed once, whatever the jobs do and however the threads interleave, and a call of
`enqueue` on a pool that is being destroyed throws and adds nothing. -/
theorem pool_sound {poolSize : Nat} {s : Monitor.State (Pool J) Unit (Local J)} (hpos : 0 < poolSize)
    (h : (system J poolSize).Reachable s) :
    Sound poolSize s ∧ ∀ c caller j a, act poolSize c s.shared (.enqueue caller j) = some a →
      (s.shared.isRunning = false → a = .goto s.shared (.enqueued caller false)) ∧
      (s.shared.isRunning = true → a.next = .notify caller ∧ a.shared.que = s.shared.que ++ [j] ∧
        a.shared.accepted = s.shared.accepted ++ [j]) := by
  obtain ⟨hordered, -⟩ := ordered_of_reachable h
  refine ⟨⟨hordered.order, hordered.index, runs_eq h, workers_eq h, executed_of_destroyed hpos h, fun l hl => ?_,
    exists_awake hpos h,
    fun hstop l hl => ?_⟩, fun c caller j a ha => ?_⟩
  · exact (condition J poolSize).covered h hl
  · exact (stopping J poolSize).announced h (Bool.not_eq_true' _ ▸ hstop) hl
  · cases moves_of_act ha with
    | refuse _ _ hstop => exact ⟨fun _ => rfl, fun hrun => absurd (hrun.symm.trans hstop) nofun⟩
    | accept _ _ hrun => exact ⟨fun hstop => absurd (hrun.symm.trans hstop) nofun, fun _ => ⟨rfl, rfl, rfl⟩⟩

/-- Two workers: the first executes a job that enqueues another, which the second executes while the pool is
destroyed. -/
def nestedRun : List (Monitor.Label (Option Nat) (Local Nat)) :=
  [.act 1 none none, .start (.enqueue none 7), .act 3 none none, .act 3 none (some 1), .act 0 none none,
    .act 0 (some 8) none, .act 0 none none, .act 0 none none, .act 1 none none, .act 2 none none, .act 2 none none,
    .act 0 none none, .act 0 none none, .act 0 none none, .act 1 none none, .act 1 none none, .act 2 none none,
    .act 2 none none, .act 2 none none]

theorem pool_sound_nested : ∃ s, (system Nat 2).Reachable s ∧ s.shared.accepted = [7, 8] ∧ .destroyed ∈ s.locs ∧
    Sound 2 s := by
  obtain ⟨s, hs, hp⟩ := System.exists_reachable_of_run (system Nat 2) nestedRun
    (fun s => s.shared.accepted == [7, 8] && s.locs.contains .destroyed) (by decide +kernel)
  rw [Bool.and_eq_true, beq_iff_eq, List.contains_iff_mem] at hp
  exact ⟨s, hs, hp.1, hp.2, (pool_sound (by decide) hs).1⟩

end OnnxInference.PoolWorkers
