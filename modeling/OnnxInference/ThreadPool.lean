import OnnxInference.Task

/-!
# The thread pool (`include/thread/ThreadPool.h`)

A pool is its queue of jobs and the jobs its workers have taken.  `enqueue` throws once the destructor has reset
`is_running`; the workers drain the queue before they leave, so the joins of the destructor return when no job is
left.  `Tracks` says that the two lists are what the statuses of the jobs say they are, and each operation keeps
it.
-/

namespace OnnxInference

open Concurrency

/-- The jobs are names `J` of the closures; what a closure does is up to the owner of the pool. -/
structure ThreadPool (J : Type) where
  poolSize : Nat
  que : List J
  /-- jobs taken by a worker whose `job()` has not returned -/
  busy : List J
  isRunning : Bool
  /-- the destructor has returned -/
  joined : Bool

/-- What a call of `enqueue` does: it pushes the job, throws, or is a call on a destroyed pool. -/
inductive Enqueued (J : Type)
  | accepted (p : ThreadPool J)
  | threw
  | undefined

namespace ThreadPool

variable {J : Type}

def create (poolSize : Nat) : ThreadPool J := ⟨poolSize, [], [], true, false⟩

def enqueue (p : ThreadPool J) (j : J) : Enqueued J :=
  if p.joined then .undefined
  else if !p.isRunning then .threw
  else .accepted { p with que := p.que ++ [j] }

/-- An idle worker takes the front of the queue. -/
def take (p : ThreadPool J) : Option (J × ThreadPool J) :=
  match p.que with
  | [] => none
  | j :: q => if p.busy.length < p.poolSize then some (j, { p with que := q, busy := p.busy ++ [j] }) else none

/-- `job()` has returned in the worker that had taken `j`. -/
def finish [DecidableEq J] (p : ThreadPool J) (j : J) : ThreadPool J := { p with busy := p.busy.erase j }

/-- The first half of the destructor. -/
def stop (p : ThreadPool J) : ThreadPool J := { p with isRunning := false }

/-- The joins of the destructor return when every worker has found the queue empty and left. -/
def join (p : ThreadPool J) : Option (ThreadPool J) :=
  if p.busy.isEmpty && (p.que.isEmpty || p.poolSize == 0) then some { p with joined := true } else none

/-- The queue and the workers hold, once each, the jobs with these statuses. -/
structure Tracks (p : ThreadPool J) (status : J → Status) : Prop where
  que_nodup : p.que.Nodup
  busy_nodup : p.busy.Nodup
  mem_que : ∀ j, j ∈ p.que ↔ status j = .queued
  mem_busy : ∀ j, j ∈ p.busy ↔ status j = .running

/-! ### What the operations do -/

theorem enqueue_accepted {p p' : ThreadPool J} {j : J} (h : p.enqueue j = .accepted p') :
    p.isRunning = true ∧ p.joined = false ∧ p' = { p with que := p.que ++ [j] } := by
  unfold enqueue at h
  split at h
  · cases h
  · split at h
    · cases h
    · rename_i hj hr
      cases h
      exact ⟨by simpa using hr, by simpa using hj, rfl⟩

theorem joined_enqueue {p p' : ThreadPool J} {j : J} (h : p.enqueue j = .accepted p') : p'.joined = p.joined := by
  obtain ⟨-, -, rfl⟩ := enqueue_accepted h
  rfl

theorem enqueue_of_running {p : ThreadPool J} (hr : p.isRunning = true) (hj : p.joined = false) (j : J) :
    p.enqueue j = .accepted { p with que := p.que ++ [j] } := by
  simp [enqueue, hr, hj]

theorem take_some {p p' : ThreadPool J} {j : J} (h : p.take = some (j, p')) :
    ∃ q, p.que = j :: q ∧ p.busy.length < p.poolSize ∧ p' = { p with que := q, busy := p.busy ++ [j] } := by
  unfold take at h
  split at h
  · cases h
  · rename_i q hq
    split at h
    · rename_i hlt
      cases h
      exact ⟨_, hq, hlt, rfl⟩
    · cases h

theorem take_of_cons {p : ThreadPool J} {j : J} {q : List J} (hq : p.que = j :: q)
    (hlt : p.busy.length < p.poolSize) :
    p.take = some (j, { p with que := q, busy := p.busy ++ [j] }) := by
  simp [take, hq, hlt]

theorem join_some {p p' : ThreadPool J} (h : p.join = some p') :
    p.busy = [] ∧ (p.que = [] ∨ p.poolSize = 0) ∧ p' = { p with joined := true } := by
  unfold join at h
  split at h
  · rename_i hc
    cases h
    simpa using hc
  · cases h

theorem ne_nil_of_join_none {p : ThreadPool J} (h : p.join = none) : p.que ≠ [] ∨ p.busy ≠ [] := by
  by_contra hno
  rw [not_or, not_not, not_not] at hno
  simp [join, hno.1, hno.2] at h

/-- The destructor has not touched the pool. -/
def Open (p : ThreadPool J) : Prop := p.isRunning = true ∧ p.joined = false

theorem Open.enqueue_ne {p : ThreadPool J} (h : p.Open) (j : J) :
    p.enqueue j ≠ .threw ∧ p.enqueue j ≠ .undefined := by
  rw [enqueue_of_running h.1 h.2]
  exact ⟨nofun, nofun⟩

theorem Open.enqueue {p p' : ThreadPool J} {j : J} (h : p.Open) (he : p.enqueue j = .accepted p') : p'.Open := by
  obtain ⟨-, -, rfl⟩ := enqueue_accepted he
  exact h

theorem Open.take {p p' : ThreadPool J} {j : J} (h : p.Open) (ht : p.take = some (j, p')) : p'.Open := by
  obtain ⟨_, -, -, rfl⟩ := take_some ht
  exact h

theorem Open.finish [DecidableEq J] {p : ThreadPool J} (h : p.Open) (j : J) : (p.finish j).Open := h

@[simp] theorem finish_que [DecidableEq J] (p : ThreadPool J) (j : J) : (p.finish j).que = p.que := rfl

/-- The pool has workers, and once it has been joined it has no job left. -/
structure Manned (p : ThreadPool J) : Prop where
  pos : 0 < p.poolSize
  empty : p.joined = true → p.que = [] ∧ p.busy = []

theorem Manned.create {n : Nat} (hn : 0 < n) : (ThreadPool.create n : ThreadPool J).Manned := ⟨hn, nofun⟩

theorem Manned.enqueue {p p' : ThreadPool J} {j : J} (h : p.Manned) (he : p.enqueue j = .accepted p') :
    p'.Manned := by
  obtain ⟨-, hj, rfl⟩ := enqueue_accepted he
  exact ⟨h.pos, fun hj' => by cases hj.symm.trans hj'⟩

theorem Manned.take {p p' : ThreadPool J} {j : J} (h : p.Manned) (ht : p.take = some (j, p')) : p'.Manned := by
  obtain ⟨q, hq, -, rfl⟩ := take_some ht
  refine ⟨h.pos, fun hj => ?_⟩
  rw [(h.empty hj).1] at hq
  cases hq

theorem Manned.finish [DecidableEq J] {p : ThreadPool J} (h : p.Manned) (j : J) : (p.finish j).Manned := by
  refine ⟨h.pos, fun hj => ⟨(h.empty hj).1, ?_⟩⟩
  show p.busy.erase j = []
  rw [(h.empty hj).2]
  rfl

theorem Manned.stop {p : ThreadPool J} (h : p.Manned) : p.stop.Manned := ⟨h.pos, h.empty⟩

theorem Manned.join {p p' : ThreadPool J} (h : p.Manned) (hj : p.join = some p') : p'.Manned := by
  obtain ⟨hb, hq, rfl⟩ := join_some hj
  exact ⟨h.pos, fun _ => ⟨hq.resolve_right (Nat.pos_iff_ne_zero.1 h.pos), hb⟩⟩

/-- A pool with workers that cannot be joined has a running job or can take one. -/
theorem Manned.take_or_busy {p : ThreadPool J} (h : p.Manned) (hne : p.que ≠ [] ∨ p.busy ≠ []) :
    (∃ j p', p.take = some (j, p')) ∨ ∃ j, j ∈ p.busy := by
  rcases hb : p.busy with _ | ⟨j, busy⟩
  · rcases hq : p.que with _ | ⟨j, q⟩
    · simp [hq, hb] at hne
    · have hlt : p.busy.length < p.poolSize := by
        rw [hb]
        exact h.pos
      exact .inl ⟨j, _, take_of_cons hq hlt⟩
  · exact .inr ⟨j, List.mem_cons_self⟩

/-! ### Jobs and statuses -/

namespace Tracks

variable {p p' : ThreadPool J} {status status' : J → Status}

theorem create (n : Nat) : (ThreadPool.create n : ThreadPool J).Tracks fun _ => .idle :=
  ⟨List.nodup_nil, List.nodup_nil, by simp [ThreadPool.create], by simp [ThreadPool.create]⟩

theorem congr (h : p.Tracks status) (hq : p'.que = p.que) (hb : p'.busy = p.busy)
    (hs : ∀ j, status' j = status j) : p'.Tracks status' := by
  refine ⟨hq ▸ h.que_nodup, hb ▸ h.busy_nodup, ?_, ?_⟩
  · intro j; rw [hq, hs, h.mem_que]
  · intro j; rw [hb, hs, h.mem_busy]

theorem enqueue {j : J} (h : p.Tracks status) (he : p.enqueue j = .accepted p') (hj : status j = .idle)
    (hj' : status' j = .queued) (hs : ∀ i, i ≠ j → status' i = status i) : p'.Tracks status' := by
  obtain ⟨-, -, rfl⟩ := enqueue_accepted he
  have hnot : j ∉ p.que := by rw [h.mem_que, hj]; decide
  refine ⟨?_, h.busy_nodup, ?_, ?_⟩
  · rw [List.nodup_append]
    refine ⟨h.que_nodup, List.nodup_singleton j, ?_⟩
    intro a ha b hb hab
    rw [List.mem_singleton] at hb
    exact hnot (hb ▸ hab ▸ ha)
  · intro i
    rw [List.mem_append, List.mem_singleton, h.mem_que]
    by_cases hi : i = j
    · subst hi; simp [hj']
    · simp [hi, hs i hi]
  · intro i
    by_cases hi : i = j
    · subst hi; simp [h.mem_busy, hj, hj']
    · simp [h.mem_busy, hs i hi]

theorem take {j : J} (h : p.Tracks status) (ht : p.take = some (j, p')) (hj' : status' j = .running)
    (hs : ∀ i, i ≠ j → status' i = status i) : p'.Tracks status' := by
  obtain ⟨q, hq, -, rfl⟩ := take_some ht
  have hmem : ∀ i, i ∈ j :: q ↔ status i = .queued := hq ▸ h.mem_que
  have hnd : (j :: q).Nodup := hq ▸ h.que_nodup
  have hjq : status j = .queued := (hmem j).1 List.mem_cons_self
  rw [List.nodup_cons] at hnd
  refine ⟨hnd.2, ?_, ?_, ?_⟩
  · rw [List.nodup_append]
    refine ⟨h.busy_nodup, List.nodup_singleton j, ?_⟩
    intro a ha b hb hab
    rw [List.mem_singleton] at hb
    rw [hab, hb, h.mem_busy, hjq] at ha
    cases ha
  · intro i
    by_cases hi : i = j
    · subst hi; simp [hnd.1, hj']
    · simp only [hs i hi, ← hmem, List.mem_cons, hi, false_or]
  · intro i
    by_cases hi : i = j
    · subst hi; simp [hj']
    · simp [hi, h.mem_busy, hs i hi]

theorem finish [DecidableEq J] {j : J} (h : p.Tracks status) (hj : status j = .running)
    (hj' : status' j = .done) (hs : ∀ i, i ≠ j → status' i = status i) : (p.finish j).Tracks status' := by
  refine ⟨h.que_nodup, h.busy_nodup.erase j, ?_, ?_⟩
  · intro i
    by_cases hi : i = j
    · subst hi; simp [h.mem_que, hj, hj']
    · simp [h.mem_que, hs i hi]
  · intro i
    show i ∈ p.busy.erase j ↔ _
    rw [h.busy_nodup.mem_erase_iff]
    by_cases hi : i = j
    · subst hi; simp [hj']
    · simp [hi, h.mem_busy, hs i hi]

theorem ne_nil_of_pending (h : p.Tracks status) {j : J} (hj : status j = .queued ∨ status j = .running) :
    p.que ≠ [] ∨ p.busy ≠ [] := by
  rcases hj with hq | hr
  · exact .inl (List.ne_nil_of_mem ((h.mem_que j).2 hq))
  · exact .inr (List.ne_nil_of_mem ((h.mem_busy j).2 hr))

/-- If a job is queued or running, then a queued one can be taken or one is running. -/
theorem take_or_running (h : p.Tracks status) (hm : p.Manned) (hne : p.que ≠ [] ∨ p.busy ≠ []) :
    (∃ j p', p.take = some (j, p') ∧ status j = .queued) ∨ ∃ j, status j = .running := by
  rcases hm.take_or_busy hne with ⟨j, p', taken⟩ | ⟨j, hj⟩
  · obtain ⟨q, hq, -⟩ := take_some taken
    exact .inl ⟨j, p', taken, (h.mem_que j).1 (hq ▸ List.mem_cons_self)⟩
  · exact .inr ⟨j, (h.mem_busy j).1 hj⟩

end Tracks

end ThreadPool

end OnnxInference
