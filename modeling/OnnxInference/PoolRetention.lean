import OnnxInference.PoolWorkers

/-!
# What an idle worker keeps (`include/thread/ThreadPool.h`)

The variable `job` of a worker is declared before its loop, so the closure of a job lives until the worker takes its
next one or ends.  `job` has the closures by the worker; the rest of the pool is as before.  A worker that waits keeps
the closure of the last job it has executed, and of no other (`retains_nothing_iff`).
-/

namespace OnnxInference.PoolWorkers

open Concurrency Transition

variable {J : Type}

/-- The pool with the variables of the workers. -/
structure Retaining (J : Type) where
  pool : Pool J
  job : Nat → Option (Run J)

/-- The variables after a step: `job = std::move(que_.front())` destroys what was in there, and so does the end of the
worker. -/
def Retaining.assign (b : Retaining J) : Local J → Local J → Nat → Option (Run J)
  | .worker w, .job r => Function.update b.job w (some r)
  | .worker w, .exited _ => Function.update b.job w none
  | _, _ => b.job

namespace Retaining

def act (poolSize : Nat) (c : Option J) (b : Retaining J) (l : Local J) : Option (Act (Retaining J) Unit (Local J)) :=
  (PoolWorkers.act poolSize c b.pool l).map fun a => ⟨⟨a.shared, b.assign l a.next⟩, a.signal, a.wait, a.next⟩

def monitor (J : Type) (poolSize : Nat) : Monitor (Option J) (Retaining J) Unit (Local J) := ⟨entry, act poolSize⟩

def create : Retaining J := ⟨PoolWorkers.create, fun _ => none⟩

def system (J : Type) (poolSize : Nat) :
    System (Monitor.State (Retaining J) Unit (Local J)) (Monitor.Label (Option J) (Local J)) :=
  (monitor J poolSize).system create (threads poolSize)

/-- The last job that a worker has executed. -/
def last (finished : List (Run J)) (w : Nat) : Option (Run J) := (finished.filter fun r => r.worker = w).getLast?

/-- The captures of a job are alive while a worker has its closure or its future is kept. -/
def Alive (b : Retaining J) (kept : Nat → Prop) (r : Run J) : Prop := (∃ w, b.job w = some r) ∨ kept r.index

/-- A worker waits on the condition variable. -/
def Waits (s : Monitor.State (Retaining J) Unit (Local J)) (w : Nat) : Prop := .asleep () (.worker w) ∈ s.threads

/-- No closure of a job that the worker has executed is alive in the pool, so no captures are when the future is not
kept. -/
structure RetainsNothing (s : Monitor.State (Retaining J) Unit (Local J)) (w : Nat) : Prop where
  closure : ∀ r ∈ s.shared.pool.finished, r.worker = w → ∀ w', s.shared.job w' ≠ some r
  captures : ∀ r ∈ s.shared.pool.finished, r.worker = w → ∀ kept, ¬kept r.index → ¬s.shared.Alive kept r

variable {poolSize : Nat} {s : Monitor.State (Retaining J) Unit (Local J)}

/-- The variables do not change what the pool does. -/
theorem reachable_forget (h : (system J poolSize).Reachable s) :
    (PoolWorkers.system J poolSize).Reachable ⟨s.shared.pool, s.threads⟩ := by
  refine Monitor.reachable_of_forget Retaining.pool rfl (fun {c b l a} ha => ?_) h
  have ha : (PoolWorkers.act poolSize c b.pool l).map _ = some a := ha
  rw [Option.map_eq_some_iff] at ha
  obtain ⟨a', ha', rfl⟩ := ha
  exact ha'

/-- What the variable of the worker of a thread has in it. -/
structure Keeps (b : Retaining J) (l : Local J) : Prop where
  current : ∀ r, l.run = some r → b.job r.worker = some r
  previous : ∀ w, l = .worker w → b.job w = last b.pool.finished w

theorem last_append_self (finished : List (Run J)) (r : Run J) : last (finished ++ [r]) r.worker = some r := by
  simp [last]

theorem last_append_of_ne (finished : List (Run J)) {r : Run J} {w : Nat} (hw : w ≠ r.worker) :
    last (finished ++ [r]) w = last finished w := by
  simp [last, Ne.symm hw]

/-- A worker is in the loop of one thread. -/
theorem index_eq_of_live (h : (system J poolSize).Reachable s) {j k : Nat} {l l' : Local J} {w : Nat}
    (hj : s.locs[j]? = some l) (hk : s.locs[k]? = some l') (hl : l.live = some w) (hl' : l'.live = some w) : j = k := by
  have hsum := workers_eq (reachable_forget h)
  have hnodup := Multiset.nodup_add.1 (hsum ▸ Multiset.coe_nodup.2 List.nodup_range)
  exact Ledger.index_eq_of_nodup_sum hnodup.2.1 hj hk (p := w) (by simp [Local.workers, hl])
    (by simp [Local.workers, hl'])

theorem act_eq_some {c : Option J} {b : Retaining J} {l : Local J} {a : Act (Retaining J) Unit (Local J)}
    (h : act poolSize c b l = some a) :
    ∃ a', Moves poolSize b.pool l a' ∧ a = ⟨⟨a'.shared, b.assign l a'.next⟩, a'.signal, a'.wait, a'.next⟩ := by
  rw [act, Option.map_eq_some_iff] at h
  obtain ⟨a', ha', rfl⟩ := h
  exact ⟨a', moves_of_act ha', rfl⟩

/-- A step keeps what is known of the variable of its thread. -/
theorem Keeps.move {b : Retaining J} {l : Local J} {a : Act (Pool J) Unit (Local J)} (h : Keeps b l)
    (hm : Moves poolSize b.pool l a) : Keeps ⟨a.shared, b.assign l a.next⟩ a.next := by
  cases hm with
  | take w hque =>
    refine ⟨?_, nofun⟩
    rintro _ ⟨⟩
    exact Function.update_self ..
  | wait w => exact ⟨nofun, fun w' hw => h.previous w' hw⟩
  | finish r =>
    refine ⟨nofun, ?_⟩
    rintro _ ⟨⟩
    exact (h.current r rfl).trans (last_append_self b.pool.finished r).symm
  | call r j => exact ⟨fun r' hr => h.current r' hr, nofun⟩
  | refuse caller j | accept caller j | notify caller => exact ⟨fun r' hr => h.current r' hr, nofun⟩
  | resume r ok => exact ⟨fun r' hr => h.current r' hr, nofun⟩
  | exit | destroy | destroyNotify | join | destroyed => exact ⟨nofun, nofun⟩

/-- A step of another thread does nothing to the variable of a worker. -/
theorem Keeps.frame {b : Retaining J} {l l' : Local J} {a : Act (Pool J) Unit (Local J)} (h : Keeps b l')
    (hm : Moves poolSize b.pool l a) (hne : ∀ w, l.live = some w → l'.live ≠ some w) :
    Keeps ⟨a.shared, b.assign l a.next⟩ l' := by
  have hupdate : ∀ {w : Nat} {x : Option (Run J)}, l.live = some w → Keeps ⟨b.pool, Function.update b.job w x⟩ l' := by
    intro w x hw
    refine ⟨fun r hr => ?_, fun w' hw' => ?_⟩
    · have hr' := live_of_run hr
      refine (Function.update_of_ne ?_ _ _).trans (h.current r hr)
      rintro rfl
      exact hne _ hw hr'
    · subst hw'
      refine (Function.update_of_ne ?_ _ _).trans (h.previous w' rfl)
      rintro rfl
      exact hne _ hw rfl
  cases hm with
  | take w hque => exact ⟨(hupdate rfl).current, (hupdate rfl).previous⟩
  | exit w => exact ⟨(hupdate rfl).current, (hupdate rfl).previous⟩
  | finish r =>
    refine ⟨h.current, ?_⟩
    rintro w rfl
    refine (h.previous w rfl).trans (last_append_of_ne b.pool.finished ?_).symm
    rintro rfl
    exact hne _ rfl rfl
  | wait | call | refuse | accept | notify | resume | destroy | destroyNotify | join | destroyed =>
    exact ⟨h.current, h.previous⟩

theorem keeps_of_reachable (h : (system J poolSize).Reachable s) : ∀ l ∈ s.locs, Keeps s.shared l := by
  refine (Monitor.invariant_of_reachable (K := fun _ => True) (J := Keeps) trivial (fun l hl => ?_)
    (fun {_ l} _ hl => ?_) (fun {s k l c a} hreach hk _ hJ ha => ?_) h).2
  · obtain ⟨w, rfl⟩ | rfl := mem_threads hl
    · exact ⟨nofun, fun _ _ => rfl⟩
    · exact ⟨nofun, nofun⟩
  · obtain ⟨j, rfl⟩ := entry_eq_true hl
    exact ⟨nofun, nofun⟩
  · obtain ⟨a', hm, rfl⟩ := act_eq_some ha
    refine ⟨trivial, hJ.move hm, fun k' l' hne hk' hl' => hl'.frame hm fun w hw hw' => hne ?_⟩
    exact index_eq_of_live hreach hk' hk hw' hw

theorem last_eq_none_iff {finished : List (Run J)} {w : Nat} :
    last finished w = none ↔ ∀ r ∈ finished, r.worker ≠ w := by
  simp [last]

theorem mem_of_last {finished : List (Run J)} {w : Nat} {r : Run J} (h : last finished w = some r) :
    r ∈ finished ∧ r.worker = w := by
  have hmem := List.mem_of_getLast? h
  rw [List.mem_filter, decide_eq_true_eq] at hmem
  exact hmem

/-- A worker that waits has the closure of the last job that it has executed. -/
theorem job_eq_last (h : (system J poolSize).Reachable s) {w : Nat} (hw : Waits s w) :
    s.shared.job w = last s.shared.pool.finished w :=
  (keeps_of_reachable h _ (Monitor.State.mem_locs hw)).previous w rfl

/-- A worker that waits keeps nothing of the jobs it has executed exactly if it has executed none; else it keeps the
closure of the last one. -/
theorem retains_nothing_iff (J : Type) (poolSize : Nat) :
    ∀ s, (system J poolSize).Reachable s → ∀ w, Waits s w →
      (RetainsNothing s w ↔ ∀ r ∈ s.shared.pool.finished, r.worker ≠ w) ∧
        s.shared.job w = last s.shared.pool.finished w := by
  intro s h w hw
  have hjob := job_eq_last h hw
  refine ⟨⟨fun hnothing => ?_, fun hnone => ?_⟩, hjob⟩
  · by_contra hsome
    obtain ⟨r, hr⟩ := Option.ne_none_iff_exists'.1 fun hnone => hsome (last_eq_none_iff.1 hnone)
    obtain ⟨hmem, hworker⟩ := mem_of_last hr
    exact hnothing.closure r hmem hworker w (hjob.trans hr)
  · exact ⟨fun r hr hw' => absurd hw' (hnone r hr), fun r hr hw' => absurd hw' (hnone r hr)⟩

/-- The worker executes one job and waits for the next. -/
def idleRun : List (Monitor.Label (Option Nat) (Local Nat)) :=
  [.start (.enqueue none 7), .act 2 none none, .act 2 none none, .act 0 none none, .act 0 none none, .act 0 none none]

theorem exists_idle : ∃ s, (system Nat 1).Reachable s ∧ Waits s 0 ∧ s.shared.pool.finished = [⟨0, 0, 7⟩] := by
  obtain ⟨s, hs, hp⟩ := System.exists_reachable_of_run (system Nat 1) idleRun
    (fun s => s.threads.contains (.asleep () (.worker 0)) && s.shared.pool.finished == [⟨0, 0, 7⟩]) (by decide +kernel)
  rw [Bool.and_eq_true, List.contains_iff_mem, beq_iff_eq] at hp
  exact ⟨s, hs, hp.1, hp.2⟩

theorem retains_nothing_iff_idle : ∃ s, (system Nat 1).Reachable s ∧ Waits s 0 ∧
    s.shared.job 0 = last s.shared.pool.finished 0 := by
  obtain ⟨s, hs, hw, -⟩ := exists_idle
  exact ⟨s, hs, hw, (retains_nothing_iff Nat 1 s hs 0 hw).2⟩

/-- It waits with the closure of the job that it has executed. -/
theorem idle_retains : ¬∀ s, (system Nat 1).Reachable s → ∀ w, Waits s w → RetainsNothing s w := by
  intro h
  obtain ⟨s, hs, hw, hfinished⟩ := exists_idle
  have hjob := job_eq_last hs hw
  rw [hfinished] at hjob
  exact (h s hs 0 hw).closure ⟨0, 0, 7⟩ (hfinished ▸ List.mem_singleton_self _) rfl 0 hjob

end Retaining

end OnnxInference.PoolWorkers
