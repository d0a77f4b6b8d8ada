import OnnxInference.PoolWorkers
import OnnxInference.ThreadPool

/-!
# The workers as a thread pool

The schedulers are modelled over a pool that is a queue and the jobs its workers have taken (`ThreadPool`).  The
worker loops refine it: with the jobs named by the order in which they were accepted, every step of a thread is an
operation of that pool or nothing to it (`pool_refines`).
-/

namespace OnnxInference.PoolWorkers

open Concurrency Transition

variable {J : Type}

/-- An operation of the pool that the schedulers see. -/
inductive Operates : ThreadPool Nat → ThreadPool Nat → Prop
  | enqueue {p p' j} (h : p.enqueue j = .accepted p') : Operates p p'
  | take {p p' j} (h : p.take = some (j, p')) : Operates p p'
  | finish {p j} (h : j ∈ p.busy) : Operates p (p.finish j)
  | stop (p) : Operates p p.stop
  | join {p p'} (h : p.join = some p') : Operates p p'

/-- The numbers of the executions that the thread is in. -/
def Local.indices (l : Local J) : Multiset Nat := l.runs.map Run.index

/-- The pool in the eyes of the schedulers. -/
structure Represents (poolSize : Nat) (s : Monitor.State (Pool J) Unit (Local J)) (p : ThreadPool Nat) : Prop where
  poolSize_eq : p.poolSize = poolSize
  que : p.que = List.range' s.shared.taken.length s.shared.que.length
  busy : (p.busy : Multiset Nat) = (s.locs.map Local.indices).sum
  isRunning : p.isRunning = s.shared.isRunning
  joined : p.joined = true ↔ .destroyed ∈ s.locs

section Steps

variable {poolSize : Nat} {s s' : Monitor.State (Pool J) Unit (Local J)} {p q : ThreadPool Nat} {l : Local J}
  {a : Act (Pool J) Unit (Local J)}

theorem card_indices_le (l : Local J) : l.indices.card ≤ l.workers.card := by
  rw [Local.indices, Multiset.card_map, Local.runs, Local.workers]
  cases hrun : l.run with
  | none => exact Nat.zero_le _
  | some r => rw [live_of_run hrun]; rfl

theorem card_sum {β : Type} (w : Local J → Multiset β) (ls : List (Local J)) :
    (ls.map w).sum.card = (ls.map fun l => (w l).card).sum := by
  induction ls with
  | nil => rfl
  | cons l ls ih => rw [List.map_cons, List.sum_cons, Multiset.card_add, ih, List.map_cons, List.sum_cons]

/-- While a worker is at the top of its loop fewer jobs are running than there are workers. -/
theorem Represents.busy_lt (hr : Represents poolSize s p) (h : (system J poolSize).Reachable s) {w : Nat}
    (hl : .worker w ∈ s.locs) : p.busy.length < p.poolSize := by
  have hlt : (s.locs.map Local.indices).sum.card < (s.locs.map Local.workers).sum.card := by
    rw [card_sum, card_sum]
    exact List.sum_lt_sum _ _ (fun l _ => card_indices_le l) ⟨_, hl, Nat.zero_lt_one⟩
  have hcard := congrArg Multiset.card (workers_eq h)
  rw [Multiset.card_add, Multiset.coe_card, Multiset.coe_card, List.length_range] at hcard
  rw [← hr.busy, Multiset.coe_card] at hlt
  rw [hr.poolSize_eq]
  omega

/-- What has to be shown of the pool after a step of a thread. -/
theorem Represents.moved (hr : Represents poolSize s p) (hm : Moves poolSize s.shared l a) {k : Nat}
    (hk : s.locs[k]? = some l) (hshared : s'.shared = a.shared) (hlocs : s'.locs = s.locs.set k a.next)
    (hsize : q.poolSize = p.poolSize)
    (hque : q.que = List.range' a.shared.taken.length a.shared.que.length)
    (hbusy : ∀ x : Multiset Nat, (p.busy : Multiset Nat) = l.indices + x →
      (q.busy : Multiset Nat) = a.next.indices + x)
    (hrunning : q.isRunning = a.shared.isRunning)
    (hjoined : q.joined = true ↔ a.next = .destroyed ∨ p.joined = true) : Represents poolSize s' q := by
  have hne : l ≠ .destroyed := by
    rintro rfl
    cases hm
  obtain ⟨x, hsum, hset⟩ := Ledger.exists_rest Local.indices hk
  refine ⟨hsize.trans hr.poolSize_eq, hshared ▸ hque, ?_, hshared ▸ hrunning, ?_⟩
  · rw [hlocs, hset]
    exact hbusy x (hr.busy.trans hsum)
  · rw [hjoined, hr.joined, hlocs]
    constructor
    · rintro (hnext | hmem)
      · exact hnext ▸ List.mem_set (List.getElem?_eq_some_iff.1 hk).1 _
      · obtain ⟨i, hi⟩ := List.mem_iff_getElem?.1 hmem
        have hik : k ≠ i := by
          rintro rfl
          exact hne (Option.some.inj (hk.symm.trans hi))
        rw [← List.getElem?_set_ne hik] at hi
        exact List.mem_of_getElem? hi
    · intro hmem
      exact (List.mem_or_eq_of_mem_set hmem).symm.imp_left Eq.symm

/-- The step is one that the schedulers do not see. -/
theorem Represents.unseen (hr : Represents poolSize s p) (hm : Moves poolSize s.shared l a) {k : Nat}
    (hk : s.locs[k]? = some l) (hshared : s'.shared = a.shared) (hlocs : s'.locs = s.locs.set k a.next)
    (htaken : a.shared.taken = s.shared.taken) (hque : a.shared.que = s.shared.que)
    (hrunning : a.shared.isRunning = s.shared.isRunning) (hindices : a.next.indices = l.indices)
    (hnext : a.next ≠ .destroyed) : Represents poolSize s' p := by
  refine hr.moved hm hk hshared hlocs rfl ?_ (fun x hx => ?_) ?_ ?_
  · rw [htaken, hque]
    exact hr.que
  · rw [hindices]
    exact hx
  · rw [hrunning]
    exact hr.isRunning
  · exact (or_iff_right hnext).symm

/-- A step of a thread is an operation of the pool that the schedulers see, or nothing to it. -/
theorem Represents.act (hpos : 0 < poolSize) (h : (system J poolSize).Reachable s) (hr : Represents poolSize s p)
    (hm : Moves poolSize s.shared l a) {k : Nat} (hk : s.locs[k]? = some l) (hshared : s'.shared = a.shared)
    (hlocs : s'.locs = s.locs.set k a.next) : ∃ p', (p' = p ∨ Operates p p') ∧ Represents poolSize s' p' := by
  have hmem := List.mem_of_getElem? hk
  obtain ⟨hordered, hjoined⟩ := ordered_of_reachable h
  have hmoved := fun {q} => hr.moved (q := q) hm hk hshared hlocs
  have hunseen := hr.unseen hm hk hshared hlocs
  cases hm with
  | @take w j que hque =>
    have hcons : p.que = s.shared.taken.length :: List.range' (s.shared.taken.length + 1) que.length := by
      rw [hr.que, hque, List.length_cons, List.range'_succ]
    refine ⟨_, .inr (.take (ThreadPool.take_of_cons hcons (hr.busy_lt h hmem))),
      hmoved rfl ?_ (fun x hx => ?_) hr.isRunning ?_⟩
    · show List.range' (s.shared.taken.length + 1) que.length = List.range' (s.shared.taken ++ [_]).length que.length
      rw [List.length_append, List.length_singleton]
    · show ((p.busy ++ [s.shared.taken.length] : List Nat) : Multiset Nat) = {s.shared.taken.length} + x
      rw [← Multiset.coe_add, hx, add_comm]
      exact congrArg _ (zero_add x)
    · exact Iff.symm (or_iff_right (by rintro ⟨⟩))
  | @accept caller j hrun =>
    have hnot : p.joined = false := by
      rw [← Bool.not_eq_true, hr.joined]
      intro hdestroyed
      have hexited := (hjoined _ hdestroyed).2 rfl 0 hpos
      cases hrun.symm.trans (hordered.left (List.ne_nil_of_mem hexited)).1
    refine ⟨_, .inr (.enqueue (ThreadPool.enqueue_of_running (hr.isRunning.trans hrun) hnot
      (s.shared.taken.length + s.shared.que.length))), hmoved rfl ?_ (fun x hx => hx) hr.isRunning ?_⟩
    · show p.que ++ [_] = List.range' s.shared.taken.length (s.shared.que ++ [j]).length
      rw [hr.que, List.length_append, List.length_singleton, List.range'_1_concat]
    · exact Iff.symm (or_iff_right (by rintro ⟨⟩))
  | finish r =>
    obtain ⟨x, hsum, -⟩ := Ledger.exists_rest Local.indices hk
    have hbusy : r.index ∈ p.busy := by
      rw [← Multiset.mem_coe, hr.busy, hsum]
      exact Multiset.mem_add.2 (.inl (Multiset.mem_singleton_self _))
    refine ⟨_, .inr (.finish hbusy), hmoved rfl hr.que (fun x hx => ?_) hr.isRunning ?_⟩
    · show ((p.busy.erase r.index : List Nat) : Multiset Nat) = 0 + x
      rw [← Multiset.coe_erase, hx]
      exact (Multiset.erase_cons_head r.index x).trans (zero_add x).symm
    · exact Iff.symm (or_iff_right (by rintro ⟨⟩))
  | destroy =>
    exact ⟨_, .inr (.stop p), hmoved rfl hr.que (fun _ hx => hx) rfl (Iff.symm (or_iff_right (by rintro ⟨⟩)))⟩
  | @destroyed w hw =>
    have hall : ∀ w < poolSize, w ∈ s.shared.exited := fun w' hlt => (hjoined _ hmem).1 w rfl w' (hlt.trans_le hw)
    have hque : p.que = [] := by
      rw [hr.que, (hordered.left (List.ne_nil_of_mem (hall 0 hpos))).2]
      rfl
    have hbusy : p.busy = [] := by
      rw [← Multiset.coe_eq_zero, hr.busy]
      refine List.sum_eq_zero fun x hx => ?_
      obtain ⟨l, hl, rfl⟩ := List.mem_map.1 hx
      rw [Local.indices, Local.runs, run_eq_none_of_live (not_live_of_joined h hall l hl)]
      rfl
    have hjoin : p.join = some { p with joined := true } := by
      rw [ThreadPool.join, hque, hbusy]
      rfl
    exact ⟨_, .inr (.join hjoin), hmoved rfl hr.que (fun _ hx => hx) hr.isRunning ⟨fun _ => .inl rfl, fun _ => rfl⟩⟩
  | exit | wait | call | refuse | notify | resume | destroyNotify | join =>
    exact ⟨p, .inl rfl, hunseen rfl rfl rfl rfl (by rintro ⟨⟩)⟩

theorem Represents.step (hpos : 0 < poolSize) (h : (system J poolSize).Reachable s) (hr : Represents poolSize s p)
    {lb : Monitor.Label (Option J) (Local J)} (hs : (monitor J poolSize).step s lb = some s') :
    ∃ p', (p' = p ∨ Operates p p') ∧ Represents poolSize s' p' := by
  obtain ⟨l, hl, hshared, hlocs⟩ | ⟨hshared, hlocs⟩ | ⟨k, l, c, a, hk, ha, hshared, hlocs⟩ := Monitor.locs_cases hs
  · obtain ⟨j, rfl⟩ := entry_eq_true hl
    refine ⟨p, .inl rfl, hr.poolSize_eq, hshared ▸ hr.que, ?_, hshared ▸ hr.isRunning, ?_⟩
    · rw [hlocs, List.map_append, List.sum_append, List.map_singleton, List.sum_singleton]
      exact hr.busy.trans (add_zero _).symm
    · rw [hlocs, List.mem_append, List.mem_singleton, hr.joined]
      exact (or_iff_left nofun).symm
  · exact ⟨p, .inl rfl, hr.poolSize_eq, hshared ▸ hr.que, hlocs ▸ hr.busy, hshared ▸ hr.isRunning, hlocs ▸ hr.joined⟩
  · exact hr.act hpos h (moves_of_act ha) hk hshared hlocs

theorem Represents.create (poolSize : Nat) :
    Represents poolSize (system J poolSize).init (ThreadPool.create poolSize) := by
  have hlocs : (system J poolSize).init.locs = threads poolSize := Monitor.locs_init
  refine ⟨rfl, rfl, ?_, rfl, ⟨nofun, fun hmem => ?_⟩⟩
  · rw [hlocs]
    refine (List.sum_eq_zero fun x hx => ?_).symm
    obtain ⟨l, hl, rfl⟩ := List.mem_map.1 hx
    obtain ⟨w, rfl⟩ | rfl := mem_threads hl
    · rfl
    · rfl
  · rw [hlocs] at hmem
    obtain ⟨w, hw⟩ | hd := mem_threads hmem
    · cases hw
    · cases hd

/-- Whatever the jobs do and however the threads interleave, the operations of the pool that the schedulers see lead
to a pool that represents the state of the threads. -/
theorem pool_refines (hpos : 0 < poolSize) (h : (system J poolSize).Reachable s) :
    ∃ p, Relation.ReflTransGen Operates (ThreadPool.create poolSize) p ∧ Represents poolSize s p :=
  h.simulation (.create poolSize) fun h hr hs => hr.step hpos h hs

end Steps

end OnnxInference.PoolWorkers
