import OnnxInference.Monitor
import OnnxInference.PoolAddresses

/-!
# Shared buffers (`include/BufferPool.h`)

The calls of `Acquire` and the copying and dropping of shared pointers are the threads of a monitor, for a pool that
is not destroyed.  A group are the copies of the pointer that a call of `Acquire` has returned; whoever drops the last
one runs the deleter, which gives the element back in a critical section and then notifies one.  `returned` are the
elements in the order in which they were given back; the program does not have it.  A group is alive until its deleter
has given the element back.
-/

namespace OnnxInference.BufferSharing

open Concurrency Transition

/-! ### The model -/

structure Group where
  ptr : Ptr
  copies : Nat
  deriving DecidableEq

/-- The pool and the groups in the order of their calls of `Acquire`. -/
structure Shared where
  pool : BufferPool
  groups : List Group
  returned : List Ptr

/-- Where a call stands. -/
inductive Local
  | acquire
  | acquired (g : Nat)
  | copy (g : Nat)
  | drop (g : Nat)
  | delete (g : Nat) (p : Ptr)
  | notify
  | done
  deriving DecidableEq

/-- The next step of a call; only a pointer that there is can be copied or dropped. -/
def act (b : Shared) : Local → Option (Act Shared Unit Local)
  | .acquire =>
    match b.pool.acquire with
    | none => some (.sleep b () .acquire)
    | some (p, pool) =>
      some (.goto { b with pool := pool, groups := b.groups ++ [⟨p, 1⟩] } (.acquired b.groups.length))
  | .copy g =>
    match b.groups[g]? with
    | some ⟨p, copies + 1⟩ => some (.goto { b with groups := b.groups.set g ⟨p, copies + 2⟩ } .done)
    | _ => none
  | .drop g =>
    match b.groups[g]? with
    | some ⟨p, 1⟩ => some (.goto { b with groups := b.groups.set g ⟨p, 0⟩ } (.delete g p))
    | some ⟨p, copies + 2⟩ => some (.goto { b with groups := b.groups.set g ⟨p, copies + 1⟩ } .done)
    | _ => none
  | .delete _ p => some (.goto { b with pool := b.pool.delete p, returned := b.returned ++ [p] } .notify)
  | .notify => some (.notifyOne b () .done)
  | .acquired _ | .done => none

/-- A call begins. -/
def entry : Local → Bool
  | .acquire | .copy _ | .drop _ => true
  | _ => false

def monitor : Monitor Unit Shared Unit Local := ⟨entry, fun _ => act⟩

def create (bufferSize : Nat) : Shared := ⟨.create bufferSize, [], []⟩

def system (bufferSize : Nat) : System (Monitor.State Shared Unit Local) (Monitor.Label Unit Local) :=
  monitor.system (create bufferSize) []

def notifies : Local → Bool
  | .notify => true
  | _ => false

def waits : Local → Bool
  | .acquire => true
  | _ => false

/-- The elements in the order in which they were handed out. -/
def Shared.handed (b : Shared) : List Ptr := b.groups.map Group.ptr

/-! ### What a call does -/

/-- The steps of the calls on a pool. -/
inductive Moves (b : Shared) : Local → Act Shared Unit Local → Prop
  | acquire {p que} (hque : b.pool.que = p :: que) : Moves b .acquire
      (.goto { b with pool := ⟨que⟩, groups := b.groups ++ [⟨p, 1⟩] } (.acquired b.groups.length))
  | wait (hque : b.pool.que = []) : Moves b .acquire (.sleep b () .acquire)
  | copy {g p copies} (hg : b.groups[g]? = some ⟨p, copies + 1⟩) :
    Moves b (.copy g) (.goto { b with groups := b.groups.set g ⟨p, copies + 2⟩ } .done)
  | last {g p} (hg : b.groups[g]? = some ⟨p, 1⟩) :
    Moves b (.drop g) (.goto { b with groups := b.groups.set g ⟨p, 0⟩ } (.delete g p))
  | drop {g p copies} (hg : b.groups[g]? = some ⟨p, copies + 2⟩) :
    Moves b (.drop g) (.goto { b with groups := b.groups.set g ⟨p, copies + 1⟩ } .done)
  | delete (g p) :
    Moves b (.delete g p) (.goto { b with pool := ⟨b.pool.que ++ [p]⟩, returned := b.returned ++ [p] } .notify)
  | notify : Moves b .notify (.notifyOne b () .done)

section Moves

variable {n : Nat} {b : Shared} {l : Local} {a : Act Shared Unit Local} {s : Monitor.State Shared Unit Local}

theorem moves_of_act (h : act b l = some a) : Moves b l a := by
  cases l with
  | acquire =>
    simp only [act] at h
    split at h
    · rename_i hnone
      cases h
      refine .wait ?_
      by_contra hne
      obtain ⟨x, hx⟩ := BufferPool.acquire_of_ne_nil hne
      rw [hx] at hnone
      cases hnone
    · rename_i hp
      cases h
      exact .acquire (BufferPool.acquire_some hp)
  | copy g =>
    simp only [act] at h
    split at h
    · rename_i hg
      cases h
      exact .copy hg
    · cases h
  | drop g =>
    simp only [act] at h
    split at h
    · rename_i hg
      cases h
      exact .last hg
    · rename_i hg
      cases h
      exact .drop hg
    · cases h
  | delete g p =>
    cases h
    exact .delete g p
  | notify =>
    cases h
    exact .notify
  | acquired _ | done => cases h

/-- What a group with copies holds. -/
def Group.held (g : Group) : Multiset Ptr := if 0 < g.copies then {g.ptr} else 0

/-- What a deleter is about to give back. -/
def Local.held : Local → Multiset Ptr
  | .delete _ p => {p}
  | _ => 0

/-- What the groups hold when the copies of one of them change. -/
theorem held_set {groups : List Group} {g : Nat} {x : Group} (hg : groups[g]? = some x) (y : Group)
    (rest : Multiset Ptr)
    (h : y.held + rest = x.held) : ((groups.set g y).map Group.held).sum + rest = (groups.map Group.held).sum := by
  have hset := Ledger.sum_map_set Group.held hg y
  rw [← h] at hset
  refine add_right_cancel (b := y.held) ?_
  rw [← hset]
  abel

/-- Every element is free, held by a group or about to be given back. -/
theorem Moves.balance (hm : Moves b l a) {x : Multiset Ptr}
    (h : (b.pool.que : Multiset Ptr) + (b.groups.map Group.held).sum + (l.held + x) = Multiset.range n) :
    (a.shared.pool.que : Multiset Ptr) + (a.shared.groups.map Group.held).sum +
    (a.next.held + x) = Multiset.range n := by
  rw [← h]
  cases hm with
  | @acquire p que hque =>
    show (que : Multiset Ptr) + ((b.groups ++ [(⟨p, 1⟩ : Group)]).map Group.held).sum + (0 + x) = _ + _ + (0 + x)
    rw [List.map_append, List.sum_append, hque, ← Multiset.cons_coe, ← Multiset.singleton_add, List.map_singleton,
      List.sum_singleton, Group.held, if_pos Nat.one_pos]
    abel
  | @copy g p copies hg =>
    have hset := held_set hg ⟨p, copies + 2⟩ 0 (by simp [Group.held])
    rw [add_zero] at hset
    show (b.pool.que : Multiset Ptr) + ((b.groups.set g ⟨p, copies + 2⟩).map Group.held).sum + (0 + x) = _
    rw [hset]
    rfl
  | @last g p hg =>
    have hset := held_set hg ⟨p, 0⟩ {p} (by simp [Group.held])
    show (b.pool.que : Multiset Ptr) + ((b.groups.set g ⟨p, 0⟩).map Group.held).sum + ({p} + x) = _ + _ + (0 + x)
    rw [← hset]
    abel
  | @drop g p copies hg =>
    have hset := held_set hg ⟨p, copies + 1⟩ 0 (by simp [Group.held])
    rw [add_zero] at hset
    show (b.pool.que : Multiset Ptr) + ((b.groups.set g ⟨p, copies + 1⟩).map Group.held).sum + (0 + x) = _
    rw [hset]
    rfl
  | delete g p =>
    show ((b.pool.que ++ [p] : List Ptr) : Multiset Ptr) + (b.groups.map Group.held).sum + (0 + x) = _ + _ + ({p} + x)
    rw [← Multiset.coe_add, Multiset.coe_singleton]
    abel
  | wait | notify => rfl

theorem balance_of_reachable (h : (system n).Reachable s) :
    (s.shared.pool.que : Multiset Ptr) + (s.shared.groups.map Group.held).sum + (s.locs.map Local.held).sum =
      Multiset.range n := by
  refine Monitor.balance (fun b => (b.pool.que : Multiset Ptr) + (b.groups.map Group.held).sum)
    (fun _ => Multiset.range n)
    Local.held ?_ (fun l hl => ?_) (fun _ _ ha hx => (moves_of_act ha).balance hx) h
  · exact (add_zero _).trans (add_zero _)
  · cases l <;> first | rfl | cases hl

theorem map_ptr_set {groups : List Group} {g : Nat} {p : Ptr} {copies copies' : Nat}
    (hg : groups[g]? = some ⟨p, copies⟩) : (groups.set g ⟨p, copies'⟩).map Group.ptr = groups.map Group.ptr := by
  have hptr : (groups.map Group.ptr)[g]? = some p := by rw [List.getElem?_map, hg]; rfl
  obtain ⟨hlt, hget⟩ := List.getElem?_eq_some_iff.1 hptr
  rw [List.map_set, ← hget]
  exact List.set_getElem_self hlt

/-- What is handed out was free first, and what is given back is free last. -/
theorem Moves.fifo (hm : Moves b l a) (h : List.range n ++ b.returned = b.handed ++ b.pool.que) :
    List.range n ++ a.shared.returned = a.shared.handed ++ a.shared.pool.que := by
  cases hm with
  | @acquire p que hque =>
    show List.range n ++ b.returned = (b.groups ++ [(⟨p, 1⟩ : Group)]).map Group.ptr ++ que
    rw [h, hque, List.map_append, List.append_assoc]
    rfl
  | copy hg | last hg | drop hg =>
    show List.range n ++ b.returned = (b.groups.set _ _).map Group.ptr ++ b.pool.que
    rw [map_ptr_set hg]
    exact h
  | delete g p =>
    show List.range n ++ (b.returned ++ [p]) = b.handed ++ (b.pool.que ++ [p])
    rw [← List.append_assoc, h, List.append_assoc]
  | wait | notify => exact h

/-- A group without copies stays as it is. -/
theorem Moves.group_eq (hm : Moves b l a) {g : Nat} {p : Ptr} (h : b.groups[g]? = some ⟨p, 0⟩) :
    a.shared.groups[g]? = some ⟨p, 0⟩ := by
  have hset : ∀ {g' copies' : Nat} {p' : Ptr} {y : Group}, b.groups[g']? = some ⟨p', copies' + 1⟩ →
      (b.groups.set g' y)[g]? = some ⟨p, 0⟩ := by
    intro g' copies' p' y hg'
    rw [List.getElem?_set_ne, h]
    rintro rfl
    cases h.symm.trans hg'
  cases hm with
  | acquire =>
    show (b.groups ++ [_])[g]? = _
    rw [List.getElem?_append_left (List.getElem?_eq_some_iff.1 h).1, h]
  | copy hg | last hg | drop hg => exact hset hg
  | wait | delete | notify => exact h

/-- A deleter is that of a group without copies. -/
def Deleting (b : Shared) (l : Local) : Prop := ∀ g p, l = .delete g p → b.groups[g]? = some ⟨p, 0⟩

theorem Deleting.move (hm : Moves b l a) : Deleting a.shared a.next := by
  cases hm with
  | @last g p hg =>
    rintro _ _ ⟨⟩
    exact List.getElem?_set_self (List.getElem?_eq_some_iff.1 hg).1
  | acquire | wait | copy | drop | delete | notify => exact nofun

theorem ordered_of_reachable (h : (system n).Reachable s) :
    List.range n ++ s.shared.returned = s.shared.handed ++ s.shared.pool.que ∧ ∀ l ∈ s.locs, Deleting s.shared l := by
  refine Monitor.invariant (K := fun b : Shared => List.range n ++ b.returned = b.handed ++ b.pool.que) ?_
    (fun l hl => by cases hl) (fun _ hl => ?_) (fun {_ b l a} hK hJ ha => ?_) h
  · exact List.append_nil _
  · rintro g p rfl
    cases hl
  · have hm := moves_of_act ha
    exact ⟨hm.fifo hK, .move hm, fun l' hl' g p heq => hm.group_eq (hl' g p heq)⟩

end Moves

/-! ### Groups that are alive -/

/-- The element of a group that is alive: it has copies, or its deleter is yet to give the element back. -/
def live (s : Monitor.State Shared Unit Local) (g : Nat) : Option Ptr :=
  match s.shared.groups[g]? with
  | some ⟨p, copies⟩ => if 0 < copies ∨ .delete g p ∈ s.locs then some p else none
  | none => none

section Live

variable {n : Nat} {s : Monitor.State Shared Unit Local}

theorem Group.mem_held {g : Group} {p : Ptr} : p ∈ g.held ↔ ∃ copies, g = ⟨p, copies + 1⟩ := by
  obtain ⟨q, _ | copies⟩ := g
  · simp [Group.held]
  · rw [Group.held, if_pos (Nat.succ_pos copies), Multiset.mem_singleton]
    constructor
    · rintro rfl
      exact ⟨copies, rfl⟩
    · rintro ⟨copies', heq⟩
      cases heq
      rfl

theorem mem_held_groups {groups : List Group} {p : Ptr} :
    p ∈ (groups.map Group.held).sum ↔ ∃ g copies : Nat, groups[g]? = some ⟨p, copies + 1⟩ := by
  rw [Ledger.mem_sum_map]
  constructor
  · rintro ⟨x, hx, hp⟩
    obtain ⟨copies, rfl⟩ := Group.mem_held.1 hp
    obtain ⟨g, hg⟩ := List.mem_iff_getElem?.1 hx
    exact ⟨g, copies, hg⟩
  · rintro ⟨g, copies, hg⟩
    exact ⟨_, List.mem_of_getElem? hg, Group.mem_held.2 ⟨copies, rfl⟩⟩

theorem Local.mem_held {l : Local} {p : Ptr} : p ∈ l.held ↔ ∃ g, l = .delete g p := by
  cases l with
  | delete g q =>
    rw [Local.held, Multiset.mem_singleton]
    constructor
    · rintro rfl
      exact ⟨g, rfl⟩
    · rintro ⟨_, heq⟩
      cases heq
      rfl
  | acquire | acquired | copy | drop | notify | done => simp [Local.held]

theorem mem_held_locs {locs : List Local} {p : Ptr} : p ∈ (locs.map Local.held).sum ↔ ∃ g, .delete g p ∈ locs := by
  rw [Ledger.mem_sum_map]
  constructor
  · rintro ⟨l, hl, hp⟩
    obtain ⟨g, rfl⟩ := Local.mem_held.1 hp
    exact ⟨g, hl⟩
  · rintro ⟨g, hl⟩
    exact ⟨_, hl, Local.mem_held.2 ⟨g, rfl⟩⟩

theorem live_eq_some (h : (system n).Reachable s) {g : Nat} {p : Ptr} :
    live s g = some p ↔ (∃ copies, s.shared.groups[g]? = some ⟨p, copies + 1⟩) ∨ .delete g p ∈ s.locs := by
  obtain ⟨-, hdeleting⟩ := ordered_of_reachable h
  unfold live
  constructor
  · intro hlive
    split at hlive
    · rename_i q copies hg
      split at hlive
      · rename_i halive
        cases hlive
        refine halive.imp_left fun hpos => ⟨copies - 1, ?_⟩
        rw [hg, Nat.sub_add_cancel hpos]
      · cases hlive
    · cases hlive
  · rintro (⟨copies, hg⟩ | hl)
    · simp [hg]
    · simp [hdeleting _ hl g p rfl, hl]

/-- The element of a group that is alive is held by the group or about to be given back. -/
theorem mem_held_of_live (h : (system n).Reachable s) {g : Nat} {p : Ptr} (hg : live s g = some p) :
    p ∈ (s.shared.groups.map Group.held).sum + (s.locs.map Local.held).sum := by
  rw [Multiset.mem_add]
  rcases (live_eq_some h).1 hg with ⟨copies, hcopies⟩ | hl
  · exact .inl (mem_held_groups.2 ⟨g, copies, hcopies⟩)
  · exact .inr (mem_held_locs.2 ⟨g, hl⟩)

theorem live_of_mem_held (h : (system n).Reachable s) {p : Ptr}
    (hp : p ∈ (s.shared.groups.map Group.held).sum + (s.locs.map Local.held).sum) : ∃ g, live s g = some p := by
  rcases Multiset.mem_add.1 hp with hmem | hmem
  · obtain ⟨g, copies, hcopies⟩ := mem_held_groups.1 hmem
    exact ⟨g, (live_eq_some h).2 (.inl ⟨copies, hcopies⟩)⟩
  · obtain ⟨g, hl⟩ := mem_held_locs.1 hmem
    exact ⟨g, (live_eq_some h).2 (.inr hl)⟩

/-- Two groups that are alive have different elements. -/
theorem live_inj (h : (system n).Reachable s) {g g' : Nat} {p : Ptr} (hg : live s g = some p)
    (hg' : live s g' = some p) :
    g = g' := by
  have hnodup := balance_of_reachable h ▸ Multiset.nodup_range n
  obtain ⟨hleft, hlocs, hdisj⟩ := Multiset.nodup_add.1 hnodup
  have hgroups := (Multiset.nodup_add.1 hleft).2.1
  have hboth : ∀ {g g' copies : Nat}, s.shared.groups[g]? = some ⟨p, copies + 1⟩ → .delete g' p ∉ s.locs := by
    intro g g' copies hcopies hl
    exact Multiset.disjoint_left.1 hdisj (Multiset.mem_add.2 (.inr (mem_held_groups.2 ⟨g, copies, hcopies⟩)))
      (mem_held_locs.2 ⟨g', hl⟩)
  rcases (live_eq_some h).1 hg with ⟨copies, hcopies⟩ | hl <;>
    rcases (live_eq_some h).1 hg' with ⟨copies', hcopies'⟩ | hl'
  · exact Ledger.index_eq_of_nodup_sum hgroups hcopies hcopies' (p := p) (Group.mem_held.2 ⟨_, rfl⟩)
      (Group.mem_held.2 ⟨_, rfl⟩)
  · exact absurd hl' (hboth hcopies)
  · exact absurd hl (hboth hcopies')
  · -- two deleters of one element are one thread
    obtain ⟨j, hj⟩ := List.mem_iff_getElem?.1 hl
    obtain ⟨k, hk⟩ := List.mem_iff_getElem?.1 hl'
    obtain rfl := Ledger.index_eq_of_nodup_sum hlocs hj hk (Local.mem_held.2 ⟨_, rfl⟩) (Local.mem_held.2 ⟨_, rfl⟩)
    cases hj.symm.trans hk
    rfl

/-- Every element is free, or that of one group that is alive. -/
theorem exclusive_of_reachable (h : (system n).Reachable s) : Ledger.Exclusive n s.shared.pool.que (live s) := by
  have hsum := balance_of_reachable h
  rw [add_assoc] at hsum
  obtain ⟨hque, -, hdisj⟩ := Multiset.nodup_add.1 (hsum ▸ Multiset.nodup_range n)
  have hfree : ∀ {g p}, p ∈ s.shared.pool.que → live s g ≠ some p := fun hp hg =>
    Multiset.disjoint_left.1 hdisj (Multiset.mem_coe.2 hp) (mem_held_of_live h hg)
  have hlt : ∀ {p}, p < n ↔ p ∈ s.shared.pool.que ∨
      p ∈ (s.shared.groups.map Group.held).sum + (s.locs.map Local.held).sum := by
    intro p
    rw [← Multiset.mem_range, ← hsum, Multiset.mem_add, Multiset.mem_coe]
  refine ⟨fun p hp => hlt.2 (.inl hp), fun g p hg => hlt.2 (.inr (mem_held_of_live h hg)), fun p hp => ?_⟩
  rcases hlt.1 hp with hmem | hmem
  · exact .inl ⟨List.count_eq_one_of_mem (Multiset.coe_nodup.1 hque) hmem, fun g => hfree hmem⟩
  · obtain ⟨g, hg⟩ := live_of_mem_held h hmem
    exact .inr ⟨fun hp' => hfree hp' hg, g, hg, fun g' hg' => live_inj h hg' hg⟩

end Live

/-! ### Wake-ups -/

section Wakeups

variable {n : Nat} {b : Shared} {l : Local} {a : Act Shared Unit Local}

theorem Moves.units (hm : Moves b l a) (hwait : a.wait ≠ some ()) :
    a.shared.pool.que.length = 0 ∨ a.shared.pool.que.length + (notifies l || waits l).toNat ≤
      b.pool.que.length + (a.wait.isNone && notifies a.next).toNat + (if a.signal = .one () then 1 else 0) := by
  cases hm with
  | acquire hque => exact .inr (by simp [Act.goto, notifies, waits, hque])
  | wait => exact absurd rfl hwait
  | delete => exact .inr (by simp [Act.goto, notifies, waits])
  | copy | last | drop | notify => exact .inr le_rfl

theorem Moves.wait_units (hm : Moves b l a) (hwait : a.wait = some ()) :
    a.shared.pool.que.length = 0 ∧ waits a.next = true := by
  cases hm with
  | wait hque => exact ⟨by rw [Act.sleep, hque, List.length_nil], rfl⟩
  | acquire | copy | last | drop | delete | notify => cases hwait

/-- What the calls of `Acquire` wait for are the free elements. -/
def condition (n : Nat) : Monitor.Discipline monitor (create n) [] () where
  units b := b.pool.que.length
  owes := notifies
  waits := waits
  wait _ _ ha hwait := (moves_of_act ha).wait_units hwait
  move _ _ ha hwait := (moves_of_act ha).units hwait

end Wakeups

/-! ### Cycles -/

section Cycles

variable {n : Nat}

/-- An element is handed out for the first time, or it is the one that was handed out `n` times before. -/
theorem getElem?_of_fifo {handed returned que : List Ptr} (hfifo : List.range n ++ returned = handed ++ que)
    (hpre : returned <+: handed) {i : Nat} (hi : i < handed.length) :
    handed[i]? = if i < n then some i else handed[i - n]? := by
  have happend : handed[i]? = (List.range n ++ returned)[i]? := by rw [hfifo, List.getElem?_append_left hi]
  rw [happend]
  split
  · rename_i hin
    rw [List.getElem?_append_left (by rwa [List.length_range]), List.getElem?_range hin]
  · rename_i hin
    have hlen := congrArg List.length hfifo
    rw [List.length_append, List.length_append, List.length_range] at hlen
    obtain ⟨rest, rfl⟩ := hpre
    rw [List.getElem?_append_right (by rw [List.length_range]; omega), List.length_range,
      List.getElem?_append_left (by omega)]

/-- What is put back in the order in which it was taken is taken again in this order. -/
theorem eq_of_fifo (hn : 0 < n) {handed returned que : List Ptr} (hfifo : List.range n ++ returned = handed ++ que)
    (hpre : returned <+: handed) : handed = (List.range handed.length).map (· % n) := by
  have hget : ∀ i < handed.length, handed[i]? = some (i % n) := by
    intro i
    induction i using Nat.strongRecOn with
    | _ i ih =>
      intro hi
      rw [getElem?_of_fifo hfifo hpre hi]
      split
      · rename_i hin
        rw [Nat.mod_eq_of_lt hin]
      · rename_i hin
        rw [ih (i - n) (by omega) (by omega), ← Nat.mod_eq_sub_mod (by omega)]
  refine List.ext_getElem? fun i => ?_
  by_cases hi : i < handed.length
  · rw [hget i hi, List.getElem?_map, List.getElem?_range hi]
    rfl
  · rw [List.getElem?_eq_none (by omega), List.getElem?_eq_none (by rw [List.length_map, List.length_range]; omega)]

/-- A call of `Acquire` takes an element only while all are free: one cycle comes after the other. -/
def OneByOne (n : Nat) (s : Monitor.State Shared Unit Local) (lb : Monitor.Label Unit Local) : Prop :=
  ∀ k c sleeper, lb = .act k c sleeper → s.locs[k]? = some .acquire → s.shared.pool.que.length = n

/-- All elements are free and were given back in the order in which they were handed out, or all but the last one. -/
def Cycled (n : Nat) (b : Shared) : Prop :=
  b.pool.que.length = n ∧ b.returned = b.handed ∨
    ∃ p, (b.pool.que : Multiset Ptr) + {p} = Multiset.range n ∧ b.handed = b.returned ++ [p]

variable {s : Monitor.State Shared Unit Local}

theorem length_of_all_but {que : List Ptr} {p : Ptr} (h : (que : Multiset Ptr) + {p} = Multiset.range n) :
    que.length + 1 = n := by
  have hcard := congrArg Multiset.card h
  rwa [Multiset.card_add, Multiset.coe_card, Multiset.card_range, Multiset.card_singleton] at hcard

/-- One step of a cycle. -/
theorem Cycled.move {l : Local} {a : Act Shared Unit Local} (h : Cycled n s.shared) (hs : (system n).Reachable s)
    (hl : l ∈ s.locs) (hm : Moves s.shared l a) (hone : l = .acquire → s.shared.pool.que.length = n) :
    Cycled n a.shared := by
  have hsum := balance_of_reachable hs
  rw [add_assoc] at hsum
  have hfull : s.shared.pool.que.length = n →
      (s.shared.groups.map Group.held).sum + (s.locs.map Local.held).sum = 0 := by
    intro hlen
    have hcard := congrArg Multiset.card hsum
    rw [Multiset.card_add, Multiset.coe_card, Multiset.card_range, hlen] at hcard
    exact Multiset.card_eq_zero.1 (by omega)
  cases hm with
  | @acquire p que hque =>
    have hlen := hone rfl
    rw [hfull hlen, add_zero, hque, ← Multiset.cons_coe, ← Multiset.singleton_add, add_comm] at hsum
    rcases h with ⟨-, hret⟩ | ⟨q, hq, -⟩
    · refine .inr ⟨p, hsum, ?_⟩
      show (s.shared.groups ++ [(⟨p, 1⟩ : Group)]).map Group.ptr = s.shared.returned ++ [p]
      rw [hret, List.map_append]
      rfl
    · have := length_of_all_but hq
      omega
  | delete g p =>
    have hmem : p ∈ (s.shared.groups.map Group.held).sum + (s.locs.map Local.held).sum :=
      Multiset.mem_add.2 (.inr (mem_held_locs.2 ⟨g, hl⟩))
    rcases h with ⟨hlen, -⟩ | ⟨q, hq, hhanded⟩
    · rw [hfull hlen] at hmem
      exact absurd hmem (Multiset.notMem_zero p)
    · rw [← hq] at hsum
      rw [add_left_cancel hsum, Multiset.mem_singleton] at hmem
      subst hmem
      refine .inl ⟨?_, hhanded.symm⟩
      show (s.shared.pool.que ++ [p]).length = n
      rw [List.length_append, List.length_singleton, length_of_all_but hq]
  | copy hg | last hg | drop hg =>
    have hhanded : ∀ y, (s.shared.groups.set _ ⟨_, y⟩).map Group.ptr = s.shared.handed := fun y => map_ptr_set hg
    rcases h with ⟨hlen, hret⟩ | ⟨q, hq, hlast⟩
    · exact .inl ⟨hlen, hret.trans (hhanded _).symm⟩
    · exact .inr ⟨q, hq, (hhanded _).trans hlast⟩
  | wait | notify => exact h

theorem cycled_of_reachBy (h : (system n).ReachBy (OneByOne n) s) : Cycled n s.shared :=
  Monitor.invariant_of_reachBy (.inl ⟨List.length_range, rfl⟩) (fun hreach hone hl hK ha =>
    hK.move hreach.reachable (List.mem_of_getElem? hl) (moves_of_act ha) fun hacq => hone _ _ _ rfl (hacq ▸ hl)) h

/-- A step of the last thread, when no thread sleeps. -/
theorem step_last {b : Shared} {threads : List (Thread Unit Local)} (hawake : ∀ t ∈ threads, t.isAsleep = false)
    {l : Local}
    {a : Act Shared Unit Local} (ha : act b l = some a) (hwait : a.wait = none) (hall : a.signal ≠ .all ()) :
    monitor.step ⟨b, threads ++ [.awake l]⟩ (.act threads.length () none) =
      some ⟨a.shared, threads ++ [.awake a.next]⟩ := by
  have hnobody : (threads ++ [Thread.awake l]).any (Thread.sleepsOn ()) = false := by
    rw [List.any_eq_false]
    intro t ht
    rcases List.mem_append.1 ht with ht | ht
    · have := hawake t ht
      cases t with
      | asleep _ _ => cases this
      | awake _ | woken _ _ => simp [Thread.sleepsOn]
    · rw [List.mem_singleton.1 ht]
      simp [Thread.sleepsOn]
  have hnotify : Monitor.notify (threads ++ [Thread.awake l]) a.signal none = some (threads ++ [.awake l]) := by
    cases hsignal : a.signal with
    | silent => rfl
    | one v => simp [Monitor.notify, hnobody]
    | all v => exact absurd hsignal hall
  have hact : monitor.act () b l = some a := ha
  simp [Monitor.step, Thread.isAsleep, Thread.loc, hact, hnotify, Act.thread_of_wait_none hwait]

theorem reachBy_start {b : Shared} {threads : List (Thread Unit Local)} {l : Local} (hl : entry l = true)
    (h : (system n).ReachBy (OneByOne n) ⟨b, threads⟩) : (system n).ReachBy (OneByOne n) ⟨b, threads ++ [.awake l]⟩ :=
  .step (l := .start l) h nofun (if_pos hl)

theorem reachBy_last {b : Shared} {threads : List (Thread Unit Local)} {l : Local} {a : Act Shared Unit Local}
    (h : (system n).ReachBy (OneByOne n) ⟨b, threads ++ [.awake l]⟩) (hawake : ∀ t ∈ threads, t.isAsleep = false)
    (ha : act b l = some a) (hwait : a.wait = none) (hall : a.signal ≠ .all ())
    (hone : l = .acquire → b.pool.que.length = n) :
    (system n).ReachBy (OneByOne n) ⟨a.shared, threads ++ [.awake a.next]⟩ := by
  refine .step (l := .act threads.length () none) h ?_ (step_last hawake ha hwait hall)
  rintro _ _ _ ⟨⟩ hacq
  simp only [Monitor.State.locs, List.map_append, List.map_singleton, Thread.loc] at hacq
  rw [List.getElem?_append_right (by simp), List.length_map, Nat.sub_self, List.getElem?_cons_zero,
    Option.some.injEq] at hacq
  exact hone hacq

/-- When all elements are free, a call of `Acquire` and the drop of its pointer come to their end. -/
theorem exists_cycle (hn : 0 < n) (h : (system n).ReachBy (OneByOne n) s) (hawake : ∀ t ∈ s.threads, t.isAsleep = false)
    (hfree : s.shared.pool.que.length = n) :
    ∃ s', (system n).ReachBy (OneByOne n) s' ∧ (∀ t ∈ s'.threads, t.isAsleep = false) ∧
      s'.shared.pool.que.length = n ∧ s'.shared.handed.length = s.shared.handed.length + 1 := by
  obtain ⟨⟨⟨que₀⟩, groups, returned⟩, threads⟩ := s
  obtain ⟨p, que, hque⟩ := List.exists_cons_of_length_pos (hfree ▸ hn)
  cases hque
  have hgroup : (groups ++ [(⟨p, 1⟩ : Group)])[groups.length]? = some ⟨p, 1⟩ := List.getElem?_concat_length
  have hset : (groups ++ [(⟨p, 1⟩ : Group)]).set groups.length ⟨p, 0⟩ = groups ++ [⟨p, 0⟩] := by simp
  have hawake' : ∀ t ∈ threads ++ [.awake (.acquired groups.length)], t.isAsleep = false := by
    intro t ht
    rcases List.mem_append.1 ht with ht | ht
    · exact hawake t ht
    · rw [List.mem_singleton.1 ht]
      rfl
  have hdrop : act ⟨⟨que⟩, groups ++ [⟨p, 1⟩], returned⟩ (.drop groups.length) =
      some (.goto ⟨⟨que⟩, groups ++ [⟨p, 0⟩], returned⟩ (.delete groups.length p)) := by
    simp only [act, hgroup, hset]
  have hacquired := reachBy_last (reachBy_start (l := .acquire) rfl h) hawake rfl rfl nofun fun _ => hfree
  have hdropped := reachBy_last (reachBy_start (l := .drop groups.length) rfl hacquired) hawake' hdrop rfl nofun nofun
  have hdeleted := reachBy_last hdropped hawake' rfl rfl nofun nofun
  have hdone := reachBy_last hdeleted hawake' rfl rfl nofun nofun
  refine ⟨_, hdone, fun t ht => ?_, ?_, ?_⟩
  · rcases List.mem_append.1 ht with ht | ht
    · exact hawake' t ht
    · rw [List.mem_singleton.1 ht]
      rfl
  · show (que ++ [p]).length = n
    rw [List.length_append, List.length_singleton]
    exact hfree
  · show ((groups ++ [(⟨p, 0⟩ : Group)]).map Group.ptr).length = (groups.map Group.ptr).length + 1
    rw [List.map_append, List.length_append]
    rfl

/-- Any number of cycles is possible. -/
theorem exists_cycles (hn : 0 < n) (k : Nat) :
    ∃ s, (system n).ReachBy (OneByOne n) s ∧ (∀ t ∈ s.threads, t.isAsleep = false) ∧
      s.shared.pool.que.length = n ∧ s.shared.handed.length = k := by
  induction k with
  | zero => exact ⟨_, .init, fun t ht => (by cases ht), List.length_range, rfl⟩
  | succ k ih =>
    obtain ⟨s, h, hawake, hfree, hlen⟩ := ih
    obtain ⟨s', h', hawake', hfree', hlen'⟩ := exists_cycle hn h hawake hfree
    exact ⟨s', h', hawake', hfree', by rw [hlen', hlen]⟩

/-- The elements come in turn. -/
theorem handed_eq (hn : 0 < n) (h : (system n).ReachBy (OneByOne n) s) :
    s.shared.handed = (List.range s.shared.handed.length).map (· % n) := by
  refine eq_of_fifo hn (ordered_of_reachable h.reachable).1 ?_
  rcases cycled_of_reachBy h with ⟨-, hret⟩ | ⟨p, -, hhanded⟩
  · rw [hret]
  · rw [hhanded]
    exact List.prefix_append _ _

end Cycles

/-! ### The result -/

/-- What a state of the pool promises.  Every element is free once and that of no group that is alive, or not free and
that of one; the queue goes on with the elements in the order in which they were given back; and while a call of
`Acquire` sleeps there are no more free elements than calls that have been woken or are about to be notified. -/
structure Sound (n : Nat) (s : Monitor.State Shared Unit Local) : Prop where
  conserved : Ledger.Exclusive n s.shared.pool.que (live s)
  fifo : List.range n ++ s.shared.returned = s.shared.handed ++ s.shared.pool.que
  asleep : ∀ l, .asleep () l ∈ s.threads → s.shared.pool.que.length ≤ s.threads.countP (Thread.alerted () notifies)

/-- The address of an element. -/
def address (data : Int) (elementBytesSize : Nat) (p : Ptr) : Int := data + p * elementBytesSize

/-- The elements of a pool, which are at different addresses, are conserved in all runs, and successive cycles go
through them in turn. -/
theorem buffers_shared (data : Int) (bufferSize elementBytesSize : Nat) (hn : 1 ≤ bufferSize)
    (he : 1 ≤ elementBytesSize) (hfit : bufferSize * elementBytesSize < 2 ^ 31) :
    (BufferPool.pushed data elementBytesSize bufferSize =
        some ((create bufferSize).pool.que.map (address data elementBytesSize)) ∧
      ∀ p q, address data elementBytesSize p = address data elementBytesSize q → p = q) ∧
    (∀ s, (system bufferSize).Reachable s → Sound bufferSize s) ∧
    (∀ s, (system bufferSize).ReachBy (OneByOne bufferSize) s →
      s.shared.handed = (List.range s.shared.handed.length).map (· % bufferSize)) ∧
    ∀ k, ∃ s, (system bufferSize).ReachBy (OneByOne bufferSize) s ∧ s.shared.handed.length = k := by
  refine ⟨⟨?_, fun p q hpq => ?_⟩, fun s h => ?_, fun s h => handed_eq hn h, fun k => ?_⟩
  · refine BufferPool.pushed_eq (Int.natCast_nonneg _) fun i hi => ?_
    have hle : i * elementBytesSize ≤ bufferSize * elementBytesSize := Nat.mul_le_mul_right _ hi.le
    exact_mod_cast hle.trans_lt hfit
  · have hmul : (p : Int) * elementBytesSize = q * elementBytesSize := Int.add_left_cancel hpq
    have hne : (elementBytesSize : Int) ≠ 0 := by exact_mod_cast Nat.pos_iff_ne_zero.1 he
    exact_mod_cast Int.eq_of_mul_eq_mul_right hne hmul
  · exact ⟨exclusive_of_reachable h, (ordered_of_reachable h).1, fun l hl => (condition bufferSize).covered h hl⟩
  · obtain ⟨s, h, -, -, hlen⟩ := exists_cycles hn k
    exact ⟨s, h, hlen⟩

theorem buffers_shared_four : ∃ s, (system 4).Reachable s ∧ s.shared.handed = [0, 1, 2, 3, 0, 1, 2, 3] ∧
    Sound 4 s := by
  obtain ⟨-, hsound, hhanded, hcycles⟩ := buffers_shared 4096 4 4 (by decide) (by decide) (by decide)
  obtain ⟨s, hs, hlen⟩ := hcycles 8
  exact ⟨s, hs.reachable, by rw [hhanded s hs, hlen]; rfl, hsound s hs.reachable⟩

end OnnxInference.BufferSharing
