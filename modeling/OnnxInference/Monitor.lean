import OnnxInference.Ledger
import OnnxInference.Transition

/-!
# Monitors

Threads share a state that a mutex protects, and sleep on condition variables.  A critical section is one step, and so
is what a thread does between two of them.  A section can end with going to sleep, which leaves the mutex; a thread
that has been woken enters its section again and looks at the state afresh.  A notification of one wakes some sleeper
if there is one, a notification of all wakes every sleeper, and a sleeper may also wake for no reason.

Three rules are about all runs: what every step keeps (`invariant`), what the threads hold together with the shared
state (`balance`), and that no wake-up is lost (`Discipline.covered`, `Closing.announced`).
-/

namespace Concurrency

open Transition

/-- Who waits at a queue that can be closed finds it empty and not closed. -/
theorem eq_nil_and_open {α : Type*} {que : List α} {closed : Bool} (h : ¬(!que.isEmpty || closed) = true) :
    que = [] ∧ closed = false := by
  rw [Bool.or_eq_true, not_or, Bool.not_eq_true', Bool.not_eq_false, List.isEmpty_iff, Bool.not_eq_true] at h
  exact h

/-- What a step does to the sleepers. -/
inductive Signal (V : Type)
  | silent
  | one (v : V)
  | all (v : V)
  deriving DecidableEq

/-- Where a thread stands.  A thread that sleeps or has been woken goes on from `l`, when it has the mutex. -/
inductive Thread (V L : Type)
  | awake (l : L)
  | asleep (v : V) (l : L)
  | woken (v : V) (l : L)
  deriving DecidableEq

/-- What a thread does in one step: with `wait` it ends up asleep. -/
structure Act (B V L : Type) where
  shared : B
  signal : Signal V
  wait : Option V
  next : L

namespace Act

variable {B V L : Type}

def goto (b : B) (l : L) : Act B V L := ⟨b, .silent, none, l⟩

def sleep (b : B) (v : V) (l : L) : Act B V L := ⟨b, .silent, some v, l⟩

def notifyOne (b : B) (v : V) (l : L) : Act B V L := ⟨b, .one v, none, l⟩

def notifyAll (b : B) (v : V) (l : L) : Act B V L := ⟨b, .all v, none, l⟩

def thread (a : Act B V L) : Thread V L :=
  match a.wait with
  | none => .awake a.next
  | some v => .asleep v a.next

theorem thread_eq_asleep {a : Act B V L} {v : V} {l : L} (h : .asleep v l = a.thread) :
    a.wait = some v ∧ a.next = l := by
  obtain ⟨_, _, _ | v', _⟩ := a <;> cases h
  exact ⟨rfl, rfl⟩

theorem thread_ne_woken (a : Act B V L) (v : V) (l : L) : .woken v l ≠ a.thread := by
  obtain ⟨_, _, _ | v', _⟩ := a <;> exact nofun

theorem thread_of_wait_none {a : Act B V L} (h : a.wait = none) : a.thread = .awake a.next := by
  rw [thread, h]

end Act

/-- The steps of the threads: `C` is what the outside decides, `entry` where a thread may start that starts later. -/
structure Monitor (C B V L : Type) where
  entry : L → Bool
  act : C → B → L → Option (Act B V L)

namespace Thread

variable {V L : Type}

def loc : Thread V L → L
  | .awake l | .asleep _ l | .woken _ l => l

theorem loc_thread {B : Type} (a : Act B V L) : a.thread.loc = a.next := by
  obtain ⟨_, _, _ | v, _⟩ := a <;> rfl

def isAsleep : Thread V L → Bool
  | .asleep _ _ => true
  | _ => false

variable [DecidableEq V]

def sleepsOn (v : V) : Thread V L → Bool
  | .asleep v' _ => v' = v
  | _ => false

/-- The thread after a notification of all that sleep on `v`. -/
def wake (v : V) : Thread V L → Thread V L
  | .asleep v' l => if v' = v then .woken v' l else .asleep v' l
  | t => t

/-- The thread has been woken from its sleep on `v`, or is about to notify one sleeper. -/
def alerted (v : V) (owes : L → Bool) : Thread V L → Bool
  | .awake l => owes l
  | .asleep _ _ => false
  | .woken v' _ => v' = v

variable {v : V} {owes : L → Bool}

theorem loc_wake (t : Thread V L) : (t.wake v).loc = t.loc := by
  cases t with
  | asleep v' l =>
    rw [wake]
    split <;> rfl
  | awake _ | woken _ _ => rfl

theorem wake_eq_asleep {t : Thread V L} {v' : V} {l : L} (h : t.wake v = .asleep v' l) :
    t = .asleep v' l ∧ v' ≠ v := by
  cases t with
  | asleep v₁ l₁ =>
    rw [wake] at h
    split at h
    · cases h
    · rename_i hne
      cases h
      exact ⟨rfl, hne⟩
  | awake _ | woken _ _ => cases h

theorem wake_eq_woken {t : Thread V L} {v' : V} {l : L} (h : t.wake v = .woken v' l) :
    t = .woken v' l ∨ t = .asleep v' l := by
  cases t with
  | asleep v₁ l₁ =>
    rw [wake] at h
    split at h <;> cases h
    exact .inr rfl
  | awake _ => cases h
  | woken _ _ => exact .inl h

theorem alerted_wake {v' : V} {t : Thread V L} (h : t.alerted v' owes = true) :
    (t.wake v).alerted v' owes = true := by
  cases t with
  | asleep _ _ => cases h
  | awake _ | woken _ _ => exact h

end Thread

namespace Monitor

variable {C B V L : Type}

structure State (B V L : Type) where
  shared : B
  threads : List (Thread V L)

def State.locs (s : State B V L) : List L := s.threads.map Thread.loc

theorem State.mem_locs {s : State B V L} {t : Thread V L} (h : t ∈ s.threads) : t.loc ∈ s.locs :=
  List.mem_map_of_mem h

inductive Label (C L : Type)
  | start (l : L)
  | act (k : Nat) (c : C) (sleeper : Option Nat)
  | wake (k : Nat)

variable [DecidableEq V]

/-- The threads after a signal; the outside chooses the sleeper that a notification of one wakes. -/
def notify (threads : List (Thread V L)) : Signal V → Option Nat → Option (List (Thread V L))
  | .silent, _ => some threads
  | .one v, some j =>
    match threads[j]? with
    | some (.asleep v' l) => if v' = v then some (threads.set j (.woken v' l)) else none
    | _ => none
  | .one v, none => if threads.any (Thread.sleepsOn v) then none else some threads
  | .all v, _ => some (threads.map (Thread.wake v))

def step (M : Monitor C B V L) (s : State B V L) : Label C L → Option (State B V L)
  | .start l => if M.entry l then some { s with threads := s.threads ++ [.awake l] } else none
  | .act k c sleeper =>
    match s.threads[k]? with
    | some t =>
      if t.isAsleep then none
      else do
        let a ← M.act c s.shared t.loc
        let threads ← notify s.threads a.signal sleeper
        some ⟨a.shared, threads.set k a.thread⟩
    | none => none
  | .wake k =>
    match s.threads[k]? with
    | some (.asleep v l) => some { s with threads := s.threads.set k (.woken v l) }
    | _ => none

/-- The monitor with the threads that are there from the start. -/
def system (M : Monitor C B V L) (b : B) (ls : List L) : System (State B V L) (Label C L) where
  init := ⟨b, ls.map .awake⟩
  step := M.step

/-! ### What a signal does -/

section Notify

variable {σ : Signal V} {threads threads' : List (Thread V L)} {v : V} {owes : L → Bool}

/-- What the threads are after a signal.  Nobody sleeps on a condition variable that all were notified of, and if
somebody sleeps on one that one was notified of, then another has been woken. -/
structure Notified (σ : Signal V) (threads threads' : List (Thread V L)) : Prop where
  locs : threads'.map Thread.loc = threads.map Thread.loc
  awake : ∀ (k : Nat) t, threads[k]? = some t → t.isAsleep = false → threads'[k]? = some t
  sleepers : ∀ v l, .asleep v l ∈ threads' → .asleep v l ∈ threads ∧ σ ≠ .all v
  woken : ∀ v l, .woken v l ∈ threads' → .woken v l ∈ threads ∨ .asleep v l ∈ threads
  count : ∀ v owes, (∃ l, .asleep v l ∈ threads') →
    threads.countP (Thread.alerted v owes) + (if σ = .one v then 1 else 0) ≤ threads'.countP (Thread.alerted v owes)

theorem countP_set {α : Type} (p : α → Bool) {xs : List α} {k : Nat} {x : α} (h : xs[k]? = some x) (y : α) :
    (xs.set k y).countP p + (p x).toNat = xs.countP p + (p y).toNat := by
  obtain ⟨hlt, rfl⟩ := List.getElem?_eq_some_iff.1 h
  have hle := List.boole_getElem_le_countP (p := p) hlt
  rw [List.countP_set hlt]
  simp only [Bool.toNat, Bool.cond_eq_ite]
  omega

theorem any_sleepsOn : threads.any (Thread.sleepsOn v) = true ↔ ∃ l, .asleep v l ∈ threads := by
  rw [List.any_eq_true]
  constructor
  · rintro ⟨t, ht, hv⟩
    cases t with
    | asleep v' l =>
      obtain rfl : v' = v := of_decide_eq_true hv
      exact ⟨l, ht⟩
    | awake _ | woken _ _ => cases hv
  · rintro ⟨l, hl⟩
    exact ⟨_, hl, decide_eq_true rfl⟩

theorem Notified.silent : Notified .silent threads threads :=
  ⟨rfl, fun _ _ h _ => h, fun _ _ h => ⟨h, nofun⟩, fun _ _ h => .inl h, fun _ _ _ => by simp⟩

/-- Nobody sleeps, and the notification is lost. -/
theorem Notified.nobody (h : ∀ l, .asleep v l ∉ threads) : Notified (.one v) threads threads := by
  refine ⟨rfl, fun _ _ h _ => h, fun _ _ h => ⟨h, nofun⟩, fun _ _ h => .inl h, fun v' _ hv' => ?_⟩
  obtain ⟨l, hl⟩ := hv'
  have hne : (.one v : Signal V) ≠ .one v' := by
    intro heq
    cases heq
    exact h l hl
  rw [if_neg hne, Nat.add_zero]

/-- One sleeper is woken. -/
theorem Notified.one {j : Nat} {l : L} (h : threads[j]? = some (.asleep v l)) :
    Notified (.one v) threads (threads.set j (.woken v l)) := by
  refine ⟨?_, fun k t hk ht => ?_, fun v' l' hm => ⟨?_, nofun⟩, fun v' l' hm => ?_, fun v' owes _ => ?_⟩
  · have hloc : (threads.map Thread.loc)[j]? = some l := by rw [List.getElem?_map, h]; rfl
    obtain ⟨hlt', hget'⟩ := List.getElem?_eq_some_iff.1 hloc
    rw [List.map_set, Thread.loc, ← hget']
    exact List.set_getElem_self _
  · rw [List.getElem?_set_ne, hk]
    rintro rfl
    rw [h] at hk
    cases hk
    cases ht
  · rcases List.mem_or_eq_of_mem_set hm with hmem | heq
    · exact hmem
    · cases heq
  · rcases List.mem_or_eq_of_mem_set hm with hmem | heq
    · exact .inl hmem
    · cases heq
      exact .inr (List.mem_of_getElem? h)
  · have hcount := countP_set (Thread.alerted v' owes) h (.woken v l)
    rw [Thread.alerted, Thread.alerted, Bool.toNat_false, Nat.add_zero] at hcount
    rw [hcount]
    by_cases hv : v = v' <;> simp [hv]

theorem Notified.all : Notified (.all v) threads (threads.map (Thread.wake v)) := by
  refine ⟨?_, fun k t hk ht => ?_, fun v' l hm => ?_, fun v' l hm => ?_, fun v' owes _ => ?_⟩
  · rw [List.map_map]
    exact List.map_congr_left fun t _ => t.loc_wake
  · rw [List.getElem?_map, hk]
    cases t with
    | asleep _ _ => cases ht
    | awake _ | woken _ _ => rfl
  · obtain ⟨t, ht, heq⟩ := List.mem_map.1 hm
    obtain ⟨rfl, hne⟩ := Thread.wake_eq_asleep heq
    exact ⟨ht, fun heq => hne (by cases heq; rfl)⟩
  · obtain ⟨t, ht, heq⟩ := List.mem_map.1 hm
    rcases Thread.wake_eq_woken heq with rfl | rfl
    · exact .inl ht
    · exact .inr ht
  · rw [if_neg nofun, Nat.add_zero, List.countP_map]
    exact List.countP_mono_left fun t _ ht => Thread.alerted_wake ht

theorem notified_of_notify {sleeper : Option Nat} (h : notify threads σ sleeper = some threads') :
    Notified σ threads threads' := by
  unfold notify at h
  split at h
  · cases h
    exact .silent
  · split at h
    · split at h
      · rename_i hj heq
        cases h
        subst heq
        exact .one hj
      · cases h
    · cases h
  · split at h
    · cases h
    · rename_i hno
      cases h
      exact .nobody fun l hl => hno (any_sleepsOn.2 ⟨l, hl⟩)
  · cases h
    exact .all

end Notify

/-! ### What a step does -/

section Steps

variable {M : Monitor C B V L} {s s' : State B V L} {b : B} {ls : List L}

/-- A thread starts, a sleeper wakes for no reason, or a thread that is not asleep takes its next step. -/
theorem step_cases {lb : Label C L} (h : M.step s lb = some s') :
    (∃ l, M.entry l = true ∧ s' = { s with threads := s.threads ++ [.awake l] }) ∨
    (∃ (k : Nat) (v : V) (l : L), s.threads[k]? = some (.asleep v l) ∧
      s' = { s with threads := s.threads.set k (.woken v l) }) ∨
    ∃ (k : Nat) (t : Thread V L) (c : C) (a : Act B V L) (threads : List (Thread V L)), s.threads[k]? = some t ∧
      t.isAsleep = false ∧ M.act c s.shared t.loc = some a ∧ Notified a.signal s.threads threads ∧
      s' = ⟨a.shared, threads.set k a.thread⟩ := by
  cases lb with
  | start l =>
    simp only [step, Option.ite_none_right_eq_some] at h
    obtain ⟨hentry, h⟩ := h
    exact .inl ⟨l, hentry, (Option.some.inj h).symm⟩
  | act k c sleeper =>
    simp only [step] at h
    split at h
    · rename_i t ht
      rw [Option.ite_none_left_eq_some] at h
      obtain ⟨hrun, h⟩ := h
      simp only [Option.bind_eq_bind, Option.bind_eq_some_iff] at h
      obtain ⟨a, ha, threads, hn, h⟩ := h
      exact .inr (.inr ⟨k, t, c, a, threads, ht, Bool.eq_false_iff.2 hrun, ha, notified_of_notify hn,
        (Option.some.inj h).symm⟩)
    · cases h
  | wake k =>
    simp only [step] at h
    split at h
    · rename_i v l hk
      exact .inr (.inl ⟨k, v, l, hk, (Option.some.inj h).symm⟩)
    · cases h

/-- The places of the threads after a step. -/
theorem locs_set {a : Act B V L} {threads : List (Thread V L)} (hn : Notified a.signal s.threads threads) (k : Nat) :
    (threads.set k a.thread).map Thread.loc = (s.threads.map Thread.loc).set k a.next := by
  rw [List.map_set, hn.locs, Thread.loc_thread]

theorem locs_wake {k : Nat} {v : V} {l : L} (h : s.threads[k]? = some (.asleep v l)) :
    (s.threads.set k (.woken v l)).map Thread.loc = s.threads.map Thread.loc :=
  (Notified.one h).locs

/-- For what depends on the shared state and on where the threads are there are two kinds of steps. -/
theorem locs_cases {lb : Label C L} (h : M.step s lb = some s') :
    (∃ l, M.entry l = true ∧ s'.shared = s.shared ∧ s'.locs = s.locs ++ [l]) ∨
    (s'.shared = s.shared ∧ s'.locs = s.locs) ∨
    ∃ (k : Nat) (l : L) (c : C) (a : Act B V L), s.locs[k]? = some l ∧ M.act c s.shared l = some a ∧
      s'.shared = a.shared ∧ s'.locs = s.locs.set k a.next := by
  obtain ⟨l, hentry, rfl⟩ | ⟨k, v, l, hk, rfl⟩ | ⟨k, t, c, a, threads, hk, -, ha, hn, rfl⟩ := step_cases h
  · exact .inl ⟨l, hentry, rfl, List.map_append⟩
  · exact .inr (.inl ⟨rfl, locs_wake hk⟩)
  · have hloc : s.locs[k]? = some t.loc := by rw [State.locs, List.getElem?_map, hk]; rfl
    exact .inr (.inr ⟨k, t.loc, c, a, hloc, ha, rfl, locs_set hn k⟩)

theorem locs_init : (M.system b ls).init.locs = ls := by
  change (ls.map Thread.awake).map Thread.loc = ls
  rw [List.map_map]
  exact List.map_id ls

/-- What holds of the shared state and of every place where a thread is, if each step keeps it for the thread that
takes it and for each of the others. -/
theorem invariant_of_reachable {K : B → Prop} {J : B → L → Prop} (hb : K b) (hls : ∀ l ∈ ls, J b l)
    (hentry : ∀ {b l}, K b → M.entry l = true → J b l)
    (hact : ∀ {s k l c a}, (M.system b ls).Reachable s → s.locs[k]? = some l → K s.shared → J s.shared l →
      M.act c s.shared l = some a → K a.shared ∧ J a.shared a.next ∧
        ∀ (k' : Nat) l', k' ≠ k → s.locs[k']? = some l' → J s.shared l' → J a.shared l')
    (h : (M.system b ls).Reachable s) : K s.shared ∧ ∀ l ∈ s.locs, J s.shared l := by
  induction h with
  | init =>
    refine ⟨hb, fun l hl => hls l ?_⟩
    rw [locs_init] at hl
    exact hl
  | step hreach _ hs ih =>
    obtain ⟨hK, hJ⟩ := ih
    obtain ⟨l, hl, hshared, hlocs⟩ | ⟨hshared, hlocs⟩ | ⟨k, l, c, a, hk, ha, hshared, hlocs⟩ := locs_cases hs
    · rw [hshared, hlocs]
      refine ⟨hK, fun l' hl' => ?_⟩
      rcases List.mem_append.1 hl' with hmem | hmem
      · exact hJ l' hmem
      · exact List.mem_singleton.1 hmem ▸ hentry hK hl
    · rw [hshared, hlocs]
      exact ⟨hK, hJ⟩
    · obtain ⟨hK', hJ', hother⟩ := hact hreach hk hK (hJ l (List.mem_of_getElem? hk)) ha
      rw [hshared, hlocs]
      refine ⟨hK', fun l' hl' => ?_⟩
      obtain ⟨k', hk'⟩ := List.mem_iff_getElem?.1 hl'
      by_cases hkk : k' = k
      · subst hkk
        have hlt := (List.getElem?_eq_some_iff.1 hk).1
        rw [List.getElem?_set_self hlt, Option.some.injEq] at hk'
        exact hk' ▸ hJ'
      · rw [List.getElem?_set_ne (Ne.symm hkk)] at hk'
        exact hother k' l' hkk hk' (hJ l' (List.mem_of_getElem? hk'))

/-- The same where a step keeps what it has to whatever state it is taken in. -/
theorem invariant {K : B → Prop} {J : B → L → Prop} (hb : K b) (hls : ∀ l ∈ ls, J b l)
    (hentry : ∀ {b l}, K b → M.entry l = true → J b l)
    (hact : ∀ {c b l a}, K b → J b l → M.act c b l = some a →
      K a.shared ∧ J a.shared a.next ∧ ∀ l', J b l' → J a.shared l')
    (h : (M.system b ls).Reachable s) : K s.shared ∧ ∀ l ∈ s.locs, J s.shared l := by
  refine invariant_of_reachable hb hls hentry (fun _ _ hK hJ ha => ?_) h
  obtain ⟨hK', hJ', hother⟩ := hact hK hJ ha
  exact ⟨hK', hJ', fun _ l' _ _ => hother l'⟩

theorem act_of_step {k : Nat} {c : C} {sleeper : Option Nat} (h : M.step s (.act k c sleeper) = some s') :
    ∃ l a, s.locs[k]? = some l ∧ M.act c s.shared l = some a ∧ s'.shared = a.shared := by
  simp only [step] at h
  split at h
  · rename_i t ht
    rw [Option.ite_none_left_eq_some] at h
    simp only [Option.bind_eq_bind, Option.bind_eq_some_iff] at h
    obtain ⟨-, a, ha, threads, -, h⟩ := h
    cases h
    exact ⟨t.loc, a, by rw [State.locs, List.getElem?_map, ht]; rfl, ha, rfl⟩
  · cases h

/-- What holds of the shared state in the runs all of whose steps meet a condition. -/
theorem invariant_of_reachBy {G : State B V L → Label C L → Prop} {K : B → Prop} (hb : K b)
    (hact : ∀ {s k c sleeper l a}, (M.system b ls).ReachBy G s → G s (.act k c sleeper) → s.locs[k]? = some l →
      K s.shared → M.act c s.shared l = some a → K a.shared)
    (h : (M.system b ls).ReachBy G s) : K s.shared := by
  induction h with
  | init => exact hb
  | @step s s' lb hreach hG hs ih =>
    cases lb with
    | start l =>
      simp only [system, step, Option.ite_none_right_eq_some] at hs
      cases hs.2
      exact ih
    | act k c sleeper =>
      obtain ⟨l, a, hl, ha, hshared⟩ := act_of_step hs
      rw [hshared]
      exact hact hreach hG hl ih ha
    | wake k =>
      simp only [system, step] at hs
      split at hs
      · cases hs
        exact ih
      · cases hs

/-- A monitor that does what another one does, and keeps more in its shared state, has no more runs. -/
theorem reachable_of_forget {B' : Type} {M' : Monitor C B' V L} {b' : B'} (f : B' → B) (hentry : M'.entry = M.entry)
    (hact : ∀ {c b l a}, M'.act c b l = some a → M.act c (f b) l = some ⟨f a.shared, a.signal, a.wait, a.next⟩)
    {s : State B' V L} (h : (M'.system b' ls).Reachable s) :
    (M.system (f b') ls).Reachable ⟨f s.shared, s.threads⟩ := by
  induction h with
  | init => exact .init
  | @step s s' lb _ _ hs ih =>
    refine .step (l := lb) ih trivial ?_
    cases lb with
    | start l =>
      simp only [system, step, Option.ite_none_right_eq_some] at hs ⊢
      obtain ⟨hl, hs⟩ := hs
      cases hs
      exact ⟨hentry ▸ hl, rfl⟩
    | act k c sleeper =>
      simp only [system, step] at hs ⊢
      split at hs
      · rename_i t ht
        rw [Option.ite_none_left_eq_some] at hs
        simp only [Option.bind_eq_bind, Option.bind_eq_some_iff] at hs
        obtain ⟨hrun, a, ha, threads, hn, hs⟩ := hs
        cases hs
        simp [hrun, hact ha, hn, Act.thread]
      · cases hs
    | wake k =>
      simp only [system, step] at hs ⊢
      split at hs
      · cases hs
        simp
      · cases hs

/-- What the shared state and the threads hold together is what the shared state says, if each step keeps this
whatever the other threads hold. -/
theorem balance {A : Type} [AddCommMonoid A] (f g : B → A) (w : L → A) (hb : f b + (ls.map w).sum = g b)
    (hentry : ∀ l, M.entry l = true → w l = 0)
    (hact : ∀ {s l c a x}, (M.system b ls).Reachable s → l ∈ s.locs → M.act c s.shared l = some a →
      f s.shared + (w l + x) = g s.shared → f a.shared + (w a.next + x) = g a.shared)
    (h : (M.system b ls).Reachable s) : f s.shared + (s.locs.map w).sum = g s.shared := by
  induction h with
  | init =>
    rw [locs_init]
    exact hb
  | step hreach _ hs ih =>
    obtain ⟨l, hl, hshared, hlocs⟩ | ⟨hshared, hlocs⟩ | ⟨k, l, c, a, hk, ha, hshared, hlocs⟩ := locs_cases hs
    · rw [hshared, hlocs, List.map_append, List.sum_append, List.map_singleton, List.sum_singleton, hentry l hl,
        add_zero]
      exact ih
    · rw [hshared, hlocs]
      exact ih
    · obtain ⟨rest, hsum, hset⟩ := Ledger.exists_rest w hk
      rw [hshared, hlocs, hset]
      rw [hsum] at ih
      exact hact hreach (List.mem_of_getElem? hk) ha ih

end Steps

/-! ### Lost wake-ups -/

/-- How a condition variable is used.  The `units` are what the sleepers wait for; a step that adds one owes a
notification of one, and a thread that has been woken or does not have to wait takes one. -/
structure Discipline (M : Monitor C B V L) (b : B) (ls : List L) (v : V) where
  units : B → Nat
  /-- the thread is about to notify one -/
  owes : L → Bool
  /-- a thread that sleeps goes on from here -/
  waits : L → Bool
  wait : ∀ {s l c a}, (M.system b ls).Reachable s → l ∈ s.locs → M.act c s.shared l = some a → a.wait = some v →
    units a.shared = 0 ∧ waits a.next = true
  move : ∀ {s l c a}, (M.system b ls).Reachable s → l ∈ s.locs → M.act c s.shared l = some a → a.wait ≠ some v →
    units a.shared = 0 ∨ units a.shared + (owes l || waits l).toNat ≤
      units s.shared + (a.wait.isNone && owes a.next).toNat + (if a.signal = .one v then 1 else 0)

/-- How a condition variable is shut down: who closes it owes a notification of all. -/
structure Closing (M : Monitor C B V L) (b : B) (ls : List L) (v : V) where
  closed : B → Bool
  owesAll : L → Bool
  wait : ∀ {s l c a}, (M.system b ls).Reachable s → l ∈ s.locs → M.act c s.shared l = some a → a.wait = some v →
    closed a.shared = false
  owe : ∀ {s l c a}, (M.system b ls).Reachable s → l ∈ s.locs → M.act c s.shared l = some a → closed a.shared = true →
    (closed s.shared = false ∨ owesAll l = true) → a.signal = .all v ∨ (a.wait = none ∧ owesAll a.next = true)

section Wakeups

variable {M : Monitor C B V L} {s : State B V L} {b : B} {ls : List L} {v : V}

theorem alerted_thread (a : Act B V L) (owes : L → Bool) :
    a.thread.alerted v owes = (a.wait.isNone && owes a.next) := by
  obtain ⟨_, _, _ | v', _⟩ := a <;> rfl

namespace Discipline

variable (D : Discipline M b ls v)

/-- The threads that sleep or were woken, and the count. -/
structure Covered (s : State B V L) : Prop where
  asleep : ∀ l, .asleep v l ∈ s.threads → D.waits l = true
  woken : ∀ l, .woken v l ∈ s.threads → D.waits l = true
  units : (∃ l, .asleep v l ∈ s.threads) → D.units s.shared ≤ s.threads.countP (Thread.alerted v D.owes)

theorem alerted_le {t : Thread V L} (hwoken : ∀ l, t = .woken v l → D.waits l = true) :
    (t.alerted v D.owes).toNat ≤ (D.owes t.loc || D.waits t.loc).toNat := by
  cases t with
  | awake l =>
    rw [Thread.alerted, Thread.loc]
    cases D.owes l <;> simp
  | asleep _ _ => exact Nat.zero_le _
  | woken v' l =>
    rw [Thread.alerted, Thread.loc]
    by_cases hv : v' = v
    · subst hv
      simp [hwoken l rfl]
    · simp [hv]

variable {D}

theorem Covered.start (h : D.Covered s) (l : L) : D.Covered { s with threads := s.threads ++ [.awake l] } := by
  have hmem : ∀ {t : Thread V L}, t ∈ s.threads ++ [.awake l] → t ∈ s.threads ∨ t = .awake l := fun ht =>
    (List.mem_append.1 ht).imp id List.mem_singleton.1
  refine ⟨fun l' hl => ?_, fun l' hl => ?_, fun hex => ?_⟩
  · exact h.asleep l' ((hmem hl).resolve_right nofun)
  · exact h.woken l' ((hmem hl).resolve_right nofun)
  · obtain ⟨l', hl⟩ := hex
    have hle := h.units ⟨l', (hmem hl).resolve_right nofun⟩
    rw [List.countP_append]
    exact Nat.le_add_right_of_le hle

theorem Covered.wake (h : D.Covered s) {k : Nat} {v' : V} {l : L} (hk : s.threads[k]? = some (.asleep v' l)) :
    D.Covered { s with threads := s.threads.set k (.woken v' l) } := by
  have hn := Notified.one hk
  refine ⟨fun l' hl => h.asleep l' (hn.sleepers v l' hl).1, fun l' hl => ?_, fun hex => ?_⟩
  · rcases hn.woken v l' hl with hmem | hmem
    · exact h.woken l' hmem
    · exact h.asleep l' hmem
  · have hcount := hn.count v D.owes hex
    obtain ⟨l', hl⟩ := hex
    have hle := h.units ⟨l', (hn.sleepers v l' hl).1⟩
    exact hle.trans (Nat.le_of_add_right_le hcount)

theorem Covered.act (h : D.Covered s)
    (hs : (M.system b ls).Reachable s) {k : Nat} {t : Thread V L} {c : C} {a : Act B V L}
    {threads : List (Thread V L)} (hk : s.threads[k]? = some t) (hrun : t.isAsleep = false)
    (ha : M.act c s.shared t.loc = some a) (hn : Notified a.signal s.threads threads) :
    D.Covered ⟨a.shared, threads.set k a.thread⟩ := by
  have hmem := List.mem_of_getElem? hk
  have hloc := State.mem_locs hmem
  refine ⟨fun l hl => ?_, fun l hl => ?_, fun hex => ?_⟩
  · rcases List.mem_or_eq_of_mem_set hl with hold | hnew
    · exact h.asleep l (hn.sleepers v l hold).1
    · obtain ⟨hwait, rfl⟩ := Act.thread_eq_asleep hnew
      exact (D.wait hs hloc ha hwait).2
  · rcases List.mem_or_eq_of_mem_set hl with hold | hnew
    · rcases hn.woken v l hold with hold | hold
      · exact h.woken l hold
      · exact h.asleep l hold
    · exact absurd hnew (Act.thread_ne_woken a v l)
  · by_cases hwait : a.wait = some v
    · show D.units a.shared ≤ _
      rw [(D.wait hs hloc ha hwait).1]
      exact Nat.zero_le _
    · -- the sleeper has been asleep before
      obtain ⟨l, hl⟩ := hex
      have hold := (List.mem_or_eq_of_mem_set hl).resolve_right fun hnew => hwait (Act.thread_eq_asleep hnew).1
      have hunits := h.units ⟨l, (hn.sleepers v l hold).1⟩
      have hcount := hn.count v D.owes ⟨l, hold⟩
      have hset := countP_set (Thread.alerted v D.owes) (hn.awake k t hk hrun) a.thread
      rw [alerted_thread] at hset
      have halerted := D.alerted_le fun l hl => h.woken l (hl ▸ hmem)
      show D.units a.shared ≤ (threads.set k a.thread).countP _
      rcases D.move hs hloc ha hwait with hzero | hmove
      · rw [hzero]
        exact Nat.zero_le _
      · omega

theorem Covered.of_reachable (h : (M.system b ls).Reachable s) : D.Covered s := by
  induction h with
  | init =>
    have hawake : ∀ t ∈ (M.system b ls).init.threads, ∃ l, t = .awake l := fun t ht => by
      obtain ⟨l, -, rfl⟩ := List.mem_map.1 ht
      exact ⟨l, rfl⟩
    refine ⟨fun l hl => ?_, fun l hl => ?_, fun ⟨l, hl⟩ => ?_⟩ <;>
    · obtain ⟨l', heq⟩ := hawake _ hl
      cases heq
  | step hreach _ hs ih =>
    obtain ⟨l, -, rfl⟩ | ⟨k, v, l, hk, rfl⟩ | ⟨k, t, c, a, threads, hk, hrun, ha, hn, rfl⟩ := step_cases hs
    · exact ih.start l
    · exact ih.wake hk
    · exact ih.act hreach hk hrun ha hn

/-- No wake-up is lost: while a thread sleeps there are no more units than threads that have been woken or are about to
notify one. -/
theorem covered (D : Discipline M b ls v) (h : (M.system b ls).Reachable s) {l : L} (hl : .asleep v l ∈ s.threads) :
    D.units s.shared ≤ s.threads.countP (Thread.alerted v D.owes) :=
  (Covered.of_reachable h).units ⟨l, hl⟩

end Discipline

/-- Once a condition variable is closed, somebody is about to notify all that sleep on it. -/
theorem Closing.announced (D : Closing M b ls v) (h : (M.system b ls).Reachable s) (hclosed : D.closed s.shared = true)
    {l : L} (hl : .asleep v l ∈ s.threads) : ∃ l', .awake l' ∈ s.threads ∧ D.owesAll l' = true := by
  induction h generalizing l with
  | init =>
    obtain ⟨_, -, heq⟩ := List.mem_map.1 hl
    cases heq
  | @step s s' lb hreach _ hs ih =>
    obtain ⟨l₁, -, rfl⟩ | ⟨k, v', l₁, hk, rfl⟩ | ⟨k, t, c, a, threads, hk, hrun, ha, hn, rfl⟩ := step_cases hs
    · have hold := (List.mem_append.1 hl).resolve_right fun hnew => by cases List.mem_singleton.1 hnew
      obtain ⟨l', hl', howes⟩ := ih hclosed hold
      exact ⟨l', List.mem_append_left _ hl', howes⟩
    · have hn := Notified.one hk
      obtain ⟨l', hl', howes⟩ := ih hclosed (hn.sleepers v l hl).1
      obtain ⟨i, hi⟩ := List.mem_iff_getElem?.1 hl'
      exact ⟨l', List.mem_of_getElem? (hn.awake i _ hi rfl), howes⟩
    · have hloc := State.mem_locs (List.mem_of_getElem? hk)
      have hwait : a.wait ≠ some v := fun hwait => by
        cases hclosed.symm.trans (D.wait hreach hloc ha hwait)
      have hold := (List.mem_or_eq_of_mem_set hl).resolve_right fun hnew => hwait (Act.thread_eq_asleep hnew).1
      obtain ⟨hsleep, hsignal⟩ := hn.sleepers v l hold
      have hlt : k < threads.length := (List.getElem?_eq_some_iff.1 (hn.awake k t hk hrun)).1
      have hnext : a.wait = none ∧ D.owesAll a.next = true →
          ∃ l', .awake l' ∈ threads.set k a.thread ∧ D.owesAll l' = true := fun ⟨hnone, howes⟩ =>
        ⟨a.next, Act.thread_of_wait_none hnone ▸ List.mem_set hlt a.thread, howes⟩
      by_cases hbefore : D.closed s.shared = true
      · obtain ⟨l', hl', howes⟩ := ih hbefore hsleep
        obtain ⟨i, hi⟩ := List.mem_iff_getElem?.1 hl'
        by_cases hik : i = k
        · subst hik
          obtain rfl : t = .awake l' := Option.some.inj (hk.symm.trans hi)
          exact hnext ((D.owe hreach hloc ha hclosed (.inr howes)).resolve_left hsignal)
        · have hi' := hn.awake i _ hi rfl
          rw [← List.getElem?_set_ne (Ne.symm hik)] at hi'
          exact ⟨l', List.mem_of_getElem? hi', howes⟩
      · exact hnext ((D.owe hreach hloc ha hclosed (.inl (Bool.eq_false_iff.2 hbefore))).resolve_left hsignal)

end Wakeups

end Monitor

end Concurrency
