import OnnxInference.Scheduler.BatchPairing

/-!
# The executors of the batch scheduler

Each executor holds the tasks of its stage that are queued or running (`Tracked`), and how far the destructor has come
says which of them are open and which have been joined (`Phase`).
-/

namespace OnnxInference.BatchScheduler

open Concurrency Transition

variable {B C Img T M O ε : Type} {R : BatchRunner B C Img T M O ε}

/-! ### The statuses of the tasks -/

section Status

variable {I L : Type}

def statusAt (tasks : List (Task I L O ε)) (i : Nat) : Status := (tasks[i]?.map Task.status).getD .idle

theorem statusAt_of {tasks : List (Task I L O ε)} {i : Nat} {t : Task I L O ε} (ht : tasks[i]? = some t) :
    statusAt tasks i = t.status := by
  simp [statusAt, ht]

theorem statusAt_of_le {tasks : List (Task I L O ε)} {i : Nat} (hi : tasks.length ≤ i) :
    statusAt tasks i = .idle := by
  simp [statusAt, hi]

theorem statusAt_set {tasks : List (Task I L O ε)} {i : Nat} {t : Task I L O ε} (ht : tasks[i]? = some t)
    (t' : Task I L O ε) (j : Nat) : statusAt (tasks.set i t') j = if j = i then t'.status else statusAt tasks j := by
  have hlt := (List.getElem?_eq_some_iff.1 ht).1
  by_cases hj : j = i
  · subst hj
    simp [statusAt, hlt]
  · simp [statusAt, hj, Ne.symm hj]

theorem statusAt_append (tasks : List (Task I L O ε)) (t : Task I L O ε) (j : Nat) :
    statusAt (tasks ++ [t]) j = if j = tasks.length then t.status else statusAt tasks j := by
  rcases Nat.lt_trichotomy j tasks.length with hlt | heq | hgt
  · simp [statusAt, List.getElem?_append_left hlt, Nat.ne_of_lt hlt]
  · simp [statusAt, heq]
  · rw [if_neg (Nat.ne_of_gt hgt), statusAt_of_le (Nat.le_of_lt hgt), statusAt_of_le]
    rw [List.length_append, List.length_singleton]
    exact hgt

end Status

namespace State

variable (s : State R)

def preStatus (j : Nat × Nat) : Status := (s.batches[j.1]?.map fun x => statusAt x.pre j.2).getD .idle

def inferStatus (b : Nat) : Status := (s.batches[b]?.map fun x => x.infer.status).getD .idle

def postStatus (b : Nat) : Status := (s.batches[b]?.map fun x => x.post.status).getD .idle

variable {s}

theorem preStatus_of {b : Nat} {x : Batch R} (hx : s.batches[b]? = some x) (i : Nat) :
    s.preStatus (b, i) = statusAt x.pre i := by
  simp [preStatus, hx]

theorem inferStatus_of {b : Nat} {x : Batch R} (hx : s.batches[b]? = some x) : s.inferStatus b = x.infer.status := by
  simp [inferStatus, hx]

theorem postStatus_of {b : Nat} {x : Batch R} (hx : s.batches[b]? = some x) : s.postStatus b = x.post.status := by
  simp [postStatus, hx]

end State

/-- Each executor holds the tasks of its stage that are queued or running. -/
structure Tracked (s : State R) : Prop where
  pre : s.preExecutor.Tracks s.preStatus
  infer : s.inferExecutor.Tracks s.inferStatus
  post : s.postExecutor.Tracks s.postStatus

/-- A status of the batches after a change of one. -/
private theorem status_set {l : List (Batch R)} {b : Nat} {x : Batch R} (hx : l[b]? = some x) (y : Batch R)
    (f : Batch R → Status) (b' : Nat) :
    ((l.set b y)[b']?.map f).getD .idle = if b' = b then f y else (l[b']?.map f).getD .idle := by
  have hlt := (List.getElem?_eq_some_iff.1 hx).1
  by_cases h : b' = b
  · subst h
    simp [hlt]
  · simp [h, Ne.symm h]

/-- A change of a batch with what it does to each executor. -/
theorem Tracked.setBatch {s s' : State R} {b : Nat} {x y : Batch R} (hx : s.batches[b]? = some x)
    (hb : s'.batches = s.batches.set b y)
    (hpre : ∀ st, (∀ i, st (b, i) = statusAt y.pre i) → (∀ j, j.1 ≠ b → st j = s.preStatus j) →
      s'.preExecutor.Tracks st)
    (hinfer : ∀ st, st b = y.infer.status → (∀ b', b' ≠ b → st b' = s.inferStatus b') → s'.inferExecutor.Tracks st)
    (hpost : ∀ st, st b = y.post.status → (∀ b', b' ≠ b → st b' = s.postStatus b') → s'.postExecutor.Tracks st) :
    Tracked s' := by
  refine ⟨hpre _ (fun i => ?_) fun j hj => ?_, hinfer _ ?_ fun b' hb' => ?_, hpost _ ?_ fun b' hb' => ?_⟩
  · rw [State.preStatus, hb, status_set hx, if_pos rfl]
  · rw [State.preStatus, hb, status_set hx, if_neg hj]
    rfl
  · rw [State.inferStatus, hb, status_set hx, if_pos rfl]
  · rw [State.inferStatus, hb, status_set hx, if_neg hb']
    rfl
  · rw [State.postStatus, hb, status_set hx, if_pos rfl]
  · rw [State.postStatus, hb, status_set hx, if_neg hb']
    rfl

section Executors

variable {s : State R} {b : Nat} {x : Batch R}

theorem Tracked.keepPre (h : Tracked s) (hx : s.batches[b]? = some x)
    {pre : List (Task (Img × Nat) R.preprocess.Local Unit ε)} (hsame : ∀ i, statusAt pre i = statusAt x.pre i)
    (st : Nat × Nat → Status) (hst : ∀ i, st (b, i) = statusAt pre i) (hother : ∀ j, j.1 ≠ b → st j = s.preStatus j) :
    s.preExecutor.Tracks st := by
  refine h.pre.congr rfl rfl ?_
  rintro ⟨b', i⟩
  by_cases hb : b' = b
  · subst hb
    rw [hst, hsame, State.preStatus_of hx]
  · exact hother _ hb

theorem Tracked.keepInfer (h : Tracked s) (hx : s.batches[b]? = some x) {status : Status}
    (hsame : status = x.infer.status) (st : Nat → Status) (hst : st b = status)
    (hother : ∀ b', b' ≠ b → st b' = s.inferStatus b') : s.inferExecutor.Tracks st := by
  refine h.infer.congr rfl rfl fun b' => ?_
  by_cases hb : b' = b
  · subst hb
    rw [hst, hsame, State.inferStatus_of hx]
  · exact hother _ hb

theorem Tracked.keepPost (h : Tracked s) (hx : s.batches[b]? = some x) {status : Status}
    (hsame : status = x.post.status) (st : Nat → Status) (hst : st b = status)
    (hother : ∀ b', b' ≠ b → st b' = s.postStatus b') : s.postExecutor.Tracks st := by
  refine h.post.congr rfl rfl fun b' => ?_
  by_cases hb : b' = b
  · subst hb
    rw [hst, hsame, State.postStatus_of hx]
  · exact hother _ hb

/-- One preprocess task changes its status. -/
theorem changePre (hx : s.batches[b]? = some x) {pre : List (Task (Img × Nat) R.preprocess.Local Unit ε)} {i : Nat}
    {status : Status} (hpre : ∀ j, statusAt pre j = if j = i then status else statusAt x.pre j)
    {pool : ThreadPool (Nat × Nat)}
    (hpool : ∀ st, st (b, i) = status → (∀ j, j ≠ (b, i) → st j = s.preStatus j) → pool.Tracks st)
    (st : Nat × Nat → Status) (hst : ∀ i, st (b, i) = statusAt pre i) (hother : ∀ j, j.1 ≠ b → st j = s.preStatus j) :
    pool.Tracks st := by
  refine hpool st (by rw [hst, hpre, if_pos rfl]) ?_
  rintro ⟨b', j⟩ hj
  by_cases hb : b' = b
  · subst hb
    have hji : j ≠ i := fun he => hj (he ▸ rfl)
    rw [hst, hpre, if_neg hji, State.preStatus_of hx]
  · exact hother _ hb

end Executors

theorem Tracked.congr {s s' : State R} (h : Tracked s) (hb : s'.batches = s.batches)
    (hpre : s'.preExecutor.que = s.preExecutor.que ∧ s'.preExecutor.busy = s.preExecutor.busy)
    (hinfer : s'.inferExecutor.que = s.inferExecutor.que ∧ s'.inferExecutor.busy = s.inferExecutor.busy)
    (hpost : s'.postExecutor.que = s.postExecutor.que ∧ s'.postExecutor.busy = s.postExecutor.busy) : Tracked s' := by
  refine ⟨h.pre.congr hpre.1 hpre.2 fun j => ?_, h.infer.congr hinfer.1 hinfer.2 fun b => ?_,
    h.post.congr hpost.1 hpost.2 fun b => ?_⟩
  · rw [State.preStatus, hb]
    rfl
  · rw [State.inferStatus, hb]
    rfl
  · rw [State.postStatus, hb]
    rfl

/-- A new batch has no tasks. -/
theorem Tracked.acquire {s s' : State R} (h : Tracked s) {tenbuf : T}
    (hb : s'.batches = s.batches ++ [⟨tenbuf, [], [], .absent, .absent⟩]) (hpre : s'.preExecutor = s.preExecutor)
    (hinfer : s'.inferExecutor = s.inferExecutor) (hpost : s'.postExecutor = s.postExecutor) : Tracked s' := by
  have hsame : ∀ (f : Batch R → Status) (b : Nat), f ⟨tenbuf, [], [], .absent, .absent⟩ = .idle →
      (s'.batches[b]?.map f).getD .idle = (s.batches[b]?.map f).getD .idle := by
    intro f b hf
    rw [hb]
    rcases Nat.lt_trichotomy b s.batches.length with hlt | heq | hgt
    · rw [List.getElem?_append_left hlt]
    · simp [heq, hf]
    · rw [List.getElem?_eq_none (by simp; omega), List.getElem?_eq_none (by omega)]
  refine ⟨(h.pre.congr (by rw [hpre]) (by rw [hpre]) fun j => ?_),
    (h.infer.congr (by rw [hinfer]) (by rw [hinfer]) fun b => ?_),
    (h.post.congr (by rw [hpost]) (by rw [hpost]) fun b => ?_)⟩
  · exact hsame _ _ rfl
  · exact hsame _ _ rfl
  · exact hsame _ _ rfl

theorem Tracked.step {s s' : State R} {l : Label Img C} (h : Tracked s) (hk : Kept s) (hm : Move s l s') :
    Tracked s' := by
  cases hm with
  | submit | turn | breakOut | misuse | destroyStart | close | joinWorker | stopPre | stopInfer | stopPost
  | destroyQueues => exact h.congr rfl ⟨rfl, rfl⟩ ⟨rfl, rfl⟩ ⟨rfl, rfl⟩
  | joinPre _ joined | joinInfer _ joined | joinPost _ joined =>
    obtain ⟨-, -, rfl⟩ := ThreadPool.join_some joined
    exact h.congr rfl ⟨rfl, rfl⟩ ⟨rfl, rfl⟩ ⟨rfl, rfl⟩
  | acquire => exact h.acquire rfl rfl rfl rfl
  | fill at_ _ hx _ _ accepted =>
    obtain ⟨z, hz, -, hlen, -⟩ := (hk.worked.fill _ _ _ at_).members
    rw [hx, Option.some.injEq] at hz
    subst hz
    subst hlen
    refine Tracked.setBatch hx rfl (changePre hx (statusAt_append _ _) ?_) (h.keepInfer hx rfl) (h.keepPost hx rfl)
    intro st hst hother
    refine h.pre.enqueue accepted ?_ hst hother
    rw [State.preStatus_of hx, statusAt_of_le (Nat.le_refl _)]
  | enqueueInfer at_ hx accepted =>
    obtain ⟨size, hf⟩ := hk.worked.filled _ at_
    obtain ⟨z, hz, -, -, hnone, -⟩ := hf.members
    rw [hx, Option.some.injEq] at hz
    subst hz
    refine Tracked.setBatch hx rfl (h.keepPre hx fun _ => rfl) ?_ (h.keepPost hx rfl)
    intro st hst hother
    refine h.infer.enqueue accepted ?_ hst hother
    rw [State.inferStatus_of hx, hnone, Task.status_absent]
  | takePre taken hx at_ =>
    refine Tracked.setBatch hx rfl (changePre hx (statusAt_set at_ _) ?_) (h.keepInfer hx rfl) (h.keepPost hx rfl)
    exact fun st hst hother => h.pre.take taken hst hother
  | endPre hx at_ =>
    refine Tracked.setBatch hx rfl (changePre hx (statusAt_set at_ _) ?_) (h.keepInfer hx rfl) (h.keepPost hx rfl)
    intro st hst hother
    refine h.pre.finish ?_ hst hother
    rw [State.preStatus_of hx, statusAt_of at_, Task.status_ending]
  | startPre hx at_ | runPre hx at_ | returnPre hx at_ =>
    refine Tracked.setBatch hx rfl (h.keepPre hx fun j => ?_) (h.keepInfer hx rfl) (h.keepPost hx rfl)
    rw [statusAt_set at_]
    split
    · subst_vars
      simp [statusAt_of at_]
    · rfl
  | takeInfer taken hx =>
    refine Tracked.setBatch hx rfl (h.keepPre hx fun _ => rfl) ?_ (h.keepPost hx rfl)
    exact fun st hst hother => h.infer.take taken hst hother
  | endInfer hx at_ =>
    refine Tracked.setBatch hx rfl (h.keepPre hx fun _ => rfl) ?_ (h.keepPost hx rfl)
    intro st hst hother
    refine h.infer.finish ?_ hst hother
    rw [State.inferStatus_of hx, at_, Task.status_ending]
  | startInfer hx at_ | get hx at_ | rethrow hx at_ | callInfer hx at_ | runInfer hx at_ | drop hx at_
  | throwInfer hx at_ =>
    refine Tracked.setBatch hx rfl (h.keepPre hx fun _ => rfl) (h.keepInfer hx ?_) (h.keepPost hx rfl)
    simp [at_]
  | hop hx at_ accepted =>
    have hnone := (hk.served.sound _ _ hx).post_absent (by rw [at_, Task.outcome_returned])
    refine Tracked.setBatch hx rfl (h.keepPre hx fun _ => rfl) (h.keepInfer hx (by simp [at_])) ?_
    intro st hst hother
    refine h.post.enqueue accepted ?_ hst hother
    rw [State.postStatus_of hx, hnone, Task.status_absent]
  | takePost taken hx =>
    refine Tracked.setBatch hx rfl (h.keepPre hx fun _ => rfl) (h.keepInfer hx rfl) ?_
    exact fun st hst hother => h.post.take taken hst hother
  | endPost hx at_ =>
    refine Tracked.setBatch hx rfl (h.keepPre hx fun _ => rfl) (h.keepInfer hx rfl) ?_
    intro st hst hother
    refine h.post.finish ?_ hst hother
    rw [State.postStatus_of hx, at_, Task.status_ending]
  | startPost hx at_ | runPost hx at_ | deliver hx at_ | throwPost hx at_ =>
    refine Tracked.setBatch hx rfl (h.keepPre hx fun _ => rfl) (h.keepInfer hx rfl) (h.keepPost hx ?_)
    simp [at_]

/-! ### The destructor -/

/-- What the destructor has still to do; before it starts that is everything. -/
def State.todo (s : State R) : List Teardown := s.teardown.getD destructor

def State.Open (s : State R) : StageId → Prop
  | .pre => s.preExecutor.Open
  | .infer => s.inferExecutor.Open
  | .post => s.postExecutor.Open

def State.Joined (s : State R) : StageId → Prop
  | .pre => s.preExecutor.joined = true
  | .infer => s.inferExecutor.joined = true
  | .post => s.postExecutor.joined = true

/-- One fact for each executor. -/
theorem forall_stage {P : StageId → Prop} (pre : P .pre) (infer : P .infer) (post : P .post) : ∀ k, P k
  | .pre => pre
  | .infer => infer
  | .post => post

/-- What is known from how far the destructor has come. -/
structure Phase (s : State R) : Prop where
  suffix : s.todo <:+ destructor
  closed : .close ∉ s.todo → s.isClose = true
  exited : .joinWorker ∉ s.todo → s.worker = .exited
  opened : ∀ k, .stop k ∈ s.todo → s.Open k
  joined : ∀ k, .join k ∉ s.todo → s.Joined k

/-- No action of the destructor is done twice, and a pool is joined after it has been stopped. -/
private theorem stop_of_suffix {a : Teardown} {rest : List Teardown} (h : a :: rest <:+ destructor) {k : StageId}
    (hk : .stop k ∈ rest) : a ≠ .stop k ∧ a ≠ .join k := by
  have key : ∀ l ∈ destructor.tails, ∀ k ∈ [StageId.pre, .infer, .post], Teardown.stop k ∈ l.tail →
      l.head? ≠ some (.stop k) ∧ l.head? ≠ some (.join k) := by
    decide
  have := key (a :: rest) ((List.mem_tails _ _).2 h) k (by cases k <;> simp) hk
  simpa using this

/-- The worker is joined before an executor is stopped. -/
theorem stop_mem_of_joinWorker_mem {todo : List Teardown} (h : todo <:+ destructor) (hj : .joinWorker ∈ todo)
    (k : StageId) : .stop k ∈ todo := by
  have key : ∀ l ∈ destructor.tails, Teardown.joinWorker ∈ l → ∀ k ∈ [StageId.pre, .infer, .post],
    Teardown.stop k ∈ l := by
    decide
  exact key todo ((List.mem_tails _ _).2 h) hj k (by cases k <;> simp)

/-- Once the destructor has come to an executor or to the queues, the worker has been joined. -/
theorem joinWorker_not_mem {a : Teardown} {rest : List Teardown} (h : a :: rest <:+ destructor) (ha : a ≠ .close)
    (ha' : a ≠ .joinWorker) : .joinWorker ∉ a :: rest := by
  have key : ∀ l ∈ destructor.tails, l.head? ≠ some .close → l.head? ≠ some .joinWorker →
    Teardown.joinWorker ∉ l := by
    decide
  exact key (a :: rest) ((List.mem_tails _ _).2 h) (by simpa using ha) (by simpa using ha')

theorem close_not_mem {a : Teardown} {rest : List Teardown} (h : a :: rest <:+ destructor) (ha : a ≠ .close) :
    .close ∉ a :: rest := by
  have key : ∀ l ∈ destructor.tails, l.head? ≠ some .close → Teardown.close ∉ l := by
    decide
  exact key (a :: rest) ((List.mem_tails _ _).2 h) (by simpa using ha)

theorem Phase.keep {s s' : State R} (h : Phase s) (htodo : s'.todo = s.todo) (hclose : s'.isClose = s.isClose)
    (hworker : s.worker = .exited → s'.worker = .exited) (hopen : ∀ k, s.Open k → s'.Open k)
    (hjoin : ∀ k, s.Joined k → s'.Joined k) : Phase s' := by
  refine ⟨htodo ▸ h.suffix, ?_, ?_, ?_, ?_⟩
  · exact fun hm => hclose.trans (h.closed (htodo ▸ hm))
  · exact fun hm => hworker (h.exited (htodo ▸ hm))
  · exact fun k hm => hopen k (h.opened k (htodo ▸ hm))
  · exact fun k hm => hjoin k (h.joined k (htodo ▸ hm))

/-- An action of the destructor. -/
theorem Phase.next {s s' : State R} (h : Phase s) {a : Teardown} {rest : List Teardown}
    (todo : s.teardown = some (a :: rest)) (todo' : s'.teardown = some rest)
    (hclose : a = .close ∨ s.isClose = true → s'.isClose = true)
    (hworker : a = .joinWorker ∨ s.worker = .exited → s'.worker = .exited)
    (hopen : ∀ k, a ≠ .stop k → a ≠ .join k → s.Open k → s'.Open k)
    (hjoin : ∀ k, a = .join k ∨ s.Joined k → s'.Joined k) : Phase s' := by
  have htodo : s.todo = a :: rest := by rw [State.todo, todo, Option.getD_some]
  have htodo' : s'.todo = rest := by rw [State.todo, todo', Option.getD_some]
  have hsuf : a :: rest <:+ destructor := htodo ▸ h.suffix
  refine ⟨htodo' ▸ (List.suffix_cons a rest).trans hsuf, fun hm => ?_, fun hm => ?_, fun k hm => ?_, fun k hm => ?_⟩
  · rw [htodo'] at hm
    by_cases ha : a = .close
    · exact hclose (.inl ha)
    · exact hclose (.inr (h.closed (by rw [htodo]; simp [Ne.symm ha, hm])))
  · rw [htodo'] at hm
    by_cases ha : a = .joinWorker
    · exact hworker (.inl ha)
    · exact hworker (.inr (h.exited (by rw [htodo]; simp [Ne.symm ha, hm])))
  · rw [htodo'] at hm
    obtain ⟨h1, h2⟩ := stop_of_suffix hsuf hm
    exact hopen k h1 h2 (h.opened k (by rw [htodo]; exact List.mem_cons_of_mem _ hm))
  · rw [htodo'] at hm
    by_cases ha : a = .join k
    · exact hjoin k (.inl ha)
    · exact hjoin k (.inr (h.joined k (by rw [htodo]; simp [Ne.symm ha, hm])))

theorem Turn.not_exited {s : State R} {w : Worker} (h : Turn s w) : s.worker ≠ .exited := by
  cases h with
  | ready at_ | idle at_ | filled at_ | again at_ | leave at_ | loop at_ | exit at_ => rw [at_]; exact nofun

theorem Phase.step {s s' : State R} {l : Label Img C} (h : Phase s) (hm : Move s l s') : Phase s' := by
  cases hm with
  | submit | misuse | startPre | runPre | returnPre | startInfer | get | rethrow | callInfer | runInfer | drop
  | throwInfer | startPost | runPost | deliver | throwPost =>
    exact h.keep rfl rfl id (forall_stage id id id) (forall_stage id id id)
  | destroyStart alive =>
    refine h.keep ?_ rfl id (forall_stage id id id) (forall_stage id id id)
    rw [State.todo, State.todo, alive]
    rfl
  | turn ht =>
    exact h.keep rfl rfl (fun he => absurd he ht.not_exited) (forall_stage id id id) (forall_stage id id id)
  | acquire at_ | breakOut at_ =>
    refine h.keep rfl rfl (fun he => ?_) (forall_stage id id id) (forall_stage id id id)
    rw [at_] at he
    cases he
  | fill at_ _ _ _ _ accepted =>
    refine h.keep rfl rfl (fun he => ?_) (forall_stage (·.enqueue accepted) id id)
      (forall_stage (ThreadPool.joined_enqueue accepted).trans id id)
    rw [at_] at he
    cases he
  | enqueueInfer at_ _ accepted =>
    refine h.keep rfl rfl (fun he => ?_) (forall_stage id (·.enqueue accepted) id)
      (forall_stage id (ThreadPool.joined_enqueue accepted).trans id)
    rw [at_] at he
    cases he
  | hop _ _ accepted =>
    exact h.keep rfl rfl id (forall_stage id id (·.enqueue accepted))
      (forall_stage id id (ThreadPool.joined_enqueue accepted).trans)
  | takePre taken | takeInfer taken | takePost taken =>
    obtain ⟨q, -, -, rfl⟩ := ThreadPool.take_some taken
    exact h.keep rfl rfl id (forall_stage id id id) (forall_stage id id id)
  | endPre | endInfer | endPost => exact h.keep rfl rfl id (forall_stage id id id) (forall_stage id id id)
  | close todo =>
    exact h.next todo rfl (fun _ => rfl) (fun hw => hw.resolve_left nofun)
      (forall_stage (fun _ _ => id) (fun _ _ => id) fun _ _ => id)
      fun k hj => by cases k <;> exact hj.resolve_left nofun
  | joinWorker todo exited =>
    exact h.next todo rfl (fun hc => hc.resolve_left nofun) (fun _ => exited)
      (forall_stage (fun _ _ => id) (fun _ _ => id) fun _ _ => id)
      fun k hj => by cases k <;> exact hj.resolve_left nofun
  | destroyQueues todo =>
    exact h.next todo rfl (fun hc => hc.resolve_left nofun) (fun hw => hw.resolve_left nofun)
      (forall_stage (fun _ _ => id) (fun _ _ => id) fun _ _ => id)
      fun k hj => by cases k <;> exact hj.resolve_left nofun
  | stopPre todo | stopInfer todo | stopPost todo =>
    refine h.next todo rfl (fun hc => hc.resolve_left nofun) (fun hw => hw.resolve_left nofun) (fun k hne _ => ?_)
      fun k hj => by cases k <;> exact hj.resolve_left nofun
    cases k <;> first | exact id | exact absurd rfl hne
  | joinPre todo joined | joinInfer todo joined | joinPost todo joined =>
    obtain ⟨-, -, rfl⟩ := ThreadPool.join_some joined
    refine h.next todo rfl (fun hc => hc.resolve_left nofun) (fun hw => hw.resolve_left nofun) (fun k _ hne => ?_)
      fun k hj => ?_
    · cases k <;> first | exact id | exact absurd rfl hne
    · cases k <;> first | rfl | exact hj.resolve_left nofun

/-- The executors have workers and lose no job. -/
structure Manned (s : State R) : Prop where
  pre : s.preExecutor.Manned
  infer : s.inferExecutor.Manned
  post : s.postExecutor.Manned

theorem Manned.step {s s' : State R} {l : Label Img C} (h : Manned s) (hm : Move s l s') : Manned s' := by
  cases hm with
  | submit | misuse | startPre | runPre | returnPre | startInfer | get | rethrow | callInfer | runInfer | drop
  | throwInfer | startPost | runPost | deliver | throwPost | destroyStart | turn | acquire | breakOut | close
  | joinWorker | destroyQueues => exact ⟨h.pre, h.infer, h.post⟩
  | fill _ _ _ _ _ accepted => exact ⟨h.pre.enqueue accepted, h.infer, h.post⟩
  | enqueueInfer _ _ accepted => exact ⟨h.pre, h.infer.enqueue accepted, h.post⟩
  | hop _ _ accepted => exact ⟨h.pre, h.infer, h.post.enqueue accepted⟩
  | takePre taken => exact ⟨h.pre.take taken, h.infer, h.post⟩
  | takeInfer taken => exact ⟨h.pre, h.infer.take taken, h.post⟩
  | takePost taken => exact ⟨h.pre, h.infer, h.post.take taken⟩
  | endPre => exact ⟨h.pre.finish _, h.infer, h.post⟩
  | endInfer => exact ⟨h.pre, h.infer.finish _, h.post⟩
  | endPost => exact ⟨h.pre, h.infer, h.post.finish _⟩
  | stopPre => exact ⟨h.pre.stop, h.infer, h.post⟩
  | stopInfer => exact ⟨h.pre, h.infer.stop, h.post⟩
  | stopPost => exact ⟨h.pre, h.infer, h.post.stop⟩
  | joinPre _ joined => exact ⟨h.pre.join joined, h.infer, h.post⟩
  | joinInfer _ joined => exact ⟨h.pre, h.infer.join joined, h.post⟩
  | joinPost _ joined => exact ⟨h.pre, h.infer, h.post.join joined⟩

/-! ### Every run -/

/-- What every step keeps. -/
structure Inv (s : State R) : Prop where
  kept : Kept s
  tracked : Tracked s
  manned : Manned s
  phase : Phase s

theorem Inv.init (b : B) : Inv (init R b) := by
  have hnone : ∀ (f : Batch R → Status) (b : Nat), ((([] : List (Batch R))[b]?).map f).getD .idle = .idle :=
    fun _ _ => rfl
  refine ⟨Kept.init b, ⟨?_, ?_, ?_⟩, ⟨?_, ?_, ?_⟩, ⟨List.suffix_rfl, ?_, ?_, ?_, ?_⟩⟩
  · exact (ThreadPool.Tracks.create _).congr rfl rfl fun j => hnone _ _
  · exact (ThreadPool.Tracks.create _).congr rfl rfl fun j => hnone _ _
  · exact (ThreadPool.Tracks.create _).congr rfl rfl fun j => hnone _ _
  · exact ThreadPool.Manned.create R.bufferSize_pos
  · exact ThreadPool.Manned.create R.bufferSize_pos
  · exact ThreadPool.Manned.create R.bufferSize_pos
  · exact fun hno => absurd (show Teardown.close ∈ destructor by decide) hno
  · exact fun hno => absurd (show Teardown.joinWorker ∈ destructor by decide) hno
  · exact fun k _ => by cases k <;> exact ⟨rfl, rfl⟩
  · intro k hno
    refine absurd ?_ hno
    show Teardown.join k ∈ destructor
    cases k <;> decide

/-- The queues are destroyed when the worker has left. -/
theorem Phase.of_destroyQueues {s : State R} (h : Phase s) {rest : List Teardown}
    (todo : s.teardown = some (.destroyQueues :: rest)) : s.isClose = true ∧ s.worker = .exited := by
  have htodo : s.todo = .destroyQueues :: rest := by rw [State.todo, todo, Option.getD_some]
  have hsuf : .destroyQueues :: rest <:+ destructor := htodo ▸ h.suffix
  refine ⟨h.closed ?_, h.exited ?_⟩
  · rw [htodo]
    exact close_not_mem hsuf nofun
  · rw [htodo]
    exact joinWorker_not_mem hsuf nofun nofun

theorem Inv.step {s s' : State R} {l : Label Img C} (h : Inv s) (hm : Move s l s') : Inv s' :=
  ⟨h.kept.step hm fun _ _ todo => h.phase.of_destroyQueues todo, h.tracked.step h.kept hm, h.manned.step hm,
    h.phase.step hm⟩

theorem reachable_inv {b : B} {s : State R} (h : (system R b).Reachable s) : Inv s :=
  h.invariant (Inv.init b) fun hi _ hs => hi.step (Move.of_step hs).2

/-! ### Progress -/

section Progress

variable {s : State R} {b i : Nat} {x : Batch R} {c : C}

/-- A running preprocess task goes on unless its stage waits. -/
theorem waits_of_advancePre_none (hu : s.undefined = false) (hx : s.batches[b]? = some x)
    {t : Task (Img × Nat) R.preprocess.Local Unit ε} (ht : x.pre[i]? = some t) (running : t.status = .running)
    (h : step s (.advancePre b i c) = none) :
    ∃ l, t = .execute l ∧ R.preprocess.step c (s.backend, x.tenbuf) l = none := by
  simp only [BatchScheduler.step, hu, Bool.false_eq_true, if_false, advancePre, hx, Option.bind_eq_bind,
    Option.bind_some, ht] at h
  cases t with
  | absent | queued | finished => cases running
  | execute l => exact ⟨l, rfl, Option.map_eq_none_iff.1 h⟩
  | start | returned | ending => cases h

/-- A running inference task goes on unless its stage or the future of a preprocess task waits. -/
theorem waits_of_advanceInfer_none (hu : s.undefined = false) (hx : s.batches[b]? = some x)
    (running : x.infer.status = .running) (h : step s (.advanceInfer b c) = none) :
    (∃ l, x.infer = .execute (.inr l) ∧ R.infer.step c s.backend l = none) ∨
      ∃ (j : Nat) (t : _), x.infer = .execute (.inl j) ∧ x.pre[j]? = some t ∧ t.outcome = none := by
  simp only [BatchScheduler.step, hu, Bool.false_eq_true, if_false, advanceInfer, hx, Option.bind_eq_bind,
    Option.bind_some] at h
  rcases hi : x.infer with _ | a | a | (j | l) | (e | out) | r | r <;> simp only [hi] at h running
  · cases running
  · cases running
  · cases h
  · cases ht : x.pre[j]? with
    | none => simp only [ht] at h; cases h
    | some t =>
      refine .inr ⟨j, t, rfl, ht, ?_⟩
      rcases ho : t.outcome with _ | e | u <;> simp only [ht, ho] at h <;> first | rfl | cases h
  · exact .inl ⟨l, rfl, Option.map_eq_none_iff.1 h⟩
  · cases h
  · split at h <;> cases h
  · cases h
  · cases running

theorem waits_of_advancePost_none (hu : s.undefined = false) (hx : s.batches[b]? = some x)
    (running : x.post.status = .running) (h : step s (.advancePost b c) = none) :
    ∃ l, x.post = .execute l ∧ R.postprocess.step c s.backend l = none := by
  simp only [BatchScheduler.step, hu, Bool.false_eq_true, if_false, advancePost, hx, Option.bind_eq_bind,
    Option.bind_some] at h
  rcases hp : x.post with _ | a | a | l | (e | outs) | r | r <;> simp only [hp] at h running
  · cases running
  · cases running
  · cases h
  · exact ⟨l, rfl, Option.map_eq_none_iff.1 h⟩
  · cases h
  · cases h
  · cases h
  · cases running

private theorem preStatus_ne_idle {j : Nat × Nat} (h : s.preStatus j ≠ .idle) :
    ∃ (x : Batch R) (t : _), s.batches[j.1]? = some x ∧ x.pre[j.2]? = some t ∧ t.status = s.preStatus j := by
  simp only [State.preStatus] at h ⊢
  cases hx : s.batches[j.1]? with
  | none =>
    rw [hx] at h
    exact absurd rfl h
  | some x =>
    rw [hx] at h
    cases ht : x.pre[j.2]? with
    | none => exact absurd (by simp [statusAt, ht]) h
    | some t => exact ⟨x, t, rfl, ht, by simp [statusAt, ht]⟩

/-- A status of a batch other than the one of the batches that are not there. -/
private theorem exists_of_status {f : Batch R → Status} {status : Status}
    (h : (s.batches[b]?.map f).getD .idle = status) (hne : status ≠ .idle) :
    ∃ x : Batch R, s.batches[b]? = some x ∧ f x = status := by
  cases hx : s.batches[b]? with
  | none =>
    rw [hx] at h
    exact absurd h.symm hne
  | some x =>
    rw [hx] at h
    exact ⟨x, rfl, h⟩

private theorem queued_of_status {I L O' : Type} {t : Task I L O' ε} (h : t.status = .queued) :
    ∃ a, t = .queued a := by
  cases t <;> first | exact ⟨_, rfl⟩ | cases h

/-- If a preprocess task is queued or running, one can be taken or is running. -/
theorem Tracked.pre_goes (h : Tracked s) (hm : Manned s) (hu : s.undefined = false)
    (hne : s.preExecutor.que ≠ [] ∨ s.preExecutor.busy ≠ []) :
    (∃ s', BatchScheduler.step s (.take .pre : Label Img C) = some s') ∨ ∃ (b i : Nat) (x : Batch R) (t : _),
      s.batches[b]? = some x ∧ x.pre[i]? = some t ∧ t.status = .running := by
  rcases h.pre.take_or_running hm.pre hne with ⟨j, pool, taken, hst⟩ | ⟨j, hst⟩
  · obtain ⟨x, t, hx, ht, hs⟩ := preStatus_ne_idle (by rw [hst]; decide)
    obtain ⟨a, rfl⟩ := queued_of_status (hs.trans hst)
    refine .inl (Option.isSome_iff_exists.1 ?_)
    simp only [BatchScheduler.step, hu, Bool.false_eq_true, if_false, BatchScheduler.take, taken,
      Option.bind_eq_bind, Option.bind_some, hx, ht]
    rfl
  · obtain ⟨x, t, hx, ht, hs⟩ := preStatus_ne_idle (by rw [hst]; decide)
    exact .inr ⟨j.1, j.2, x, t, hx, ht, hs.trans hst⟩

theorem Tracked.infer_goes (h : Tracked s) (hm : Manned s) (hu : s.undefined = false)
    (hne : s.inferExecutor.que ≠ [] ∨ s.inferExecutor.busy ≠ []) :
    (∃ s', BatchScheduler.step s (.take .infer : Label Img C) = some s') ∨ ∃ (b : Nat) (x : Batch R),
      s.batches[b]? = some x ∧ x.infer.status = .running := by
  rcases h.infer.take_or_running hm.infer hne with ⟨b, pool, taken, hst⟩ | ⟨b, hst⟩
  · obtain ⟨x, hx, hs⟩ := exists_of_status hst (by decide)
    obtain ⟨a, ha⟩ := queued_of_status hs
    refine .inl (Option.isSome_iff_exists.1 ?_)
    simp only [BatchScheduler.step, hu, Bool.false_eq_true, if_false, BatchScheduler.take, taken,
      Option.bind_eq_bind, Option.bind_some, hx, ha]
    rfl
  · obtain ⟨x, hx, hs⟩ := exists_of_status hst (by decide)
    exact .inr ⟨b, x, hx, hs⟩

theorem Tracked.post_goes (h : Tracked s) (hm : Manned s) (hu : s.undefined = false)
    (hne : s.postExecutor.que ≠ [] ∨ s.postExecutor.busy ≠ []) :
    (∃ s', BatchScheduler.step s (.take .post : Label Img C) = some s') ∨ ∃ (b : Nat) (x : Batch R),
      s.batches[b]? = some x ∧ x.post.status = .running := by
  rcases h.post.take_or_running hm.post hne with ⟨b, pool, taken, hst⟩ | ⟨b, hst⟩
  · obtain ⟨x, hx, hs⟩ := exists_of_status hst (by decide)
    obtain ⟨a, ha⟩ := queued_of_status hs
    refine .inl (Option.isSome_iff_exists.1 ?_)
    simp only [BatchScheduler.step, hu, Bool.false_eq_true, if_false, BatchScheduler.take, taken,
      Option.bind_eq_bind, Option.bind_some, hx, ha]
    rfl
  · obtain ⟨x, hx, hs⟩ := exists_of_status hst (by decide)
    exact .inr ⟨b, x, hx, hs⟩

/-- The executors are open until the worker has left. -/
theorem Phase.open_of_worker (h : Phase s) (hne : s.worker ≠ .exited) (k : StageId) : s.Open k := by
  refine h.opened k (stop_mem_of_joinWorker_mem h.suffix ?_ k)
  by_contra hno
  exact hne (h.exited hno)

/-- The worker can go on when it holds the mutex, unless it waits for a tensor buffer. -/
theorem work_of_not_free (hk : Kept s) (hp : Phase s) (hu : s.undefined = false) (hfree : ¬s.MutexFree) :
    (∃ s', step s (.work : Label Img C) = some s') ∨
      s.worker = .getTensorBuffer ∧ R.getTensorBuffer s.backend = none := by
  have hstep : step s (.work : Label Img C) = work s := by simp [BatchScheduler.step, hu]
  rw [hstep]
  have hopen := hp.open_of_worker fun he => hfree (.inr he)
  cases hw : s.worker with
  | wait => exact absurd (.inl hw) hfree
  | exited => exact absurd (.inr hw) hfree
  | getTensorBuffer =>
    cases hgot : R.getTensorBuffer s.backend with
    | none => exact .inr ⟨rfl, rfl⟩
    | some y => exact .inl (Option.isSome_iff_exists.1 (by simp only [work, hw, hgot, Option.map_some]; rfl))
  | again | checkClose => exact .inl (Option.isSome_iff_exists.1 (by simp only [work, hw]; rfl))
  | enqueueInfer b =>
    obtain ⟨size, hf⟩ := hk.worked.filled b hw
    obtain ⟨x, hx, -⟩ := hf.members
    have hacc := ThreadPool.enqueue_of_running (hopen .infer).1 (hopen .infer).2 b
    exact .inl (Option.isSome_iff_exists.1 (by simp only [work, hw, hx, hacc]; rfl))
  | fill b size i =>
    have hf := hk.worked.fill b size i hw
    obtain ⟨x, hx, -⟩ := hf.members
    by_cases hi : i < size
    · have hacc := ThreadPool.enqueue_of_running (hopen .pre).1 (hopen .pre).2 (b, i)
      have hlen := hk.lined.length_eq
      have henough := hf.enough
      rcases hin : s.inputs with _ | ⟨img, inputs⟩
      · simp [hin] at hlen
        omega
      · rcases hpr : s.promises with _ | ⟨p, promises⟩
        · simp [hin, hpr] at hlen
        · exact .inl (Option.isSome_iff_exists.1 (by simp only [work, hw, if_pos hi, hx, hin, hpr, hacc]; rfl))
    · exact .inl (Option.isSome_iff_exists.1 (by simp only [work, hw, if_neg hi]; rfl))

end Progress

end OnnxInference.BatchScheduler
