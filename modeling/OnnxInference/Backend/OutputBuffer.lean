import OnnxInference.BufferPool
import OnnxInference.Transition

/-!
# The output buffers (`OrtSessionWrapper::infer` with its `call_back`, CUDA build)

`infer` acquires a buffer of `gpu_output_buffer_`, and the tensor of the `ModelOutput` it returns gives it back in
its destructor, through a `call_back`.  `TensorBuffer` declares a destructor and so has no move operations: every
assignment, initialization and `std::move` of one is a copy, with the call back.  A request is followed through
`infer`, `postprocess`, which copies the tensor of the `ModelOutput` into a local, and the destruction of the
`ModelOutput`; any number of requests run together.
-/

namespace OnnxInference.OutputBuffer

open Transition

/-- The members of a `TensorBuffer` that matter here: `data` and the buffer the call back releases. -/
structure Tensor where
  data : Option Ptr
  callBack : Option Ptr
  deriving DecidableEq

/-- Where a request is between the start of its `infer` and the end of its `ModelOutput`. -/
inductive Pc
  | start
  | acquired
  | ran
  | wrapped
  | assigned
  | unwrapped
  | output
  | posting
  | posted
  | gone
  | failed
  deriving DecidableEq

/-- The objects of a request. -/
structure Call where
  pc : Pc
  /-- the local `output_buffer_ptr` of `infer` -/
  outputBufferPtr : Option Ptr
  /-- the temporary that `TensorBuffer::wrap` returns -/
  temp : Option Tensor
  /-- the element of `result.tensors`; moving a `ModelOutput` moves the node of the map and copies no tensor -/
  element : Option Tensor
  /-- the local `tensor_buf` of `postprocess` -/
  tensorBuf : Option Tensor

structure State where
  pool : InferTensorBufferPool
  call : Nat → Call

inductive Label
  /-- the next step of `infer`; `session_->Run` throws if `fails` -/
  | infer (r : Nat) (fails : Bool)
  /-- `postprocess` is entered -/
  | post (r : Nat)
  /-- `NAFNet::postprocess` points its local to CPU memory -/
  | rebind (r : Nat)
  /-- `postprocess` returns or throws -/
  | endPost (r : Nat)
  /-- the `ModelOutput` is destroyed, after `postprocess` or without it -/
  | drop (r : Nat)

def init (bufferSize : Nat) : State where
  pool := .create (bufferSize * 2)
  call _ := ⟨.start, none, none, none, none⟩

def State.setCall (s : State) (r : Nat) (c : Call) : State := { s with call := Function.update s.call r c }

/-- `~TensorBuffer`. -/
def Tensor.destroy (t : Tensor) (pool : InferTensorBufferPool) : Option InferTensorBufferPool :=
  match t.callBack with
  | none => some pool
  | some p => (pool.release p).toOption

def infer (s : State) (r : Nat) (fails : Bool) : Option State :=
  let c := s.call r
  match c.pc with
  | .start =>
    s.pool.acquire.map fun x =>
      { s.setCall r { c with pc := .acquired, outputBufferPtr := some x.1 } with pool := x.2 }
  | .acquired => some (s.setCall r { c with pc := if fails then .failed else .ran })
  -- `result.tensors[output_names_[0]]` makes an empty element
  | .ran =>
    some (s.setCall r { c with
      pc := .wrapped, temp := some ⟨c.outputBufferPtr, none⟩, element := some ⟨none, none⟩ })
  | .wrapped => some (s.setCall r { c with pc := .assigned, element := c.temp })
  | .assigned =>
    c.temp.bind fun t => (t.destroy s.pool).map fun pool =>
      { s.setCall r { c with pc := .unwrapped, temp := none } with pool := pool }
  | .unwrapped =>
    c.element.map fun e =>
      s.setCall r { c with pc := .output, element := some { e with callBack := c.outputBufferPtr } }
  | _ => none

def step (s : State) : Label → Option State
  | .infer r fails => infer s r fails
  | .post r =>
    let c := s.call r
    if c.pc = .output then some (s.setCall r { c with pc := .posting, tensorBuf := c.element }) else none
  | .rebind r =>
    let c := s.call r
    if c.pc = .posting then
      c.tensorBuf.map fun t => s.setCall r { c with tensorBuf := some { t with data := none } }
    else none
  | .endPost r =>
    let c := s.call r
    if c.pc = .posting then
      c.tensorBuf.bind fun t => (t.destroy s.pool).map fun pool =>
        { s.setCall r { c with pc := .posted, tensorBuf := none } with pool := pool }
    else none
  | .drop r =>
    let c := s.call r
    if c.pc = .output ∨ c.pc = .posted then
      c.element.bind fun e => (e.destroy s.pool).map fun pool =>
        { s.setCall r { c with pc := .gone, element := none } with pool := pool }
    else none

def system (bufferSize : Nat) : System State Label := ⟨init bufferSize, step⟩

/-- What exclusive use of the output buffers means: no buffer is twice in the free list, none is free while a live
`ModelOutput` points to it, and no two live `ModelOutput`s point to one. -/
structure Exclusive (s : State) : Prop where
  nodup : s.pool.buffer.Nodup
  not_free : ∀ r e p, (s.call r).element = some e → e.data = some p → p ∉ s.pool.buffer
  distinct : ∀ r r' e e' p, (s.call r).element = some e → (s.call r').element = some e' → e.data = some p →
    e'.data = some p → r = r'
  available_le : s.pool.available ≤ s.pool.capacity

/-! ### Ownership -/

/-- The buffer a request has acquired and not given back. -/
def Call.owner (c : Call) : Option Ptr := if c.pc = .start ∨ c.pc = .gone then none else c.outputBufferPtr

/-- What the objects of a request are at each point: all that point to a buffer point to the one it has acquired. -/
def Call.Shaped (c : Call) : Prop :=
  match c.pc with
  | .start | .gone => c.element = none
  | .acquired | .ran | .failed => c.element = none ∧ c.outputBufferPtr.isSome
  | .wrapped => c.temp = some ⟨c.outputBufferPtr, none⟩ ∧ c.element = some ⟨none, none⟩ ∧ c.outputBufferPtr.isSome
  | .assigned =>
    c.temp = some ⟨c.outputBufferPtr, none⟩ ∧ c.element = some ⟨c.outputBufferPtr, none⟩ ∧ c.outputBufferPtr.isSome
  | .unwrapped => c.element = some ⟨c.outputBufferPtr, none⟩ ∧ c.outputBufferPtr.isSome
  | .output | .posted => c.element = some ⟨c.outputBufferPtr, c.outputBufferPtr⟩ ∧ c.outputBufferPtr.isSome
  | .posting => c.element = some ⟨c.outputBufferPtr, c.outputBufferPtr⟩ ∧ c.outputBufferPtr.isSome ∧
      ∃ t, c.tensorBuf = some t ∧ t.callBack = c.outputBufferPtr

theorem Call.Shaped.owner_of_element {c : Call} (h : c.Shaped) {e : Tensor} {p : Ptr} (he : c.element = some e)
    (hp : e.data = some p) : c.owner = some p := by
  unfold Shaped at h
  unfold owner
  cases hpc : c.pc <;> simp_all

/-- Every buffer is free, once, or owned by one request. -/
structure Inv (s : State) : Prop where
  nodup : s.pool.buffer.Nodup
  lt : ∀ p ∈ s.pool.buffer, p < s.pool.capacity
  owned : ∀ r p, (s.call r).owner = some p → p < s.pool.capacity ∧ p ∉ s.pool.buffer
  distinct : ∀ r r' p, (s.call r).owner = some p → (s.call r').owner = some p → r = r'
  shaped : ∀ r, (s.call r).Shaped

theorem Inv.exclusive {s : State} (h : Inv s) : Exclusive s := by
  refine ⟨h.nodup, ?_, ?_, ?_⟩
  · intro r e p he hp
    exact (h.owned r p ((h.shaped r).owner_of_element he hp)).2
  · intro r r' e e' p he he' hp hp'
    exact h.distinct r r' p ((h.shaped r).owner_of_element he hp) ((h.shaped r').owner_of_element he' hp')
  · have hsub : s.pool.buffer ⊆ List.range s.pool.capacity := fun p hp => List.mem_range.2 (h.lt p hp)
    have := (List.subperm_of_subset h.nodup hsub).length_le
    rwa [List.length_range] at this

/-! ### The steps -/

/-- A step of one request that neither acquires nor releases. -/
private theorem Inv.quiet {s : State} (h : Inv s) {r₀ : Nat} {c : Call} (ho : c.owner = (s.call r₀).owner)
    (hc : c.Shaped) : Inv (s.setCall r₀ c) := by
  have owner : ∀ r, ((s.setCall r₀ c).call r).owner = (s.call r).owner := by
    intro r
    simp only [State.setCall, Function.update_apply]
    split
    · subst_vars; exact ho
    · rfl
  refine ⟨h.nodup, h.lt, ?_, ?_, ?_⟩
  · intro r p hr
    exact h.owned r p (owner r ▸ hr)
  · intro r r' p hr hr'
    exact h.distinct r r' p (owner r ▸ hr) (owner r' ▸ hr')
  · intro r
    simp only [State.setCall, Function.update_apply]
    split
    · exact hc
    · exact h.shaped r

private theorem Inv.acquire {s : State} (h : Inv s) {r₀ : Nat} {c : Call} {p : Ptr} {pool : InferTensorBufferPool}
    (hp : s.pool.acquire = some (p, pool)) (ho : c.owner = some p) (hc : c.Shaped) :
    Inv { s.setCall r₀ c with pool := pool } := by
  obtain ⟨hb, hcap⟩ := InferTensorBufferPool.acquire_some hp
  have hnd := h.nodup
  rw [hb, List.nodup_cons] at hnd
  have free : ∀ q, q ∈ pool.buffer → q ∈ s.pool.buffer := fun q hq => hb ▸ List.mem_cons_of_mem p hq
  have hpfree : p ∈ s.pool.buffer := hb ▸ List.mem_cons_self
  refine ⟨hnd.2, fun q hq => hcap ▸ h.lt q (free q hq), ?_, ?_, ?_⟩
  · intro r q hr
    simp only [State.setCall, Function.update_apply] at hr
    split at hr
    · rw [ho, Option.some.injEq] at hr
      subst hr
      exact ⟨hcap ▸ h.lt p hpfree, hnd.1⟩
    · obtain ⟨h1, h2⟩ := h.owned r q hr
      exact ⟨hcap ▸ h1, fun hq => h2 (free q hq)⟩
  · -- the other owners own buffers that were not free
    intro r r' q hr hr'
    simp only [State.setCall, Function.update_apply] at hr hr'
    split at hr <;> split at hr'
    · subst_vars; rfl
    · rw [ho, Option.some.injEq] at hr
      exact absurd (hr ▸ hpfree) (h.owned r' q hr').2
    · rw [ho, Option.some.injEq] at hr'
      exact absurd (hr' ▸ hpfree) (h.owned r q hr).2
    · exact h.distinct r r' q hr hr'
  · intro r
    simp only [State.setCall, Function.update_apply]
    split
    · exact hc
    · exact h.shaped r

private theorem Inv.release {s : State} (h : Inv s) {r₀ : Nat} {c : Call} {p : Ptr} {pool : InferTensorBufferPool}
    (hr₀ : (s.call r₀).owner = some p) (hp : s.pool.release p = .ok pool) (ho : c.owner = none) (hc : c.Shaped) :
    Inv { s.setCall r₀ c with pool := pool } := by
  obtain ⟨hlt, hnot⟩ := h.owned r₀ p hr₀
  rw [InferTensorBufferPool.release_of_lt hlt] at hp
  cases hp
  have hother : ∀ r q, ((s.setCall r₀ c).call r).owner = some q → r ≠ r₀ ∧ (s.call r).owner = some q := by
    intro r q hr
    simp only [State.setCall, Function.update_apply] at hr
    split at hr
    · rw [ho] at hr; cases hr
    · exact ⟨‹_›, hr⟩
  refine ⟨?_, ?_, ?_, ?_, ?_⟩
  · rw [List.nodup_append]
    refine ⟨h.nodup, List.pairwise_singleton _ p, ?_⟩
    intro a ha b hb hab
    rw [List.mem_singleton] at hb
    exact hnot (hb ▸ hab ▸ ha)
  · intro q hq
    rcases List.mem_append.1 hq with hq | hq
    · exact h.lt q hq
    · rw [List.mem_singleton] at hq
      exact hq ▸ hlt
  · intro r q hr
    obtain ⟨hne, hr⟩ := hother r q hr
    obtain ⟨h1, h2⟩ := h.owned r q hr
    refine ⟨h1, fun hq => ?_⟩
    rcases List.mem_append.1 hq with hq | hq
    · exact h2 hq
    · rw [List.mem_singleton] at hq
      exact hne (h.distinct r r₀ q hr (hq ▸ hr₀))
  · intro r r' q hr hr'
    exact h.distinct r r' q (hother r q hr).2 (hother r' q hr').2
  · intro r
    simp only [State.setCall, Function.update_apply]
    split
    · exact hc
    · exact h.shaped r

private theorem Inv.infer {s s' : State} (h : Inv s) {r : Nat} {fails : Bool} (hs : infer s r fails = some s') :
    Inv s' := by
  have hr := h.shaped r
  unfold Call.Shaped at hr
  cases hpc : (s.call r).pc <;> simp only [hpc] at hr <;> simp only [OutputBuffer.infer, hpc] at hs
  case start =>
    rw [Option.map_eq_some_iff] at hs
    obtain ⟨⟨p, pool⟩, hp, rfl⟩ := hs
    exact h.acquire hp (by simp [Call.owner]) (by simp [Call.Shaped, hr])
  case acquired =>
    cases hs
    cases fails <;> exact h.quiet (by simp [Call.owner, hpc]) (by simp [Call.Shaped, hr])
  case ran | wrapped =>
    cases hs
    exact h.quiet (by simp [Call.owner, hpc]) (by simp [Call.Shaped, hr])
  case assigned =>
    simp only [hr.1, Option.bind_some, Tensor.destroy, Option.map_some, Option.some.injEq] at hs
    subst hs
    exact h.quiet (by simp [Call.owner, hpc]) (by simp [Call.Shaped, hr])
  case unwrapped =>
    simp only [hr.1, Option.map_some, Option.some.injEq] at hs
    subst hs
    exact h.quiet (by simp [Call.owner, hpc]) (by simp [Call.Shaped, hr])
  all_goals cases hs

/-- Every step but the end of a `postprocess` keeps the buffers owned once. -/
theorem Inv.step {s s' : State} {l : Label} (h : Inv s) (hl : ∀ r, l ≠ .endPost r) (hs : step s l = some s') :
    Inv s' := by
  cases l with
  | infer r fails => exact h.infer hs
  | endPost r => exact absurd rfl (hl r)
  | post r =>
    have hr := h.shaped r
    simp only [OutputBuffer.step] at hs
    split at hs
    · rename_i hpc
      cases hs
      simp only [Call.Shaped, hpc] at hr
      exact h.quiet (by simp [Call.owner, hpc]) (by simp [Call.Shaped, hr])
    · cases hs
  | rebind r =>
    have hr := h.shaped r
    simp only [OutputBuffer.step] at hs
    split at hs
    · rename_i hpc
      simp only [Call.Shaped, hpc] at hr
      obtain ⟨h1, h2, t, h3, h4⟩ := hr
      simp only [h3, Option.map_some, Option.some.injEq] at hs
      subst hs
      exact h.quiet (by simp [Call.owner, hpc]) (by simp [Call.Shaped, hpc, h1, h2, h4])
    · cases hs
  | drop r =>
    have hr := h.shaped r
    simp only [OutputBuffer.step] at hs
    split at hs
    · rename_i hpc
      have hout : (s.call r).element = some ⟨(s.call r).outputBufferPtr, (s.call r).outputBufferPtr⟩ ∧
          (s.call r).outputBufferPtr.isSome := by
        rcases hpc with hpc | hpc <;> simpa only [Call.Shaped, hpc] using hr
      obtain ⟨he, hsome⟩ := hout
      obtain ⟨p, hp⟩ := Option.isSome_iff_exists.1 hsome
      have howner : (s.call r).owner = some p := by
        rcases hpc with hpc | hpc <;> simp [Call.owner, hpc, hp]
      obtain ⟨hlt, -⟩ := h.owned r p howner
      have hrel := InferTensorBufferPool.release_of_lt hlt
      simp only [he, hp, Option.bind_some, Tensor.destroy, hrel, Except.toOption, Option.map_some,
        Option.some.injEq] at hs
      subst hs
      exact h.release howner hrel (by simp [Call.owner]) (by simp [Call.Shaped])
    · cases hs

/-- The end of a `postprocess` releases a buffer that its `ModelOutput` still points to. -/
theorem Inv.endPost {s s' : State} {r : Nat} (h : Inv s) (hs : OutputBuffer.step s (.endPost r) = some s') :
    ¬Exclusive s' := by
  have hr := h.shaped r
  simp only [OutputBuffer.step] at hs
  split at hs
  · rename_i hpc
    simp only [Call.Shaped, hpc] at hr
    obtain ⟨he, hsome, t, ht, hcb⟩ := hr
    obtain ⟨p, hp⟩ := Option.isSome_iff_exists.1 hsome
    obtain ⟨hlt, -⟩ := h.owned r p (by simp [Call.owner, hpc, hp])
    simp only [ht, Option.bind_some, Tensor.destroy, hcb, hp, InferTensorBufferPool.release_of_lt hlt,
      Except.toOption, Option.map_some, Option.some.injEq] at hs
    subst hs
    intro hx
    refine hx.not_free r ⟨some p, some p⟩ p ?_ rfl (by simp)
    simp [State.setCall, he, hp]
  · cases hs

theorem reachable_inv {n : Nat} {s : State} (h : (system n).ReachBy (fun _ l => ∀ r, l ≠ .endPost r) s) : Inv s := by
  refine h.invariant ?_ fun hi hl hs => hi.step hl hs
  refine ⟨List.nodup_range, fun p hp => List.mem_range.1 hp, ?_, ?_, fun r => rfl⟩
  · intro r p hr
    cases hr
  · intro r r' p hr
    cases hr

/-- Until the first `postprocess` ends, whether it returns or throws, the output buffers are used exclusively; at that
step they are not any more. -/
theorem exclusive_iff (n : Nat) {s : State} (h : (system n).ReachBy (fun _ l => ∀ r, l ≠ .endPost r) s) :
    Exclusive s ∧ ∀ l s', step s l = some s' → (Exclusive s' ↔ ∀ r, l ≠ .endPost r) := by
  have hi := reachable_inv h
  refine ⟨hi.exclusive, fun l s' hs => ⟨?_, fun hl => (hi.step hl hs).exclusive⟩⟩
  rintro hx r rfl
  exact hi.endPost hs hx

/-! ### One request -/

/-- `infer`, `postprocess` and the destruction of the `ModelOutput`. -/
def oneCall : List Label := List.replicate 6 (.infer 0 false) ++ [.post 0, .endPost 0, .drop 0]

theorem exclusive_iff_oneCall : ∃ s, (system 1).ReachBy (fun _ l => ∀ r, l ≠ .endPost r) s ∧
    (s.call 0).pc = .posting ∧
    (Exclusive s ∧ ∀ l s', step s l = some s' → (Exclusive s' ↔ ∀ r, l ≠ .endPost r)) := by
  obtain ⟨s, hs, hp⟩ := System.exists_reachable_of_run
    ((system 1).restrict fun _ l => match l with | .endPost _ => false | _ => true) (oneCall.take 7)
    (fun s => (s.call 0).pc == .posting) (by decide)
  have hG := hs.of_restrict (G := fun _ l => ∀ r, l ≠ .endPost r) fun s l _ hl r he => by
    subst he
    cases hl
  exact ⟨s, hG, by simpa using hp, exclusive_iff 1 hG⟩

/-- After one request the pool of two buffers has three free ones, one of them twice. -/
theorem oneCall_not_exclusive : ¬∀ s, (system 1).Reachable s → Exclusive s := by
  intro h
  obtain ⟨s, hs, hp⟩ := System.exists_reachable_of_run (system 1) oneCall
    (fun s => decide (s.pool.capacity < s.pool.available)) (by decide)
  have := (h s hs).available_le
  simp only [decide_eq_true_eq] at hp
  omega

end OnnxInference.OutputBuffer
