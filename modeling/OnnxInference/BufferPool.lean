import OnnxInference.Tensor

/-!
# Buffer pools (`include/device/InferTensorBufferPool.h`, `include/BufferPool.h`)

The elements of a pool of `n` buffers are the pointers `0, …, n - 1`.  `Acquire` takes the front of the queue and
waits while it is empty; `Release` checks that the pointer is one of the pool's, but not whether it is free already.
A `BufferPool` has the same queue, and its buffers come back when the last copy of a shared pointer is destroyed.
-/

namespace OnnxInference

/-- The queue of a pool and its capacity; pools are closed by their destructor only. -/
structure InferTensorBufferPool where
  capacity : Nat
  buffer : List Ptr

namespace InferTensorBufferPool

def create (eleSize : Nat) : InferTensorBufferPool := ⟨eleSize, List.range eleSize⟩

def available (pool : InferTensorBufferPool) : Nat := pool.buffer.length

def owns (pool : InferTensorBufferPool) (p : Ptr) : Bool := p < pool.capacity

/-- `none` while the caller waits. -/
def acquire (pool : InferTensorBufferPool) : Option (Ptr × InferTensorBufferPool) :=
  match pool.buffer with
  | [] => none
  | p :: rest => some (p, { pool with buffer := rest })

def release (pool : InferTensorBufferPool) (p : Ptr) : Except Error InferTensorBufferPool :=
  if pool.owns p then .ok { pool with buffer := pool.buffer ++ [p] }
  else .error (.runtimeError "Release not owned py this poll!")

theorem acquire_some {pool pool' : InferTensorBufferPool} {p : Ptr} (h : pool.acquire = some (p, pool')) :
    pool.buffer = p :: pool'.buffer ∧ pool'.capacity = pool.capacity := by
  unfold acquire at h
  split at h
  · cases h
  · rename_i hb
    cases h
    exact ⟨hb, rfl⟩

theorem acquire_of_ne_nil {pool : InferTensorBufferPool} (h : pool.buffer ≠ []) :
    ∃ x, pool.acquire = some x := by
  unfold acquire
  split
  · exact absurd ‹_› h
  · exact ⟨_, rfl⟩

theorem release_of_lt {pool : InferTensorBufferPool} {p : Ptr} (h : p < pool.capacity) :
    pool.release p = .ok { pool with buffer := pool.buffer ++ [p] } := by
  simp [release, owns, h]

theorem buffer_of_acquire {pool pool' : InferTensorBufferPool} {p : Ptr} (h : pool.acquire = some (p, pool')) :
    (pool.buffer : Multiset Ptr) = pool'.buffer + {p} := by
  rw [(acquire_some h).1, ← Multiset.cons_coe, ← Multiset.singleton_add, add_comm]

theorem buffer_of_release {pool pool' : InferTensorBufferPool} {p : Ptr} (h : pool.release p = .ok pool') :
    (pool'.buffer : Multiset Ptr) = pool.buffer + {p} := by
  unfold release at h
  split at h <;> cases h
  rfl

/-- A pool of `n` buffers whose free ones are its own. -/
structure Of (n : Nat) (pool : InferTensorBufferPool) : Prop where
  capacity_eq : pool.capacity = n
  lt : ∀ p ∈ pool.buffer, p < n

theorem Of.create (n : Nat) : (create n).Of n := ⟨rfl, fun _ hp => List.mem_range.1 hp⟩

theorem Of.acquire {n : Nat} {pool pool' : InferTensorBufferPool} {p : Ptr} (h : pool.Of n)
    (hp : pool.acquire = some (p, pool')) : p < n ∧ pool'.Of n := by
  obtain ⟨hb, hcap⟩ := acquire_some hp
  refine ⟨h.lt p (hb ▸ List.mem_cons_self), hcap.trans h.capacity_eq, fun q hq => ?_⟩
  exact h.lt q (hb ▸ List.mem_cons_of_mem p hq)

theorem Of.release_eq {n : Nat} {pool : InferTensorBufferPool} {p : Ptr} (h : pool.Of n) (hp : p < n) :
    pool.release p = .ok { pool with buffer := pool.buffer ++ [p] } :=
  release_of_lt (h.capacity_eq.symm ▸ hp)

theorem Of.release {n : Nat} {pool pool' : InferTensorBufferPool} {p : Ptr} (h : pool.Of n)
    (hrel : pool.release p = .ok pool') : pool'.Of n := by
  unfold InferTensorBufferPool.release at hrel
  split at hrel
  · rename_i howns
    cases hrel
    refine ⟨h.capacity_eq, fun q hq => ?_⟩
    rcases List.mem_append.1 hq with hq | hq
    · exact h.lt q hq
    · rw [List.mem_singleton] at hq
      simpa [owns, h.capacity_eq, hq] using howns
  · cases hrel

end InferTensorBufferPool

/-- The queue `que_`; a pool is closed by its destructor only. -/
structure BufferPool where
  que : List Ptr

namespace BufferPool

def create (bufferSize : Nat) : BufferPool := ⟨List.range bufferSize⟩

/-- `none` while the caller waits. -/
def acquire (pool : BufferPool) : Option (Ptr × BufferPool) :=
  match pool.que with
  | [] => none
  | p :: rest => some (p, ⟨rest⟩)

/-- `buffer_pool_deleter`. -/
def delete (pool : BufferPool) (p : Ptr) : BufferPool := ⟨pool.que ++ [p]⟩

theorem acquire_some {pool pool' : BufferPool} {p : Ptr} (h : pool.acquire = some (p, pool')) :
    pool.que = p :: pool'.que := by
  unfold acquire at h
  split at h
  · cases h
  · rename_i hq
    cases h
    exact hq

theorem acquire_of_ne_nil {pool : BufferPool} (h : pool.que ≠ []) : ∃ x, pool.acquire = some x := by
  unfold acquire
  split
  · exact absurd ‹_› h
  · exact ⟨_, rfl⟩

theorem que_of_acquire {pool pool' : BufferPool} {p : Ptr} (h : pool.acquire = some (p, pool')) :
    (pool.que : Multiset Ptr) = pool'.que + {p} := by
  rw [acquire_some h, ← Multiset.cons_coe, ← Multiset.singleton_add, add_comm]

theorem que_delete (pool : BufferPool) (p : Ptr) : ((pool.delete p).que : Multiset Ptr) = pool.que + {p} := rfl

end BufferPool

end OnnxInference
