import OnnxInference.Backend.CudaPools
import OnnxInference.Runner.YoloStaging

/-!
# The streams of YOLO (`src/runner/detect/YoloDetector.cpp`, CUDA build)

The constructor goes through the staging pool by acquiring and releasing, and gives the element of each round a
stream. There are `batch` rounds, and `max(batch, buffer_size)` elements: with `buffer_size` above `batch` some
elements stay without a stream, and `cuStreams_[img_buffer]` inserts the default stream for them (`streams_iff`).
-/

namespace OnnxInference

open Concurrency Transition

namespace StreamMap

/-- `streams[p].reset(stream)`. -/
def reset (streams : StreamMap) (p : Ptr) (stream : Nat) : StreamMap := Function.update streams p (some (some stream))

/-- The pointers of a list are given the streams from `created` on. -/
def resetAll : List Ptr → StreamMap → Nat → StreamMap
  | [], streams, _ => streams
  | p :: ps, streams, created => resetAll ps (streams.reset p created) (created + 1)

theorem resetAll_range' (streams : StreamMap) (a n created p : Nat) :
    resetAll (List.range' a n) streams created p =
      if a ≤ p ∧ p < a + n then some (some (created + (p - a))) else streams p := by
  induction n generalizing streams a created with
  | zero => rw [List.range'_zero, resetAll, if_neg (by omega)]
  | succ n ih =>
    rw [List.range'_succ, resetAll, ih]
    by_cases hp : p = a
    · subst hp
      rw [if_neg (by omega), if_pos (by omega), reset, Function.update_self, Nat.sub_self, Nat.add_zero]
    · rw [reset, Function.update_of_ne hp]
      by_cases hlt : a ≤ p ∧ p < a + (n + 1)
      · rw [if_pos (by omega), if_pos hlt, show created + 1 + (p - (a + 1)) = created + (p - a) by omega]
      · rw [if_neg (by omega), if_neg hlt]

theorem resetAll_range (n created p : Nat) :
    resetAll (List.range n) (fun _ => none) created p = if p < n then some (some (created + p)) else none := by
  rw [List.range_eq_range', resetAll_range', Nat.zero_add, Nat.sub_zero]
  simp only [Nat.zero_le, true_and]

/-- Every free element of a pool is a key, and has a stream of its own among the `created` ones. -/
structure Own (streams : StreamMap) (pool : InferTensorBufferPool) (created : Nat) : Prop where
  key : ∀ p ∈ pool.buffer, ∃ stream < created, streams p = some (some stream)
  inj : ∀ p ∈ pool.buffer, ∀ q ∈ pool.buffer, streams p = streams q → p = q

/-- The streams from `base` on, in the order of the elements, are streams of their own. -/
theorem own_of_range {pool : InferTensorBufferPool} {n base created : Nat} (hpool : pool.buffer = List.range n)
    (hle : base + n ≤ created) : Own (fun p => if p < n then some (some (base + p)) else none) pool created := by
  have hlt : ∀ p ∈ pool.buffer, p < n := fun p hp => List.mem_range.1 (hpool ▸ hp)
  refine ⟨fun p hp => ⟨base + p, ?_, if_pos (hlt p hp)⟩, fun p hp q hq heq => ?_⟩
  · exact Nat.lt_of_lt_of_le (Nat.add_lt_add_left (hlt p hp) base) hle
  · rw [if_pos (hlt p hp), if_pos (hlt q hq), Option.some.injEq, Option.some.injEq] at heq
    exact Nat.add_left_cancel heq

end StreamMap

namespace YoloCuda

/-! ### The constructor -/

/-- The pools and the streams of a detector, and the number of streams created. -/
structure Streams where
  pool : InferTensorBufferPool
  cuStreams : StreamMap
  dFilteredBuffers : InferTensorBufferPool
  dCountPtrs : InferTensorBufferPool
  cpuBufferPool : BufferPool
  filterStreams : StreamMap
  created : Nat

/-- The rounds of the first loop; `none` if `Acquire` waits or `Release` throws. -/
def cuStreamLoop : Nat → InferTensorBufferPool → StreamMap → Nat → Option (InferTensorBufferPool × StreamMap × Nat)
  | 0, pool, cuStreams, created => some (pool, cuStreams, created)
  | i + 1, pool, cuStreams, created => do
    let (data, pool) ← pool.acquire
    let cuStreams := cuStreams.reset data created
    let pool ← (pool.release data).toOption
    cuStreamLoop i pool cuStreams (created + 1)

/-- The rounds of the second loop; the shared pointer to the buffer of the host is dropped at the end of each. -/
def filterLoop : Nat → Streams → Option Streams
  | 0, s => some s
  | i + 1, s => do
    let (dFilteredBuffer, dFilteredBuffers) ← s.dFilteredBuffers.acquire
    let (dCountPtr, dCountPtrs) ← s.dCountPtrs.acquire
    let (cpuBuffer, cpuBufferPool) ← s.cpuBufferPool.acquire
    let filterStreams := s.filterStreams.reset dFilteredBuffer s.created
    let dFilteredBuffers ← (dFilteredBuffers.release dFilteredBuffer).toOption
    let dCountPtrs ← (dCountPtrs.release dCountPtr).toOption
    filterLoop i { s with
      dFilteredBuffers := dFilteredBuffers
      dCountPtrs := dCountPtrs
      cpuBufferPool := cpuBufferPool.delete cpuBuffer
      filterStreams := filterStreams
      created := s.created + 1 }

/-- The part of the constructor that makes the pools and the streams, when the allocations succeed. -/
def construct (batch bufSize : Nat) : Option Streams := do
  let cuStreamSize := max batch bufSize
  -- a pool without elements throws
  guard (0 < cuStreamSize ∧ 0 < bufSize)
  let (pool, cuStreams, created) ← cuStreamLoop batch (.create cuStreamSize) (fun _ => none) 0
  filterLoop bufSize ⟨pool, cuStreams, .create bufSize, .create bufSize, .create bufSize, fun _ => none, created⟩

/-- As many rounds as there are elements in front give each of these a stream, and put them behind the others. -/
theorem cuStreamLoop_append {n : Nat} {front : List Ptr} (h : ∀ p ∈ front, p < n) (rest : List Ptr)
    (cuStreams : StreamMap) (created : Nat) :
    cuStreamLoop front.length ⟨n, front ++ rest⟩ cuStreams created =
      some (⟨n, rest ++ front⟩, StreamMap.resetAll front cuStreams created,
        created + front.length) := by
  induction front generalizing rest cuStreams created with
  | nil =>
    rw [List.nil_append, List.append_nil]
    rfl
  | cons p front ih =>
    have hlt : p < n := h p List.mem_cons_self
    have hnext := ih (fun q hq => h q (List.mem_cons_of_mem p hq)) (rest ++ [p]) (cuStreams.reset p created)
      (created + 1)
    simp only [List.length_cons, cuStreamLoop, InferTensorBufferPool.acquire, InferTensorBufferPool.release,
      InferTensorBufferPool.owns, List.cons_append, Option.bind_eq_bind, Option.bind_some, hlt, decide_true, if_true,
      Except.toOption, List.append_assoc, hnext, StreamMap.resetAll, List.nil_append, Nat.add_assoc, Nat.add_comm 1]

/-- The same for the three pools of `postprocess`. -/
theorem filterLoop_append {n : Nat} {front : List Ptr} (h : ∀ p ∈ front, p < n) (rest : List Ptr)
    (pool : InferTensorBufferPool) (cuStreams filterStreams : StreamMap) (created : Nat) :
    filterLoop front.length
        ⟨pool, cuStreams, ⟨n, front ++ rest⟩, ⟨n, front ++ rest⟩, ⟨front ++ rest⟩, filterStreams, created⟩ =
      some ⟨pool, cuStreams, ⟨n, rest ++ front⟩, ⟨n, rest ++ front⟩, ⟨rest ++ front⟩,
        StreamMap.resetAll front filterStreams created, created + front.length⟩ := by
  induction front generalizing rest filterStreams created with
  | nil =>
    rw [List.nil_append, List.append_nil]
    rfl
  | cons p front ih =>
    have hlt : p < n := h p List.mem_cons_self
    have hnext := ih (fun q hq => h q (List.mem_cons_of_mem p hq)) (rest ++ [p]) (filterStreams.reset p created)
      (created + 1)
    simp only [List.length_cons, filterLoop, InferTensorBufferPool.acquire, InferTensorBufferPool.release,
      InferTensorBufferPool.owns, BufferPool.acquire, BufferPool.delete, List.cons_append, Option.bind_eq_bind,
      Option.bind_some, hlt, decide_true, if_true, Except.toOption, List.append_assoc, hnext, StreamMap.resetAll,
      List.nil_append, Nat.add_assoc, Nat.add_comm 1]

/-- What the constructor makes: the elements of the staging pool with a number from `batch` on get no stream. -/
theorem construct_eq (batch : Nat) {bufSize : Nat} (hbuf : 1 ≤ bufSize) :
    construct batch bufSize = some {
      pool := ⟨max batch bufSize, List.range' batch (bufSize - batch) ++ List.range batch⟩
      cuStreams := fun p => if p < batch then some (some p) else none
      dFilteredBuffers := .create bufSize
      dCountPtrs := .create bufSize
      cpuBufferPool := .create bufSize
      filterStreams := fun p => if p < bufSize then some (some (batch + p)) else none
      created := batch + bufSize } := by
  have hsplit : List.range (max batch bufSize) = List.range batch ++ List.range' batch (bufSize - batch) := by
    rw [show max batch bufSize = batch + (bufSize - batch) by omega, List.range_eq_range', List.range_eq_range',
      ← List.range'_append_1, Nat.zero_add]
  have hfront : ∀ p ∈ List.range batch, p < max batch bufSize :=
    fun p hp => Nat.lt_of_lt_of_le (List.mem_range.1 hp) (Nat.le_max_left _ _)
  have hfirst := cuStreamLoop_append hfront (List.range' batch (bufSize - batch)) (fun _ => none) 0
  rw [← hsplit, ← InferTensorBufferPool.create] at hfirst
  have hbuffers : ∀ p ∈ List.range bufSize, p < bufSize := fun p hp => List.mem_range.1 hp
  have hsecond := filterLoop_append hbuffers []
    ⟨max batch bufSize, List.range' batch (bufSize - batch) ++ List.range batch⟩
    (StreamMap.resetAll (List.range batch) (fun _ => none) 0) (fun _ => none) batch
  rw [List.length_range] at hfirst hsecond
  rw [List.append_nil, List.nil_append] at hsecond
  simp only [construct, guard, if_pos (show 0 < max batch bufSize ∧ 0 < bufSize by omega), hfirst, Option.pure_def,
    Option.bind_eq_bind, Option.bind_some, Nat.zero_add]
  refine hsecond.trans ?_
  simp only [Option.some.injEq, Streams.mk.injEq, funext_iff, StreamMap.resetAll_range, Nat.zero_add,
    InferTensorBufferPool.create, BufferPool.create, true_and, implies_true]

/-! ### Later runs -/

/-- No access has changed the map, and the calls that hold a staging element find or have found streams of their own,
none of them the default one: a call keeps a reference into the map. -/
structure StreamsApart {net : Net} (cuStreams : StreamMap)
    (s : Calls (Gpu net) (PreAt net) (Option (TensorBuffer net.batch)) Error) : Prop where
  map_eq : s.shared.streams = cuStreams
  not_default : ∀ (k : Nat) l p, s.calls[k]? = some (.inl l) → l.staged = some p →
    ∃ stream, s.shared.streams p = some (some stream)
  apart : ∀ (j k : Nat) l l' p q, j ≠ k → s.calls[j]? = some (.inl l) → s.calls[k]? = some (.inl l') →
    l.staged = some p → l'.staged = some q → s.shared.streams p ≠ s.shared.streams q

/-- The constructor returns with every element of the pools free and with a stream of its own for each staging element
and for each element of `d_filtered_buffers_`, and in all later runs the calls of `preprocess` are on streams of their
own. -/
def EveryBufferHasStream (D : YoloCuda) (batch bufSize : Nat) : Prop :=
  ∃ st, construct batch bufSize = some st ∧
    (st.pool.buffer.Perm (List.range (max batch bufSize)) ∧ st.dFilteredBuffers.buffer.Perm (List.range bufSize) ∧
      st.dCountPtrs.buffer.Perm (List.range bufSize) ∧ st.cpuBufferPool.que.Perm (List.range bufSize)) ∧
    st.cuStreams.Own st.pool st.created ∧ st.filterStreams.Own st.dFilteredBuffers st.created ∧
    ∀ (net : Net) (g : Gpu net), g.staging = st.pool → g.streams = st.cuStreams →
      ∀ s, ((D.preprocess net).calls g).Reachable s → StreamsApart st.cuStreams s

variable {D : YoloCuda} {net : Net}

/-- When all elements of the staging pool have streams of their own, the lookups of all runs find them. -/
theorem streamsApart {n : Nat} {g : Gpu net} (hof : g.staging.Of n) (hnodup : g.staging.buffer.Nodup)
    (hkey : ∀ p < n, ∃ stream, g.streams p = some (some stream))
    (hinj : ∀ p < n, ∀ q < n, g.streams p = g.streams q → p = q)
    {s : Calls (Gpu net) (PreAt net) (Option (TensorBuffer net.batch)) Error}
    (h : ((D.preprocess net).calls g).Reachable s) : StreamsApart g.streams s := by
  obtain ⟨⟨-, hmap⟩, hcalls⟩ := Prog.calls_invariant
    (K := fun g' : Gpu net => g'.staging.Of n ∧ g'.streams = g.streams)
    (J := fun l : PreAt net => ∀ p, l.staged = some p → p < n) ⟨hof, rfl⟩ (fun _ => nofun)
    (fun hK hJ hs => by
      have hm := PreMove.of_step hs
      obtain ⟨hof', hlt⟩ := hm.staging_of hK.1 hJ
      refine ⟨⟨hof', (hm.map_eq fun p hp => ?_).trans hK.2⟩, hlt⟩
      obtain ⟨stream, hstream⟩ := hkey p (hJ p hp)
      rw [hK.2, hstream, Option.isSome_some]) h
  have hheld : (s.shared.staging.buffer : Multiset Ptr) + total PreAt.held s.calls ≤ g.staging.buffer :=
    Prog.weight_le (fun g : Gpu net => (g.staging.buffer : Multiset Ptr)) PreAt.held (fun _ => rfl)
      (fun _ _ _ hs => (PreMove.of_step hs).held_le) h
  exact {
    map_eq := hmap
    not_default := fun k l p hk hp => by
      rw [hmap]
      exact hkey p (hcalls k l hk p hp)
    apart := fun j k l l' p q hjk hj hk hp hq heq => by
      rw [hmap] at heq
      obtain rfl := hinj p (hcalls j l hj p hp) q (hcalls k l' hk q hq) heq
      -- one element is held by one call only
      exact hjk (staged_inj hnodup hheld hj hk hp hq) }

/-- With fewer rounds than elements, the first element behind those of the loop has no stream. -/
theorem not_hasStream_of_lt {batch bufSize : Nat} (hlt : batch < bufSize) : ¬EveryBufferHasStream D batch bufSize := by
  rw [EveryBufferHasStream, construct_eq batch (by omega)]
  rintro ⟨_, ⟨⟩, -, hown, -⟩
  obtain ⟨stream, -, hstream⟩ := hown.key batch (List.mem_append_left _ (List.mem_range'_1.2 (by omega)))
  have hnone : (if batch < batch then some (some batch) else none) = (none : Option (Option Nat)) :=
    if_neg (Nat.lt_irrefl batch)
  cases hnone.symm.trans hstream

/-- Every buffer has a stream of its own if and only if `buffer_size` is at most `batch`. -/
theorem streams_iff (D : YoloCuda) (batch bufSize : Nat) (hbuf : 1 ≤ bufSize) :
    EveryBufferHasStream D batch bufSize ↔ bufSize ≤ batch := by
  constructor
  · intro h
    by_contra hlt
    exact not_hasStream_of_lt (by omega) h
  · intro hle
    have hbuffer : List.range' batch (bufSize - batch) ++ List.range batch = List.range batch := by
      rw [Nat.sub_eq_zero_of_le hle, List.range'_zero, List.nil_append]
    have hown : StreamMap.Own (fun p => if p < batch then some (some p) else none) ⟨max batch bufSize, List.range batch⟩
        (batch + bufSize) := by
      have hbase : 0 + batch ≤ batch + bufSize := by omega
      simpa only [Nat.zero_add] using StreamMap.own_of_range rfl hbase
    rw [EveryBufferHasStream, construct_eq batch hbuf, hbuffer]
    refine ⟨_, rfl, ⟨?_, .refl _, .refl _, .refl _⟩, hown, StreamMap.own_of_range rfl (Nat.le_refl _),
      fun net g hg hstreams s hs => ?_⟩
    · rw [Nat.max_eq_left hle]
    · rw [← hstreams]
      refine streamsApart (n := batch) (hg ▸ ⟨Nat.max_eq_left hle, fun p hp => List.mem_range.1 hp⟩)
        (hg ▸ List.nodup_range) (fun p hp => ?_) (fun p hp q hq => ?_) hs
      · obtain ⟨stream, -, hstream⟩ := hown.key p (List.mem_range.2 hp)
        exact ⟨stream, hstreams ▸ hstream⟩
      · rw [hstreams]
        exact hown.inj p (List.mem_range.2 hp) q (List.mem_range.2 hq)

theorem streams_iff_small : (1 : Nat) ≤ 2 ∧ EveryBufferHasStream oneAnchor 4 2 :=
  ⟨by decide, (streams_iff oneAnchor 4 2 (by decide)).2 (by decide)⟩

/-- With a batch of 16 and 32 buffers the staging elements from 16 on have no stream. -/
theorem config_without_streams : ¬EveryBufferHasStream oneAnchor 16 32 := not_hasStream_of_lt (by decide)

end YoloCuda

end OnnxInference
