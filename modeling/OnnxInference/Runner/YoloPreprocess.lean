import OnnxInference.BufferPool
import OnnxInference.Calls
import OnnxInference.Device.GpuPreprocess
import OnnxInference.Runner.YoloCuda

/-!
# YOLO before the network (`src/runner/detect/YoloDetector.cpp`, CUDA build)

Both overloads of `preprocess` as one procedure: a call copies the bytes of its image to an element of the staging
pool, runs the kernel on them and stores the letterbox parameters.  The copy and the kernel of a call are on the
stream of its element, so they come in this order, and `cudaStreamSynchronize` waits for both; copies of different
calls interleave byte by byte, and their kernels store by store.  Nothing guards the map `cuStreams_`: the step that
looks up a stream is one step only where no other call is about to make it (`Racing`).
-/

namespace OnnxInference

open Concurrency Transition

/-- A `CV_8UC3` matrix with at least one pixel as it lies in memory. -/
structure Image where
  rows : Nat
  cols : Nat
  step : Nat
  data : List UInt8
  length_data : data.length = rows * step
  rows_pos : 0 < rows
  cols_pos : 0 < cols
  le_step : cols * 3 ≤ step

namespace Image

variable (img : Image)

def isContinuous : Bool := img.rows == 1 || img.step == img.cols * 3

def byte (i : Nat) : UInt8 := img.data.getD i 0

/-- The matrix without its layout. -/
def toMat : Mat :=
  .ofFn img.rows img.cols fun i j =>
    ⟨img.byte (i * img.step + j * 3), img.byte (i * img.step + j * 3 + 1), img.byte (i * img.step + j * 3 + 2)⟩

end Image

/-- `std::unordered_map` of buffers to a `CudaStreamPtr`; a null pointer is the default stream. -/
abbrev StreamMap := Ptr → Option (Option Nat)

namespace StreamMap

/-- `streams[p]`, which inserts a null pointer for a new key. -/
def index (streams : StreamMap) (p : Ptr) : Option Nat × StreamMap :=
  match streams p with
  | some stream => (stream, streams)
  | none => (none, Function.update streams p (some none))

theorem index_of_some {streams : StreamMap} {p : Ptr} {stream : Option Nat} (h : streams p = some stream) :
    streams.index p = (stream, streams) := by
  rw [index, h]

/-- The keys that were there have their values after the access. -/
theorem index_eq_of_isSome {streams : StreamMap} {p q : Ptr} (h : (streams q).isSome = true) :
    (streams.index p).2 q = streams q := by
  unfold index
  split
  · rfl
  · rename_i hp
    refine Function.update_of_ne ?_ _ _
    rintro rfl
    rw [hp] at h
    cases h

end StreamMap

/-- What the preprocessing works on: the staging pool `pool_` with its bytes and the streams of its elements, the input
buffers of the backend with their floats, and the tensor buffer that the tasks of a batch share. -/
structure Gpu (net : Net) where
  staging : InferTensorBufferPool
  streams : StreamMap
  bytes : Nat → UInt8
  pool : InferTensorBufferPool
  mem : Memory
  tenbuf : TensorBuffer net.batch

namespace YoloCuda

/-- The overload that is called: `preprocess(img)`, or `preprocess(img, buf, offset)`. -/
inductive Overload (net : Net)
  | single
  | batched (offset : Fin net.batch)

/-- Where a call stores its floats and its letterbox parameters: in an input buffer of its own, or in a slot. -/
inductive Target (net : Net)
  | own (data : Ptr)
  | slot (offset : Fin net.batch)

end YoloCuda

namespace Gpu

variable {net : Net} (g : Gpu net)

/-- The bytes of an element of the staging pool: `max_pixels * sizeof(float)`. -/
def elementBytes (net : Net) : Nat := net.planeSize * 4

/-- The bytes from the staging element on. -/
def source (imgBuffer : Ptr) (i : Nat) : UInt8 := g.bytes (imgBuffer * elementBytes net + i)

/-- The pointer and the offset of `d_dst_nchw`. -/
def destination : YoloCuda.Target net → Ptr × Nat
  | .own data => (data, 0)
  | .slot offset => (g.tenbuf.data, net.planeSize * offset)

/-- A store of the kernel, if it makes one. -/
def write (target : YoloCuda.Target net) : Option (Nat × ℚ) → Gpu net
  | some (i, value) => { g with mem := g.mem.set (g.destination target).1 ((g.destination target).2 + i) value }
  | none => g

/-- `buf.letterbox_params[offset] = lp`. -/
def setParams (offset : Fin net.batch) (lp : LetterboxParams) : Gpu net :=
  { g with tenbuf := { g.tenbuf with letterboxParams := Function.update g.tenbuf.letterboxParams offset lp } }

end Gpu

namespace YoloCuda

variable (D : YoloCuda) {net : Net}

/-- The arithmetic at the start of both overloads; unlike `letterbox_resize` it always aligns to the stride. -/
def letterbox (dst : Size) (cols rows : Nat) : LetterboxParams :=
  let xFactor : ℚ := dst.width / cols
  let yFactor : ℚ := dst.height / rows
  let scale := min xFactor yFactor
  let newW := cRound (cols * scale)
  let newH := cRound (rows * scale)
  let newW := newW - newW.tmod 32
  let newH := newH - newH.tmod 32
  let scale := min ((newW : ℚ) / cols) (newH / rows)
  let newW := cRound (cols * scale)
  let newH := cRound (rows * scale)
  let padLeft := (dst.width - newW).tdiv 2
  let padTop := (dst.height - newH).tdiv 2
  ⟨scale, padLeft, padTop, cols, rows⟩

/-- The arguments of `gpu_yolo_preprocess`. -/
def kernelArgs (dst : Size) (img : Image) : GpuPreprocess.Args :=
  let lp := letterbox dst img.cols img.rows
  ⟨img.cols, img.rows, img.step, lp.scale, lp.padLeft, lp.padTop, YoloDetector.normScale, D.padColor.c0⟩

/-- Where a call and the work it has put on its stream stand. -/
inductive PreAt (net : Net)
  | acquire (img : Image) (o : Overload net)
  | access (img : Image) (o : Overload net) (imgBuffer : Ptr)
  | prepare (img : Image) (o : Overload net) (imgBuffer : Ptr)
  | copy (img : Image) (target : Target net) (imgBuffer : Ptr) (i : Nat)
  | kernel (img : Image) (target : Target net) (imgBuffer : Ptr) (pc : GpuPreprocess.Thread net.size → GpuPreprocess.Pc)
  | release (img : Image) (target : Target net) (imgBuffer : Ptr)
  | store (img : Image) (target : Target net)

/-- The tensor buffer of `preprocess(img)` on its return. -/
def ownBuffer (data : Ptr) (img : Image) : TensorBuffer net.batch :=
  { TensorBuffer.wrap net.batch data with
    letterboxParams := Function.update (TensorBuffer.wrap net.batch data).letterboxParams net.slot0
      (letterbox net.size img.cols img.rows) }

/-- One step of a call; `c` is the thread of its kernel that moves, if one does. -/
def preStep (c : Option (GpuPreprocess.Thread net.size)) (g : Gpu net) :
    PreAt net → Option (Gpu net × (PreAt net ⊕ Except Error (Option (TensorBuffer net.batch))))
  | .acquire img o =>
    g.staging.acquire.map fun x => ({ g with staging := x.2 }, .inl (.access img o x.1))
  -- `CudaStreamPtr& cuStream = cuStreams_[img_buffer]`
  | .access img o imgBuffer =>
    some ({ g with streams := (g.streams.index imgBuffer).2 }, .inl (.prepare img o imgBuffer))
  | .prepare img .single imgBuffer =>
    g.pool.acquire.map fun x => ({ g with pool := x.2 }, .inl (.copy img (.own x.1) imgBuffer 0))
  | .prepare img (.batched offset) imgBuffer =>
    if !img.isContinuous then some (g, .inr (.error (.invalidArgument "Mat must be continuous for linear H2D copy")))
    else some (g, .inl (.copy img (.slot offset) imgBuffer 0))
  | .copy img target imgBuffer i =>
    if i < img.rows * img.step then
      some ({ g with bytes := Function.update g.bytes (imgBuffer * Gpu.elementBytes net + i) (img.byte i) },
        .inl (.copy img target imgBuffer (i + 1)))
    else some (g, .inl (.kernel img target imgBuffer (GpuPreprocess.launch net.size)))
  | .kernel img target imgBuffer pc =>
    match c with
    | some t =>
      (GpuPreprocess.step (D.kernelArgs net.size img) (g.source imgBuffer) pc t).map fun x =>
        (g.write target x.1, .inl (.kernel img target imgBuffer x.2))
    -- `cudaStreamSynchronize`
    | none => if GpuPreprocess.Finished pc then some (g, .inl (.release img target imgBuffer)) else none
  | .release img target imgBuffer =>
    match g.staging.release imgBuffer with
    | .ok staging => some ({ g with staging := staging }, .inl (.store img target))
    | .error e => some (g, .inr (.error e))
  | .store img (.own data) => some (g, .inr (.ok (some (ownBuffer data img))))
  | .store img (.slot offset) =>
    some (g.setParams offset (letterbox net.size img.cols img.rows), .inr (.ok none))

@[reducible] def preprocess (net : Net) :
    Prog (Gpu net) (Option (GpuPreprocess.Thread net.size)) (Image × Overload net)
    (Option (TensorBuffer net.batch)) Error where
  Local := PreAt net
  start i := .acquire i.1 i.2
  step := D.preStep

/-! ### Moves -/

/-- What a step of a call can do. -/
inductive PreMove (D : YoloCuda) (g : Gpu net) :
    PreAt net → Gpu net → PreAt net ⊕ Except Error (Option (TensorBuffer net.batch)) → Prop
  | acquire {img : Image} {o : Overload net} {p : Ptr} {staging : InferTensorBufferPool}
    (h : g.staging.acquire = some (p, staging)) :
    PreMove D g (.acquire img o) { g with staging := staging } (.inl (.access img o p))
  | access {img : Image} {o : Overload net} {p : Ptr} :
    PreMove D g (.access img o p) { g with streams := (g.streams.index p).2 } (.inl (.prepare img o p))
  | own {img : Image} {p data : Ptr} {pool : InferTensorBufferPool} (h : g.pool.acquire = some (data, pool)) :
    PreMove D g (.prepare img .single p) { g with pool := pool } (.inl (.copy img (.own data) p 0))
  | slot {img : Image} {p : Ptr} {offset : Fin net.batch} (h : img.isContinuous = true) :
    PreMove D g (.prepare img (.batched offset) p) g (.inl (.copy img (.slot offset) p 0))
  | reject {img : Image} {p : Ptr} {offset : Fin net.batch} (h : img.isContinuous = false) :
    PreMove D g (.prepare img (.batched offset) p) g
      (.inr (.error (.invalidArgument "Mat must be continuous for linear H2D copy")))
  | byte {img : Image} {target : Target net} {p : Ptr} {i : Nat} (h : i < img.rows * img.step) :
    PreMove D g (.copy img target p i)
      { g with bytes := Function.update g.bytes (p * Gpu.elementBytes net + i) (img.byte i) }
      (.inl (.copy img target p (i + 1)))
  | launch {img : Image} {target : Target net} {p : Ptr} {i : Nat} (h : img.rows * img.step ≤ i) :
    PreMove D g (.copy img target p i) g (.inl (.kernel img target p (GpuPreprocess.launch net.size)))
  | thread {img : Image} {target : Target net} {p : Ptr} {pc pc' : GpuPreprocess.Thread net.size → GpuPreprocess.Pc}
    {t : GpuPreprocess.Thread net.size} {o : Option (Nat × ℚ)}
    (h : GpuPreprocess.step (D.kernelArgs net.size img) (g.source p) pc t = some (o, pc')) :
    PreMove D g (.kernel img target p pc) (g.write target o) (.inl (.kernel img target p pc'))
  | synchronize {img : Image} {target : Target net} {p : Ptr} {pc : GpuPreprocess.Thread net.size → GpuPreprocess.Pc}
    (h : GpuPreprocess.Finished pc) : PreMove D g (.kernel img target p pc) g (.inl (.release img target p))
  | release {img : Image} {target : Target net} {p : Ptr} {staging : InferTensorBufferPool}
    (h : g.staging.release p = .ok staging) :
    PreMove D g (.release img target p) { g with staging := staging } (.inl (.store img target))
  | foreign {img : Image} {target : Target net} {p : Ptr} {e : Error} (h : g.staging.release p = .error e) :
    PreMove D g (.release img target p) g (.inr (.error e))
  | storeOwn {img : Image} {data : Ptr} :
    PreMove D g (.store img (.own data)) g (.inr (.ok (some (ownBuffer data img))))
  | storeSlot {img : Image} {offset : Fin net.batch} :
    PreMove D g (.store img (.slot offset)) (g.setParams offset (letterbox net.size img.cols img.rows))
      (.inr (.ok none))

variable {D} {c : Option (GpuPreprocess.Thread net.size)} {g g' : Gpu net} {l : PreAt net}
  {x : PreAt net ⊕ Except Error (Option (TensorBuffer net.batch))}

theorem PreMove.of_step (h : D.preStep c g l = some (g', x)) : PreMove D g l g' x := by
  cases l with
  | acquire img o =>
    simp only [preStep, Option.map_eq_some_iff] at h
    obtain ⟨⟨p, staging⟩, hp, heq⟩ := h
    cases heq
    exact .acquire hp
  | access img o p =>
    cases h
    exact .access
  | prepare img o p =>
    cases o with
    | single =>
      simp only [preStep, Option.map_eq_some_iff] at h
      obtain ⟨⟨data, pool⟩, hp, heq⟩ := h
      cases heq
      exact .own hp
    | batched offset =>
      simp only [preStep] at h
      split at h
      · rename_i hc
        cases h
        exact .reject (by simpa using hc)
      · rename_i hc
        cases h
        exact .slot (by simpa using hc)
  | copy img target p i =>
    simp only [preStep] at h
    split at h
    · cases h
      exact .byte ‹_›
    · cases h
      exact .launch (by omega)
  | kernel img target p pc =>
    simp only [preStep] at h
    split at h
    · rw [Option.map_eq_some_iff] at h
      obtain ⟨⟨o, pc'⟩, hs, heq⟩ := h
      cases heq
      exact .thread hs
    · split at h
      · cases h
        exact .synchronize ‹_›
      · cases h
  | release img target p =>
    simp only [preStep] at h
    split at h
    · cases h
      exact .release ‹_›
    · cases h
      exact .foreign ‹_›
  | store img target =>
    cases target with
    | own data =>
      cases h
      exact .storeOwn
    | slot offset =>
      cases h
      exact .storeSlot

/-- The staging element that a call holds. -/
def PreAt.staged : PreAt net → Option Ptr
  | .acquire .. | .store .. => none
  | .access _ _ p | .prepare _ _ p | .copy _ _ p _ | .kernel _ _ p _ | .release _ _ p => some p

/-- The image of a call. -/
def PreAt.img : PreAt net → Image
  | .acquire img _ | .access img _ _ | .prepare img _ _ | .copy img _ _ _ | .kernel img _ _ _ | .release img _ _
  | .store img _ => img

theorem PreMove.img_eq (h : PreMove D g l g' x) : ∀ l', x = .inl l' → l'.img = l.img := by
  cases h <;> rintro _ ⟨⟩ <;> rfl

/-- The weight of the staging element that a call holds. -/
def PreAt.held (l : PreAt net) : Multiset Ptr := (l.staged.toList : Multiset Ptr)

/-- A call takes its element from the free ones and puts it back, unless it throws. -/
theorem PreMove.held_eq (h : PreMove D g l g' x) :
    (g'.staging.buffer : Multiset Ptr) + weight PreAt.held x = g.staging.buffer + l.held ∨
      (∃ e, x = .inr (.error e)) ∧ g'.staging = g.staging := by
  cases h with
  | acquire h =>
    left
    show (_ : Multiset Ptr) + {_} = _ + 0
    rw [add_zero, InferTensorBufferPool.buffer_of_acquire h]
  | release h =>
    left
    show (_ : Multiset Ptr) + 0 = _ + {_}
    rw [add_zero, InferTensorBufferPool.buffer_of_release h]
  | reject | foreign => exact .inr ⟨⟨_, rfl⟩, rfl⟩
  | @thread _ target _ _ _ _ o _ => rcases o with _ | ⟨i, v⟩ <;> exact .inl rfl
  | access | own | slot | byte | launch | synchronize | storeOwn | storeSlot => exact .inl rfl

theorem PreMove.held_le (h : PreMove D g l g' x) :
    (g'.staging.buffer : Multiset Ptr) + weight PreAt.held x ≤ g.staging.buffer + l.held := by
  rcases h.held_eq with heq | ⟨⟨e, rfl⟩, hs⟩
  · exact heq.le
  · rw [hs, weight_inr, add_zero]
    exact Multiset.le_add_right _ _

/-- The staging pool keeps its capacity, and a call holds one of its elements. -/
theorem PreMove.staging_of {n : Nat} (h : PreMove D g l g' x) (hg : g.staging.Of n)
    (hl : ∀ p, l.staged = some p → p < n) :
    g'.staging.Of n ∧ ∀ l', x = .inl l' → ∀ p, l'.staged = some p → p < n := by
  have hkeep : ∀ {l' : PreAt net} {p : Ptr}, p < n → l'.staged = some p →
      ∀ l'', (.inl l' : PreAt net ⊕ Except Error (Option (TensorBuffer net.batch))) = .inl l'' →
        ∀ q, l''.staged = some q → q < n := by
    intro l' p hp hl' l'' heq q hq
    cases heq
    rw [hl', Option.some.injEq] at hq
    exact hq ▸ hp
  cases h with
  | acquire h =>
    obtain ⟨hp, hg'⟩ := hg.acquire h
    exact ⟨hg', hkeep hp rfl⟩
  | release h => exact ⟨hg.release h, by rintro _ ⟨⟩; exact nofun⟩
  | reject | foreign | storeOwn | storeSlot => exact ⟨hg, nofun⟩
  | @thread _ target p _ _ _ o _ =>
    refine ⟨?_, hkeep (hl p rfl) rfl⟩
    rcases o with _ | ⟨i, v⟩ <;> exact hg
  | access | own | slot | byte | launch | synchronize => exact ⟨hg, hkeep (hl _ rfl) rfl⟩

/-- The element that a call holds after a step is the one that it held, or the free one in front. -/
theorem PreMove.staged_cases (h : PreMove D g l g' x) {l' : PreAt net} (hx : x = .inl l') :
    l'.staged = none ∨ l'.staged = l.staged ∨
      ∃ img o p rest, l = .acquire img o ∧ l' = .access img o p ∧ g.staging.buffer = p :: rest := by
  cases h with
  | acquire h =>
    cases hx
    exact .inr (.inr ⟨_, _, _, _, rfl, rfl, (InferTensorBufferPool.acquire_some h).1⟩)
  | release =>
    cases hx
    exact .inl rfl
  | access | own | slot | byte | launch | thread | synchronize =>
    cases hx
    exact .inr (.inl rfl)
  | reject | foreign | storeOwn | storeSlot => cases hx

/-- The streams that a call can look up stay. -/
theorem PreMove.streams_eq (h : PreMove D g l g' x) {p : Ptr} (hp : (g.streams p).isSome = true) :
    g'.streams p = g.streams p := by
  cases h with
  | access => exact StreamMap.index_eq_of_isSome hp
  | @thread _ target _ _ _ _ o _ => rcases o with _ | ⟨i, v⟩ <;> rfl
  | acquire | own | slot | reject | byte | launch | synchronize | release | foreign | storeOwn | storeSlot => rfl

/-- A call that finds the key of its element leaves the map alone. -/
theorem PreMove.map_eq (h : PreMove D g l g' x) (hkey : ∀ p, l.staged = some p → (g.streams p).isSome = true) :
    g'.streams = g.streams := by
  cases h with
  | @access _ _ p =>
    obtain ⟨stream, hstream⟩ := Option.isSome_iff_exists.1 (hkey p rfl)
    show (g.streams.index p).2 = g.streams
    rw [StreamMap.index_of_some hstream]
  | @thread _ target _ _ _ _ o _ => rcases o with _ | ⟨i, v⟩ <;> rfl
  | acquire | own | slot | reject | byte | launch | synchronize | release | foreign | storeOwn | storeSlot => rfl

/-- Two calls race for the map: both are about to access it, and one of them inserts its key. -/
def Racing (s : Calls (Gpu net) (PreAt net) (Option (TensorBuffer net.batch)) Error) : Prop :=
  ∃ (j k : Nat) (img img' : Image) (o o' : Overload net) (p q : Ptr), j ≠ k ∧
    s.calls[j]? = some (.inl (.access img o p)) ∧ s.calls[k]? = some (.inl (.access img' o' q)) ∧
      s.shared.streams p = none

end YoloCuda

end OnnxInference
