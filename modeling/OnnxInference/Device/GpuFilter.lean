import OnnxInference.Argmax
import OnnxInference.Transition

/-!
# The filter of the detections (`src/device/gpu_filter.cu`)

The kernel as its threads interleave on the counts and on the buffer of the filtered detections, which is memory
addressed from `output`.  A step is the reset of a count, the barrier of a block, the body of the loop up to the
`atomicAdd`, the `atomicAdd`, or the store of one float.  Barriers wait for the threads of one block only.

The offsets are 32-bit `int` products in the source, and so are the counts `int`; they are exact integers here.  A
product out of range is undefined behaviour: `State.Overflows` says that the next step of a thread evaluates one, or
wraps a count around, and no launch in which that can happen is correct.
-/

namespace OnnxInference.GpuFilter

open Transition

/-- The arguments of `launch_filter_and_compact` that are not written to. -/
structure Config where
  input : Nat → ℚ
  batchSize : Nat
  numPredictions : Nat
  numClasses : Nat
  confThresh : ℚ
  maxDet : Nat

/-- `blockDim.x`; blocks have one dimension. -/
def blockDim : Nat := 256

namespace Config

variable (cfg : Config)

def gridDimX : Nat := cfg.batchSize

def gridDimY : Nat := (cfg.numPredictions + blockDim - 1) / blockDim

/-- The grids that a device accepts; otherwise the kernel does not run. -/
def Launchable : Prop := (0 < cfg.gridDimX ∧ cfg.gridDimX < 2 ^ 31) ∧ 0 < cfg.gridDimY ∧ cfg.gridDimY < 2 ^ 16

instance : Decidable cfg.Launchable := inferInstanceAs (Decidable (_ ∧ _))

/-- The offsets of an image, which all of its threads compute first, are in the range of an `int`. -/
structure OffsetsFit (bid : Nat) : Prop where
  attributes : 4 + cfg.numClasses < 2 ^ 31
  input : bid * (4 + cfg.numClasses) * cfg.numPredictions < 2 ^ 31
  output : bid * cfg.maxDet * 6 < 2 ^ 31

/-- The offsets of the rows that a thread reads for an anchor are in the range of an `int`. -/
structure RowsFit : Prop where
  classes : 4 * cfg.numPredictions < 2 ^ 31
  score : ∀ c < cfg.numClasses, c * cfg.numPredictions < 2 ^ 31

/-- All offsets of the launch are in the range of an `int`. -/
structure InRange : Prop where
  offsets : ∀ bid < cfg.batchSize, cfg.OffsetsFit bid
  rows : cfg.RowsFit

/-- `batch_input[row * stride + i]`. -/
def batchInput (bid row i : Nat) : ℚ :=
  cfg.input (bid * ((4 + cfg.numClasses) * cfg.numPredictions) + row * cfg.numPredictions + i)

def score (bid i c : Nat) : ℚ := cfg.batchInput bid (4 + c) i

/-- `max_score` and `max_cls` after the loop over the classes. -/
def best (bid i : Nat) : ℚ × Int :=
  (List.range cfg.numClasses).foldl
    (fun m c => if m.1 < cfg.score bid i c then (cfg.score bid i c, (c : Int)) else m) (-1, -1)

/-- A record has six values. -/
instance : NeZero 6 := ⟨by decide⟩

/-- `out[k]`. -/
def outValue (bid i : Nat) (maxScore : ℚ) (maxCls : Int) (k : Fin 6) : ℚ :=
  if k.val < 4 then cfg.batchInput bid k.val i else if k.val = 4 then maxScore else maxCls

/-- The address of `out[k]` for the index `idx`. -/
def outAddr (bid : Nat) (idx : Int) (k : Fin 6) : Int := bid * cfg.maxDet * 6 + idx * 6 + k.val

end Config

/-- `blockIdx.x`, `blockIdx.y` and `threadIdx.x`; they are in range, so the check at the start never returns. -/
structure Thread (cfg : Config) where
  bid : Fin cfg.gridDimX
  blockY : Fin cfg.gridDimY
  tid : Fin blockDim
  deriving DecidableEq, Fintype

inductive Pc
  | reset
  | sync
  | loop (i : Nat)
  | atomicAdd (i : Nat) (maxScore : ℚ) (maxCls : Int)
  | store (i : Nat) (maxScore : ℚ) (maxCls : Int) (idx : Int) (k : Fin 6)
  | exit
  deriving DecidableEq

structure State (cfg : Config) where
  count : Nat → Int
  output : Int → ℚ
  pc : Thread cfg → Pc

variable {cfg : Config}

namespace Thread

variable (t : Thread cfg)

/-- The first index of the grid-stride loop. -/
def anchor : Nat := t.tid + t.blockY * blockDim

def SameBlock (u : Thread cfg) : Prop := u.bid = t.bid ∧ u.blockY = t.blockY

instance (u : Thread cfg) : Decidable (t.SameBlock u) := inferInstanceAs (Decidable (_ ∧ _))

/-- The thread that resets the count of its image. -/
def Resets : Prop := t.blockY.val = 0 ∧ t.tid.val = 0

instance : Decidable t.Resets := inferInstanceAs (Decidable (_ ∧ _))

end Thread

namespace State

variable (s : State cfg)

def setPc (t : Thread cfg) (pc : Pc) : State cfg := { s with pc := Function.update s.pc t pc }

def setCount (bid : Nat) (n : Int) : State cfg := { s with count := Function.update s.count bid n }

def setOutput (a : Int) (x : ℚ) : State cfg := { s with output := Function.update s.output a x }

/-- All threads have exited. -/
def Finished : Prop := ∀ t, s.pc t = .exit

/-- The store that the next step of the thread makes to the buffer, as its address and value. -/
def pending (t : Thread cfg) : Option (Int × ℚ) :=
  match s.pc t with
  | .store i maxScore maxCls idx k => some (cfg.outAddr t.bid idx k, cfg.outValue t.bid i maxScore maxCls k)
  | _ => none

end State

/-- The index of the next round of the loop. -/
def Config.next (cfg : Config) (i : Nat) : Nat := i + blockDim * cfg.gridDimY

def step (s : State cfg) (t : Thread cfg) : Option (State cfg) :=
  match s.pc t with
  | .reset => some ((if t.Resets then s.setCount t.bid 0 else s).setPc t .sync)
  -- `__syncthreads`
  | .sync => if ∀ u, t.SameBlock u → s.pc u ≠ .reset then some (s.setPc t (.loop t.anchor)) else none
  | .loop i =>
    if i < cfg.numPredictions then
      let (maxScore, maxCls) := cfg.best t.bid i
      some (s.setPc t (if cfg.confThresh ≤ maxScore then .atomicAdd i maxScore maxCls else .loop (cfg.next i)))
    else some (s.setPc t .exit)
  | .atomicAdd i maxScore maxCls =>
    let idx := s.count t.bid
    some ((s.setCount t.bid (idx + 1)).setPc t
      (if idx < cfg.maxDet then .store i maxScore maxCls idx 0 else .loop (cfg.next i)))
  | .store i maxScore maxCls idx k =>
    some ((s.setOutput (cfg.outAddr t.bid idx k) (cfg.outValue t.bid i maxScore maxCls k)).setPc t
      (if h : k.val + 1 < 6 then .store i maxScore maxCls idx ⟨k.val + 1, h⟩ else .loop (cfg.next i)))
  | .exit => none

/-- A value of the type `int`. -/
def IsInt (n : Int) : Prop := -2 ^ 31 ≤ n ∧ n < 2 ^ 31

/-- The next step of the thread leaves the range of an `int`. -/
def State.Overflows (s : State cfg) (t : Thread cfg) : Prop :=
  match s.pc t with
  | .reset => ¬cfg.OffsetsFit t.bid
  | .loop i => i < cfg.numPredictions ∧ ¬cfg.RowsFit
  -- the `atomicAdd` itself is defined, but wraps around
  | .atomicAdd _ _ _ => ¬IsInt (s.count t.bid + 1)
  -- `idx * 6`
  | .store _ _ _ idx _ => ¬IsInt (idx * 6)
  | _ => False

/-- The kernel on a buffer of counts and one of detections with any contents. -/
def launch (cfg : Config) (count : Nat → Int) (output : Int → ℚ) : System (State cfg) (Thread cfg) where
  init := ⟨count, output, fun _ => if cfg.Launchable then .reset else .exit⟩
  step := step

/-! ### What the filter is for -/

namespace Config

variable (cfg)

/-- `c` is the first class with the best score. -/
def FirstBest (bid i c : Nat) : Prop :=
  c < cfg.numClasses ∧ (∀ c' < cfg.numClasses, cfg.score bid i c' ≤ cfg.score bid i c) ∧
    ∀ c' < c, cfg.score bid i c' < cfg.score bid i c

instance (bid i c : Nat) : Decidable (cfg.FirstBest bid i c) := inferInstanceAs (Decidable (_ ∧ _))

/-- The best class score of the anchor reaches the threshold. -/
def Passes (bid i : Nat) : Prop := ∃ c < cfg.numClasses, cfg.FirstBest bid i c ∧ cfg.confThresh ≤ cfg.score bid i c

instance (bid i : Nat) : Decidable (cfg.Passes bid i) := inferInstanceAs (Decidable (∃ c < _, _ ∧ _))

def passing (bid : Nat) : List Nat := (List.range cfg.numPredictions).filter fun i => cfg.Passes bid i

/-- The six floats are the record of the anchor. -/
def IsRecord (bid i : Nat) (out : Fin 6 → ℚ) : Prop :=
  ∃ c, cfg.FirstBest bid i c ∧ out = cfg.outValue bid i (cfg.score bid i c) c

/-- The addresses of the `max_det` slots of an image. -/
def Slots (bid : Nat) (a : Int) : Prop := ∃ idx < cfg.maxDet, ∃ k, a = cfg.outAddr bid idx k

end Config

/-- What the kernel is to leave: the count of every image, one record for each of its passing anchors if there is room
for them, and nothing new elsewhere. -/
structure Filtered (output : Int → ℚ) (s : State cfg) : Prop where
  count : ∀ bid < cfg.batchSize, s.count bid = (cfg.passing bid).length
  records : ∀ bid < cfg.batchSize, (cfg.passing bid).length ≤ cfg.maxDet → ∃ anchors : List Nat,
    anchors.Perm (cfg.passing bid) ∧ ∀ (j : Nat) i, anchors[j]? = some i →
      cfg.IsRecord bid i fun k => s.output (cfg.outAddr bid j k)
  frame : ∀ a, (∀ bid < cfg.batchSize, ¬cfg.Slots bid a) → s.output a = output a

/-- The threads of an image evaluate no offset that is out of range and store to its slots only, and what they leave in
the end is right, for every schedule and every previous content of the buffers. -/
def Correct (cfg : Config) : Prop :=
  ∀ count output s, (launch cfg count output).Reachable s →
    (∀ t, ¬s.Overflows t) ∧ (∀ t a x, s.pending t = some (a, x) → cfg.Slots t.bid a) ∧
      (s.Finished → Filtered output s)

/-! ### The loop over the classes -/

namespace Config

theorem firstBest_iff {bid i c : Nat} : cfg.FirstBest bid i c ↔ Argmax.IsFirst (cfg.score bid i) cfg.numClasses c :=
  ⟨fun h => ⟨h.1, h.2.1, h.2.2⟩, fun h => ⟨h.lt, h.le, h.first⟩⟩

/-- The loop finds the first best class if some score is greater than the `-1` it starts with. -/
theorem best_cases (bid i : Nat) :
    (cfg.best bid i = (-1, -1) ∧ ∀ c < cfg.numClasses, cfg.score bid i c ≤ -1) ∨
    ∃ c, cfg.FirstBest bid i c ∧ -1 < cfg.score bid i c ∧ cfg.best bid i = (cfg.score bid i c, (c : Int)) := by
  have hbest : cfg.best bid i = Argmax.scan (cfg.score bid i) (fun c => (c : Int)) (-1, -1) cfg.numClasses := rfl
  rw [hbest]
  rcases Argmax.scan_cases (cfg.score bid i) (fun c => (c : Int)) (-1, -1) cfg.numClasses with h | ⟨c, hc, hpos, hs⟩
  · exact .inl h
  · exact .inr ⟨c, cfg.firstBest_iff.2 hc, hpos, hs⟩

theorem FirstBest.unique {bid i c c' : Nat} (h : cfg.FirstBest bid i c) (h' : cfg.FirstBest bid i c') : c = c' :=
  (cfg.firstBest_iff.1 h).unique (cfg.firstBest_iff.1 h')

end Config

end OnnxInference.GpuFilter
