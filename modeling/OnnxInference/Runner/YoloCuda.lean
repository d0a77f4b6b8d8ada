import OnnxInference.Device.GpuFilterCorrect
import OnnxInference.Runner.YoloDetector
import OnnxInference.Runner.YoloPostprocess

/-!
# YOLO after the filter (`src/runner/detect/YoloDetector.cpp`, CUDA build)

What `postprocess` makes of the counts and of the filtered detections that it has read back.  A slot of the filter has
the record of one anchor; `Compacted` says which, for an order in which the threads have counted their anchors.
-/

namespace OnnxInference

/-! ### The filtered detections -/

namespace GpuFilter

variable {cfg : Config}

/-- The anchors whose best score, found from `-1` on, reaches the threshold. -/
def Config.accepted (cfg : Config) (bid : Nat) : List Nat :=
  (List.range cfg.numPredictions).filter fun i => cfg.confThresh ≤ (cfg.best bid i).1

theorem Config.mem_accepted {bid i : Nat} : i ∈ cfg.accepted bid ↔ cfg.Accepted bid i := by
  simp [accepted, Accepted, Accepts]

/-- These are the anchors that pass, unless the threshold is `-1` or less. -/
theorem Config.accepted_eq_passing (hconf : -1 < cfg.confThresh) (bid : Nat) : cfg.accepted bid = cfg.passing bid :=
  List.filter_congr fun _ _ => decide_eq_decide.2 ⟨fun h => Accepts.passes h hconf, fun h => h.accepts⟩

/-- The count and the slots of an image are those of the anchors accepted, in this order, as far as there are slots. -/
structure Compacted (cfg : Config) (bid : Nat) (count : Int) (slot : Nat → Fin 6 → ℚ) (order : List Nat) : Prop where
  perm : order.Perm (cfg.accepted bid)
  count_eq : count = order.length
  record : ∀ (j : Nat) i, order[j]? = some i → j < cfg.maxDet → slot j = cfg.record bid i

/-- Any accepted anchor can be counted first. -/
theorem Config.exists_perm_cons {bid i : Nat} (h : i ∈ cfg.accepted bid) :
    ∃ rest, (i :: rest).Perm (cfg.accepted bid) :=
  ⟨_, (List.perm_cons_erase h).symm⟩

/-- What the kernel leaves for an image whose accepted anchors belong to the first blocks. -/
theorem FirstBlock.compacted (hfirst : FirstBlock cfg) (hl : cfg.Launchable) {count : Nat → Int} {output : Int → ℚ}
    {s : State cfg} (hs : (launch cfg count output).Reachable s) (hf : s.Finished) (bid : Fin cfg.gridDimX) :
    ∃ order, Compacted cfg bid (s.count bid) (fun j k => s.output (cfg.outAddr bid j k)) order := by
  obtain ⟨order, hnodup, hmem, hcount, hslot⟩ := ((hfirst.reachable (.inl hl) hs).2.1 bid).finished hf
  have hnodup' : (cfg.accepted bid).Nodup := List.nodup_range.filter _
  refine ⟨order, (List.perm_ext_iff_of_nodup hnodup hnodup').2 fun i => ?_, hcount, hslot⟩
  rw [hmem, cfg.mem_accepted]

end GpuFilter

/-! ### Decoding -/

/-- `static_cast<int>`: towards zero. -/
def cTrunc (x : ℚ) : Int := if 0 ≤ x then ⌊x⌋ else ⌈x⌉

/-- What is handed to `NMSBoxes` of an anchor: its box, its score and its class. -/
abbrev Candidate := Rect × ℚ × Int

/-- The detector of the CUDA build. -/
structure YoloCuda extends YoloDetector where
  maxDetections : Nat

namespace YoloCuda

variable (D : YoloCuda)

/-- The arguments of `launch_filter_and_compact`. -/
def filterConfig (batch : Nat) (data : List ℚ) : GpuFilter.Config where
  input a := data.getD a 0
  batchSize := batch
  numPredictions := D.numPredictions
  numClasses := D.numAttributes - 4
  confThresh := D.confThreshold
  maxDet := D.maxDetections

/-- One record of an image. -/
def decodeRecord (lp : LetterboxParams) (det : Fin 6 → ℚ) : Candidate :=
  let cx := det 0
  let cy := det 1
  let w := det 2
  let h := det 3
  let score := det 4
  let cls := cTrunc (det 5)
  let x1 := YoloDetector.clamp ((cx - 1 / 2 * w - lp.padLeft) / lp.scale) 0 lp.origW
  let y1 := YoloDetector.clamp ((cy - 1 / 2 * h - lp.padTop) / lp.scale) 0 lp.origH
  let x2 := YoloDetector.clamp ((cx + 1 / 2 * w - lp.padLeft) / lp.scale) 0 lp.origW
  let y2 := YoloDetector.clamp ((cy + 1 / 2 * h - lp.padTop) / lp.scale) 0 lp.origH
  (⟨cTrunc x1, cTrunc y1, cTrunc (x2 - x1), cTrunc (y2 - y1)⟩, score, cls)

/-- The count of an image, clamped. -/
def clampCount (hostCount : Int) : Nat := (max 0 (min hostCount D.maxDetections)).toNat

/-- What is handed to `NMSBoxes` of an image. -/
def candidates (hostCount : Int) (cpuFiltered : Nat → Fin 6 → ℚ) (lp : LetterboxParams) : List Candidate :=
  (List.range (D.clampCount hostCount)).map fun i => decodeRecord lp (cpuFiltered i)

/-- The candidates that are left after the suppression of overlapping boxes. -/
def suppress (found : List Candidate) : List Candidate :=
  let nmsIndices :=
    if found.isEmpty then [] else D.nmsBoxes (found.map (·.1)) (found.map (·.2.1)) D.confThreshold D.nmsThreshold
  nmsIndices.filterMap fun idx => found[idx]?

/-- `postprocess` from the counts and the filtered detections that are read back on. -/
def postprocess {batch : Nat} (o : YoloPostprocess.Device batch) (cpuFiltered : Fin batch → Nat → Fin 6 → ℚ)
    (out : ModelOutput batch) : Except Error (List (List Candidate)) :=
  if !YoloPostprocess.Accepted out then .error (.runtimeError "Model output is invalid.")
  else if !o.sync1 then .ok (List.replicate batch [])
  else if o.totalDets D.maxDetections = 0 then .ok (List.replicate batch [])
  else if !o.sync2 then .ok (List.replicate batch [])
  else .ok (List.ofFn fun b => D.suppress (D.candidates (o.hostCounts b) (cpuFiltered b) (out.letterboxParams b)))

/-- What is handed to `NMSBoxes` of an image in the CPU build. -/
def cpuCandidates (pdata : List ℚ) (lp : LetterboxParams) : List Candidate :=
  (List.range D.numPredictions).filterMap fun i => (D.decode pdata lp i).map fun f => (f.1, f.2.1, (f.2.2 : Int))

/-- A detector with one class and one anchor; no box is suppressed. -/
def oneAnchor : YoloCuda where
  cv := .reference OpenCv.nearest
  autoAspectRatio := true
  padColor := ⟨114, 114, 114⟩
  bgr2rgb := true
  confThreshold := 1 / 4
  nmsThreshold := 9 / 20
  numAttributes := 5
  numPredictions := 1
  nmsBoxes boxes _ _ _ := List.range boxes.length
  maxDetections := 300

end YoloCuda

end OnnxInference
