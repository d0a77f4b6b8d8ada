import OnnxInference.Scheduler.Stage
import OnnxInference.Tensor

/-!
# YOLO (`src/runner/detect/YoloDetector.cpp`, CPU build)

OpenCV and the suppression of overlapping boxes (`cv::dnn::NMSBoxes`) are parameters.
-/

namespace OnnxInference

structure Rect where
  x : Int
  y : Int
  width : Int
  height : Int
  deriving DecidableEq

structure Detection where
  box : Rect
  score : ℚ
  classId : Nat
  deriving DecidableEq

structure YoloDetector where
  cv : OpenCv
  autoAspectRatio : Bool
  padColor : Vec3b
  bgr2rgb : Bool
  confThreshold : ℚ
  nmsThreshold : ℚ
  numAttributes : Nat
  numPredictions : Nat
  nmsBoxes : List Rect → List ℚ → ℚ → ℚ → List Nat

namespace YoloDetector

variable (D : YoloDetector)

def normScale : ℚ := 1 / 255

/-- `preprocess` up to the stores: `letterbox_params[0]` and the floats stored in `buf.data`. -/
def prepare (size : Size) (img : Mat) : Except Error (LetterboxParams × List ℚ) := do
  let (params, resized) ← letterboxResize D.cv img size D.autoAspectRatio D.padColor
  let values ← convertAndNormalize D.cv resized size normScale D.bgr2rgb
  return (params, values)

theorem length_prepare {size : Size} {img : Mat} {params : LetterboxParams} {values : List ℚ}
    (h : D.prepare size img = .ok (params, values)) : values.length = 3 * (size.height * size.width) := by
  simp only [prepare, bind, Except.bind] at h
  split at h
  · cases h
  · rename_i x hx
    split at h
    · cases h
    · rename_i values' hv
      cases h
      exact convertAndNormalize_length hv (letterboxResize_ok hx)

/-! ### Postprocess -/

/-- The best score of a prediction and its class. -/
def bestClass (numClasses : Nat) (score : Nat → ℚ) : ℚ × Nat :=
  (List.range numClasses).foldl (fun best c => if score c > best.1 then (score c, c) else best) (0, 0)

/-- `std::clamp`. -/
def clamp (v lo hi : ℚ) : ℚ := if v < lo then lo else if hi < v then hi else v

/-- The offsets of the rows that `postprocess` reads, `int` products in the source and exact here, are in range. -/
structure RowsFit : Prop where
  classes : 4 * D.numPredictions < 2 ^ 31
  score : ∀ c < D.numAttributes - 4, c * D.numPredictions < 2 ^ 31

theorem rowsFit_of_lt (hattr : 4 ≤ D.numAttributes) (h : D.numAttributes * D.numPredictions < 2 ^ 31) : D.RowsFit :=
  ⟨(Nat.mul_le_mul_right _ hattr).trans_lt h, fun c hc => (Nat.mul_le_mul_right _ (by omega)).trans_lt h⟩

/-- One prediction of a slot: its box in the original image, its score and its class.  The offsets of its rows are those
of the source where `RowsFit` holds. -/
def decode (pdata : List ℚ) (params : LetterboxParams) (i : Nat) : Option (Rect × ℚ × Nat) :=
  let at_ (k : Nat) : ℚ := pdata.getD (k * D.numPredictions + i) 0
  let best := bestClass (D.numAttributes - 4) fun c => at_ (4 + c)
  if best.1 < D.confThreshold then none
  else
    let cx := at_ 0
    let cy := at_ 1
    let ow := at_ 2
    let oh := at_ 3
    let x1 := clamp ((cx - 1 / 2 * ow - params.padLeft) / params.scale) 0 params.origW
    let y1 := clamp ((cy - 1 / 2 * oh - params.padTop) / params.scale) 0 params.origH
    let x2 := clamp ((cx + 1 / 2 * ow - params.padLeft) / params.scale) 0 params.origW
    let y2 := clamp ((cy + 1 / 2 * oh - params.padTop) / params.scale) 0 params.origH
    if x2 ≤ x1 ∨ y2 ≤ y1 then none
    else some (⟨cRound x1, cRound y1, cRound (x2 - x1), cRound (y2 - y1)⟩, best.1, best.2)

/-- The detections of one slot. -/
def detections (pdata : List ℚ) (params : LetterboxParams) : List Detection :=
  let found := (List.range D.numPredictions).filterMap (D.decode pdata params)
  let indexes :=
    if found.isEmpty then []
    else D.nmsBoxes (found.map (·.1)) (found.map (·.2.1)) D.confThreshold D.nmsThreshold
  indexes.filterMap fun idx => found[idx]?.map fun f => ⟨f.1, f.2.1, f.2.2⟩

def postprocess {batch : Nat} (out : ModelOutput batch) : Except Error (Outputs batch (List Detection)) :=
  if !out.valid || out.shape.length != 3 then .error (.runtimeError "Model output is invalid.")
  else .ok ⟨List.ofFn fun b : Fin batch => D.detections (out.data.drop (b * out.planeSize)) (out.letterboxParams b),
    by simp⟩

end YoloDetector

end OnnxInference
