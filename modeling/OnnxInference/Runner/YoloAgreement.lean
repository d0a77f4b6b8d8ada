import OnnxInference.Letterbox
import OnnxInference.Runner.YoloCuda

/-!
# The two decoders of YOLO

The CPU build rounds the corners of a box and drops boxes without an area, the CUDA build truncates and drops nothing.
They hand the same candidates to `NMSBoxes` if and only if no anchor that passes has a box on which this shows
(`candidates_agree_iff`).
-/

namespace OnnxInference

/-! ### Conversions to `int` -/

/-- What the corners of a box are converted from: `std::clamp` returns its bounds or something between them. -/
def Clamped (x : ℚ) : Prop := 0 ≤ x ∨ ∃ n : Int, x = n

theorem cTrunc_of_nonneg {x : ℚ} (h : 0 ≤ x) : cTrunc x = ⌊x⌋ := if_pos h

@[simp] theorem cTrunc_intCast (n : Int) : cTrunc n = n := by
  unfold cTrunc
  split <;> simp

theorem floor_add_half_eq_iff {x : ℚ} : ⌊x⌋ = ⌊x + 1 / 2⌋ ↔ Int.fract x < 1 / 2 := by
  have hx := Int.floor_add_fract x
  have h0 := Int.fract_nonneg x
  rw [eq_comm, Int.floor_eq_iff]
  constructor
  · rintro ⟨-, h⟩
    linarith
  · intro h
    constructor <;> linarith

theorem Clamped.trunc_le_round {x : ℚ} (h : Clamped x) : cTrunc x ≤ cRound x := by
  rcases h with h | ⟨n, rfl⟩
  · rw [cTrunc_of_nonneg h, cRound, if_pos h]
    exact Int.floor_le_floor (by linarith)
  · rw [cTrunc_intCast, cRound_intCast]

theorem Clamped.trunc_eq_round_iff {x : ℚ} (h : Clamped x) : cTrunc x = cRound x ↔ Int.fract x < 1 / 2 := by
  rcases h with h | ⟨n, rfl⟩
  · rw [cTrunc_of_nonneg h, cRound, if_pos h, floor_add_half_eq_iff]
  · rw [cTrunc_intCast, cRound_intCast, Int.fract_intCast]
    norm_num

theorem clamped_clamp (v : ℚ) (n : Int) : Clamped (YoloDetector.clamp v 0 n) := by
  unfold YoloDetector.clamp
  split
  · exact .inl le_rfl
  · split
    · exact .inr ⟨n, rfl⟩
    · exact .inl (by linarith)

/-! ### Boxes -/

/-- The corners of a box in the original image, clamped to it. -/
structure Corners where
  x1 : ℚ
  y1 : ℚ
  x2 : ℚ
  y2 : ℚ

namespace Corners

/-- The corners of a box with this centre and size in the coordinates of the network. -/
def of (lp : LetterboxParams) (cx cy w h : ℚ) : Corners where
  x1 := YoloDetector.clamp ((cx - 1 / 2 * w - lp.padLeft) / lp.scale) 0 lp.origW
  y1 := YoloDetector.clamp ((cy - 1 / 2 * h - lp.padTop) / lp.scale) 0 lp.origH
  x2 := YoloDetector.clamp ((cx + 1 / 2 * w - lp.padLeft) / lp.scale) 0 lp.origW
  y2 := YoloDetector.clamp ((cy + 1 / 2 * h - lp.padTop) / lp.scale) 0 lp.origH

variable (c : Corners)

/-- The box that the CUDA build makes of the corners. -/
def truncated : Rect := ⟨cTrunc c.x1, cTrunc c.y1, cTrunc (c.x2 - c.x1), cTrunc (c.y2 - c.y1)⟩

/-- The box that the CPU build makes of the corners. -/
def rounded : Rect := ⟨cRound c.x1, cRound c.y1, cRound (c.x2 - c.x1), cRound (c.y2 - c.y1)⟩

/-- The box has an area. -/
def Solid : Prop := c.x1 < c.x2 ∧ c.y1 < c.y2

instance : Decidable c.Solid := inferInstanceAs (Decidable (_ ∧ _))

/-- The box has an area, and its place and size lie less than a half above an integer. -/
structure Exact : Prop where
  solid : c.Solid
  x1 : Int.fract c.x1 < 1 / 2
  y1 : Int.fract c.y1 < 1 / 2
  width : Int.fract (c.x2 - c.x1) < 1 / 2
  height : Int.fract (c.y2 - c.y1) < 1 / 2

variable {c}

theorem not_solid_iff : ¬c.Solid ↔ c.x2 ≤ c.x1 ∨ c.y2 ≤ c.y1 := by
  rw [Solid, not_and_or, not_lt, not_lt]

/-- Both corners are such as `std::clamp` returns. -/
structure Clamped (c : Corners) : Prop where
  x1 : OnnxInference.Clamped c.x1
  y1 : OnnxInference.Clamped c.y1

theorem clamped_of (lp : LetterboxParams) (cx cy w h : ℚ) : (of lp cx cy w h).Clamped :=
  ⟨clamped_clamp _ _, clamped_clamp _ _⟩

theorem Solid.width (h : c.Solid) : OnnxInference.Clamped (c.x2 - c.x1) := .inl (by linarith [h.1])

theorem Solid.height (h : c.Solid) : OnnxInference.Clamped (c.y2 - c.y1) := .inl (by linarith [h.2])

/-- The two boxes are the same for an exact box only. -/
theorem Clamped.exact_iff (h : c.Clamped) (hs : c.Solid) :
    c.Exact ↔ cTrunc c.x1 = cRound c.x1 ∧ cTrunc c.y1 = cRound c.y1 ∧ cTrunc (c.x2 - c.x1) = cRound (c.x2 - c.x1) ∧
      cTrunc (c.y2 - c.y1) = cRound (c.y2 - c.y1) := by
  rw [h.x1.trunc_eq_round_iff, h.y1.trunc_eq_round_iff, hs.width.trunc_eq_round_iff, hs.height.trunc_eq_round_iff]
  exact ⟨fun he => ⟨he.x1, he.y1, he.width, he.height⟩, fun ⟨h1, h2, h3, h4⟩ => ⟨hs, h1, h2, h3, h4⟩⟩

theorem Exact.truncated_eq (h : c.Exact) (hc : c.Clamped) : c.truncated = c.rounded := by
  obtain ⟨h1, h2, h3, h4⟩ := (hc.exact_iff h.solid).1 h
  simp only [truncated, rounded, h1, h2, h3, h4]

end Corners

/-! ### Lists of boxes -/

/-- Lists of numbers that are below one another entry by entry and have the same sum are the same. -/
theorem eq_of_sum_eq {α : Type} {l : List α} {f g : α → Int} (hle : ∀ a ∈ l, f a ≤ g a)
    (hsum : (l.map f).sum = (l.map g).sum) : ∀ a ∈ l, f a = g a := by
  intro a ha
  by_contra hne
  have hlt : (l.map f).sum < (l.map g).sum := List.sum_lt_sum f g hle ⟨a, ha, lt_of_le_of_ne (hle a ha) hne⟩
  omega

/-- If the boxes with a score and class are the same truncated and rounded, in any order, each of them is exact. -/
theorem exact_of_perm {α : Type} {l : List α} {c : α → Corners} {m : α → ℚ × Int} (hc : ∀ a ∈ l, (c a).Clamped)
    (hs : ∀ a ∈ l, (c a).Solid)
    (h : (l.map fun a => ((c a).truncated, m a)).Perm (l.map fun a => ((c a).rounded, m a))) :
    ∀ a ∈ l, (c a).Exact := by
  have hcoord : ∀ p : Rect → Int, (l.map fun a => p (c a).truncated).sum = (l.map fun a => p (c a).rounded).sum := by
    intro p
    have hp := (h.map fun x => p x.1).sum_eq
    simpa only [List.map_map, Function.comp_def] using hp
  have h1 := eq_of_sum_eq (fun a ha => (hc a ha).x1.trunc_le_round) (hcoord Rect.x)
  have h2 := eq_of_sum_eq (fun a ha => (hc a ha).y1.trunc_le_round) (hcoord Rect.y)
  have h3 := eq_of_sum_eq (fun a ha => (hs a ha).width.trunc_le_round) (hcoord Rect.width)
  have h4 := eq_of_sum_eq (fun a ha => (hs a ha).height.trunc_le_round) (hcoord Rect.height)
  intro a ha
  exact ((hc a ha).exact_iff (hs a ha)).2 ⟨h1 a ha, h2 a ha, h3 a ha, h4 a ha⟩

/-- Truncating all boxes of a list gives the same as rounding those with an area only if all are exact. -/
theorem perm_filter_iff {α : Type} {l : List α} {c : α → Corners} {m : α → ℚ × Int} (hc : ∀ a ∈ l, (c a).Clamped) :
    (l.map fun a => ((c a).truncated, m a)).Perm ((l.filter fun a => (c a).Solid).map fun a => ((c a).rounded, m a)) ↔
      ∀ a ∈ l, (c a).Exact := by
  constructor
  · intro h
    have hlen := h.length_eq
    rw [List.length_map, List.length_map] at hlen
    have hall : l.filter (fun a => (c a).Solid) = l :=
      List.filter_eq_self.2 (List.length_filter_eq_length_iff.1 hlen.symm)
    have hs : ∀ a ∈ l, (c a).Solid :=
      fun a ha => of_decide_eq_true (List.length_filter_eq_length_iff.1 hlen.symm a ha)
    rw [hall] at h
    exact exact_of_perm hc hs h
  · intro h
    have hall : l.filter (fun a => (c a).Solid) = l := List.filter_eq_self.2 fun a ha => decide_eq_true (h a ha).solid
    rw [hall, List.map_congr_left fun a ha => by rw [(h a ha).truncated_eq (hc a ha)]]

/-! ### The candidates of an image -/

namespace YoloCuda

variable {D : YoloCuda} {batch : Nat}

/-- The floats of a slot of the output tensor. -/
def slotData (out : ModelOutput batch) (b : Fin batch) : List ℚ := out.data.drop (b * out.planeSize)

/-- The corners of the box of an anchor. -/
def corners (D : YoloCuda) (pdata : List ℚ) (lp : LetterboxParams) (i : Nat) : Corners :=
  let at_ (k : Nat) : ℚ := pdata.getD (k * D.numPredictions + i) 0
  .of lp (at_ 0) (at_ 1) (at_ 2) (at_ 3)

/-- The output tensor has the shape that the detector has read from the model. -/
def HasShape (D : YoloCuda) (out : ModelOutput batch) : Prop := out.shape = [batch, D.numAttributes, D.numPredictions]

theorem HasShape.planeSize_eq {out : ModelOutput batch} (h : D.HasShape out) (b : Fin batch) :
    out.planeSize = D.numAttributes * D.numPredictions := ModelOutput.planeSize_eq h b

/-- Both builds read the same floats. -/
theorem HasShape.batchInput_eq {out : ModelOutput batch} (h : D.HasShape out) (hattr : 4 ≤ D.numAttributes)
    (b : Fin batch)
    (k i : Nat) : (D.filterConfig batch out.data).batchInput b k i =
      (slotData out b).getD (k * D.numPredictions + i) 0 := by
  have hsum : 4 + (D.numAttributes - 4) = D.numAttributes := by omega
  simp only [GpuFilter.Config.batchInput, filterConfig, slotData, hsum, h.planeSize_eq b, List.getD_eq_getElem?_getD,
    List.getElem?_drop, Nat.add_assoc]

/-- The best score of an anchor, found from `0` on, and its class in the CPU build. -/
def cpuBest (D : YoloCuda) (pdata : List ℚ) (i : Nat) : ℚ × Nat :=
  YoloDetector.bestClass (D.numAttributes - 4) fun c => pdata.getD ((4 + c) * D.numPredictions + i) 0

/-- The anchors that the CPU build keeps: their best score reaches the threshold and their box has an area. -/
def cpuKept (D : YoloCuda) (pdata : List ℚ) (lp : LetterboxParams) : List Nat :=
  (List.range D.numPredictions).filter fun i => D.confThreshold ≤ (D.cpuBest pdata i).1 ∧ (D.corners pdata lp i).Solid

/-- What the CPU build makes of an anchor that it keeps. -/
def cpuCandidate (D : YoloCuda) (pdata : List ℚ) (lp : LetterboxParams) (i : Nat) : Candidate :=
  ((D.corners pdata lp i).rounded, (D.cpuBest pdata i).1, ((D.cpuBest pdata i).2 : Int))

theorem decode_corners (D : YoloCuda) (pdata : List ℚ) (lp : LetterboxParams) (i : Nat) : D.decode pdata lp i =
    let best := D.cpuBest pdata i
    let c := D.corners pdata lp i
    if best.1 < D.confThreshold then none
    else if c.x2 ≤ c.x1 ∨ c.y2 ≤ c.y1 then none
    else some (c.rounded, best.1, best.2) := rfl

theorem decode_eq (D : YoloCuda) (pdata : List ℚ) (lp : LetterboxParams) (i : Nat) :
    ((D.decode pdata lp i).map fun f => (f.1, f.2.1, (f.2.2 : Int)) : Option Candidate) =
      if D.confThreshold ≤ (D.cpuBest pdata i).1 ∧ (D.corners pdata lp i).Solid then some (D.cpuCandidate pdata lp i)
      else none := by
  rw [decode_corners]
  simp only [← Corners.not_solid_iff]
  by_cases hle : D.confThreshold ≤ (D.cpuBest pdata i).1
  · simp only [not_lt.2 hle, if_false, hle, true_and]
    by_cases hs : (D.corners pdata lp i).Solid
    · simp only [hs, not_true, if_false, if_true, Option.map_some]
      rfl
    · simp only [hs, not_false_eq_true, if_true, if_false, Option.map_none]
  · simp only [not_le.1 hle, if_true, hle, false_and, if_false, Option.map_none]

/-- A filter as a selection followed by a map. -/
private theorem filterMap_ite {α β : Type} (l : List α) (p : α → Prop) [DecidablePred p] (g : α → β) :
    (l.filterMap fun a => if p a then some (g a) else none) = (l.filter fun a => p a).map g := by
  induction l with
  | nil => rfl
  | cons a l ih =>
    by_cases hp : p a
    · rw [List.filterMap_cons_some (by rw [if_pos hp]), List.filter_cons_of_pos (by simpa using hp),
        List.map_cons, ih]
    · rw [List.filterMap_cons_none (by rw [if_neg hp]), List.filter_cons_of_neg (by simpa using hp), ih]

/-- What the CPU build hands to `NMSBoxes`. -/
theorem cpuCandidates_eq (D : YoloCuda) (pdata : List ℚ) (lp : LetterboxParams) :
    D.cpuCandidates pdata lp = (D.cpuKept pdata lp).map (D.cpuCandidate pdata lp) := by
  unfold cpuCandidates cpuKept
  rw [List.filterMap_congr fun i _ => D.decode_eq pdata lp i, filterMap_ite]

theorem HasShape.score_eq {out : ModelOutput batch} (h : D.HasShape out) (hattr : 4 ≤ D.numAttributes) (b : Fin batch)
    (i : Nat) : (D.filterConfig batch out.data).score b i =
      fun c => (slotData out b).getD ((4 + c) * D.numPredictions + i) 0 :=
  funext fun c => h.batchInput_eq hattr b (4 + c) i

/-- For a positive threshold the builds accept the same anchors, with the same score and class: the loops over the
classes start with different scores, but below the threshold. -/
theorem HasShape.best_eq {out : ModelOutput batch} (h : D.HasShape out) (hconf : 0 < D.confThreshold) (b : Fin batch)
    (i : Nat) : (D.confThreshold ≤ (D.cpuBest (slotData out b) i).1 ↔ (D.filterConfig batch out.data).Accepts b i) ∧
      (D.confThreshold ≤ (D.cpuBest (slotData out b) i).1 → (D.filterConfig batch out.data).best b i =
        ((D.cpuBest (slotData out b) i).1, ((D.cpuBest (slotData out b) i).2 : Int))) := by
  have hcpu := Argmax.scan_cases (fun c => (slotData out b).getD ((4 + c) * D.numPredictions + i) 0) id (0, 0)
    (D.numAttributes - 4)
  have hcuda := (D.filterConfig batch out.data).best_cases b i
  have hlt : ∀ {c}, c < D.numAttributes - 4 → 4 ≤ D.numAttributes := by omega
  have hbest : D.cpuBest (slotData out b) i =
      Argmax.scan (fun c => (slotData out b).getD ((4 + c) * D.numPredictions + i) 0)
    id (0, 0) (D.numAttributes - 4) := rfl
  have hthresh : (D.filterConfig batch out.data).confThresh = D.confThreshold := rfl
  rw [GpuFilter.Config.Accepts, hthresh, hbest]
  rcases hcpu with ⟨hscan, hall⟩ | ⟨c, hfirst, hpos, hscan⟩
  · -- no score is positive
    rw [hscan]
    refine ⟨⟨fun hle => absurd hle (not_le.2 hconf), fun hle => ?_⟩, fun hle => absurd hle (not_le.2 hconf)⟩
    rcases hcuda with ⟨hb, -⟩ | ⟨c, hc, -, hb⟩
    · rw [hb] at hle
      simp only at hle
      linarith
    · rw [hb, h.score_eq (hlt hc.1)] at hle
      have := hall c hc.1
      simp only at hle this
      linarith
  · rw [hscan]
    have hfirst' : (D.filterConfig batch out.data).FirstBest b i c := by
      rw [GpuFilter.Config.firstBest_iff, h.score_eq (hlt hfirst.lt)]
      exact hfirst
    have hbest' : (D.filterConfig batch out.data).best b i =
        ((slotData out b).getD ((4 + c) * D.numPredictions + i) 0, (c : Int)) := by
      rcases hcuda with ⟨-, hall⟩ | ⟨c', hc', -, hb⟩
      · have := hall c hfirst.lt
        rw [h.score_eq (hlt hfirst.lt)] at this
        simp only at hpos this
        linarith
      · rw [hb, hc'.unique hfirst', h.score_eq (hlt hfirst.lt)]
    rw [hbest']
    exact ⟨Iff.rfl, fun _ => rfl⟩

/-- The record of an anchor. -/
theorem decodeRecord_eq {out : ModelOutput batch} (h : D.HasShape out) (hattr : 4 ≤ D.numAttributes) {b : Fin batch}
    (lp : LetterboxParams) (i : Nat) : decodeRecord lp ((D.filterConfig batch out.data).record b i) =
      ((D.corners (slotData out b) lp i).truncated, (D.filterConfig batch out.data).best b i) := by
  have hbox : ∀ k : Fin 6, k.val < 4 → (D.filterConfig batch out.data).record b i k =
      (slotData out b).getD (k * D.numPredictions + i) 0 := by
    intro k hk
    rw [GpuFilter.Config.record, GpuFilter.Config.outValue, if_pos hk]
    exact h.batchInput_eq hattr b k i
  have hscore : (D.filterConfig batch out.data).record b i 4 = ((D.filterConfig batch out.data).best b i).1 := rfl
  have hclass : (D.filterConfig batch out.data).record b i 5 = ((D.filterConfig batch out.data).best b i).2 := rfl
  simp only [decodeRecord, hbox 0 (by decide), hbox 1 (by decide), hbox 2 (by decide), hbox 3 (by decide), hscore,
    hclass, cTrunc_intCast]
  rfl

theorem clampCount_length (D : YoloCuda) (n : Nat) : D.clampCount (n : Int) = min n D.maxDetections := by
  unfold clampCount
  omega

/-- What the CUDA build hands to `NMSBoxes`: the first anchors in the order in which they were counted. -/
theorem candidates_eq {out : ModelOutput batch} {b : Fin batch} (lp : LetterboxParams) {hostCount : Int}
    {cpuFiltered : Nat → Fin 6 → ℚ} {order : List Nat}
    (hf : GpuFilter.Compacted (D.filterConfig batch out.data) b hostCount cpuFiltered order) :
    D.candidates hostCount cpuFiltered lp = (order.take D.maxDetections).map fun i =>
      decodeRecord lp ((D.filterConfig batch out.data).record b i) := by
  rw [candidates, hf.count_eq, clampCount_length]
  refine List.ext_getElem (by simp [Nat.min_comm]) fun j hj _ => ?_
  have hlt : j < min order.length D.maxDetections := by simpa using hj
  have hget : order[j]? = some order[j] := List.getElem?_eq_getElem (by omega)
  have hslot : cpuFiltered j = (D.filterConfig batch out.data).record b order[j] :=
    hf.record j _ hget (by simp only [filterConfig]; omega)
  rw [List.getElem_map, List.getElem_map, List.getElem_range, List.getElem_take, hslot]

/-- When the filter has compacted the anchors of an image that reach the threshold and there is room for them, both
builds hand the same candidates to `NMSBoxes` if and only if the box of each of them is exact. -/
theorem candidates_agree_iff (D : YoloCuda) {batch : Nat} (out : ModelOutput batch) (hshape : D.HasShape out)
    (hconf : 0 < D.confThreshold) (b : Fin batch) {hostCount : Int} {cpuFiltered : Nat → Fin 6 → ℚ} {order : List Nat}
    (hfilter : GpuFilter.Compacted (D.filterConfig batch out.data) b hostCount cpuFiltered order)
    (hroom : order.length ≤ D.maxDetections) :
    (D.candidates hostCount cpuFiltered (out.letterboxParams b) : Multiset Candidate) =
        D.cpuCandidates (slotData out b) (out.letterboxParams b) ↔
      ∀ i ∈ (D.filterConfig batch out.data).passing b,
        (D.corners (slotData out b) (out.letterboxParams b) i).Exact := by
  have hpassing : (D.filterConfig batch out.data).accepted b = (D.filterConfig batch out.data).passing b :=
    GpuFilter.Config.accepted_eq_passing (lt_trans (by norm_num) hconf) b
  have hperm := hfilter.perm
  rw [hpassing] at hperm
  have hc : ∀ i ∈ (D.filterConfig batch out.data).passing b,
      (D.corners (slotData out b) (out.letterboxParams b) i).Clamped := fun i _ => Corners.clamped_of ..
  have hcuda : (D.candidates hostCount cpuFiltered (out.letterboxParams b)).Perm
      (((D.filterConfig batch out.data).passing b).map fun i =>
        ((D.corners (slotData out b) (out.letterboxParams b) i).truncated,
          (D.filterConfig batch out.data).best b i)) := by
    rw [candidates_eq _ hfilter, List.take_of_length_le hroom]
    refine (hperm.map _).trans (.of_eq (List.map_congr_left fun i hi => ?_))
    obtain ⟨c, hlt, -⟩ := (GpuFilter.Config.mem_passing.1 hi).2
    exact decodeRecord_eq hshape (by simp only [filterConfig] at hlt; omega) _ i
  have hcpu : D.cpuCandidates (slotData out b) (out.letterboxParams b) =
      (((D.filterConfig batch out.data).passing b).filter fun i =>
        (D.corners (slotData out b) (out.letterboxParams b) i).Solid).map fun i =>
          ((D.corners (slotData out b) (out.letterboxParams b) i).rounded,
            (D.filterConfig batch out.data).best b i) := by
    have hkept : D.cpuKept (slotData out b) (out.letterboxParams b) =
        ((D.filterConfig batch out.data).passing b).filter fun i =>
          (D.corners (slotData out b) (out.letterboxParams b) i).Solid := by
      rw [← hpassing, GpuFilter.Config.accepted, List.filter_filter]
      refine List.filter_congr fun i _ => ?_
      rw [Bool.decide_and, Bool.and_comm, decide_eq_decide.2 (hshape.best_eq hconf b i).1]
      rfl
    rw [cpuCandidates_eq, hkept]
    refine List.map_congr_left fun i hi => ?_
    have hmem := (List.mem_filter.1 hi).1
    rw [← hpassing, GpuFilter.Config.mem_accepted] at hmem
    rw [(hshape.best_eq hconf b i).2 ((hshape.best_eq hconf b i).1.2 hmem.2)]
    rfl
  rw [Multiset.coe_eq_coe, hcuda.congr_left, hcpu, perm_filter_iff hc]

/-! ### One anchor -/

/-- A box of the given size around (10, 10), in an image of the size of the network. -/
def boxOutput (size : ℚ) : ModelOutput 1 := ⟨[10, 10, size, size, 1], [1, 5, 1], fun _ => ⟨1, 0, 0, 640, 640⟩⟩

/-- The one record of the box. -/
def boxRecord (size : ℚ) : Nat → Fin 6 → ℚ := fun _ => (oneAnchor.filterConfig 1 (boxOutput size).data).record 0 0

theorem compacted_box (size : ℚ) :
    GpuFilter.Compacted (oneAnchor.filterConfig 1 (boxOutput size).data) 0 1 (boxRecord size) [0] := by
  have hbest : (oneAnchor.filterConfig 1 (boxOutput size).data).best 0 0 = (1, 0) := rfl
  have haccepted : (oneAnchor.filterConfig 1 (boxOutput size).data).accepted 0 = [0] :=
    List.filter_eq_self.2 fun i hi => by
      rw [Nat.lt_one_iff.1 (List.mem_range.1 hi), hbest]
      show decide ((1 / 4 : ℚ) ≤ 1) = true
      norm_num
  refine ⟨haccepted ▸ List.Perm.refl _, rfl, fun j i hj _ => ?_⟩
  rw [List.mem_singleton.1 (List.mem_of_getElem? hj)]
  rfl

theorem candidates_agree_iff_two :
    (oneAnchor.candidates 1 (boxRecord 2) ((boxOutput 2).letterboxParams 0) : Multiset Candidate) =
        oneAnchor.cpuCandidates (slotData (boxOutput 2) 0) ((boxOutput 2).letterboxParams 0) ↔
      ∀ i ∈ (oneAnchor.filterConfig 1 (boxOutput 2).data).passing 0,
        (oneAnchor.corners (slotData (boxOutput 2) 0) ((boxOutput 2).letterboxParams 0) i).Exact :=
  candidates_agree_iff oneAnchor (boxOutput 2) rfl (by decide +kernel) 0 (compacted_box 2) (by decide)

/-- A box of size one around (10, 10) starts at 19/2: truncated at 9, rounded at 10. -/
theorem half_not_agrees : ¬∀ (D : YoloCuda) (batch : Nat) (out : ModelOutput batch), D.HasShape out →
    0 < D.confThreshold →
    ∀ b : Fin batch, 0 < (out.letterboxParams b).scale → ∀ hostCount cpuFiltered order,
      GpuFilter.Compacted (D.filterConfig batch out.data) b hostCount cpuFiltered order →
        order.length ≤ D.maxDetections →
        (D.candidates hostCount cpuFiltered (out.letterboxParams b) : Multiset Candidate) =
          D.cpuCandidates (slotData out b) (out.letterboxParams b) := by
  intro h
  have heq := h oneAnchor 1 (boxOutput 1) rfl (by decide +kernel) 0 (by decide +kernel) 1 (boxRecord 1) [0]
    (compacted_box 1)
    (by decide)
  rw [Multiset.coe_eq_coe] at heq
  have hx := (heq.map fun f => f.1.x).sum_eq
  have hcuda : ((oneAnchor.candidates 1 (boxRecord 1) ((boxOutput 1).letterboxParams 0)).map fun f => f.1.x) = [9] := by
    decide +kernel
  have hcpu : ((oneAnchor.cpuCandidates (slotData (boxOutput 1) 0) ((boxOutput 1).letterboxParams 0)).map
      fun f => f.1.x) = [10] := by decide +kernel
  rw [hcuda, hcpu] at hx
  cases hx

end YoloCuda

end OnnxInference
