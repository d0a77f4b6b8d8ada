import OnnxInference.Device.GpuFilterSchedules
import OnnxInference.Runner.YoloAgreement

/-!
# What YOLO reads back from the filter (CUDA build)

A call of `postprocess` runs the kernel on a buffer of counts that an earlier call has left and decodes what the kernel
leaves.  `int` products of both are undefined out of range; `cudaDefined_iff` says when there are none.
-/

namespace OnnxInference

open Transition

namespace YoloCuda

variable {D : YoloCuda} {batch : Nat} {out : ModelOutput batch}

/-! ### Runs of the kernel -/

/-- What a buffer of counts holds: zeros after the constructor, then what the kernel of a call has left. -/
inductive Counts (D : YoloCuda) (batch : Nat) : (Nat → Int) → Prop
  | memset : Counts D batch fun _ => 0
  | filter {count : Nat → Int} (h : Counts D batch count) {data : List ℚ} {output : Int → ℚ}
    {s : GpuFilter.State (D.filterConfig batch data)}
    (hs : (GpuFilter.launch (D.filterConfig batch data) count output).Reachable s) (hf : s.Finished) :
    Counts D batch s.count

/-- The counts that are read back when the kernel has finished, for the answers of the two synchronizations. -/
def readBack {data : List ℚ} (s : GpuFilter.State (D.filterConfig batch data)) (sync1 sync2 : Bool) :
    YoloPostprocess.Device batch :=
  ⟨sync1, fun b => s.count b, sync2, false⟩

/-- The filtered detections that are read back. -/
def filtered {data : List ℚ}
    (s : GpuFilter.State (D.filterConfig batch data)) (b : Fin batch) (j : Nat) (k : Fin 6) : ℚ :=
  s.output ((D.filterConfig batch data).outAddr b j k)

/-- What the CUDA build can return of a model output. -/
def Returns (D : YoloCuda) (out : ModelOutput batch) (sync1 sync2 : Bool)
    (results : Except Error (List (List Candidate))) :
    Prop :=
  ∃ count output s, D.Counts batch count ∧
    (GpuFilter.launch (D.filterConfig batch out.data) count output).Reachable s ∧ s.Finished ∧
      results = D.postprocess (readBack s sync1 sync2) (filtered s) out

/-- No `int` leaves its range: in no run of the kernel, and not in `batch * max_detections_ * 6`, which the constructor
and the read-back compute. -/
structure CudaDefined (D : YoloCuda) (out : ModelOutput batch) : Prop where
  kernel : ∀ count output s, D.Counts batch count →
    (GpuFilter.launch (D.filterConfig batch out.data) count output).Reachable s → ∀ t, ¬s.Overflows t
  host : batch * D.maxDetections * 6 < 2 ^ 31

/-- The bounds on the products. -/
structure CudaFits (D : YoloCuda) (out : ModelOutput batch) : Prop where
  kernel : (D.filterConfig batch out.data).Launchable → (D.filterConfig batch out.data).InRange
  host : batch * D.maxDetections * 6 < 2 ^ 31

theorem Counts.nonneg {count : Nat → Int} (h : D.Counts batch count) (b : Nat) : 0 ≤ count b := by
  induction h generalizing b with
  | memset => exact le_rfl
  | filter _ hs _ ih => exact (GpuFilter.nonNeg_of_reachable ih hs).2.count b

theorem Counts.of_not_launchable {count : Nat → Int} (h : D.Counts batch count) {data : List ℚ}
    (hl : ¬(D.filterConfig batch data).Launchable) (b : Nat) : count b = 0 := by
  induction h with
  | memset => rfl
  | @filter _ _ data' _ _ hs _ ih =>
    have hl' : ¬(D.filterConfig batch data').Launchable := hl
    rw [(GpuFilter.finished_of_not_launchable hl' hs).2]
    exact ih

/-- A launch leaves no more than the number of anchors. -/
theorem Counts.le {count : Nat → Int} (h : D.Counts batch count) (b : Fin batch) : count b ≤ D.numPredictions := by
  cases h with
  | memset => exact Int.natCast_nonneg _
  | @filter count h data output s hs hf =>
    by_cases hl : (D.filterConfig batch data).Launchable
    · obtain ⟨order, hm⟩ := GpuFilter.exists_mixed hl h.nonneg hs hf b
      have hlen := hm.length_le
      rw [hm.count_eq]
      exact_mod_cast hlen
    · rw [(GpuFilter.finished_of_not_launchable hl hs).2, h.of_not_launchable hl]
      exact Int.natCast_nonneg _

/-- Nothing overflows if and only if the products are in range. -/
theorem cudaDefined_iff (D : YoloCuda) (out : ModelOutput batch) : D.CudaDefined out ↔ D.CudaFits out := by
  constructor
  · rintro ⟨hkernel, hhost⟩
    exact ⟨fun hl => hl.in_range (fun _ => 0) (fun _ => 0) fun s hs => hkernel _ _ s .memset hs, hhost⟩
  · rintro ⟨hkernel, hhost⟩
    refine ⟨fun count output s hcount hs t => ?_, hhost⟩
    by_cases hl : (D.filterConfig batch out.data).Launchable
    · exact (GpuFilter.sane_of_reachable hl hcount.nonneg hs).not_overflows hl (hkernel hl)
        (fun bid => ⟨hcount.nonneg bid, hcount.le bid⟩) t
    · rw [GpuFilter.State.Overflows, (GpuFilter.finished_of_not_launchable hl hs).1 t]
      exact not_false

/-! ### Candidates -/

theorem clampCount_pos_iff {hostCount : Int} : 0 < D.clampCount hostCount ↔ 0 < D.maxDetections ∧ 0 < hostCount := by
  unfold clampCount
  omega

/-- When both synchronizations succeed every slot is decoded; with no detection at all there is nothing to decode. -/
theorem postprocess_of_sync {o : YoloPostprocess.Device batch} {out : ModelOutput batch}
    (hacc : YoloPostprocess.Accepted out = true) (h1 : o.sync1 = true) (h2 : o.sync2 = true)
    (cpuFiltered : Fin batch → Nat → Fin 6 → ℚ) : D.postprocess o cpuFiltered out =
      .ok (List.ofFn fun b => D.suppress (D.candidates (o.hostCounts b) (cpuFiltered b) (out.letterboxParams b))) := by
  by_cases h0 : o.totalDets D.maxDetections = 0
  · -- the early return gives what the decode of no detections would give
    have hnone : ∀ b, D.candidates (o.hostCounts b) (cpuFiltered b) (out.letterboxParams b) = [] := by
      intro b
      have hclamp : ¬0 < D.clampCount (o.hostCounts b) := fun h =>
        (o.totalDets_eq_zero_iff _).1 h0 ⟨(clampCount_pos_iff.1 h).1, b, (clampCount_pos_iff.1 h).2⟩
      rw [candidates, Nat.eq_zero_of_not_pos hclamp, List.range_zero, List.map_nil]
    have hempty : (List.ofFn fun b =>
        D.suppress (D.candidates (o.hostCounts b) (cpuFiltered b) (out.letterboxParams b))) =
          List.replicate batch [] := by
      simp only [hnone]
      exact List.ofFn_const ..
    rw [hempty]
    simp [postprocess, hacc, h1, h0]
  · simp [postprocess, hacc, h1, h2, h0]

theorem postprocess_of_not_sync {o : YoloPostprocess.Device batch} {out : ModelOutput batch}
    (hacc : YoloPostprocess.Accepted out = true) (h : ¬(o.sync1 = true ∧ o.sync2 = true))
    (cpuFiltered : Fin batch → Nat → Fin 6 → ℚ) : D.postprocess o cpuFiltered out =
      .ok (List.replicate batch []) := by
  unfold postprocess
  rw [hacc]
  by_cases h1 : o.sync1 = true
  · have h2 : ¬o.sync2 = true := fun h2 => h ⟨h1, h2⟩
    simp [h1, h2]
  · simp [h1]

theorem postprocess_of_not_accepted {o : YoloPostprocess.Device batch} {out : ModelOutput batch}
    (hacc : ¬YoloPostprocess.Accepted out = true) (cpuFiltered : Fin batch → Nat → Fin 6 → ℚ) :
    D.postprocess o cpuFiltered out = .error (.runtimeError "Model output is invalid.") := by
  simp [postprocess, hacc]

/-- The candidates of an image are the decoded records of the slots that are filled. -/
theorem mem_candidates {n : Int} {cpuFiltered : Nat → Fin 6 → ℚ} {lp : LetterboxParams} {c : Candidate} :
    c ∈ D.candidates n cpuFiltered lp ↔ ∃ j < D.clampCount n, decodeRecord lp (cpuFiltered j) = c := by
  simp [candidates]

end YoloCuda

end OnnxInference
