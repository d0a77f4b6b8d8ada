import OnnxInference.Quantile

/-!
# The statistics of the benchmark (`benchmark/benchmark_runner.h`)

`percentile` sorts the vector that it is given, and `compute_result` calls it four times on the same vector.  Times
are rational numbers.  The percentiles are an interpolation of the sorted samples, so they are ordered as they should
be and do not depend on the order of the samples (`latency_consistent`).
-/

namespace OnnxInference.Latency

/-- The value and the vector, which is sorted; `none` if an index is out of range. -/
def percentile (samples : List ℚ) (p : ℚ) : Option (ℚ × List ℚ) :=
  if samples.isEmpty then some (0, samples)
  else do
    let samples := samples.insertionSort (· ≤ ·)
    let idx := p / 100 * ((samples.length : ℚ) - 1)
    let lo := ⌊idx⌋₊
    let hi := ⌈idx⌉₊
    if lo = hi ∨ samples.length ≤ hi then
      let x ← samples[lo]?
      return (x, samples)
    else
      let frac := idx - lo
      let x ← samples[lo]?
      let y ← samples[hi]?
      return (x * (1 - frac) + y * frac, samples)

structure BenchmarkResult where
  modeName : String
  totalRequests : Nat := 0
  totalWallMs : ℚ := 0
  throughputFps : ℚ := 0
  latencyP50Ms : ℚ := 0
  latencyP90Ms : ℚ := 0
  latencyP95Ms : ℚ := 0
  latencyP99Ms : ℚ := 0
  latencyAvgMs : ℚ := 0
  latencyMinMs : ℚ := 0
  latencyMaxMs : ℚ := 0
  overrideBatch : Nat := 0
  latencySamplesMs : List ℚ
  deriving DecidableEq

def computeResult (modeName : String) (samplesMs : List ℚ) (totalWallMs : ℚ) (overrideBatch : Nat) :
    Option BenchmarkResult := do
  let result : BenchmarkResult :=
    { modeName := modeName
      totalRequests := samplesMs.length
      totalWallMs := totalWallMs
      overrideBatch := overrideBatch
      latencySamplesMs := samplesMs }
  if samplesMs.isEmpty then return result
  let min ← samplesMs.min?
  let max ← samplesMs.max?
  let avg := samplesMs.foldl (· + ·) (0 : ℚ) / samplesMs.length
  let (p50, samplesMs) ← percentile samplesMs 50
  let (p90, samplesMs) ← percentile samplesMs 90
  let (p95, samplesMs) ← percentile samplesMs 95
  let (p99, samplesMs) ← percentile samplesMs 99
  return { result with
    latencyMinMs := min
    latencyMaxMs := max
    latencyAvgMs := avg
    latencyP50Ms := p50
    latencyP90Ms := p90
    latencyP95Ms := p95
    latencyP99Ms := p99
    throughputFps := if totalWallMs > 0 then (samplesMs.length : ℚ) / totalWallMs * 1000 else 0 }

/-! ### Percentiles -/

/-- The samples in increasing order, by their index. -/
def orderStatistic (samples : List ℚ) (i : Nat) : ℚ := (samples.insertionSort (· ≤ ·)).getD i 0

/-- The index that `percentile` interpolates at. -/
def position (samples : List ℚ) (p : ℚ) : ℚ := p / 100 * ((samples.length : ℚ) - 1)

/-- What `percentile` returns. -/
def percentileValue (samples : List ℚ) (p : ℚ) : ℚ :=
  Quantile.interpolate (orderStatistic samples) (position samples p)

section Percentile

variable {samples samples' : List ℚ} {p q : ℚ}

theorem one_le_length (hne : samples ≠ []) : (1 : ℚ) ≤ samples.length := by
  exact_mod_cast List.length_pos_iff.2 hne

theorem position_nonneg (hne : samples ≠ []) (hp : 0 ≤ p) : 0 ≤ position samples p := by
  have hlen := one_le_length hne
  exact mul_nonneg (by linarith) (by linarith)

theorem position_mono (hne : samples ≠ []) (hpq : p ≤ q) : position samples p ≤ position samples q := by
  have hlen := one_le_length hne
  exact mul_le_mul_of_nonneg_right (by linarith) (by linarith)

theorem position_le (hne : samples ≠ []) (hp : p ≤ 100) : position samples p ≤ (samples.length - 1 : Nat) := by
  have hlen := one_le_length hne
  have hpos := List.length_pos_iff.2 hne
  rw [Nat.cast_sub hpos, Nat.cast_one]
  calc position samples p ≤ position samples 100 := position_mono hne hp
    _ = samples.length - 1 := by rw [position]; ring

theorem ceil_position_lt (hne : samples ≠ []) (hp : p ≤ 100) : ⌈position samples p⌉₊ < samples.length := by
  have hle : ⌈position samples p⌉₊ ≤ samples.length - 1 := Nat.ceil_le.2 (position_le hne hp)
  have hpos := List.length_pos_iff.2 hne
  omega

theorem orderStatistic_mono {i j : Nat} (hij : i ≤ j) (hj : j ≤ samples.length - 1) (hne : samples ≠ []) :
    orderStatistic samples i ≤ orderStatistic samples j := by
  have hpos := List.length_pos_iff.2 hne
  exact Quantile.getD_insertionSort_le samples 0 hij (by omega)

theorem getElem?_sorted {i : Nat} (hi : i < samples.length) :
    (samples.insertionSort (· ≤ ·))[i]? = some (orderStatistic samples i) := by
  have hi' : i < (samples.insertionSort (· ≤ ·)).length := by rwa [List.length_insertionSort]
  rw [orderStatistic, List.getD_eq_getElem _ _ hi', List.getElem?_eq_getElem hi']

/-- No index is out of range, and the vector is sorted. -/
theorem percentile_eq (hne : samples ≠ []) (hp : p ≤ 100) :
    percentile samples p = some (percentileValue samples p, samples.insertionSort (· ≤ ·)) := by
  have hceil := ceil_position_lt hne hp
  have hfloor : ⌊position samples p⌋₊ < samples.length := (Nat.floor_le_ceil _).trans_lt hceil
  have hempty : samples.isEmpty = false := by simpa using hne
  have hidx : p / 100 * ((samples.length : ℚ) - 1) = position samples p := rfl
  have hnot : ¬samples.length ≤ ⌈position samples p⌉₊ := Nat.not_le.2 hceil
  simp only [percentile, hempty, Bool.false_eq_true, if_false, List.length_insertionSort, hidx, hnot, or_false,
    getElem?_sorted hceil, getElem?_sorted hfloor, percentileValue, Quantile.interpolate]
  split <;> rfl

theorem percentileValue_mono (hne : samples ≠ []) (hp : 0 ≤ p) (hpq : p ≤ q) (hq : q ≤ 100) :
    percentileValue samples p ≤ percentileValue samples q :=
  Quantile.interpolate_le_interpolate (fun _ _ hij hj => orderStatistic_mono hij hj hne) (position_nonneg hne hp)
    (position_mono hne hpq) (position_le hne hq)

theorem percentileValue_zero (samples : List ℚ) : percentileValue samples 0 = orderStatistic samples 0 := by
  have hpos : position samples 0 = (0 : Nat) := by rw [position, zero_div, zero_mul, Nat.cast_zero]
  rw [percentileValue, hpos, Quantile.interpolate_natCast]

theorem percentileValue_hundred (hne : samples ≠ []) :
    percentileValue samples 100 = orderStatistic samples (samples.length - 1) := by
  have hpos : position samples 100 = (samples.length - 1 : Nat) := by
    rw [Nat.cast_sub (List.length_pos_iff.2 hne), Nat.cast_one, position]
    ring
  rw [percentileValue, hpos, Quantile.interpolate_natCast]

theorem percentile_congr (h : samples.Perm samples') (hne : samples ≠ []) (p : ℚ) :
    percentile samples p = percentile samples' p := by
  have hne' : samples' ≠ [] := fun hnil => hne (hnil ▸ h).eq_nil
  have hempty : samples.isEmpty = false := by simpa using hne
  have hempty' : samples'.isEmpty = false := by simpa using hne'
  simp only [percentile, hempty, hempty', Bool.false_eq_true, if_false, Quantile.insertionSort_eq_of_perm h]

/-- The vector that a call leaves behind gives the same percentiles. -/
theorem percentile_insertionSort (hne : samples ≠ []) (p : ℚ) :
    percentile (samples.insertionSort (· ≤ ·)) p = percentile samples p :=
  (percentile_congr (List.perm_insertionSort _ samples).symm hne p).symm

theorem min?_eq (hne : samples ≠ []) : samples.min? = some (orderStatistic samples 0) := by
  rw [List.min?_eq_some_iff]
  exact ⟨Quantile.getD_insertionSort_mem samples 0 (List.length_pos_iff.2 hne),
    fun b hb => Quantile.head_insertionSort_le samples 0 hb⟩

theorem max?_eq (hne : samples ≠ []) : samples.max? = some (orderStatistic samples (samples.length - 1)) := by
  rw [List.max?_eq_some_iff]
  have hpos := List.length_pos_iff.2 hne
  exact ⟨Quantile.getD_insertionSort_mem samples 0 (by omega), fun b hb => Quantile.le_last_insertionSort samples 0 hb⟩

/-- The percentiles of the samples are what they should be. -/
structure PercentileSound (samples : List ℚ) : Prop where
  between : ∀ p, 0 ≤ p → p ≤ 100 → ∃ v k, percentile samples p = some (v, samples.insertionSort (· ≤ ·)) ∧
    k < samples.length ∧ orderStatistic samples k ≤ v ∧ v ≤ orderStatistic samples (min (k + 1) (samples.length - 1))
  mono : ∀ p q, 0 ≤ p → p ≤ q → q ≤ 100 → ∀ v ∈ percentile samples p, ∀ w ∈ percentile samples q, v.1 ≤ w.1
  zero : (percentile samples 0).map Prod.fst = samples.min?
  hundred : (percentile samples 100).map Prod.fst = samples.max?
  perm : ∀ samples', samples.Perm samples' → ∀ p, percentile samples p = percentile samples' p

theorem percentile_sound (hne : samples ≠ []) : PercentileSound samples := by
  refine ⟨fun p hp hp' => ?_, fun p q hp hpq hq v hv w hw => ?_, ?_, ?_, fun samples' h p => percentile_congr h hne p⟩
  · have hceil := ceil_position_lt hne hp'
    have hle := Quantile.ceil_le_floor_add_one (position samples p)
    have hmono := Quantile.interpolate_mem_Icc
      (orderStatistic_mono (Nat.floor_le_ceil (position samples p)) (by omega) hne) (position_nonneg hne hp)
    refine ⟨_, ⌊position samples p⌋₊, percentile_eq hne hp', (Nat.floor_le_ceil _).trans_lt hceil, hmono.1, ?_⟩
    exact hmono.2.trans (orderStatistic_mono (by omega) (by omega) hne)
  · rw [percentile_eq hne (hpq.trans hq), Option.mem_some_iff] at hv
    rw [percentile_eq hne hq, Option.mem_some_iff] at hw
    subst hv hw
    exact percentileValue_mono hne hp hpq hq
  · rw [percentile_eq hne (by norm_num), min?_eq hne, Option.map_some, percentileValue_zero]
  · rw [percentile_eq hne le_rfl, max?_eq hne, Option.map_some, percentileValue_hundred hne]

end Percentile

/-! ### Results -/

/-- The statistics are in order. -/
structure BenchmarkResult.Ordered (r : BenchmarkResult) : Prop where
  min_le_p50 : r.latencyMinMs ≤ r.latencyP50Ms
  p50_le_p90 : r.latencyP50Ms ≤ r.latencyP90Ms
  p90_le_p95 : r.latencyP90Ms ≤ r.latencyP95Ms
  p95_le_p99 : r.latencyP95Ms ≤ r.latencyP99Ms
  p99_le_max : r.latencyP99Ms ≤ r.latencyMaxMs
  min_le_avg : r.latencyMinMs ≤ r.latencyAvgMs
  avg_le_max : r.latencyAvgMs ≤ r.latencyMaxMs

/-- The percentiles are those of the samples as they were given. -/
structure BenchmarkResult.Fresh (r : BenchmarkResult) (samples : List ℚ) : Prop where
  p50 : (percentile samples 50).map Prod.fst = some r.latencyP50Ms
  p90 : (percentile samples 90).map Prod.fst = some r.latencyP90Ms
  p95 : (percentile samples 95).map Prod.fst = some r.latencyP95Ms
  p99 : (percentile samples 99).map Prod.fst = some r.latencyP99Ms

section Result

variable {samples samples' : List ℚ}

/-- The result in terms of the sorted samples. -/
def statistics (modeName : String) (samples : List ℚ) (totalWallMs : ℚ) (overrideBatch : Nat) : BenchmarkResult where
  modeName := modeName
  totalRequests := samples.length
  totalWallMs := totalWallMs
  throughputFps := if totalWallMs > 0 then (samples.length : ℚ) / totalWallMs * 1000 else 0
  latencyP50Ms := percentileValue samples 50
  latencyP90Ms := percentileValue samples 90
  latencyP95Ms := percentileValue samples 95
  latencyP99Ms := percentileValue samples 99
  latencyAvgMs := samples.sum / samples.length
  latencyMinMs := orderStatistic samples 0
  latencyMaxMs := orderStatistic samples (samples.length - 1)
  overrideBatch := overrideBatch
  latencySamplesMs := samples

theorem computeResult_eq (hne : samples ≠ []) (modeName : String) (totalWallMs : ℚ) (overrideBatch : Nat) :
    computeResult modeName samples totalWallMs overrideBatch =
      some (statistics modeName samples totalWallMs overrideBatch) := by
  have hempty : samples.isEmpty = false := by simpa using hne
  have h50 := percentile_eq (p := 50) hne (by norm_num)
  have h90 := percentile_eq (p := 90) hne (by norm_num)
  have h95 := percentile_eq (p := 95) hne (by norm_num)
  have h99 := percentile_eq (p := 99) hne (by norm_num)
  simp only [computeResult, hempty, Bool.false_eq_true, if_false, min?_eq hne, max?_eq hne, h50, h90, h95, h99,
    percentile_insertionSort hne, List.length_insertionSort, ← List.sum_eq_foldl, statistics, bind, Option.bind, pure]

theorem avg_mem_Icc (hne : samples ≠ []) : orderStatistic samples 0 ≤ samples.sum / samples.length ∧
    samples.sum / samples.length ≤ orderStatistic samples (samples.length - 1) := by
  have hlen : (0 : ℚ) < samples.length := by exact_mod_cast List.length_pos_iff.2 hne
  have hmin := List.card_nsmul_le_sum samples _ fun b hb => Quantile.head_insertionSort_le samples 0 hb
  have hmax := List.sum_le_card_nsmul samples _ fun b hb => Quantile.le_last_insertionSort samples 0 hb
  rw [nsmul_eq_mul, mul_comm] at hmin hmax
  exact ⟨(le_div_iff₀ hlen).2 hmin, (div_le_iff₀ hlen).2 hmax⟩

theorem statistics_ordered (hne : samples ≠ []) (modeName : String) (totalWallMs : ℚ) (overrideBatch : Nat) :
    (statistics modeName samples totalWallMs overrideBatch).Ordered := by
  refine ⟨?_, ?_, ?_, ?_, ?_, (avg_mem_Icc hne).1, (avg_mem_Icc hne).2⟩
  · show orderStatistic samples 0 ≤ percentileValue samples 50
    rw [← percentileValue_zero]
    exact percentileValue_mono hne le_rfl (by norm_num) (by norm_num)
  · exact percentileValue_mono hne (by norm_num) (by norm_num) (by norm_num)
  · exact percentileValue_mono hne (by norm_num) (by norm_num) (by norm_num)
  · exact percentileValue_mono hne (by norm_num) (by norm_num) (by norm_num)
  · show percentileValue samples 99 ≤ orderStatistic samples (samples.length - 1)
    rw [← percentileValue_hundred hne]
    exact percentileValue_mono hne (by norm_num) (by norm_num) le_rfl

/-- Of the order of the samples nothing is left but the samples themselves. -/
theorem statistics_congr (h : samples.Perm samples') (modeName : String) (totalWallMs : ℚ) (overrideBatch : Nat) :
    statistics modeName samples' totalWallMs overrideBatch =
      { statistics modeName samples totalWallMs overrideBatch with latencySamplesMs := samples' } := by
  have hsorted : orderStatistic samples' = orderStatistic samples := by
    funext i
    rw [orderStatistic, orderStatistic, Quantile.insertionSort_eq_of_perm h]
  simp only [statistics, percentileValue, position, hsorted, h.length_eq, h.sum_eq]

/-- The statistics of a list of samples are in order, whatever the order of the samples, and the calls of `percentile`
do not disturb each other. -/
theorem latency_consistent (hne : samples ≠ []) : PercentileSound samples ∧
    ∀ modeName totalWallMs overrideBatch, ∃ r, computeResult modeName samples totalWallMs overrideBatch = some r ∧
      r.Ordered ∧ r.Fresh samples ∧ ∀ samples', samples.Perm samples' →
        computeResult modeName samples' totalWallMs overrideBatch = some { r with latencySamplesMs := samples' } := by
  refine ⟨percentile_sound hne, fun modeName totalWallMs overrideBatch => ⟨_, computeResult_eq hne _ _ _,
    statistics_ordered hne _ _ _, ⟨?_, ?_, ?_, ?_⟩, fun samples' h => ?_⟩⟩
  · rw [percentile_eq hne (by norm_num)]
    rfl
  · rw [percentile_eq hne (by norm_num)]
    rfl
  · rw [percentile_eq hne (by norm_num)]
    rfl
  · rw [percentile_eq hne (by norm_num)]
    rfl
  · have hne' : samples' ≠ [] := fun hnil => hne (hnil ▸ h).eq_nil
    rw [computeResult_eq hne', statistics_congr h]

theorem latency_consistent_three : [3, 1, 2] ≠ ([] : List ℚ) ∧ PercentileSound [3, 1, 2] :=
  ⟨by simp, (latency_consistent (by simp)).1⟩

/-- The samples of a result are in the order in which they were given. -/
theorem computeResult_not_perm : ¬∀ samples samples' : List ℚ, samples ≠ [] → samples.Perm samples' →
    ∀ modeName totalWallMs overrideBatch, computeResult modeName samples totalWallMs overrideBatch =
      computeResult modeName samples' totalWallMs overrideBatch := by
  intro h
  have heq := h [1, 2] [2, 1] (by simp) (List.Perm.swap 2 1 []) "sync" 1 1
  rw [computeResult_eq (by simp), computeResult_eq (by simp), Option.some.injEq] at heq
  have hsamples : [(1 : ℚ), 2] = [2, 1] := congrArg BenchmarkResult.latencySamplesMs heq
  norm_num at hsamples

end Result

end OnnxInference.Latency
