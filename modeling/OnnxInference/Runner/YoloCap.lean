import OnnxInference.Runner.YoloReadBack

/-!
# The cap on the detections of YOLO

The CPU build only reserves room for `max_detections_` candidates and keeps all of them; the CUDA build keeps the
anchors that are counted first, and loses those counted before the reset.  So the cap holds in every run, with the best
anchors kept, if and only if it does not matter: `capped_iff`.
-/

namespace OnnxInference

/-- Two members of a list are the first and the last of some order of it. -/
private theorem exists_order {l : List Nat} {i j : Nat} (hi : i ∈ l) (hj : j ∈ l) (hne : i ≠ j) :
    ∃ m, (i :: (m ++ [j])).Perm l := by
  have hj' : j ∈ l.erase i := (List.mem_erase_of_ne hne.symm).2 hj
  refine ⟨(l.erase i).erase j, ?_⟩
  exact ((List.perm_append_singleton j _).trans (List.perm_cons_erase hj').symm).cons i |>.trans
    (List.perm_cons_erase hi).symm

/-! ### Scores -/

namespace GpuFilter.Config

variable {cfg : GpuFilter.Config}

theorem neg_one_le_best (bid i : Nat) : -1 ≤ (cfg.best bid i).1 := by
  rcases cfg.best_cases bid i with ⟨hb, -⟩ | ⟨c, -, hlt, hb⟩
  · rw [hb]
  · rw [hb]
    exact hlt.le

theorem score_le_best {bid i c : Nat} (hc : c < cfg.numClasses) : cfg.score bid i c ≤ (cfg.best bid i).1 := by
  rcases cfg.best_cases bid i with ⟨hb, hle⟩ | ⟨c', hfirst, -, hb⟩
  · rw [hb]
    exact hle c hc
  · rw [hb]
    exact hfirst.2.1 c hc

theorem accepted_of_passing {bid i : Nat} (h : i ∈ cfg.passing bid) : i ∈ cfg.accepted bid := by
  obtain ⟨hlt, hpass⟩ := mem_passing.1 h
  exact mem_accepted.2 ⟨hlt, hpass.accepts⟩

/-- An anchor that is accepted without passing has no score above `-1`. -/
theorem best_of_not_passing {bid i : Nat} (ha : i ∈ cfg.accepted bid) (hp : i ∉ cfg.passing bid) :
    (cfg.best bid i).1 = -1 := by
  obtain ⟨hlt, hacc⟩ := mem_accepted.1 ha
  rcases cfg.best_cases bid i with ⟨hb, -⟩ | ⟨c, hfirst, -, hb⟩
  · rw [hb]
  · rw [Accepts, hb] at hacc
    exact absurd (mem_passing.2 ⟨hlt, c, hfirst.1, hfirst, hacc⟩) hp

/-- The score of the best class. -/
def topScore (cfg : GpuFilter.Config) (bid i : Nat) : ℚ :=
  (Argmax.scan (cfg.score bid i) id (cfg.score bid i 0, 0) cfg.numClasses).1

theorem topScore_eq {bid i c : Nat} (h : cfg.FirstBest bid i c) : cfg.topScore bid i = cfg.score bid i c := by
  unfold topScore
  rcases Argmax.scan_cases (cfg.score bid i) id (cfg.score bid i 0, 0) cfg.numClasses with ⟨hs, hle⟩ | ⟨c', hc', -, hs⟩
  · rw [hs]
    exact le_antisymm (h.2.1 0 (Nat.zero_lt_of_lt h.1)) (hle c h.1)
  · rw [hs, (cfg.firstBest_iff.2 hc').unique h]

theorem topScore_le_best {bid i : Nat} (h : i ∈ cfg.passing bid) : cfg.topScore bid i ≤ (cfg.best bid i).1 := by
  obtain ⟨-, c, hc, hfirst, -⟩ := mem_passing.1 h
  rw [topScore_eq hfirst]
  exact score_le_best hc

/-- Above `-1` the search finds the score of the best class. -/
theorem passing_of_lt {bid i : Nat} (h : i ∈ cfg.accepted bid) (hlt : -1 < (cfg.best bid i).1) :
    i ∈ cfg.passing bid ∧ cfg.topScore bid i = (cfg.best bid i).1 := by
  refine ⟨?_, ?_⟩
  · by_contra hp
    rw [best_of_not_passing h hp] at hlt
    exact lt_irrefl _ hlt
  · rcases cfg.best_cases bid i with ⟨hb, -⟩ | ⟨c, hfirst, -, hb⟩
    · rw [hb] at hlt
      exact absurd hlt (lt_irrefl _)
    · rw [topScore_eq hfirst, hb]

end GpuFilter.Config

/-! ### Lengths -/

/-- What is relied on of `NMSBoxes`: it returns some of the indices of the boxes, each once. -/
structure Selects (nms : List Rect → List ℚ → ℚ → ℚ → List Nat) : Prop where
  nodup : ∀ boxes scores conf thresh, (nms boxes scores conf thresh).Nodup
  lt : ∀ boxes scores conf thresh, ∀ i ∈ nms boxes scores conf thresh, i < boxes.length

theorem Selects.length_le {nms : List Rect → List ℚ → ℚ → ℚ → List Nat} (h : Selects nms) (boxes : List Rect)
    (scores : List ℚ) (conf thresh : ℚ) : (nms boxes scores conf thresh).length ≤ boxes.length := by
  have hsub : (nms boxes scores conf thresh) ⊆ List.range boxes.length := fun i hi =>
    List.mem_range.2 (h.lt boxes scores conf thresh i hi)
  have hle := ((h.nodup boxes scores conf thresh).subperm hsub).length_le
  rwa [List.length_range] at hle

/-- The selection that suppresses no box. -/
theorem selects_range : Selects fun boxes _ _ _ => List.range boxes.length :=
  ⟨fun _ _ _ _ => List.nodup_range, fun _ _ _ _ _ => List.mem_range.1⟩

namespace YoloCuda

variable {D : YoloCuda} {batch : Nat} {out : ModelOutput batch}

/-- The detector with another suppression of overlapping boxes. -/
def withNms (D : YoloCuda) (nms : List Rect → List ℚ → ℚ → ℚ → List Nat) : YoloCuda := { D with nmsBoxes := nms }

/-- More than `max_detections_` anchors of the image reach the threshold. -/
def Crowded (D : YoloCuda) (out : ModelOutput batch) (b : Fin batch) : Prop :=
  D.maxDetections < ((D.filterConfig batch out.data).passing b).length

/-- The scores of the anchors of the image that reach the threshold. -/
def reaching (D : YoloCuda) (out : ModelOutput batch) (b : Fin batch) : Multiset ℚ :=
  ((D.filterConfig batch out.data).passing b).map ((D.filterConfig batch out.data).topScore b)

/-- The scores of candidates. -/
def scores (found : List Candidate) : List ℚ := found.map (·.2.1)

/-- None of the scores that reach the threshold and are not kept is greater than one that is kept. -/
def Highest (D : YoloCuda) (out : ModelOutput batch) (b : Fin batch) (kept : List Candidate) : Prop :=
  ∀ x ∈ D.reaching out b - scores kept, ∀ y ∈ scores kept, x ≤ y

/-- The cap holds for a model output in both builds and for every run of the kernel, on whatever an earlier call has
left: no `int` overflows, no more than `max_detections_` detections are returned of an image, and if more anchors reach
the threshold, the candidates kept are best ones and have the same scores in all runs and in both builds. -/
structure Capped (D : YoloCuda) (out : ModelOutput batch) : Prop where
  cpu_defined : D.RowsFit
  cuda_defined : D.CudaDefined out
  cpu_le : ∀ nms, Selects nms → ∀ results, (D.withNms nms).toYoloDetector.postprocess out = .ok results →
    ∀ r ∈ results.1, r.length ≤ D.maxDetections
  cuda_le : ∀ nms, Selects nms → ∀ o cpuFiltered results,
    (D.withNms nms).postprocess o cpuFiltered out = .ok results →
    ∀ r ∈ results, r.length ≤ D.maxDetections
  cpu_highest : ∀ b, D.Crowded out b → D.Highest out b (D.cpuCandidates (slotData out b) (out.letterboxParams b))
  cuda_highest : ∀ b, D.Crowded out b → ∀ count output s, D.Counts batch count →
    (GpuFilter.launch (D.filterConfig batch out.data) count output).Reachable s → s.Finished →
      D.Highest out b (D.candidates (s.count b) (filtered s b) (out.letterboxParams b))
  same_scores : ∀ b, D.Crowded out b → ∀ count output s, D.Counts batch count →
    (GpuFilter.launch (D.filterConfig batch out.data) count output).Reachable s → s.Finished →
      ∀ x, x ∈ scores (D.candidates (s.count b) (filtered s b) (out.letterboxParams b)) ↔
        x ∈ scores (D.cpuCandidates (slotData out b) (out.letterboxParams b))

/-- All anchors of the image that are accepted or kept have one score; one of them is counted after the reset in every
run, and the CPU build keeps one. -/
structure Tied (D : YoloCuda) (out : ModelOutput batch) (b : Fin batch) : Prop where
  kept : D.cpuKept (slotData out b) (out.letterboxParams b) ≠ []
  first : ∃ i < GpuFilter.blockDim, (D.filterConfig batch out.data).Accepted b i
  same : ∃ m, (∀ i ∈ D.cpuKept (slotData out b) (out.letterboxParams b), (D.cpuBest (slotData out b) i).1 = m) ∧
    ∀ i ∈ (D.filterConfig batch out.data).accepted b, ((D.filterConfig batch out.data).best b i).1 = m

/-- There is room for all anchors that the CPU build keeps; and if more than `max_detections_` anchors reach the
threshold, nothing is kept in any run of either build, or they are tied. -/
structure Fits (D : YoloCuda) (out : ModelOutput batch) (b : Fin batch) : Prop where
  room : (D.cpuKept (slotData out b) (out.letterboxParams b)).length ≤ D.maxDetections
  crowded : D.Crowded out b → D.maxDetections = 0 ∨
    (¬(D.filterConfig batch out.data).Launchable ∧ D.cpuKept (slotData out b) (out.letterboxParams b) = []) ∨
    ((D.filterConfig batch out.data).Launchable ∧ D.Tied out b)

/-! ### What the builds return -/

/-- What the CPU build decodes of an image. -/
theorem length_found (D : YoloCuda) (pdata : List ℚ) (lp : LetterboxParams) :
    ((List.range D.numPredictions).filterMap (D.decode pdata lp)).length = (D.cpuKept pdata lp).length := by
  have hmap : D.cpuCandidates pdata lp =
      ((List.range D.numPredictions).filterMap (D.decode pdata lp)).map fun f => (f.1, f.2.1, (f.2.2 : Int)) := by
    rw [cpuCandidates, List.map_filterMap]
  rw [← List.length_map (fun f : Rect × ℚ × Nat => ((f.1, f.2.1, (f.2.2 : Int)) : Candidate)), ← hmap,
    cpuCandidates_eq, List.length_map]

theorem length_detections_le {nms : List Rect → List ℚ → ℚ → ℚ → List Nat} (h : Selects nms) (D : YoloCuda)
    (pdata : List ℚ) (lp : LetterboxParams) :
    ((D.withNms nms).detections pdata lp).length ≤ (D.cpuKept pdata lp).length := by
  rw [← length_found]
  refine (List.length_filterMap_le _ _).trans ?_
  split
  · exact Nat.zero_le _
  · refine (h.length_le _ _ _ _).trans (le_of_eq ?_)
    rw [List.length_map]
    rfl

/-- Without a suppression every anchor that the CPU build keeps is a detection. -/
theorem length_detections_range (D : YoloCuda) (pdata : List ℚ) (lp : LetterboxParams) :
    ((D.withNms fun boxes _ _ _ => List.range boxes.length).detections pdata lp).length =
    (D.cpuKept pdata lp).length := by
  rw [← length_found]
  have hall : ∀ found : List (Rect × ℚ × Nat),
    ((if found.isEmpty then [] else List.range (found.map (·.1)).length).filterMap
      fun idx => found[idx]?.map fun f => (⟨f.1, f.2.1, f.2.2⟩ : Detection)).length = found.length := by
    intro found
    cases found with
    | nil => rfl
    | cons f found =>
      rw [List.isEmpty_cons, if_neg Bool.false_ne_true, List.length_map, List.length_filterMap_eq_countP]
      refine (List.countP_eq_length.2 fun i hi => ?_).trans List.length_range
      rw [List.getElem?_eq_getElem (List.mem_range.1 hi)]
      rfl
  exact hall _

theorem length_suppress_le {nms : List Rect → List ℚ → ℚ → ℚ → List Nat} (h : Selects nms) (D : YoloCuda)
    (found : List Candidate) : ((D.withNms nms).suppress found).length ≤ found.length := by
  refine (List.length_filterMap_le _ _).trans ?_
  split
  · exact Nat.zero_le _
  · refine (h.length_le _ _ _ _).trans (le_of_eq ?_)
    rw [List.length_map]

theorem length_candidates_le (D : YoloCuda) (hostCount : Int) (cpuFiltered : Nat → Fin 6 → ℚ) (lp : LetterboxParams) :
    (D.candidates hostCount cpuFiltered lp).length ≤ D.maxDetections := by
  rw [candidates, List.length_map, List.length_range, clampCount]
  omega

/-- The CUDA build keeps to the cap, whatever the counts are. -/
theorem cuda_length_le {nms : List Rect → List ℚ → ℚ → ℚ → List Nat} (h : Selects nms)
    {o : YoloPostprocess.Device batch} {cpuFiltered : Fin batch → Nat → Fin 6 → ℚ} {results : List (List Candidate)}
    (hr : (D.withNms nms).postprocess o cpuFiltered out = .ok results) :
    ∀ r ∈ results, r.length ≤ D.maxDetections := by
  have hempty : ∀ r ∈ List.replicate batch ([] : List Candidate), r.length ≤ D.maxDetections := fun r hr => by
    rw [List.eq_of_mem_replicate hr]
    exact Nat.zero_le _
  unfold postprocess at hr
  split at hr
  · cases hr
  · split at hr
    · cases hr
      exact hempty
    · split at hr
      · cases hr
        exact hempty
      · split at hr
        · cases hr
          exact hempty
        · cases hr
          intro r hr
          obtain ⟨b, rfl⟩ := List.mem_ofFn.1 hr
          exact (length_suppress_le h D _).trans (length_candidates_le D _ _ _)

/-- What the CPU build returns of an accepted output. -/
theorem cpu_postprocess_eq (D : YoloCuda) {batch : Nat} (out : ModelOutput batch)
    (h : YoloPostprocess.Accepted out = true) :
    ∃ results, D.toYoloDetector.postprocess out = .ok results ∧
      results.1 = List.ofFn fun b => D.detections (slotData out b) (out.letterboxParams b) := by
  have hvalid : (!out.valid || out.shape.length != 3) = false := by
    simp only [YoloPostprocess.Accepted, Bool.and_eq_true, beq_iff_eq] at h
    simp [h.1, h.2]
  unfold YoloDetector.postprocess
  rw [hvalid]
  exact ⟨_, rfl, rfl⟩

theorem cpu_length_le_iff (h : YoloPostprocess.Accepted out = true) :
    (∀ nms, Selects nms → ∀ results, (D.withNms nms).toYoloDetector.postprocess out = .ok results →
      ∀ r ∈ results.1, r.length ≤ D.maxDetections) ↔
    ∀ b, (D.cpuKept (slotData out b) (out.letterboxParams b)).length ≤ D.maxDetections := by
  constructor
  · intro hle b
    obtain ⟨results, hr, heq⟩ := cpu_postprocess_eq (D.withNms fun boxes _ _ _ => List.range boxes.length) out h
    have hb := hle _ selects_range results hr _ (by rw [heq]; exact List.mem_ofFn.2 ⟨b, rfl⟩)
    rwa [length_detections_range] at hb
  · intro hroom nms hnms results hr r hmem
    obtain ⟨results', hr', heq⟩ := cpu_postprocess_eq (D.withNms nms) out h
    rw [hr, Except.ok.injEq] at hr'
    rw [hr', heq] at hmem
    obtain ⟨b, rfl⟩ := List.mem_ofFn.1 hmem
    exact (length_detections_le hnms D _ _).trans (hroom b)

/-! ### Which candidates are kept -/

theorem mem_cpu_scores {pdata : List ℚ} {lp : LetterboxParams} {x : ℚ} :
    x ∈ scores (D.cpuCandidates pdata lp) ↔ ∃ i ∈ D.cpuKept pdata lp, (D.cpuBest pdata i).1 = x := by
  rw [scores, cpuCandidates_eq, List.map_map]
  exact List.mem_map

theorem cuda_scores_eq {b : Fin batch} (lp : LetterboxParams) {hostCount : Int} {cpuFiltered : Nat → Fin 6 → ℚ}
    {order : List Nat} (hf : GpuFilter.Compacted (D.filterConfig batch out.data) b hostCount cpuFiltered order) :
    scores (D.candidates hostCount cpuFiltered lp) =
      (order.take D.maxDetections).map fun i => ((D.filterConfig batch out.data).best b i).1 := by
  rw [scores, candidates_eq lp hf, List.map_map]
  rfl

/-- The accepted anchors can be left in any order. -/
theorem exists_run (hl : (D.filterConfig batch out.data).Launchable) (b : Fin batch) {order : List Nat}
    (hperm : order.Perm ((D.filterConfig batch out.data).accepted b)) :
    ∃ s, (GpuFilter.launch (D.filterConfig batch out.data) (fun _ => 0) fun _ => 0).Reachable s ∧ s.Finished ∧
      GpuFilter.Compacted (D.filterConfig batch out.data) b (s.count b) (filtered s b) order := by
  obtain ⟨s, hs, hf, hcount, hslot⟩ := GpuFilter.exists_compacted (fun _ => le_refl (0 : Int)) hl
    (fun _ => 0) b (hperm.nodup_iff.2 (List.nodup_range.filter _)) fun i =>
      hperm.mem_iff.trans GpuFilter.Config.mem_accepted
  exact ⟨s, hs, hf, hperm, hcount, hslot⟩

/-- As many anchors reach the threshold with a score above `-1` as are accepted with it. -/
theorem count_best_le (b : Fin batch) {x : ℚ} (hx : -1 < x) :
    (((D.filterConfig batch out.data).accepted b).map fun i => ((D.filterConfig batch out.data).best b i).1).count x ≤
      (D.reaching out b).count x := by
  rw [reaching, Multiset.coe_count, List.count_eq_countP, List.count_eq_countP, List.countP_map, List.countP_map,
    List.countP_eq_length_filter, List.countP_eq_length_filter]
  refine (List.Nodup.subperm ((List.nodup_range.filter _).filter _) fun i hi => ?_).length_le
  obtain ⟨hacc, heq⟩ := List.mem_filter.1 hi
  have hbest : ((D.filterConfig batch out.data).best b i).1 = x := by simpa using heq
  obtain ⟨hpass, htop⟩ := GpuFilter.Config.passing_of_lt hacc (hbest ▸ hx)
  exact List.mem_filter.2 ⟨hpass, by simpa [htop] using hbest⟩

theorem mem_take_cons {n : Nat} (i : Nat) (rest : List Nat) (hn : 0 < n) : i ∈ (i :: rest).take n := by
  obtain ⟨m, rfl⟩ := Nat.exists_eq_succ_of_ne_zero hn.ne'
  rw [List.take_succ_cons]
  exact List.mem_cons_self

/-- Whatever is counted first is kept: in some run the first anchor is kept and the last one is not. -/
theorem best_le_best (hl : (D.filterConfig batch out.data).Launchable) (hpos : 0 < D.maxDetections) {b : Fin batch}
    (hcrowd : D.Crowded out b)
    (h : ∀ count output s, D.Counts batch count →
      (GpuFilter.launch (D.filterConfig batch out.data) count output).Reachable s → s.Finished →
        D.Highest out b (D.candidates (s.count b) (filtered s b) (out.letterboxParams b)))
    {i j : Nat} (hi : i ∈ (D.filterConfig batch out.data).accepted b)
    (hj : j ∈ (D.filterConfig batch out.data).passing b) :
    ((D.filterConfig batch out.data).best b j).1 ≤ ((D.filterConfig batch out.data).best b i).1 := by
  by_contra hlt
  rw [not_le] at hlt
  have hne : i ≠ j := by
    rintro rfl
    exact lt_irrefl _ hlt
  have hj' := GpuFilter.Config.accepted_of_passing hj
  obtain ⟨m, hperm⟩ := exists_order hi hj' hne
  obtain ⟨s, hs, hf, hcompacted⟩ := exists_run hl b hperm
  have hscores := cuda_scores_eq (out.letterboxParams b) hcompacted
  -- the anchors that pass and `i` are at least as many as there is room for, so `j` comes too late
  have hlen : D.maxDetections ≤ (i :: m).length := by
    have hsub : (D.filterConfig batch out.data).passing b ⊆ (D.filterConfig batch out.data).accepted b := fun _ =>
      GpuFilter.Config.accepted_of_passing
    have hle := ((GpuFilter.Config.nodup_passing b).subperm hsub).length_le
    have hlength := hperm.length_eq
    unfold Crowded at hcrowd
    simp only [List.length_cons, List.length_append, List.length_nil] at hlength ⊢
    omega
  have hkept : (i :: (m ++ [j])).take D.maxDetections = (i :: m).take D.maxDetections := by
    rw [← List.cons_append, List.take_append_of_le_length hlen]
  rw [hkept] at hscores
  have hfirst : i ∈ (i :: m).take D.maxDetections := mem_take_cons i m hpos
  have hmem : ((D.filterConfig batch out.data).best b j).1 ∈
      D.reaching out b - scores (D.candidates (s.count b) (filtered s b) (out.letterboxParams b)) := by
    rw [Multiset.mem_sub, Multiset.coe_count, hscores]
    refine lt_of_lt_of_le ?_ (count_best_le b ((GpuFilter.Config.neg_one_le_best b i).trans_lt hlt))
    rw [← (hperm.map _).count_eq, ← List.cons_append, List.map_append, List.count_append]
    have hsub := ((List.take_sublist D.maxDetections (i :: m)).map
      fun i => ((D.filterConfig batch out.data).best b i).1).count_le ((D.filterConfig batch out.data).best b j).1
    simp only [List.map_cons, List.map_nil, List.count_singleton_self]
    exact Nat.lt_succ_of_le hsub
  refine absurd (h _ _ s .memset hs hf _ hmem ((D.filterConfig batch out.data).best b i).1 ?_) (not_le.2 hlt)
  rw [hscores]
  exact List.mem_map_of_mem hfirst

/-- All anchors accepted in a crowded image have one score if the CUDA build always keeps best ones. -/
theorem tied_of_highest (hl : (D.filterConfig batch out.data).Launchable) (hpos : 0 < D.maxDetections) {b : Fin batch}
    (hcrowd : D.Crowded out b)
    (h : ∀ count output s, D.Counts batch count →
      (GpuFilter.launch (D.filterConfig batch out.data) count output).Reachable s → s.Finished →
        D.Highest out b (D.candidates (s.count b) (filtered s b) (out.letterboxParams b))) :
    ∃ p ∈ (D.filterConfig batch out.data).passing b, ∀ i ∈ (D.filterConfig batch out.data).accepted b,
      ((D.filterConfig batch out.data).best b i).1 = ((D.filterConfig batch out.data).best b p).1 := by
  obtain ⟨p, hp⟩ : ∃ p, p ∈ (D.filterConfig batch out.data).passing b :=
    List.exists_mem_of_length_pos (Nat.zero_lt_of_lt hcrowd)
  refine ⟨p, hp, fun i hi => le_antisymm ?_ (best_le_best hl hpos hcrowd h hi hp)⟩
  by_cases hpass : i ∈ (D.filterConfig batch out.data).passing b
  · exact best_le_best hl hpos hcrowd h (GpuFilter.Config.accepted_of_passing hp) hpass
  · -- no class has reached the score that the search starts with
    rw [GpuFilter.Config.best_of_not_passing hi hpass]
    exact GpuFilter.Config.neg_one_le_best _ _

/-- If nothing is counted after the reset nothing is kept. -/
theorem candidates_nil {n : Int} (h : n ≤ 0 ∨ D.maxDetections = 0) (cpuFiltered : Nat → Fin 6 → ℚ)
    (lp : LetterboxParams) : D.candidates n cpuFiltered lp = [] := by
  have hzero : D.clampCount n = 0 := by
    unfold clampCount
    omega
  rw [candidates, hzero, List.range_zero, List.map_nil]

theorem Capped.tied (h : D.Capped out) (hl : (D.filterConfig batch out.data).Launchable) (hpos : 0 < D.maxDetections)
    {b : Fin batch} (hcrowd : D.Crowded out b) : D.Tied out b := by
  obtain ⟨p, hp, htied⟩ := tied_of_highest hl hpos hcrowd (h.cuda_highest b hcrowd)
  obtain ⟨rest, hperm⟩ := GpuFilter.Config.exists_perm_cons (GpuFilter.Config.accepted_of_passing hp)
  obtain ⟨s, hs, hf, hcompacted⟩ := exists_run hl b hperm
  have hsame := h.same_scores b hcrowd _ _ s .memset hs hf
  rw [cuda_scores_eq _ hcompacted] at hsame
  have hfirst : p ∈ (p :: rest).take D.maxDetections := mem_take_cons p rest hpos
  obtain ⟨i, hi, hscore⟩ := mem_cpu_scores.1 ((hsame _).1 (List.mem_map_of_mem hfirst))
  refine ⟨List.ne_nil_of_mem hi, ?_, _, fun i hi => ?_, htied⟩
  · -- otherwise all anchors can be lost
    by_contra hnone
    push Not at hnone
    obtain ⟨s', hs', hf', hzero⟩ := GpuFilter.exists_count_zero hl (fun _ => 0) (fun _ => 0) b
      fun i hacc => not_lt.1 fun hlt => hnone i hlt hacc
    have hsame' := h.same_scores b hcrowd _ _ s' .memset hs' hf'
    have hcount : s'.count b ≤ 0 := hzero.le
    rw [candidates_nil (.inl hcount)] at hsame'
    exact absurd ((hsame' _).2 (mem_cpu_scores.2 ⟨i, hi, rfl⟩)) List.not_mem_nil
  · obtain ⟨j, hj, heq⟩ := List.mem_map.1 ((hsame _).2 (mem_cpu_scores.2 ⟨i, hi, rfl⟩))
    rw [← heq]
    exact htied j (hperm.mem_iff.1 (List.mem_of_mem_take hj))

theorem Capped.fits (h : D.Capped out) (hout : YoloPostprocess.Accepted out = true) (b : Fin batch) :
    D.Fits out b := by
  refine ⟨(cpu_length_le_iff hout).1 h.cpu_le b, fun hcrowd => ?_⟩
  rcases Nat.eq_zero_or_pos D.maxDetections with h0 | hpos
  · exact .inl h0
  · by_cases hl : (D.filterConfig batch out.data).Launchable
    · exact .inr (.inr ⟨hl, h.tied hl hpos hcrowd⟩)
    · -- the kernel does not run, and its counts are those of `cudaMemset`
      refine .inr (.inl ⟨hl, List.eq_nil_iff_forall_not_mem.2 fun i hi => ?_⟩)
      obtain ⟨s, hs, hf⟩ := GpuFilter.exists_end (D.filterConfig batch out.data) (fun _ => 0) fun _ => 0
      have hzero : s.count b ≤ 0 := by rw [(GpuFilter.finished_of_not_launchable hl hs).2]
      have hsame := h.same_scores b hcrowd _ _ s .memset hs hf
      rw [candidates_nil (.inl hzero)] at hsame
      exact absurd ((hsame _).2 (mem_cpu_scores.2 ⟨i, hi, rfl⟩)) List.not_mem_nil

/-- The scores that a tied image keeps: exactly one, in every run. -/
theorem Tied.scores_iff {b : Fin batch} (h : D.Tied out b) (hl : (D.filterConfig batch out.data).Launchable)
    (hpos : 0 < D.maxDetections) {count : Nat → Int} {output : Int → ℚ}
    {s : GpuFilter.State (D.filterConfig batch out.data)} (hcount : D.Counts batch count)
    (hs : (GpuFilter.launch (D.filterConfig batch out.data) count output).Reachable s) (hf : s.Finished) :
    ∃ m, (∀ x, x ∈ scores (D.candidates (s.count b) (filtered s b) (out.letterboxParams b)) ↔ x = m) ∧
      (∀ x, x ∈ scores (D.cpuCandidates (slotData out b) (out.letterboxParams b)) ↔ x = m) ∧
      ∀ x ∈ D.reaching out b, x ≤ m := by
  obtain ⟨m, hcpu, hcuda⟩ := h.same
  obtain ⟨order, hmixed⟩ := GpuFilter.exists_mixed hl hcount.nonneg hs hf b
  obtain ⟨i₀, hi₀, hacc₀⟩ := h.first
  have hlen : 0 < order.length := List.length_pos_of_mem (hmixed.first i₀ hacc₀ hi₀)
  have hbest : ∀ i, (D.filterConfig batch out.data).Accepted b i →
      (D.filterConfig batch out.data).record b i 4 = m := fun i hi =>
    hcuda i (GpuFilter.Config.mem_accepted.2 hi)
  -- the score of a slot is that of an accepted anchor
  have hslot : ∀ j < D.clampCount (s.count b), (filtered s b : Nat → Fin 6 → ℚ) j 4 = m := by
    intro j hj
    have hc : s.count b = order.length := hmixed.count_eq
    rw [hc, clampCount_length] at hj
    have hlt : j < order.length := by omega
    obtain ⟨e, he, hvalue⟩ := hmixed.slot j _ (List.getElem?_eq_getElem hlt) (show j < D.maxDetections by omega)
    have hmem := hmixed.accepted _ (List.getElem_mem hlt)
    rcases hvalue 4 with hv | hv
    · exact hv.trans (hbest _ hmem)
    · rcases he with rfl | he
      · exact hv.trans (hbest _ hmem)
      · exact hv.trans (hbest _ he.1)
  refine ⟨m, fun x => ⟨fun hx => ?_, fun hx => ?_⟩, fun x => ⟨fun hx => ?_, fun hx => ?_⟩, fun x hx => ?_⟩
  · obtain ⟨c, hc, rfl⟩ := List.mem_map.1 hx
    obtain ⟨j, hj, rfl⟩ := mem_candidates.1 hc
    exact hslot j hj
  · have hj : 0 < D.clampCount (s.count b) := clampCount_pos_iff.2 ⟨hpos, by
      have hc : s.count b = order.length := hmixed.count_eq
      omega⟩
    exact List.mem_map.2 ⟨_, mem_candidates.2 ⟨0, hj, rfl⟩, (hslot 0 hj).trans hx.symm⟩
  · obtain ⟨i, hi, rfl⟩ := mem_cpu_scores.1 hx
    exact hcpu i hi
  · obtain ⟨i, hi⟩ := List.exists_mem_of_ne_nil _ h.kept
    exact mem_cpu_scores.2 ⟨i, hi, (hcpu i hi).trans hx.symm⟩
  · obtain ⟨i, hi, rfl⟩ := List.mem_map.1 (Multiset.mem_coe.1 hx)
    exact (GpuFilter.Config.topScore_le_best hi).trans (hcuda i (GpuFilter.Config.accepted_of_passing hi)).le

/-- What a crowded image that fits keeps in a run: nothing in either build, or one score. -/
theorem Fits.scores_cases {b : Fin batch} (h : D.Fits out b) (hcrowd : D.Crowded out b) {count : Nat → Int}
    {output : Int → ℚ} {s : GpuFilter.State (D.filterConfig batch out.data)} (hcount : D.Counts batch count)
    (hs : (GpuFilter.launch (D.filterConfig batch out.data) count output).Reachable s) (hf : s.Finished) :
    (scores (D.candidates (s.count b) (filtered s b) (out.letterboxParams b)) = [] ∧
      scores (D.cpuCandidates (slotData out b) (out.letterboxParams b)) = []) ∨
    ∃ m, (∀ x, x ∈ scores (D.candidates (s.count b) (filtered s b) (out.letterboxParams b)) ↔ x = m) ∧
      (∀ x, x ∈ scores (D.cpuCandidates (slotData out b) (out.letterboxParams b)) ↔ x = m) ∧
      ∀ x ∈ D.reaching out b, x ≤ m := by
  have hcpu : D.cpuKept (slotData out b) (out.letterboxParams b) = [] →
      scores (D.cpuCandidates (slotData out b) (out.letterboxParams b)) = [] := by
    intro hnil
    rw [cpuCandidates_eq, hnil]
    rfl
  rcases h.crowded hcrowd with h0 | ⟨hl, hnil⟩ | ⟨hl, htied⟩
  · refine .inl ⟨by rw [candidates_nil (.inr h0)]; rfl, hcpu ?_⟩
    exact List.eq_nil_of_length_eq_zero (Nat.le_zero.1 (h0 ▸ h.room))
  · have hzero : s.count b ≤ 0 := by
      rw [(GpuFilter.finished_of_not_launchable hl hs).2, hcount.of_not_launchable hl]
    exact .inl ⟨by rw [candidates_nil (.inl hzero)]; rfl, hcpu hnil⟩
  · have hpos : 0 < D.maxDetections := (List.length_pos_of_ne_nil htied.kept).trans_le h.room
    exact .inr (htied.scores_iff hl hpos hcount hs hf)

theorem Highest.of_forall {b : Fin batch} {kept : List Candidate} {m : ℚ} (hkept : ∀ y ∈ scores kept, y = m)
    (h : ∀ x ∈ D.reaching out b, x ≤ m) : D.Highest out b kept := fun x hx y hy =>
  hkept y hy ▸ h x (Multiset.mem_of_le (Multiset.sub_le_self _ _) hx)

/-- The detector with two anchors and room for one detection. -/
def roomForOne : YoloCuda := { oneAnchor with numPredictions := 2, maxDetections := 1 }

/-- A box, and one without a width, both with score one: the CPU build has room for the one that it keeps, and the
CUDA build keeps either. -/
def crowdedOutput : ModelOutput 1 := ⟨[10, 30, 10, 30, 2, 0, 2, 2, 1, 1], [1, 5, 2], fun _ => ⟨1, 0, 0, 640, 640⟩⟩

/-- Two boxes far from each other, both with score one. -/
def twoBoxes : ModelOutput 1 := ⟨[10, 30, 10, 30, 2, 2, 2, 2, 1, 1], [1, 5, 2], fun _ => ⟨1, 0, 0, 640, 640⟩⟩

end YoloCuda

end OnnxInference
