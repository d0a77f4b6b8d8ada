import OnnxInference.Runner.YoloCap
import OnnxInference.Runner.YoloRestore

/-!
# The boxes that are returned

The corners of a box are clamped to the image, but its place and its size are converted to integers separately.  The
CPU build drops boxes without an area, and rounds: a size below a half becomes zero, and two halves may add up to one
pixel too many at the edge of the image.  The CUDA build drops nothing, and truncates: every size below one becomes
zero.  In a race of the filter it also returns boxes with the sides of two anchors.
-/

namespace OnnxInference

/-! ### Rectangles -/

/-- The box has an area and lies in an image of this size. -/
structure Rect.Usable (r : Rect) (w h : Int) : Prop where
  x : 0 ≤ r.x
  y : 0 ≤ r.y
  width : 1 ≤ r.width
  height : 1 ≤ r.height
  right : r.x + r.width ≤ w
  bottom : r.y + r.height ≤ h

theorem Rect.usable_iff_sides {r : Rect} {w h : Int} :
    r.Usable w h ↔ (0 ≤ r.x ∧ 1 ≤ r.width ∧ r.x + r.width ≤ w) ∧ 0 ≤ r.y ∧ 1 ≤ r.height ∧ r.y + r.height ≤ h :=
  ⟨fun u => ⟨⟨u.x, u.width, u.right⟩, u.y, u.height, u.bottom⟩, fun ⟨⟨h1, h2, h3⟩, h4, h5, h6⟩ =>
    ⟨h1, h4, h2, h5, h3, h6⟩⟩

section Axis

variable {a b : ℚ} {n : Int}

/-- An interval rounded at its start and in its length ends too late only if it ends at `n` and starts at a half. -/
theorem cRound_add_le_iff (h0 : 0 ≤ a) (hab : a ≤ b) (hn : b ≤ n) :
    cRound a + cRound (b - a) ≤ n ↔ ¬(b = n ∧ Int.fract a = 1 / 2) := by
  have ha := cRound_le_add h0
  have hd := cRound_le_add (sub_nonneg.2 hab)
  constructor
  · rintro hle ⟨rfl, hhalf⟩
    have hround : cRound a = ⌊a⌋ + 1 := by
      rw [cRound, if_pos h0, Int.floor_eq_iff]
      have := Int.floor_add_fract a
      push_cast
      constructor <;> linarith
    have hlen : n - ⌊a⌋ ≤ cRound (n - a) := by
      have := Int.floor_add_fract a
      rw [cRound, if_pos (sub_nonneg.2 hab), Int.le_floor]
      push_cast
      linarith
    omega
  · intro hne
    by_contra hgt
    have hgt' : ((n + 1 : Int) : ℚ) ≤ (cRound a + cRound (b - a) : Int) := Int.cast_le.2 (by omega)
    push_cast at hgt'
    -- both numbers are rounded up by a half
    have hb : b = n := by linarith
    have hhalf : a = (cRound a - 1 : Int) + 1 / 2 := by
      push_cast
      linarith
    refine hne ⟨hb, ?_⟩
    rw [hhalf, Int.fract_intCast_add]
    norm_num

/-- An axis of a box is usable after rounding. -/
theorem rounded_usable_iff (h0 : 0 ≤ a) (hab : a ≤ b) (hn : b ≤ n) :
    (0 ≤ cRound a ∧ 1 ≤ cRound (b - a) ∧ cRound a + cRound (b - a) ≤ n) ↔
      1 / 2 ≤ b - a ∧ ¬(b = n ∧ Int.fract a = 1 / 2) := by
  have hpos : 1 ≤ cRound (b - a) ↔ 1 / 2 ≤ b - a := cRound_pos_iff
  rw [cRound_add_le_iff h0 hab hn, hpos]
  exact ⟨fun h => h.2, fun h => ⟨cRound_nonneg h0, h⟩⟩

/-- An axis of a box is usable after truncation. -/
theorem truncated_usable_iff (h0 : 0 ≤ a) (hn : b ≤ n) :
    (0 ≤ cTrunc a ∧ 1 ≤ cTrunc (b - a) ∧ cTrunc a + cTrunc (b - a) ≤ n) ↔ 1 ≤ b - a := by
  constructor
  · rintro ⟨-, hlen, -⟩
    rcases le_or_gt 0 (b - a) with hd | hd
    · rw [cTrunc_of_nonneg hd, Int.le_floor] at hlen
      exact_mod_cast hlen
    · rw [cTrunc, if_neg (not_le.2 hd), Int.le_ceil_iff] at hlen
      norm_num at hlen
      linarith
  · intro hlen
    have hd : 0 ≤ b - a := by linarith
    rw [cTrunc_of_nonneg h0, cTrunc_of_nonneg hd]
    refine ⟨Int.floor_nonneg.2 h0, Int.le_floor.2 (by exact_mod_cast hlen), ?_⟩
    have h1 := Int.floor_le a
    have h2 := Int.floor_le (b - a)
    have hsum : ((⌊a⌋ + ⌊b - a⌋ : Int) : ℚ) ≤ n := by
      push_cast
      linarith
    exact_mod_cast hsum

end Axis

/-! ### Corners -/

namespace Corners

/-- The corners lie in an image of this size. -/
structure Within (c : Corners) (w h : Int) : Prop where
  x1 : 0 ≤ c.x1
  y1 : 0 ≤ c.y1
  x2 : c.x2 ≤ w
  y2 : c.y2 ≤ h

theorem within_of {lp : LetterboxParams} (hw : 1 ≤ lp.origW) (hh : 1 ≤ lp.origH) (cx cy w h : ℚ) :
    (of lp cx cy w h).Within lp.origW lp.origH := by
  have hw' : (0 : ℚ) ≤ lp.origW := by exact_mod_cast (by omega : 0 ≤ lp.origW)
  have hh' : (0 : ℚ) ≤ lp.origH := by exact_mod_cast (by omega : 0 ≤ lp.origH)
  exact ⟨YoloDetector.le_clamp hw', YoloDetector.le_clamp hh', YoloDetector.clamp_le hw', YoloDetector.clamp_le hh'⟩

/-- At least half a pixel of the box is in the image on both axes, and none of them ends with the image and starts
halfway between two pixels. -/
structure RoundsWell (c : Corners) (w h : Int) : Prop where
  width : 1 / 2 ≤ c.x2 - c.x1
  height : 1 / 2 ≤ c.y2 - c.y1
  right : ¬(c.x2 = w ∧ Int.fract c.x1 = 1 / 2)
  bottom : ¬(c.y2 = h ∧ Int.fract c.y1 = 1 / 2)

/-- At least one pixel of the box is in the image on both axes. -/
structure TruncatesWell (c : Corners) : Prop where
  width : 1 ≤ c.x2 - c.x1
  height : 1 ≤ c.y2 - c.y1

variable {c : Corners} {w h : Int}

theorem Within.rounded_usable_iff (hc : c.Within w h) (hs : c.Solid) : c.rounded.Usable w h ↔ c.RoundsWell w h := by
  have hx := OnnxInference.rounded_usable_iff hc.x1 hs.1.le hc.x2
  have hy := OnnxInference.rounded_usable_iff hc.y1 hs.2.le hc.y2
  rw [Rect.usable_iff_sides]
  exact (and_congr hx hy).trans
    ⟨fun ⟨⟨h1, h2⟩, h3, h4⟩ => ⟨h1, h3, h2, h4⟩, fun h => ⟨⟨h.width, h.right⟩, h.height, h.bottom⟩⟩

theorem Within.truncated_usable_iff (hc : c.Within w h) : c.truncated.Usable w h ↔ c.TruncatesWell := by
  have hx := OnnxInference.truncated_usable_iff hc.x1 hc.x2
  have hy := OnnxInference.truncated_usable_iff hc.y1 hc.y2
  rw [Rect.usable_iff_sides]
  exact (and_congr hx hy).trans ⟨fun ⟨h1, h2⟩ => ⟨h1, h2⟩, fun h => ⟨h.width, h.height⟩⟩

end Corners

/-! ### Detections -/

namespace YoloCuda

variable {D : YoloCuda} {batch : Nat} {out : ModelOutput batch}

/-- The suppression that keeps all boxes. -/
def keepAll : List Rect → List ℚ → ℚ → ℚ → List Nat := fun boxes _ _ _ => List.range boxes.length

theorem keepAll_selects : Selects keepAll := selects_range

/-- The corners of a box whose numbers come from the anchor `i`, where `pick` holds, and from `e`. -/
def mixedCorners (D : YoloCuda) (out : ModelOutput batch) (b : Fin batch) (i e : Nat) (pick : Fin 6 → Bool) : Corners :=
  let cfg := D.filterConfig batch out.data
  let det k := if pick k then cfg.record b i k else cfg.record b e k
  .of (out.letterboxParams b) (det 0) (det 1) (det 2) (det 3)

/-- No `int` of the CPU build overflows and every detection that it returns, whatever boxes are suppressed, is
usable. -/
def CpuUsable (D : YoloCuda) (out : ModelOutput batch) : Prop :=
  D.RowsFit ∧ ∀ nms, Selects nms → ∀ results, (D.withNms nms).toYoloDetector.postprocess out = .ok results →
    ∀ b : Fin batch, ∀ d ∈ results.at b b.isLt,
      d.box.Usable (out.letterboxParams b).origW (out.letterboxParams b).origH

/-- No `int` of the CUDA build overflows and every detection that it returns, whatever boxes are suppressed and however
the threads of the filter are scheduled, is usable. -/
def CudaUsable (D : YoloCuda) (out : ModelOutput batch) : Prop :=
  D.CudaDefined out ∧ ∀ nms, Selects nms → ∀ sync1 sync2 results,
    (D.withNms nms).Returns out sync1 sync2 (.ok results) →
    ∀ (b : Fin batch) (r : List Candidate), results[b.val]? = some r → ∀ c ∈ r,
      c.1.Usable (out.letterboxParams b).origW (out.letterboxParams b).origH

/-- Every box with the numbers of an accepted anchor truncates well, and if another one beyond the first block is
accepted, so do those with any numbers of either. -/
def MixesWell (D : YoloCuda) (out : ModelOutput batch) (b : Fin batch) : Prop :=
  ∀ i e, (D.filterConfig batch out.data).Accepted b i →
    (e = i ∨ (D.filterConfig batch out.data).Accepted b e ∧ GpuFilter.blockDim ≤ e) →
      ∀ pick, (D.mixedCorners out b i e pick).TruncatesWell

/-- A detection of the CPU build has the rounded box of an anchor that is kept. -/
theorem exists_of_mem_detections {pdata : List ℚ} {lp : LetterboxParams} {d : Detection}
    (h : d ∈ D.detections pdata lp) : ∃ i ∈ D.cpuKept pdata lp, d.box = (D.corners pdata lp i).rounded := by
  obtain ⟨idx, -, hidx⟩ := List.mem_filterMap.1 h
  obtain ⟨f, hf, rfl⟩ := Option.map_eq_some_iff.1 hidx
  obtain ⟨i, hi, hdec⟩ := List.mem_filterMap.1 (List.mem_of_getElem? hf)
  have hcand := D.decode_eq pdata lp i
  rw [hdec] at hcand
  split at hcand
  · rename_i hkept
    refine ⟨i, List.mem_filter.2 ⟨hi, decide_eq_true hkept⟩, ?_⟩
    rw [Option.map_some, Option.some.injEq] at hcand
    exact congrArg Prod.fst hcand
  · cases hcand

/-- Every anchor that is kept is a detection unless it is suppressed. -/
theorem mem_detections_keepAll {pdata : List ℚ} {lp : LetterboxParams} {i : Nat} (h : i ∈ D.cpuKept pdata lp) :
    ∃ d ∈ (D.withNms keepAll).detections pdata lp, d.box = (D.corners pdata lp i).rounded := by
  obtain ⟨hi, hkept⟩ := List.mem_filter.1 h
  obtain ⟨f, hdec, hbox⟩ : ∃ f, D.decode pdata lp i = some f ∧ f.1 = (D.corners pdata lp i).rounded := by
    have hcand := D.decode_eq pdata lp i
    rw [if_pos (of_decide_eq_true hkept), Option.map_eq_some_iff] at hcand
    obtain ⟨f, hf, heq⟩ := hcand
    exact ⟨f, hf, congrArg Prod.fst heq⟩
  obtain ⟨idx, hidx⟩ := List.mem_iff_getElem?.1 (List.mem_filterMap.2 ⟨i, hi, hdec⟩)
  obtain ⟨hlt, -⟩ := List.getElem?_eq_some_iff.1 hidx
  have hne : ((List.range D.numPredictions).filterMap (D.decode pdata lp)).isEmpty = false := by
    rw [List.isEmpty_eq_false_iff]
    exact List.ne_nil_of_length_pos (Nat.zero_lt_of_lt hlt)
  refine ⟨⟨f.1, f.2.1, f.2.2⟩, List.mem_filterMap.2 ⟨idx, ?_, ?_⟩, hbox⟩
  · show idx ∈ if ((List.range D.numPredictions).filterMap (D.decode pdata lp)).isEmpty then [] else _
    rw [hne, if_neg Bool.false_ne_true]
    exact List.mem_range.2 (by rwa [List.length_map])
  · show (((List.range D.numPredictions).filterMap (D.decode pdata lp))[idx]?.map _ : Option Detection) = _
    rw [hidx]
    rfl

theorem mem_of_mem_suppress {found : List Candidate} {c : Candidate} (h : c ∈ D.suppress found) : c ∈ found := by
  obtain ⟨idx, -, hidx⟩ := List.mem_filterMap.1 h
  exact List.mem_of_getElem? hidx

theorem mem_suppress_keepAll {found : List Candidate} {c : Candidate} (h : c ∈ found) :
    c ∈ (D.withNms keepAll).suppress found := by
  obtain ⟨idx, hidx⟩ := List.mem_iff_getElem?.1 h
  obtain ⟨hlt, -⟩ := List.getElem?_eq_some_iff.1 hidx
  have hne : found.isEmpty = false := by
    rw [List.isEmpty_eq_false_iff]
    exact List.ne_nil_of_length_pos (Nat.zero_lt_of_lt hlt)
  refine List.mem_filterMap.2 ⟨idx, ?_, hidx⟩
  show idx ∈ if found.isEmpty then [] else _
  rw [hne, if_neg Bool.false_ne_true]
  exact List.mem_range.2 (by rwa [List.length_map])

/-- The CPU build returns usable boxes only, if and only if every anchor that it keeps rounds well. -/
theorem cpuUsable_iff (hlp : ∀ b, 1 ≤ (out.letterboxParams b).origW ∧ 1 ≤ (out.letterboxParams b).origH) :
    D.CpuUsable out ↔ D.RowsFit ∧ (YoloPostprocess.Accepted out = true → ∀ b : Fin batch,
      ∀ i ∈ D.cpuKept (slotData out b) (out.letterboxParams b),
        (D.corners (slotData out b) (out.letterboxParams b) i).RoundsWell (out.letterboxParams b).origW
          (out.letterboxParams b).origH) := by
  refine and_congr Iff.rfl ?_
  have hbox : ∀ (b : Fin batch), ∀ i ∈ D.cpuKept (slotData out b) (out.letterboxParams b),
      ((D.corners (slotData out b) (out.letterboxParams b) i).rounded.Usable (out.letterboxParams b).origW
          (out.letterboxParams b).origH ↔
        (D.corners (slotData out b) (out.letterboxParams b) i).RoundsWell (out.letterboxParams b).origW
          (out.letterboxParams b).origH) := by
    intro b i hi
    have hsolid := (of_decide_eq_true (List.mem_filter.1 hi).2).2
    exact (Corners.within_of (hlp b).1 (hlp b).2 _ _ _ _).rounded_usable_iff hsolid
  constructor
  · intro h hout b i hi
    obtain ⟨results, hres, heq⟩ := cpu_postprocess_eq (D.withNms keepAll) out hout
    obtain ⟨d, hd, hround⟩ := mem_detections_keepAll hi
    rw [← hbox b i hi, ← hround]
    refine h _ keepAll_selects results hres b d ?_
    simpa [Outputs.at, heq] using hd
  · intro h nms _ results hres b d hd
    have hout : YoloPostprocess.Accepted out = true := by
      by_contra hne
      have hvalid : (!out.valid || out.shape.length != 3) = true := by
        simpa [YoloPostprocess.Accepted, imp_iff_not_or] using hne
      rw [YoloDetector.postprocess, hvalid, if_pos rfl] at hres
      cases hres
    obtain ⟨results', hres', heq⟩ := cpu_postprocess_eq (D.withNms nms) out hout
    rw [hres, Except.ok.injEq] at hres'
    subst hres'
    have hd' : d ∈ (D.withNms nms).detections (slotData out b) (out.letterboxParams b) := by
      simpa [Outputs.at, heq] using hd
    obtain ⟨i, hi, hround⟩ := exists_of_mem_detections hd'
    rw [hround]
    exact (hbox b i hi).2 (h hout b i hi)

/-- The box of a slot has the corners of one anchor or of two. -/
theorem exists_mixed_corners {b : Fin batch} {s : GpuFilter.State (D.filterConfig batch out.data)} {order : List Nat}
    (hm : GpuFilter.Mixed (D.filterConfig batch out.data) b (s.count b) (filtered s b) order) {j : Nat}
    (hj : j < D.clampCount (s.count b)) :
    ∃ i e pick, (D.filterConfig batch out.data).Accepted b i ∧
      (e = i ∨ (D.filterConfig batch out.data).Accepted b e ∧ GpuFilter.blockDim ≤ e) ∧
      (decodeRecord (out.letterboxParams b) (filtered s b j)).1 = (D.mixedCorners out b i e pick).truncated := by
  rw [hm.count_eq, clampCount_length] at hj
  have hlt : j < order.length := by omega
  obtain ⟨e, he, hslot⟩ := hm.slot j _ (List.getElem?_eq_getElem hlt) (show j < D.maxDetections by omega)
  refine ⟨order[j], e, fun k => filtered s b j k = (D.filterConfig batch out.data).record b order[j] k,
    hm.accepted _ (List.getElem_mem hlt), he, ?_⟩
  have hdet : ∀ k : Fin 6, (filtered s b : Nat → Fin 6 → ℚ) j k =
      if decide (filtered s b j k = (D.filterConfig batch out.data).record b order[j] k) = true then
        (D.filterConfig batch out.data).record b order[j] k else (D.filterConfig batch out.data).record b e k := by
    intro k
    split
    · rename_i h
      exact of_decide_eq_true h
    · rename_i h
      exact (hslot k).resolve_left fun heq => h (decide_eq_true heq)
  simp only [decodeRecord, mixedCorners, Corners.truncated, Corners.of, ← hdet]

/-- A detection of the CUDA build has such a box. -/
theorem exists_of_mem_postprocess {nms : List Rect → List ℚ → ℚ → ℚ → List Nat} {sync1 sync2 : Bool}
    {results : List (List Candidate)} (hres : (D.withNms nms).Returns out sync1 sync2 (.ok results)) {b : Fin batch}
    {r : List Candidate} (hr : results[b.val]? = some r) {c : Candidate} (hc : c ∈ r) :
    YoloPostprocess.Accepted out = true ∧ 0 < D.maxDetections ∧ (D.filterConfig batch out.data).Launchable ∧
      ∃ i e pick, (D.filterConfig batch out.data).Accepted b i ∧
        (e = i ∨ (D.filterConfig batch out.data).Accepted b e ∧ GpuFilter.blockDim ≤ e) ∧
        c.1 = (D.mixedCorners out b i e pick).truncated := by
  obtain ⟨count, output, s, hcount, hs, hf, heq⟩ := hres
  by_cases hout : YoloPostprocess.Accepted out = true
  · by_cases hsync : sync1 = true ∧ sync2 = true
    · rw [postprocess_of_sync hout hsync.1 hsync.2] at heq
      cases heq
      obtain rfl : (D.withNms nms).suppress ((D.withNms nms).candidates (s.count b) (filtered s b)
        (out.letterboxParams b)) = r := by simpa [readBack] using hr
      obtain ⟨j, hj, rfl⟩ := mem_candidates.1 (mem_of_mem_suppress hc)
      have hpos := clampCount_pos_iff.1 (Nat.zero_lt_of_lt hj)
      by_cases hl : (D.filterConfig batch out.data).Launchable
      · obtain ⟨order, hm⟩ := GpuFilter.exists_mixed hl hcount.nonneg hs hf b
        exact ⟨hout, hpos.1, hl, exists_mixed_corners hm hj⟩
      · have hzero : s.count b = 0 := by
          rw [(GpuFilter.finished_of_not_launchable hl hs).2]
          exact hcount.of_not_launchable hl b
        exact absurd hpos.2 (by rw [hzero]; exact lt_irrefl _)
    · -- a failed synchronisation gives empty lists
      rw [postprocess_of_not_sync hout hsync] at heq
      cases heq
      rw [List.getElem?_replicate] at hr
      obtain rfl : [] = r := by simpa using hr
      cases hc
  · rw [postprocess_of_not_accepted hout] at heq
    cases heq

/-- The first slot of an image is returned if anything is counted and nothing is suppressed. -/
theorem exists_mem_postprocess (hout : YoloPostprocess.Accepted out = true) (hmax : 0 < D.maxDetections)
    {b : Fin batch} {s : GpuFilter.State (D.filterConfig batch out.data)}
    (hs : (GpuFilter.launch (D.filterConfig batch out.data) (fun _ => 0) fun _ => 0).Reachable s) (hf : s.Finished)
    (hpos : 0 < s.count b) :
    ∃ results, (D.withNms keepAll).Returns out true true (.ok results) ∧ ∃ r, results[b.val]? = some r ∧
      decodeRecord (out.letterboxParams b) (filtered s b 0) ∈ r := by
  have hres := postprocess_of_sync (D := D.withNms keepAll) (o := readBack s true true) hout rfl rfl (filtered s)
  have hmem : decodeRecord (out.letterboxParams b) (filtered s b 0) ∈
      (D.withNms keepAll).candidates (s.count b) (filtered s b) (out.letterboxParams b) :=
    mem_candidates.2 ⟨0, clampCount_pos_iff.2 ⟨hmax, hpos⟩, rfl⟩
  refine ⟨_, ⟨_, _, s, .memset, hs, hf, hres.symm⟩, (D.withNms keepAll).suppress
    ((D.withNms keepAll).candidates (s.count b) (filtered s b) (out.letterboxParams b)), ?_, ?_⟩
  · rw [List.getElem?_ofFn, dif_pos b.isLt]
    rfl
  · exact mem_suppress_keepAll (D := D) hmem

/-- Every such box is that of the first slot in some run. -/
theorem exists_run_of_mix (hl : (D.filterConfig batch out.data).Launchable) (hmax : 0 < D.maxDetections) {b : Fin batch}
    {i e : Nat} (hi : (D.filterConfig batch out.data).Accepted b i)
    (he : e = i ∨ (D.filterConfig batch out.data).Accepted b e ∧ GpuFilter.blockDim ≤ e) (pick : Fin 6 → Bool) :
    ∃ s, (GpuFilter.launch (D.filterConfig batch out.data) (fun _ => 0) fun _ => 0).Reachable s ∧ s.Finished ∧
      0 < s.count b ∧
      (decodeRecord (out.letterboxParams b) (filtered s b 0)).1 = (D.mixedCorners out b i e pick).truncated := by
  by_cases hne : e = i
  · -- the anchor alone, counted first
    subst hne
    obtain ⟨rest, hperm⟩ := GpuFilter.Config.exists_perm_cons (GpuFilter.Config.mem_accepted.2 hi)
    obtain ⟨s, hs, hf, hcompacted⟩ := exists_run hl b hperm
    have hslot : filtered s b 0 = (D.filterConfig batch out.data).record b e := hcompacted.record 0 e rfl hmax
    refine ⟨s, hs, hf, ?_, ?_⟩
    · have hlen := hcompacted.count_eq
      rw [List.length_cons] at hlen
      omega
    · rw [hslot]
      simp [decodeRecord, mixedCorners, Corners.truncated, Corners.of]
  · obtain ⟨hacc, hge⟩ := he.resolve_left hne
    obtain ⟨s, hs, hf, hpos, hslot⟩ := GpuFilter.exists_mix (fun _ => le_refl (0 : Int)) hl (fun _ => 0) b rfl
      hmax hacc hge hi hne pick
    refine ⟨s, hs, hf, hpos, ?_⟩
    have hdet : ∀ k, filtered s b 0 k = if pick k then (D.filterConfig batch out.data).record b i k
      else (D.filterConfig batch out.data).record b e k := hslot
    simp only [decodeRecord, mixedCorners, Corners.truncated, Corners.of, hdet]

/-- The CUDA build returns usable boxes only, if and only if all boxes that a run can make truncate well. -/
theorem cudaUsable_iff (hlp : ∀ b, 1 ≤ (out.letterboxParams b).origW ∧ 1 ≤ (out.letterboxParams b).origH) :
    D.CudaUsable out ↔ D.CudaFits out ∧ (YoloPostprocess.Accepted out = true → 0 < D.maxDetections →
      (D.filterConfig batch out.data).Launchable → ∀ b, D.MixesWell out b) := by
  refine and_congr (cudaDefined_iff D out) ?_
  have hbox : ∀ (b : Fin batch) (i e : Nat) (pick : Fin 6 → Bool),
      ((D.mixedCorners out b i e pick).truncated.Usable (out.letterboxParams b).origW (out.letterboxParams b).origH ↔
        (D.mixedCorners out b i e pick).TruncatesWell) := fun b i e pick =>
    (Corners.within_of (hlp b).1 (hlp b).2 _ _ _ _).truncated_usable_iff
  constructor
  · intro h hout hmax hl b i e hi he pick
    obtain ⟨s, hs, hf, hpos, hcorners⟩ := exists_run_of_mix hl hmax hi he pick
    obtain ⟨results, hres, r, hr, hmem⟩ := exists_mem_postprocess hout hmax hs hf hpos
    rw [← hbox, ← hcorners]
    exact h _ keepAll_selects true true results hres b r hr _ hmem
  · intro h nms _ sync1 sync2 results hres b r hr c hc
    obtain ⟨hout, hmax, hl, i, e, pick, hi, he, heq⟩ := exists_of_mem_postprocess hres hr hc
    rw [heq]
    exact (hbox b i e pick).2 (h hout hmax hl b i e hi he pick)

/-- The boxes of a model output are usable in the CPU build if and only if the anchors that it keeps round well, and
in the CUDA build, whatever the schedule of the filter is, if and only if the anchors that are accepted mix well. -/
theorem usable_iff (D : YoloCuda) {batch : Nat} (out : ModelOutput batch)
    (hlp : ∀ b, 0 < (out.letterboxParams b).scale ∧ 1 ≤ (out.letterboxParams b).origW ∧
      1 ≤ (out.letterboxParams b).origH) :
    (D.CpuUsable out ↔ D.RowsFit ∧ (YoloPostprocess.Accepted out = true → ∀ b : Fin batch,
      ∀ i ∈ D.cpuKept (slotData out b) (out.letterboxParams b),
        (D.corners (slotData out b) (out.letterboxParams b) i).RoundsWell (out.letterboxParams b).origW
          (out.letterboxParams b).origH)) ∧
    (D.CudaUsable out ↔ D.CudaFits out ∧ (YoloPostprocess.Accepted out = true → 0 < D.maxDetections →
      (D.filterConfig batch out.data).Launchable → ∀ b, D.MixesWell out b)) :=
  ⟨cpuUsable_iff fun b => (hlp b).2, cudaUsable_iff fun b => (hlp b).2⟩

/-- Two anchors of the first block, with boxes of the sizes 2 and 4. -/
def twoSizes : ModelOutput 1 := ⟨[10, 30, 10, 30, 2, 4, 2, 4, 1, 1], [1, 5, 2], fun _ => ⟨1, 0, 0, 640, 640⟩⟩

/-- Both builds return usable boxes only. -/
theorem usable_iff_sizes : roomForOne.CpuUsable twoSizes ∧ roomForOne.CudaUsable twoSizes := by
  have hiff := usable_iff roomForOne twoSizes (by decide +kernel)
  refine ⟨hiff.1.2 ⟨⟨by decide, by decide⟩, fun _ b i hi => ?_⟩,
    hiff.2.2 ⟨⟨fun _ => ⟨fun bid hb => ?_, by decide, by decide⟩, by decide⟩, fun _ _ _ b i e hi he pick => ?_⟩⟩
  · obtain rfl : b = 0 := Subsingleton.elim _ _
    have hkept : roomForOne.cpuKept (slotData twoSizes 0) (twoSizes.letterboxParams 0) = [0, 1] := by decide +kernel
    rw [hkept] at hi
    rcases List.mem_cons.1 hi with rfl | hi
    · exact ⟨by decide +kernel, by decide +kernel, by decide +kernel, by decide +kernel⟩
    · rw [List.mem_singleton.1 hi]
      exact ⟨by decide +kernel, by decide +kernel, by decide +kernel, by decide +kernel⟩
  · obtain rfl : bid = 0 := by
      simp only [filterConfig] at hb
      omega
    exact ⟨by decide, by decide, by decide⟩
  · obtain rfl : b = 0 := Subsingleton.elim _ _
    -- there is no anchor of another block
    have he' : e = i := he.resolve_right fun h => absurd (h.1.1.trans_le (show 2 ≤ 256 by decide)) (not_lt.2 h.2)
    subst he'
    have hmix : roomForOne.mixedCorners twoSizes 0 e e pick = roomForOne.mixedCorners twoSizes 0 e e fun _ => true := by
      simp [mixedCorners]
    rw [hmix]
    have hlt : e < 2 := hi.1
    interval_cases e <;> exact ⟨by decide +kernel, by decide +kernel⟩

/-- A box that ends with the image, 640 pixels wide, and is 21/2 pixels wide itself. -/
def edgeOutput : ModelOutput 1 := ⟨[2539 / 4, 10, 21 / 2, 2, 1], [1, 5, 1], fun _ => ⟨1, 0, 0, 640, 640⟩⟩

/-- A box of a quarter of a pixel has no width left in either build; the CPU build rounds the box at the edge to begin
at 630 and to be 11 pixels wide. -/
theorem box_not_usable : ¬oneAnchor.CpuUsable (boxOutput (1 / 4)) ∧ ¬oneAnchor.CudaUsable (boxOutput (1 / 4)) ∧
    ¬oneAnchor.CpuUsable edgeOutput := by
  refine ⟨fun h => ?_, fun h => ?_, fun h => ?_⟩
  · have hwell := ((cpuUsable_iff (by decide +kernel)).1 h).2 (by decide) 0 0 (by decide +kernel)
    exact absurd hwell.width (by decide +kernel)
  · have hwell := ((cudaUsable_iff (by decide +kernel)).1 h).2 (by decide) (by decide) (by decide) 0 0 0
      (GpuFilter.Config.mem_accepted.1 (by decide +kernel)) (.inl rfl) fun _ => true
    exact absurd hwell.width (by decide +kernel)
  · have hwell := ((cpuUsable_iff (by decide +kernel)).1 h).2 (by decide) 0 0 (by decide +kernel)
    exact hwell.right (by decide +kernel)

end YoloCuda

end OnnxInference
