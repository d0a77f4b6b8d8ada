import OnnxInference.Runner.YoloBatch
import OnnxInference.Runner.YoloCap
import OnnxInference.Runner.YoloGeometry
import OnnxInference.Runner.YoloRunner
import OnnxInference.Scheduler.AsyncIsolation

/-!
# Batches that are not full

`preprocess` writes the first slots of a tensor buffer; the letterbox parameters of the others are those of `wrap`, with
the scale zero, and `infer` copies them all.  The decode of both builds goes through all slots: `partial_iff` says when
it divides by such a scale.
-/

namespace OnnxInference

open Concurrency Transition

variable {net : Net}

namespace YoloCuda

/-! ### The letterbox parameters of a buffer -/

/-- The letterbox parameters of a buffer when the images have been written to its first slots. -/
def written (net : Net) (imgs : List Image) (b : Fin net.batch) : LetterboxParams :=
  (imgs[b.val]?).elim .zero fun img => letterbox net.size img.cols img.rows

/-- A call of `preprocess` for the request, or the letterbox parameters that it has stored. -/
def Stores (r : Image × Overload net) (g : Gpu net) :
    PreAt net ⊕ Except Error (Option (TensorBuffer net.batch)) → Prop
  | .inl (.acquire img o) | .inl (.access img o _) | .inl (.prepare img o _) => (img, o) = r
  | .inl (.copy img target _ _) | .inl (.kernel img target _ _) | .inl (.release img target _)
  | .inl (.store img target) =>
    img = r.1 ∧ Matches r.2 target
  | .inr (.ok (some buf)) => r.2 = .single ∧ ∃ data, buf = ownBuffer data r.1
  | .inr (.ok none) => ∃ k, r.2 = .batched k ∧ g.tenbuf.letterboxParams k = letterbox net.size r.1.cols r.1.rows
  | .inr (.error _) => True

variable {D : YoloCuda} {g g' : Gpu net} {l : PreAt net}
  {x : PreAt net ⊕ Except Error (Option (TensorBuffer net.batch))}
  {r : Image × Overload net}

theorem Stores.step (h : Stores r g (.inl l)) (hm : PreMove D g l g' x) : Stores r g' x := by
  cases hm with
  | acquire | access | launch | synchronize | release | thread | byte => exact h
  | own => exact h ▸ ⟨rfl, trivial⟩
  | slot => exact h ▸ ⟨rfl, rfl⟩
  | reject | foreign => trivial
  | storeOwn =>
    obtain ⟨img, o⟩ := r
    obtain ⟨rfl, hmatch⟩ := h
    cases o with
    | single => exact ⟨rfl, _, rfl⟩
    | batched => exact hmatch.elim
  | @storeSlot _ offset =>
    obtain ⟨img, o⟩ := r
    obtain ⟨rfl, hmatch⟩ := h
    cases o with
    | single => exact hmatch.elim
    | batched k =>
      obtain rfl : k = offset := hmatch
      exact ⟨k, rfl, Function.update_self ..⟩

/-- A call stores the parameters of its own slot only. -/
theorem Stores.frame (h : Stores r g (.inl l)) (hm : PreMove D g l g' x) {k : Fin net.batch} (hk : r.2 ≠ .batched k) :
    g'.tenbuf.letterboxParams k = g.tenbuf.letterboxParams k := by
  cases hm with
  | thread => rw [write_tenbuf]
  | @storeSlot _ offset =>
    obtain ⟨img, o⟩ := r
    obtain ⟨rfl, hmatch⟩ := h
    cases o with
    | single => exact hmatch.elim
    | batched k' =>
      obtain rfl : k' = offset := hmatch
      exact Function.update_of_ne (fun he => hk (congrArg Overload.batched he.symm)) _ _
  | _ => rfl

/-- What the calls have stored, and that the slots for which there is no request are as they were. -/
theorem stores_of_reachable {reqs : List (Image × Overload net)} (ha : Apart reqs)
    {s : Calls (Gpu net) (PreAt net) (Option (TensorBuffer net.batch)) Error}
    (h : ((D.preprocess net).tasks g reqs).Reachable s) :
    (∀ k, (∀ r ∈ reqs, r.2 ≠ .batched k) → s.shared.tenbuf.letterboxParams k = g.tenbuf.letterboxParams k) ∧
      s.calls.length = reqs.length ∧
      ∀ (k : Nat) r y, reqs[k]? = some r → s.calls[k]? = some y → Stores r s.shared y := by
  refine Prog.tasks_invariant (P := D.preprocess net) (J := Stores)
    (K := fun g' => ∀ k, (∀ r ∈ reqs, r.2 ≠ .batched k) → g'.tenbuf.letterboxParams k = g.tenbuf.letterboxParams k)
    (fun _ _ => rfl) (fun r _ => rfl) ?_ ?_ h
  · intro r c g₁ g₂ l x hr hK hJ hx
    have hm := PreMove.of_step hx
    exact ⟨fun k hk => (hJ.frame hm (hk r hr)).trans (hK k hk), hJ.step hm⟩
  · intro j k r r' c g₁ g₂ l x hjk hr hr' hJ hx y hy
    have hm := PreMove.of_step hx
    obtain ⟨a, a', ha, ha', hne⟩ := ha j k r r' hjk hr hr'
    rcases y with l' | e | buf | buf
    · cases l' <;> exact hy
    · trivial
    · obtain ⟨k', hk', hparams⟩ := hy
      refine ⟨k', hk', (hJ.frame hm fun he => hne ?_).trans hparams⟩
      rw [ha] at he
      rw [ha'] at hk'
      cases he
      cases hk'
      rfl
    · exact hy

/-- The buffers that `preprocess` has written the images to: one from `getTensorBuffer` with the images of a batch, in
the order of the slots, whatever the interleaving of their tasks, or the one that `preprocess(img)` returns. -/
inductive Written (D : YoloCuda) : List Image → TensorBuffer net.batch → Prop
  | batched {g : Gpu net} {imgs : List Image} (hle : imgs.length ≤ net.batch)
    {s : Calls (Gpu net) (PreAt net) (Option (TensorBuffer net.batch)) Error}
    (hg : g.tenbuf = .wrap net.batch g.tenbuf.data)
    (hs : ((D.preprocess net).tasks g (batchRequests imgs hle)).Reachable s) (he : ∀ x ∈ s.calls, x = .inr (.ok none)) :
    Written D imgs s.shared.tenbuf
  | single {g : Gpu net} {img : Image} {s : Calls (Gpu net) (PreAt net) (Option (TensorBuffer net.batch)) Error}
    {buf : TensorBuffer net.batch} (hs : ((D.preprocess net).tasks g [(img, .single)]).Reachable s)
    (he : s.calls = [.inr (.ok (some buf))]) : Written D [img] buf

theorem Written.params_eq {imgs : List Image} {tenbuf : TensorBuffer net.batch} (h : D.Written imgs tenbuf) :
    tenbuf.letterboxParams = written net imgs := by
  funext b
  cases h with
  | @batched g imgs hle s hg hs he =>
    obtain ⟨hK, hlen, hJ⟩ := stores_of_reachable (apart_batchRequests hle) hs
    by_cases hb : b.val < imgs.length
    · have hreq := getElem?_batchRequests hle ⟨b.val, hb⟩
      have hlt : b.val < s.calls.length := by
        rw [hlen]
        exact (List.getElem?_eq_some_iff.1 hreq).1
      have hcall : s.calls[b.val]? = some (.inr (.ok none)) := by
        rw [List.getElem?_eq_getElem hlt, he _ (List.getElem_mem hlt)]
      obtain ⟨k, hk, hparams⟩ := hJ b _ _ hreq hcall
      obtain rfl : b = k := by
        cases hk
        rfl
      rw [hparams, written, List.getElem?_eq_getElem hb]
      rfl
    · rw [hK b fun r hr => ?_, hg, written, List.getElem?_eq_none (by omega)]
      · rfl
      · obtain ⟨k, rfl⟩ := List.mem_ofFn.1 hr
        intro h
        have hval : k.val = b.val := congrArg Fin.val (Overload.batched.inj h)
        omega
  | @single g img s buf hs he =>
    obtain ⟨-, -, hJ⟩ := stores_of_reachable (apart_single img) hs
    obtain ⟨-, data, rfl⟩ := hJ 0 _ _ rfl (by rw [he]; rfl)
    by_cases hb : b = net.slot0
    · subst hb
      exact ownBuffer_params data img
    · have hne : b.val ≠ 0 := fun h => hb (Fin.ext h)
      rw [written, List.getElem?_eq_none (by rw [List.length_singleton]; omega)]
      exact Function.update_of_ne hb _ _

/-- A slot has a scale to divide by if and only if it holds an image that reaches the stride. -/
theorem written_scale_ne_zero_iff {imgs : List Image} {b : Fin net.batch} : (written net imgs b).scale ≠ 0 ↔
    ∃ img, imgs[b.val]? = some img ∧ 32 ≤ fitWidth net.size img.cols img.rows ∧
      32 ≤ fitHeight net.size img.cols img.rows := by
  unfold written
  rcases hb : imgs[b.val]? with _ | img
  · exact ⟨fun h => absurd rfl h, fun ⟨img, h, _⟩ => absurd h nofun⟩
  · have hscale : (letterbox net.size img.cols img.rows).scale = alignedScale net.size img.cols img.rows := rfl
    rw [Option.elim_some, hscale, ← alignedScale_nonneg.lt_iff_ne', alignedScale_pos_iff img.cols_pos img.rows_pos]
    constructor
    · exact fun h => ⟨img, rfl, h⟩
    · rintro ⟨img', heq, h⟩
      cases heq
      exact h

/-! ### The two decodes -/

section Decode

variable {batch n : Nat}

/-- The floats of the first `n` slots are the same. -/
def SameSlots (out : ModelOutput batch) (n : Nat) (data : List ℚ) : Prop :=
  ∀ a < n * out.planeSize, data.getD a 0 = out.data.getD a 0

/-- The CUDA build decodes a batch of `n` images safely: no `int` overflows, no run of the kernel leaves a detection
in a slot with the scale zero, and what is returned of the images does not depend on the other slots. -/
structure CudaSafe (D : YoloCuda) (n : Nat) (out : ModelOutput batch) : Prop where
  defined : D.CudaDefined out
  scale_ne_zero : ∀ count output s, D.Counts batch count →
    (GpuFilter.launch (D.filterConfig batch out.data) count output).Reachable s → s.Finished →
      ∀ b : Fin batch, 0 < D.clampCount (s.count b) → (out.letterboxParams b).scale ≠ 0
  results_eq : ∀ data, SameSlots out n data → ∀ sync1 sync2 r,
    (∃ results, D.Returns { out with data := data } sync1 sync2 results ∧ results.map (List.take n) = r) ↔
      ∃ results, D.Returns out sync1 sync2 results ∧ results.map (List.take n) = r

/-- The CPU build decodes a batch of `n` images safely: no `int` overflows, no anchor that reaches the threshold is in a
slot with the scale zero, and what is returned of the images does not depend on the other slots. -/
structure CpuSafe (D : YoloCuda) (n : Nat) (out : ModelOutput batch) : Prop where
  defined : D.RowsFit
  scale_ne_zero : ∀ b : Fin batch, ∀ i < D.numPredictions, D.confThreshold ≤ (D.cpuBest (slotData out b) i).1 →
    (out.letterboxParams b).scale ≠ 0
  results_eq : ∀ data, SameSlots out n data →
    (D.toYoloDetector.postprocess { out with data := data }).map (fun outs => outs.1.take n) =
      (D.toYoloDetector.postprocess out).map fun outs => outs.1.take n

/-! #### The CUDA build -/

/-- Slots with the same candidates have the same results. -/
theorem postprocess_take_eq {o o' : YoloPostprocess.Device batch} {out out' : ModelOutput batch}
    {cpuFiltered cpuFiltered' : Fin batch → Nat → Fin 6 → ℚ}
    (hacc : YoloPostprocess.Accepted out' = YoloPostprocess.Accepted out) (h1 : o'.sync1 = o.sync1)
    (h2 : o'.sync2 = o.sync2)
    (h : ∀ b : Fin batch, b.val < n → D.candidates (o'.hostCounts b) (cpuFiltered' b) (out'.letterboxParams b) =
      D.candidates (o.hostCounts b) (cpuFiltered b) (out.letterboxParams b)) :
    (D.postprocess o' cpuFiltered' out').map (List.take n) = (D.postprocess o cpuFiltered out).map (List.take n) := by
  by_cases ha : YoloPostprocess.Accepted out = true
  · have ha' := hacc.trans ha
    by_cases hs : o.sync1 = true ∧ o.sync2 = true
    · rw [postprocess_of_sync ha hs.1 hs.2, postprocess_of_sync ha' (h1.trans hs.1) (h2.trans hs.2)]
      refine congrArg Except.ok (List.ext_getElem (by simp) fun k hk _ => ?_)
      have hlt : k < n ∧ k < batch := by simpa using hk
      rw [List.getElem_take, List.getElem_take, List.getElem_ofFn, List.getElem_ofFn, h ⟨k, hlt.2⟩ hlt.1]
    · rw [postprocess_of_not_sync ha hs, postprocess_of_not_sync ha' (by rwa [h1, h2])]
  · have ha' : ¬YoloPostprocess.Accepted out' = true := by rwa [hacc]
    rw [postprocess_of_not_accepted ha, postprocess_of_not_accepted ha']

theorem candidates_congr {hostCount : Int} {cpuFiltered cpuFiltered' : Nat → Fin 6 → ℚ} (lp : LetterboxParams)
    (h : ∀ j < D.maxDetections, ∀ k, cpuFiltered' j k = cpuFiltered j k) :
    D.candidates hostCount cpuFiltered' lp = D.candidates hostCount cpuFiltered lp := by
  refine List.map_congr_left fun j hj => ?_
  have hlt : j < D.maxDetections := by
    have := List.mem_range.1 hj
    unfold clampCount at this
    omega
  rw [funext (h j hlt)]

/-- The kernel reads the same floats of the first slots. -/
theorem SameSlots.sameInput {out : ModelOutput batch} {data : List ℚ} (h : SameSlots out n data)
    (hshape : D.HasShape out) (hattr : 4 ≤ D.numAttributes) (hn : n ≤ batch) :
    GpuFilter.SameInput (D.filterConfig batch out.data) (D.filterConfig batch data).input n := by
  intro b hb row hrow i hi
  have hplane := hshape.planeSize_eq ⟨b, by omega⟩
  have hrow' : row < D.numAttributes := by
    simp only [filterConfig] at hrow
    omega
  have hattr' : 4 + (D.numAttributes - 4) = D.numAttributes := by omega
  have hlt : b * ((4 + (D.numAttributes - 4)) * D.numPredictions) + row * D.numPredictions + i <
    n * out.planeSize := by
    rw [hattr', hplane, Nat.add_assoc]
    exact index_lt hb (index_lt hrow' hi)
  exact h _ hlt

/-- Every run on the one output has one on the other with the same results for the first images. -/
theorem Returns.of_same (out : ModelOutput batch) {data : List ℚ} (hshape : D.HasShape out)
    (hattr : 4 ≤ D.numAttributes)
    (hn : n ≤ batch) (h : SameSlots out n data) {sync1 sync2 : Bool} {results : Except Error (List (List Candidate))}
    (hr : D.Returns out sync1 sync2 results) : ∃ results', D.Returns { out with data := data } sync1 sync2 results' ∧
      results'.map (List.take n) = results.map (List.take n) := by
  obtain ⟨count, output, s, hcount, hs, hf, rfl⟩ := hr
  obtain ⟨s', hs', hf', ha⟩ := GpuFilter.exists_agreeing hcount.nonneg (h.sameInput hshape hattr hn) hs hf
  refine ⟨_, ⟨count, output, s', hcount, hs', hf', rfl⟩, postprocess_take_eq rfl rfl rfl fun b hb => ?_⟩
  have hcounts : s'.count b = s.count b := ha.count b hb
  simp only [readBack, hcounts]
  exact candidates_congr _ fun j hj k => ha.output b hb j hj k

theorem SameSlots.symm {out : ModelOutput batch} {data : List ℚ} (h : SameSlots out n data) :
    SameSlots { out with data := data } n out.data := fun a ha => (h a ha).symm

theorem cudaSafe_iff {out : ModelOutput batch} (hshape : D.HasShape out) (hattr : 4 ≤ D.numAttributes)
    (hn : n ≤ batch) :
    D.CudaSafe n out ↔ D.CudaFits out ∧
      ∀ b : Fin batch, 0 < D.maxDetections → (D.filterConfig batch out.data).Launchable →
        (∃ i, (D.filterConfig batch out.data).Accepted b i) → (out.letterboxParams b).scale ≠ 0 := by
  constructor
  · rintro ⟨hdefined, hscale, -⟩
    refine ⟨(cudaDefined_iff D out).1 hdefined, fun b hmax hl ⟨i, hi⟩ => ?_⟩
    -- after `cudaMemset` some run of the kernel counts the anchor
    obtain ⟨s, hs, hf, hpos⟩ := GpuFilter.exists_count_pos (fun _ => 0) (fun _ => 0) hl b hi
    exact hscale _ _ s .memset hs hf b (clampCount_pos_iff.2 ⟨hmax, hpos⟩)
  · rintro ⟨hfits, h⟩
    refine ⟨(cudaDefined_iff D out).2 hfits, fun count output s hcount hs hf b hb => ?_,
      fun data hsame sync1 sync2 r => ⟨?_, ?_⟩⟩
    · obtain ⟨hmax, hpos⟩ := clampCount_pos_iff.1 hb
      by_cases hl : (D.filterConfig batch out.data).Launchable
      · refine h b hmax hl ?_
        by_contra hnone
        push Not at hnone
        have hzero := GpuFilter.count_of_none hl hs hf b hnone
        have hpos' : 0 < s.count b := hpos
        omega
      · -- no launch was accepted before either, so the counts are those of `cudaMemset`
        rw [(GpuFilter.finished_of_not_launchable hl hs).2, hcount.of_not_launchable hl] at hpos
        cases hpos
    · rintro ⟨results, hr, rfl⟩
      exact Returns.of_same { out with data := data } hshape hattr hn hsame.symm hr
    · rintro ⟨results, hr, rfl⟩
      exact Returns.of_same out hshape hattr hn hsame hr

/-! #### The CPU build -/

theorem corners_congr {pdata pdata' : List ℚ} (lp : LetterboxParams) {i : Nat}
    (h : ∀ k < 4, pdata'.getD (k * D.numPredictions + i) 0 = pdata.getD (k * D.numPredictions + i) 0) :
    D.corners pdata' lp i = D.corners pdata lp i := by
  simp only [corners, h 0 (by decide), h 1 (by decide), h 2 (by decide), h 3 (by decide)]

/-- The decode of a slot reads its own floats only. -/
theorem detections_congr {pdata pdata' : List ℚ} (lp : LetterboxParams) (hattr : 4 ≤ D.numAttributes)
    (h : ∀ k < D.numAttributes, ∀ i < D.numPredictions,
      pdata'.getD (k * D.numPredictions + i) 0 = pdata.getD (k * D.numPredictions + i) 0) :
    D.detections pdata' lp = D.detections pdata lp := by
  have hdecode : ∀ i ∈ List.range D.numPredictions, D.decode pdata' lp i = D.decode pdata lp i := by
    intro i hi
    have hlt := List.mem_range.1 hi
    have hbest : D.cpuBest pdata' i = D.cpuBest pdata i :=
      Argmax.scan_congr fun c hc => h (4 + c) (by omega) i hlt
    rw [decode_corners, decode_corners, hbest, corners_congr lp fun k hk => h k (by omega) i hlt]
  unfold YoloDetector.detections
  rw [List.filterMap_congr hdecode]

theorem cpu_postprocess_take_eq {out : ModelOutput batch} {data : List ℚ} (hshape : D.HasShape out)
    (hattr : 4 ≤ D.numAttributes) (h : SameSlots out n data) :
    (D.toYoloDetector.postprocess { out with data := data }).map (fun outs => outs.1.take n) =
      (D.toYoloDetector.postprocess out).map fun outs => outs.1.take n := by
  by_cases hacc : YoloPostprocess.Accepted out = true
  · obtain ⟨results, hr, heq⟩ := cpu_postprocess_eq D out hacc
    obtain ⟨results', hr', heq'⟩ := cpu_postprocess_eq D { out with data := data } hacc
    rw [hr, hr']
    refine congrArg Except.ok ?_
    show results'.1.take n = results.1.take n
    rw [heq, heq']
    refine List.ext_getElem (by simp) fun b hb _ => ?_
    have hlt : b < n ∧ b < batch := by simpa using hb
    rw [List.getElem_take, List.getElem_take, List.getElem_ofFn, List.getElem_ofFn]
    refine detections_congr _ hattr fun k hk i hi => ?_
    have hplane : out.planeSize = D.numAttributes * D.numPredictions := hshape.planeSize_eq ⟨b, hlt.2⟩
    have hindex : b * out.planeSize + (k * D.numPredictions + i) < n * out.planeSize := by
      rw [hplane]
      exact index_lt hlt.1 (index_lt hk hi)
    have hsame := h _ hindex
    simp only [List.getD_eq_getElem?_getD] at hsame
    simp only [slotData, List.getD_eq_getElem?_getD, List.getElem?_drop]
    exact hsame
  · have hinvalid : (!out.valid || out.shape.length != 3) = true := by
      simpa [YoloPostprocess.Accepted, imp_iff_not_or] using hacc
    have hinvalid' : (!({ out with data := data } : ModelOutput batch).valid || out.shape.length != 3) = true :=
      hinvalid
    simp only [YoloDetector.postprocess, hinvalid, hinvalid', if_true]

/-- The parameters of the buffer that `preprocess(img)` returns in the CPU build, as they arrive in the model output. -/
theorem cpu_params {be : CpuBackend} {mem mem' memRun : Memory} {img : Mat} {buf : TensorBuffer be.net.batch}
    {out : ModelOutput be.net.batch} (hpre : (D.toYoloDetector.cpuRunner be).preprocess mem img = .ok (mem', buf))
    (hinf : be.infer memRun buf = .ok out) : ∃ params, params.scale ≠ 0 ∧
      out.letterboxParams = Function.update (fun _ => .zero) be.net.slot0 params := by
  simp only [CpuRunner.preprocess, bind, Except.bind] at hpre
  split at hpre
  · cases hpre
  · rename_i x hx
    obtain ⟨params, values⟩ := x
    cases hpre
    obtain ⟨-, hpos, -⟩ := YoloDetector.prepare_spec hx
    refine ⟨params, fun hzero => ?_, ?_⟩
    · -- the resized image would have no columns
      rw [hzero, mul_zero] at hpos
      exact absurd (cRound_pos_iff.1 hpos) (by norm_num)
    · simp only [CpuBackend.infer, bind, Except.bind] at hinf
      split at hinf
      · cases hinf
      · split at hinf
        · cases hinf
        · cases hinf
          rfl

theorem cpuSafe_iff {out : ModelOutput batch} (hshape : D.HasShape out) (hattr : 4 ≤ D.numAttributes) :
    D.CpuSafe n out ↔ D.RowsFit ∧
      ∀ b : Fin batch, ∀ i < D.numPredictions, D.confThreshold ≤ (D.cpuBest (slotData out b) i).1 →
        (out.letterboxParams b).scale ≠ 0 :=
  ⟨fun h => ⟨h.defined, h.scale_ne_zero⟩,
    fun ⟨hfits, h⟩ => ⟨hfits, h, fun _ hsame => cpu_postprocess_take_eq hshape hattr hsame⟩⟩

end Decode

theorem Written.length_le {imgs : List Image} {tenbuf : TensorBuffer net.batch} (h : D.Written imgs tenbuf) :
    imgs.length ≤ net.batch := by
  cases h with
  | batched hle => exact hle
  | single => exact net.batch_pos

/-- Every slot in which the kernel accepts an anchor holds an image that reaches the stride. -/
def Supplied (D : YoloCuda) (imgs : List Image) (out : ModelOutput net.batch) : Prop :=
  ∀ b : Fin net.batch, 0 < D.maxDetections → (D.filterConfig net.batch out.data).Launchable →
    (∃ i, (D.filterConfig net.batch out.data).Accepted b i) →
      ∃ img, imgs[b.val]? = some img ∧ 32 ≤ fitWidth net.size img.cols img.rows ∧
        32 ≤ fitHeight net.size img.cols img.rows

/-- No anchor of another slot than the first reaches the threshold. -/
def OneSupplied (D : YoloCuda) (out : ModelOutput net.batch) : Prop :=
  ∀ b : Fin net.batch, b ≠ net.slot0 → ∀ i < D.numPredictions, (D.cpuBest (slotData out b) i).1 < D.confThreshold

/-- A detector with one staging element, when the buffer 0 has been acquired for a batch. -/
def freshGpu (net : Net) : Gpu net :=
  ⟨.create 1, fun p => if p = 0 then some (some 0) else none, fun _ => 0, ⟨2, [1]⟩,
    fun _ => List.replicate net.numElements 0, .wrap net.batch 0⟩

/-- Images that are continuous and fit the staging elements can be written. -/
theorem exists_written (D : YoloCuda) {imgs : List Image} (hle : imgs.length ≤ net.batch)
    (hcont : ∀ img ∈ imgs, img.isContinuous = true) (hfit : ∀ img ∈ imgs, FitsElement net img) :
    ∃ tenbuf : TensorBuffer net.batch, D.Written imgs tenbuf := by
  have hg : (freshGpu net).Ready 1 := ⟨.create 1, List.nodup_range, List.cons_ne_nil _ _, List.cons_ne_nil _ _⟩
  have hs : (freshGpu net).Sized := ⟨fun _ _ => List.length_replicate, List.length_replicate⟩
  have hv : Valid (batchRequests imgs hle) := valid_batchRequests hle hcont hfit
  have ha : Apart (batchRequests imgs hle) := apart_batchRequests hle
  have hinit : ((D.preprocess net).tasks (freshGpu net) (batchRequests imgs hle)).run
      ((D.preprocess net).tasks (freshGpu net) (batchRequests imgs hle)).init [] = some _ := rfl
  obtain ⟨ls, s, hr, he⟩ := exists_ended hg hs hv ha hinit
  have hi := (Inv.init hg hs).run hg hv ha hr
  refine ⟨_, .batched (g := freshGpu net) hle rfl (.of_run .init hr) fun x hx => ?_⟩
  obtain ⟨k, hk⟩ := List.mem_iff_getElem?.1 hx
  have hlt : k < imgs.length := by
    have := (List.getElem?_eq_some_iff.1 hk).1
    rw [hi.length, batchRequests, List.length_ofFn] at this
    exact this
  obtain ⟨o, ho, hat⟩ := hi.ended he (getElem?_batchRequests hle ⟨k, hlt⟩)
  rw [hk, Option.some.injEq] at ho
  rcases o with _ | buf
  · exact ho
  · obtain ⟨_, hplaced, -⟩ := hat
    exact hplaced.target_of.elim

private theorem square_pos : 0 < 32 := by decide

def square : Image := .uniform 32 32 ⟨114, 114, 114⟩ square_pos square_pos

/-- The anchor of the slot 1 has the score one. -/
def staleData : List ℚ := [0, 0, 0, 0, 0, 0, 0, 0, 0, 1]

theorem exists_written_square : ∃ tenbuf : TensorBuffer pairNet.batch, oneAnchor.Written [square] tenbuf := by
  refine exists_written oneAnchor (by decide) ?_ ?_
  · intro img himg
    rw [List.mem_singleton.1 himg]
    rfl
  · intro img himg
    rw [List.mem_singleton.1 himg]
    show 32 * (32 * 3) ≤ 3 * (32 * 32) * 4
    decide

/-- The anchor of the slot 0 has the score one, that of the slot 1 has the score zero. -/
def cleanData : List ℚ := [10, 10, 4, 4, 1, 0, 0, 0, 0, 0]

/-- The network of the CPU build with this output. -/
def cleanBackend : CpuBackend := ⟨pairNet, 1, 0, fun _ => .ok ([2, 5, 1], cleanData)⟩

theorem oneAnchor_fits (data : List ℚ) (params : Fin 2 → LetterboxParams) :
    oneAnchor.RowsFit ∧ oneAnchor.CudaFits (⟨data, [2, 5, 1], params⟩ : ModelOutput 2) := by
  have hrows : 4 * 1 < 2 ^ 31 ∧ ∀ c < 1, c * 1 < 2 ^ 31 := by decide
  refine ⟨⟨hrows.1, hrows.2⟩, ⟨fun _ => ⟨fun bid hb => ?_, ⟨hrows.1, hrows.2⟩⟩, by decide⟩⟩
  have hlt : bid < 2 := hb
  have hoffsets : 4 + 1 < 2 ^ 31 ∧ bid * (4 + 1) * 1 < 2 ^ 31 ∧ bid * 300 * 6 < 2 ^ 31 := by omega
  exact ⟨hoffsets.1, hoffsets.2.1, hoffsets.2.2⟩

end YoloCuda

end OnnxInference
