import OnnxInference.Transition
import OnnxInference.Argmax
import OnnxInference.Runner.YoloAgreement

/-!
# The decode of the CPU build, read by read

`postprocess` does not transpose the output tensor: it goes through the predictions of an image with strides, from one
float to the next, and the images are decoded in parallel.  The model makes one step for each float that is read; a
run is any interleaving of the images.  What is found of an image is what a scan over the rows of its transposed slab
finds (`scan_correct`).
-/

namespace OnnxInference

open Transition

/-- `boxes`, `confidences` and `class_ids`. -/
structure Found where
  boxes : List Rect
  confidences : List ℚ
  classIds : List Nat

namespace Found

def push (f : Found) (box : Rect) (confidence : ℚ) (classId : Nat) : Found :=
  ⟨f.boxes ++ [box], f.confidences ++ [confidence], f.classIds ++ [classId]⟩

/-- The three lists of a list of triples. -/
def of (l : List (Rect × ℚ × Nat)) : Found := ⟨l.map (·.1), l.map (·.2.1), l.map (·.2.2)⟩

theorem of_concat (l : List (Rect × ℚ × Nat)) (x : Rect × ℚ × Nat) :
    of (l ++ [x]) = (of l).push x.1 x.2.1 x.2.2 := by
  simp only [of, push, List.map_append, List.map_cons, List.map_nil]

end Found

namespace YoloDetector

variable (D : YoloDetector)

/-- From the lists to the detections of an image. -/
def assemble (f : Found) : List Detection :=
  let indexes := if f.boxes.isEmpty then [] else D.nmsBoxes f.boxes f.confidences D.confThreshold D.nmsThreshold
  indexes.filterMap fun idx =>
    f.boxes[idx]?.bind fun box => f.confidences[idx]?.bind fun score => f.classIds[idx]?.map fun classId =>
      ⟨box, score, classId⟩

/-! ### The loops -/

/-- Where the iteration of an image stands. -/
inductive ScanAt
  | prediction (i : Nat) (f : Found)
  | cls (i c : Nat) (bestScore : ℚ) (bestCls : Nat) (f : Found)
  | box (i : Nat) (bestScore : ℚ) (bestCls : Nat) (coords : List ℚ) (f : Found)
  | suppress (f : Found)
  | store (result : List Detection)
  | done

/-- A box with these coordinates, pushed back if it has an area. -/
def keepBox (lp : LetterboxParams) (cx cy ow oh bestScore : ℚ) (bestCls : Nat) (f : Found) : Found :=
  let x1 := clamp ((cx - 1 / 2 * ow - lp.padLeft) / lp.scale) 0 lp.origW
  let y1 := clamp ((cy - 1 / 2 * oh - lp.padTop) / lp.scale) 0 lp.origH
  let x2 := clamp ((cx + 1 / 2 * ow - lp.padLeft) / lp.scale) 0 lp.origW
  let y2 := clamp ((cy + 1 / 2 * oh - lp.padTop) / lp.scale) 0 lp.origH
  if x2 ≤ x1 ∨ y2 ≤ y1 then f
  else f.push ⟨cRound x1, cRound y1, cRound (x2 - x1), cRound (y2 - y1)⟩ bestScore bestCls

/-- One step of an iteration up to `results[b]`, with the offsets from `pdata` that it reads.  The products in them are
of type `int` in the source and exact here: they are the same where `RowsFit` holds. -/
def scanStep (pdata : Nat → ℚ) (lp : LetterboxParams) : ScanAt → Option (ScanAt × List Nat)
  | .prediction i f =>
    if i < D.numPredictions then some (.cls i 0 0 0 f, [])
    else some (.suppress f, [])
  | .cls i c bestScore bestCls f =>
    if c < D.numAttributes - 4 then
      -- `cls_ptr[c * num_predictions]`
      let offset := 4 * D.numPredictions + i + c * D.numPredictions
      let s := pdata offset
      some (if s > bestScore then .cls i (c + 1) s c f else .cls i (c + 1) bestScore bestCls f, [offset])
    else if bestScore < D.confThreshold then some (.prediction (i + 1) f, [])
    else some (.box i bestScore bestCls [] f, [])
  | .box i bestScore bestCls [cx, cy, ow, oh] f =>
    some (.prediction (i + 1) (keepBox lp cx cy ow oh bestScore bestCls f), [])
  | .box i bestScore bestCls coords f =>
    -- `box_ptr[k * num_predictions]`
    let offset := i + coords.length * D.numPredictions
    some (.box i bestScore bestCls (coords ++ [pdata offset]) f, [offset])
  | .suppress f => some (.store (D.assemble f), [])
  | .store _ => none
  | .done => none

/-- The iterations, `results`, and the indices of the tensor that have been read. -/
structure ScanState (batch : Nat) where
  at_ : Fin batch → ScanAt
  results : Fin batch → List Detection
  reads : List Nat

variable {batch : Nat}

/-- `pdata` of an image. -/
def scanData (out : ModelOutput batch) (b : Fin batch) (offset : Nat) : ℚ :=
  out.data.getD (b * out.planeSize + offset) 0

/-- The iteration of an image makes a step. -/
def scanImage (out : ModelOutput batch) (s : ScanState batch) (b : Fin batch) : Option (ScanState batch) :=
  match s.at_ b with
  | .store result =>
    some { s with at_ := Function.update s.at_ b .done, results := Function.update s.results b result }
  | l => (D.scanStep (scanData out b) (out.letterboxParams b) l).map fun x =>
    { s with at_ := Function.update s.at_ b x.1, reads := s.reads ++ x.2.map (b * out.planeSize + ·) }

/-- `#pragma omp parallel for`: the iterations make their steps in any order. -/
def scan (out : ModelOutput batch) : System (ScanState batch) (Fin batch) where
  init := ⟨fun _ => .prediction 0 ⟨[], [], []⟩, fun _ => [], []⟩
  step := D.scanImage out

/-! ### The plain scan -/

/-- The slab of an image. -/
def slab (out : ModelOutput batch) (b : Fin batch) : List ℚ :=
  (out.data.drop (b * (D.numAttributes * D.numPredictions))).take (D.numAttributes * D.numPredictions)

/-- `cv::transpose`: a row for each prediction. -/
def transpose (attributes predictions : Nat) (m : List ℚ) : List (List ℚ) :=
  (List.range predictions).map fun i => (List.range attributes).map fun k => m.getD (k * predictions + i) 0

/-- A row: its greatest score and the first index of it (`cv::minMaxLoc`), and its box if it has an area. -/
def scanRow (lp : LetterboxParams) (row : List ℚ) : Option (Rect × ℚ × Nat) :=
  let scores := row.drop 4
  scores.max?.bind fun score =>
    let c := Corners.of lp (row.getD 0 0) (row.getD 1 0) (row.getD 2 0) (row.getD 3 0)
    if D.confThreshold ≤ score ∧ 0 < c.x2 - c.x1 ∧ 0 < c.y2 - c.y1 then some (c.rounded, score, scores.idxOf score)
    else none

/-- The plain decode of a slab. -/
def plainScan (lp : LetterboxParams) (m : List ℚ) : List (Rect × ℚ × Nat) :=
  (transpose D.numAttributes D.numPredictions m).filterMap (D.scanRow lp)

/-! ### Rows -/

variable {D} {lp : LetterboxParams} {m : List ℚ}

/-- The scores of a prediction, in the layout of the tensor. -/
def scoreOf (D : YoloDetector) (m : List ℚ) (i c : Nat) : ℚ := m.getD ((4 + c) * D.numPredictions + i) 0

/-- The row of a prediction in the transposed slab. -/
def rowOf (D : YoloDetector) (m : List ℚ) (i : Nat) : List ℚ :=
  (List.range D.numAttributes).map fun k => m.getD (k * D.numPredictions + i) 0

theorem getD_rowOf {k : Nat} (hk : k < D.numAttributes) (i : Nat) :
    (D.rowOf m i).getD k 0 = m.getD (k * D.numPredictions + i) 0 := by
  rw [rowOf, List.getD_eq_getElem?_getD, List.getElem?_map, List.getElem?_range hk, Option.map_some, Option.getD_some]

theorem drop_rowOf (i : Nat) :
    (D.rowOf m i).drop 4 = (List.range (D.numAttributes - 4)).map (D.scoreOf m i) := by
  refine List.ext_getElem (by simp [rowOf]) fun c _ _ => ?_
  rw [List.getElem_drop]
  simp only [rowOf, List.getElem_map, List.getElem_range, scoreOf]

/-- The loop over the classes of a prediction. -/
def bestOf (D : YoloDetector) (m : List ℚ) (i n : Nat) : ℚ × Nat := Argmax.scan (D.scoreOf m i) id (0, 0) n

theorem decode_eq_bestOf (i : Nat) : D.decode m lp i =
    let best := D.bestOf m i (D.numAttributes - 4)
    let at_ (k : Nat) : ℚ := m.getD (k * D.numPredictions + i) 0
    let c := Corners.of lp (at_ 0) (at_ 1) (at_ 2) (at_ 3)
    if best.1 < D.confThreshold then none
    else if c.x2 ≤ c.x1 ∨ c.y2 ≤ c.y1 then none
    else some (c.rounded, best.1, best.2) := rfl

/-- The strided decode of a prediction is the decode of its row: the search for the best class starts with zero, which
is below the threshold. -/
theorem decode_eq_scanRow (hattr : 4 ≤ D.numAttributes) (hconf : 0 < D.confThreshold) (i : Nat) :
    D.decode m lp i = D.scanRow lp (D.rowOf m i) := by
  simp only [decode_eq_bestOf, scanRow, drop_rowOf, getD_rowOf (by omega : 0 < D.numAttributes),
    getD_rowOf (by omega : 1 < D.numAttributes), getD_rowOf (by omega : 2 < D.numAttributes),
    getD_rowOf (by omega : 3 < D.numAttributes)]
  generalize Corners.of lp _ _ _ _ = corners
  rcases Argmax.scan_cases (D.scoreOf m i) id (0, 0) (D.numAttributes - 4) with ⟨hs, hle⟩ | ⟨c, hfirst, hpos, hs⟩
  · -- no score is positive, and so none reaches the threshold
    rw [bestOf, hs, if_pos hconf]
    cases hmax : ((List.range (D.numAttributes - 4)).map (D.scoreOf m i)).max? with
    | none => rfl
    | some score =>
      obtain ⟨c, hc, rfl⟩ := List.mem_map.1 (List.max?_eq_some_iff.1 hmax).1
      have hlt := (hle c (List.mem_range.1 hc)).trans_lt hconf
      rw [Option.bind_some, if_neg fun h => absurd h.1 (not_le.2 hlt)]
  · rw [bestOf, hs, hfirst.max?_eq, Option.bind_some, hfirst.idxOf_eq]
    by_cases hscore : D.scoreOf m i c < D.confThreshold
    · rw [if_pos hscore, if_neg fun h => absurd hscore (not_lt.2 h.1)]
    · rw [if_neg hscore]
      by_cases hsolid : corners.x2 ≤ corners.x1 ∨ corners.y2 ≤ corners.y1
      · rw [if_pos hsolid, if_neg fun h => ?_]
        rcases hsolid with hx | hy
        · linarith [h.2.1]
        · linarith [h.2.2]
      · rw [if_neg hsolid, if_pos ?_]
        · rfl
        · rw [not_or, not_le, not_le] at hsolid
          exact ⟨not_lt.1 hscore, sub_pos.2 hsolid.1, sub_pos.2 hsolid.2⟩

theorem filterMap_decode (hattr : 4 ≤ D.numAttributes) (hconf : 0 < D.confThreshold) :
    (List.range D.numPredictions).filterMap (D.decode m lp) = D.plainScan lp m := by
  rw [plainScan, transpose, List.filterMap_map]
  exact List.filterMap_congr fun i _ => decode_eq_scanRow hattr hconf i

/-! ### The invariant of an iteration -/

/-- What is found of the first predictions. -/
def foundIn (D : YoloDetector) (lp : LetterboxParams) (m : List ℚ) (n : Nat) : Found :=
  .of ((List.range n).filterMap (D.decode m lp))

/-- How far an iteration has come on the slab `m`. -/
def Scanned (D : YoloDetector) (lp : LetterboxParams) (m : List ℚ) : ScanAt → Prop
  | .prediction i f => i ≤ D.numPredictions ∧ f = D.foundIn lp m i
  | .cls i c bestScore bestCls f => i < D.numPredictions ∧ c ≤ D.numAttributes - 4 ∧ f = D.foundIn lp m i ∧
    (bestScore, bestCls) = D.bestOf m i c
  | .box i bestScore bestCls coords f => i < D.numPredictions ∧ f = D.foundIn lp m i ∧
    (bestScore, bestCls) = D.bestOf m i (D.numAttributes - 4) ∧ ¬bestScore < D.confThreshold ∧ coords.length ≤ 4 ∧
    coords = (List.range coords.length).map fun k => m.getD (k * D.numPredictions + i) 0
  | .suppress f => f = D.foundIn lp m D.numPredictions
  | .store result => result = D.assemble (D.foundIn lp m D.numPredictions)
  | .done => True

theorem foundIn_succ (i : Nat) : D.foundIn lp m (i + 1) =
    match D.decode m lp i with
    | none => D.foundIn lp m i
    | some x => (D.foundIn lp m i).push x.1 x.2.1 x.2.2 := by
  rw [foundIn, List.range_succ, List.filterMap_append, List.filterMap_cons]
  cases D.decode m lp i with
  | none => rw [List.filterMap_nil, List.append_nil]; rfl
  | some x => exact Found.of_concat _ x

/-- A prediction below the threshold is left out. -/
theorem foundIn_succ_of_lt {i : Nat} (h : (D.bestOf m i (D.numAttributes - 4)).1 < D.confThreshold) :
    D.foundIn lp m (i + 1) = D.foundIn lp m i := by
  rw [foundIn_succ, decode_eq_bestOf]
  simp only [h, if_true]

theorem keepBox_eq (cx cy ow oh bestScore : ℚ) (bestCls : Nat) (f : Found) :
    keepBox lp cx cy ow oh bestScore bestCls f =
      let c := Corners.of lp cx cy ow oh
      if c.x2 ≤ c.x1 ∨ c.y2 ≤ c.y1 then f else f.push c.rounded bestScore bestCls := rfl

/-- The box of the others is kept if it has an area. -/
theorem foundIn_succ_of_not_lt {i : Nat} (h : ¬(D.bestOf m i (D.numAttributes - 4)).1 < D.confThreshold) :
    D.foundIn lp m (i + 1) =
      let at_ (k : Nat) : ℚ := m.getD (k * D.numPredictions + i) 0
      keepBox lp (at_ 0) (at_ 1) (at_ 2) (at_ 3) (D.bestOf m i (D.numAttributes - 4)).1
        (D.bestOf m i (D.numAttributes - 4)).2 (D.foundIn lp m i) := by
  simp only [foundIn_succ, decode_eq_bestOf, keepBox_eq, if_neg h]
  generalize Corners.of lp _ _ _ _ = corners
  by_cases hsolid : corners.x2 ≤ corners.x1 ∨ corners.y2 ≤ corners.y1
  · rw [if_pos hsolid, if_pos hsolid]
  · rw [if_neg hsolid, if_neg hsolid]

/-- A coordinate is read until there are four. -/
theorem scanStep_box_of_lt {pdata : Nat → ℚ} {i bestCls : Nat} {bestScore : ℚ} {coords : List ℚ} {f : Found}
    (h : coords.length < 4) : D.scanStep pdata lp (.box i bestScore bestCls coords f) =
      some (.box i bestScore bestCls (coords ++ [pdata (i + coords.length * D.numPredictions)]) f,
        [i + coords.length * D.numPredictions]) := by
  match coords, h with
  | [], _ => rfl
  | [_], _ => rfl
  | [_, _], _ => rfl
  | [_, _, _], _ => rfl

/-- A step of an iteration keeps the invariant, and reads inside of the slab. -/
theorem Scanned.step {pdata : Nat → ℚ} (hattr : 4 ≤ D.numAttributes)
    (hread : ∀ k < D.numAttributes, ∀ i < D.numPredictions,
      pdata (k * D.numPredictions + i) = m.getD (k * D.numPredictions + i) 0)
    {l l' : ScanAt} {offsets : List Nat} (h : D.Scanned lp m l) (hs : D.scanStep pdata lp l = some (l', offsets)) :
    D.Scanned lp m l' ∧ ∀ o ∈ offsets, o < D.numAttributes * D.numPredictions := by
  cases l with
  | prediction i f =>
    obtain ⟨hi, rfl⟩ := h
    rw [scanStep] at hs
    split at hs
    · rename_i hlt
      cases hs
      exact ⟨⟨hlt, Nat.zero_le _, rfl, rfl⟩, nofun⟩
    · rename_i hlt
      cases hs
      obtain rfl : i = D.numPredictions := by omega
      exact ⟨rfl, nofun⟩
  | cls i c bestScore bestCls f =>
    obtain ⟨hi, hc, rfl, hbest⟩ := h
    rw [scanStep] at hs
    split at hs
    · rename_i hlt
      cases hs
      have haddr : 4 * D.numPredictions + i + c * D.numPredictions = (4 + c) * D.numPredictions + i := by ring
      have hval : pdata (4 * D.numPredictions + i + c * D.numPredictions) = D.scoreOf m i c := by
        rw [haddr]
        exact hread (4 + c) (by omega) i hi
      constructor
      · have hsucc : D.bestOf m i (c + 1) =
            if bestScore < D.scoreOf m i c then (D.scoreOf m i c, c) else (bestScore, bestCls) := by
          rw [bestOf, Argmax.scan_succ]
          rw [bestOf] at hbest
          rw [← hbest]
          rfl
        rw [hval]
        split
        · rename_i hgt
          rw [if_pos hgt] at hsucc
          exact ⟨hi, hlt, rfl, hsucc.symm⟩
        · rename_i hgt
          rw [if_neg hgt] at hsucc
          exact ⟨hi, hlt, rfl, hsucc.symm⟩
      · intro o ho
        rw [List.mem_singleton] at ho
        rw [ho, haddr]
        exact index_lt (by omega) hi
    · rename_i hlt
      obtain rfl : c = D.numAttributes - 4 := by omega
      split at hs
      · rename_i hconf
        cases hs
        refine ⟨⟨hi, ?_⟩, nofun⟩
        rw [foundIn_succ_of_lt]
        rw [← hbest]
        exact hconf
      · rename_i hconf
        cases hs
        exact ⟨⟨hi, rfl, hbest, hconf, Nat.zero_le _, rfl⟩, nofun⟩
  | box i bestScore bestCls coords f =>
    obtain ⟨hi, rfl, hbest, hconf, hlen, hcoords⟩ := h
    rcases Nat.lt_or_ge coords.length 4 with hlt | hge
    · rw [scanStep_box_of_lt hlt] at hs
      cases hs
      have haddr : i + coords.length * D.numPredictions = coords.length * D.numPredictions + i := Nat.add_comm _ _
      constructor
      · refine ⟨hi, rfl, hbest, hconf, ?_, ?_⟩
        · rw [List.length_append, List.length_singleton]
          exact hlt
        · rw [List.length_append, List.length_singleton, List.range_succ, List.map_append, ← hcoords,
            List.map_singleton, haddr, hread _ (by omega) i hi]
      · intro o ho
        rw [List.mem_singleton] at ho
        rw [ho, haddr]
        exact index_lt (by omega) hi
    · have hfour : coords.length = 4 := by omega
      rw [hfour] at hcoords
      subst hcoords
      cases hs
      refine ⟨⟨hi, ?_⟩, nofun⟩
      rw [foundIn_succ_of_not_lt (by rw [← hbest]; exact hconf), ← hbest]
  | suppress f =>
    cases hs
    cases h
    exact ⟨rfl, nofun⟩
  | store result => cases hs
  | done => cases hs

/-- The steps that are left of an iteration, at most. -/
def ScanAt.rank (attributes predictions : Nat) : ScanAt → Nat
  | .prediction i _ => (predictions - i) * (attributes + 3) + 3
  | .cls i c _ _ _ => (predictions - (i + 1)) * (attributes + 3) + (attributes - 4 - c) + 9
  | .box i _ _ coords _ => (predictions - (i + 1)) * (attributes + 3) + (4 - coords.length) + 4
  | .suppress _ => 2
  | .store _ => 1
  | .done => 0

theorem Scanned.rank_lt {pdata : Nat → ℚ} (hattr : 4 ≤ D.numAttributes) {l l' : ScanAt} {offsets : List Nat}
    (h : D.Scanned lp m l) (hs : D.scanStep pdata lp l = some (l', offsets)) :
    l'.rank D.numAttributes D.numPredictions < l.rank D.numAttributes D.numPredictions := by
  cases l with
  | prediction i f =>
    rw [scanStep] at hs
    split at hs
    · rename_i hlt
      cases hs
      have hrow : (D.numPredictions - i) * (D.numAttributes + 3) =
          (D.numPredictions - (i + 1)) * (D.numAttributes + 3) + (D.numAttributes + 3) := by
        rw [← Nat.succ_mul]
        congr 1
        omega
      simp only [ScanAt.rank, hrow]
      omega
    · cases hs
      simp only [ScanAt.rank]
      omega
  | cls i c bestScore bestCls f =>
    rw [scanStep] at hs
    split at hs
    · cases hs
      split <;> simp only [ScanAt.rank] <;> omega
    · split at hs
      · cases hs
        simp only [ScanAt.rank]
        omega
      · cases hs
        simp only [ScanAt.rank, List.length_nil]
        omega
  | box i bestScore bestCls coords f =>
    obtain ⟨-, -, -, -, hlen, hcoords⟩ := h
    rcases Nat.lt_or_ge coords.length 4 with hlt | hge
    · rw [scanStep_box_of_lt hlt] at hs
      cases hs
      simp only [ScanAt.rank, List.length_append, List.length_singleton]
      omega
    · have hfour : coords.length = 4 := by omega
      rw [hfour] at hcoords
      subst hcoords
      cases hs
      simp only [ScanAt.rank]
      omega
  | suppress f =>
    cases hs
    simp only [ScanAt.rank]
    omega
  | store result => cases hs
  | done => cases hs

theorem exists_scanStep {pdata : Nat → ℚ} {l : ScanAt} (hdone : l ≠ .done) (hstore : ∀ result, l ≠ .store result) :
    ∃ x, D.scanStep pdata lp l = some x := by
  cases l with
  | prediction i f =>
    rw [scanStep]
    split <;> exact ⟨_, rfl⟩
  | cls i c bestScore bestCls f =>
    rw [scanStep]
    split
    · exact ⟨_, rfl⟩
    · split <;> exact ⟨_, rfl⟩
  | box i bestScore bestCls coords f =>
    match coords with
    | [] | [_] | [_, _] | [_, _, _] | [_, _, _, _] | _ :: _ :: _ :: _ :: _ :: _ => exact ⟨_, rfl⟩
  | suppress f => exact ⟨_, rfl⟩
  | store result => exact absurd rfl (hstore result)
  | done => exact absurd rfl hdone

/-- An iteration ends with the store of its result only. -/
theorem scanStep_ne_done {pdata : Nat → ℚ} {l l' : ScanAt} {offsets : List Nat}
    (hs : D.scanStep pdata lp l = some (l', offsets)) : l' ≠ .done := by
  cases l with
  | prediction i f =>
    rw [scanStep] at hs
    split at hs <;> cases hs <;> exact nofun
  | cls i c bestScore bestCls f =>
    rw [scanStep] at hs
    split at hs
    · cases hs
      split <;> exact nofun
    · split at hs <;> cases hs <;> exact nofun
  | box i bestScore bestCls coords f =>
    match coords with
    | [] | [_] | [_, _] | [_, _, _] | [_, _, _, _] | _ :: _ :: _ :: _ :: _ :: _ =>
      cases hs
      exact nofun
  | suppress f =>
    cases hs
    exact nofun
  | store result => cases hs
  | done => cases hs

/-! ### The parallel loop -/

section Loop

variable {out : ModelOutput batch} {s s' : ScanState batch}

/-- The iteration has ended. -/
def ScanAt.ended : ScanAt → Bool
  | .done => true
  | _ => false

theorem ScanAt.ended_iff {l : ScanAt} : l.ended = true ↔ l = .done := by
  cases l <;> simp [ended]

/-- All iterations have ended. -/
def ScanState.Finished (s : ScanState batch) : Prop := ∀ b, s.at_ b = .done

/-- The plain decode of an image. -/
def plainFound (D : YoloDetector) (out : ModelOutput batch) (b : Fin batch) : Found :=
  .of (D.plainScan (out.letterboxParams b) (D.slab out b))

/-- The iterations have come so far, each on its own slab, and store what they have found. -/
structure ScanInv (D : YoloDetector) (out : ModelOutput batch) (s : ScanState batch) : Prop where
  scanned : ∀ b, D.Scanned (out.letterboxParams b) (D.slab out b) (s.at_ b)
  stored : ∀ b, s.at_ b = .done → s.results b = D.assemble (D.foundIn (out.letterboxParams b) (D.slab out b)
    D.numPredictions)
  reads : ∀ a ∈ s.reads, a < batch * (D.numAttributes * D.numPredictions)

theorem scanData_eq (hshape : out.shape = [batch, D.numAttributes, D.numPredictions]) (b : Fin batch) :
    ∀ k < D.numAttributes, ∀ i < D.numPredictions, scanData out b (k * D.numPredictions + i) =
      (D.slab out b).getD (k * D.numPredictions + i) 0 := by
  intro k hk i hi
  rw [scanData, ModelOutput.planeSize_eq hshape b, slab, List.getD_eq_getElem?_getD, List.getD_eq_getElem?_getD,
    List.getElem?_take_of_lt (index_lt hk hi), List.getElem?_drop]

theorem scanImage_cases {b : Fin batch} (hs : D.scanImage out s b = some s') :
    (∃ result, s.at_ b = .store result ∧
      s' = { s with at_ := Function.update s.at_ b .done, results := Function.update s.results b result }) ∨
    ∃ l offsets, D.scanStep (scanData out b) (out.letterboxParams b) (s.at_ b) = some (l, offsets) ∧ l ≠ .done ∧
      s' = { s with at_ := Function.update s.at_ b l, reads := s.reads ++ offsets.map (b * out.planeSize + ·) } := by
  have hother : ∀ l, (∀ result, l ≠ .store result) → s.at_ b = l →
      ∃ l' offsets, D.scanStep (scanData out b) (out.letterboxParams b) (s.at_ b) = some (l', offsets) ∧ l' ≠ .done ∧
        s' = { s with at_ := Function.update s.at_ b l', reads := s.reads ++ offsets.map (b * out.planeSize + ·) } := by
    intro l hl hat
    rw [scanImage, hat] at hs
    obtain ⟨⟨l', offsets⟩, hstep, rfl⟩ : ∃ x, D.scanStep (scanData out b) (out.letterboxParams b) l = some x ∧
        { s with at_ := Function.update s.at_ b x.1, reads := s.reads ++ x.2.map (b * out.planeSize + ·) } = s' := by
      cases l <;> first | exact Option.map_eq_some_iff.1 hs | exact absurd rfl (hl _)
    exact ⟨l', offsets, by rw [hat, hstep], scanStep_ne_done hstep, rfl⟩
  cases hat : s.at_ b with
  | store result =>
    rw [scanImage, hat] at hs
    cases hs
    exact .inl ⟨result, rfl, rfl⟩
  | prediction | cls | box | suppress | done => exact .inr (hat ▸ hother _ (fun _ h => ScanAt.noConfusion h) hat)

theorem ScanInv.step (hattr : 4 ≤ D.numAttributes)
    (hshape : out.shape = [batch, D.numAttributes, D.numPredictions]) {b : Fin batch} (h : D.ScanInv out s)
    (hs : D.scanImage out s b = some s') : D.ScanInv out s' := by
  rcases scanImage_cases hs with ⟨result, hat, rfl⟩ | ⟨l, offsets, hstep, hdone, rfl⟩
  · refine ⟨fun b' => ?_, fun b' hb' => ?_, h.reads⟩
    · rcases eq_or_ne b' b with rfl | hne
      · simp only [Function.update_self]
        trivial
      · simp only [Function.update_of_ne hne]
        exact h.scanned b'
    · rcases eq_or_ne b' b with rfl | hne
      · have hresult := h.scanned b'
        rw [hat] at hresult
        simp only [Function.update_self]
        exact hresult
      · simp only [Function.update_of_ne hne] at hb' ⊢
        exact h.stored b' hb'
  · obtain ⟨hscanned, hreads⟩ := (h.scanned b).step hattr (scanData_eq hshape b) hstep
    refine ⟨fun b' => ?_, fun b' hb' => ?_, fun a ha => ?_⟩
    · rcases eq_or_ne b' b with rfl | hne
      · simp only [Function.update_self]
        exact hscanned
      · simp only [Function.update_of_ne hne]
        exact h.scanned b'
    · rcases eq_or_ne b' b with rfl | hne
      · simp only [Function.update_self] at hb'
        exact absurd hb' hdone
      · simp only [Function.update_of_ne hne] at hb'
        exact h.stored b' hb'
    · rcases List.mem_append.1 ha with ha | ha
      · exact h.reads a ha
      · obtain ⟨o, ho, rfl⟩ := List.mem_map.1 ha
        rw [ModelOutput.planeSize_eq hshape b]
        exact index_lt b.isLt (hreads o ho)

theorem scanInv_of_reachable (hattr : 4 ≤ D.numAttributes)
    (hshape : out.shape = [batch, D.numAttributes, D.numPredictions]) (hs : (D.scan out).Reachable s) :
    D.ScanInv out s := by
  refine hs.invariant ?_ fun h _ hstep => h.step hattr hshape hstep
  refine ⟨fun b => ⟨Nat.zero_le _, rfl⟩, fun b hb => ?_, nofun⟩
  cases hb

theorem foundIn_eq_plainFound (hattr : 4 ≤ D.numAttributes) (hconf : 0 < D.confThreshold) (b : Fin batch) :
    D.foundIn (out.letterboxParams b) (D.slab out b) D.numPredictions = D.plainFound out b := by
  rw [foundIn, filterMap_decode hattr hconf]
  rfl

/-- The steps that are left of the loop, at most. -/
def ScanState.rank (D : YoloDetector) (s : ScanState batch) : Nat :=
  ∑ b, (s.at_ b).rank D.numAttributes D.numPredictions

theorem ScanState.rank_update_lt {b : Fin batch} {l : ScanAt} (results : Fin batch → List Detection)
    (reads : List Nat)
    (h : l.rank D.numAttributes D.numPredictions < (s.at_ b).rank D.numAttributes D.numPredictions) :
    ScanState.rank D ⟨Function.update s.at_ b l, results, reads⟩ < s.rank D := by
  refine Finset.sum_lt_sum (fun b' _ => ?_) ⟨b, Finset.mem_univ b, ?_⟩
  · rcases eq_or_ne b' b with rfl | hne
    · simp only [Function.update_self]
      exact h.le
    · simp only [Function.update_of_ne hne]
      exact le_refl _
  · simp only [Function.update_self]
    exact h

/-- No run of the loop is longer than its rank. -/
theorem ScanInv.run_length_le (hattr : 4 ≤ D.numAttributes)
    (hshape : out.shape = [batch, D.numAttributes, D.numPredictions]) (h : D.ScanInv out s) {bs : List (Fin batch)}
    (hr : (D.scan out).run s bs = some s') : bs.length ≤ s.rank D := by
  refine System.run_length_le (I := D.ScanInv out) (A := fun _ => True) ?_ h (fun _ _ => trivial) hr
  intro s b s' hinv _ hstep
  refine ⟨hinv.step hattr hshape hstep, ?_⟩
  rcases scanImage_cases hstep with ⟨result, hat, rfl⟩ | ⟨l, offsets, hscan, -, rfl⟩
  · refine ScanState.rank_update_lt _ _ ?_
    rw [hat]
    exact Nat.zero_lt_one
  · exact ScanState.rank_update_lt _ _ ((hinv.scanned b).rank_lt hattr hscan)

/-- An iteration that has not ended can go on. -/
theorem exists_scanImage {b : Fin batch} (h : s.at_ b ≠ .done) : ∃ s', D.scanImage out s b = some s' := by
  unfold scanImage
  split
  · exact ⟨_, rfl⟩
  · rename_i hstore
    obtain ⟨x, hx⟩ : ∃ x, D.scanStep (scanData out b) (out.letterboxParams b) (s.at_ b) = some x :=
      exists_scanStep h hstore
    exact ⟨_, by rw [hx, Option.map_some]⟩

/-- A detector of two classes with three predictions. -/
def twoClasses : YoloDetector := { YoloCuda.oneAnchor.toYoloDetector with numAttributes := 6, numPredictions := 3 }

/-- Of the first image, a prediction of the second class, one that is equally good in both, and one without a width; of
the second image, three below the threshold. -/
def threePredictions : ModelOutput 2 where
  data := [10, 10, 10, 10, 10, 10, 4, 4, 0, 4, 4, 4, 1 / 4, 3 / 4, 1, 3 / 4, 3 / 4, 0,
    10, 10, 10, 10, 10, 10, 4, 4, 4, 4, 4, 4, -1, 0, 1 / 8, -2, 0, 0]
  shape := [2, 6, 3]
  letterboxParams _ := ⟨1, 0, 0, 640, 640⟩

theorem detections_eq_assemble (pdata : List ℚ) (lp : LetterboxParams) : D.detections pdata lp =
    D.assemble (.of ((List.range D.numPredictions).filterMap (D.decode pdata lp))) := by
  rw [detections, assemble]
  simp only [Found.of, List.isEmpty_map, List.getElem?_map]
  refine List.filterMap_congr fun idx _ => ?_
  cases ((List.range D.numPredictions).filterMap (D.decode pdata lp))[idx]? <;> rfl

/-- The decode of an image reads nothing beyond its slab. -/
theorem decode_slab (hattr : 4 ≤ D.numAttributes) (b : Fin batch) {i : Nat} (hi : i < D.numPredictions) :
    D.decode (out.data.drop (b * (D.numAttributes * D.numPredictions))) lp i = D.decode (D.slab out b) lp i := by
  have hget : ∀ k < D.numAttributes,
      (out.data.drop (b * (D.numAttributes * D.numPredictions))).getD (k * D.numPredictions + i) 0 =
        (D.slab out b).getD (k * D.numPredictions + i) 0 := by
    intro k hk
    rw [slab, List.getD_eq_getElem?_getD, List.getD_eq_getElem?_getD, List.getElem?_take_of_lt (index_lt hk hi)]
  have hbest : D.bestOf (out.data.drop (b * (D.numAttributes * D.numPredictions))) i (D.numAttributes - 4) =
      D.bestOf (D.slab out b) i (D.numAttributes - 4) :=
    Argmax.scan_congr fun c hc => hget (4 + c) (by omega)
  simp only [decode_eq_bestOf, hbest, hget 0 (by omega), hget 1 (by omega), hget 2 (by omega), hget 3 (by omega)]

/-- When the loop has ended `results` is what `postprocess` returns, in whatever order the images were decoded. -/
theorem postprocess_of_finished (hattr : 4 ≤ D.numAttributes)
    (hshape : out.shape = [batch, D.numAttributes, D.numPredictions]) (hvalid : out.valid = true)
    (hs : (D.scan out).Reachable s) (hf : s.Finished) :
    ∃ outs : Outputs batch (List Detection), D.postprocess out = .ok outs ∧ outs.1 = List.ofFn s.results := by
  have hinv := scanInv_of_reachable hattr hshape hs
  have hlen : (!out.valid || out.shape.length != 3) = false := by rw [hvalid, hshape]; rfl
  unfold postprocess
  rw [hlen]
  refine ⟨_, rfl, ?_⟩
  show List.ofFn _ = List.ofFn _
  congr 1
  funext b
  rw [hinv.stored b (hf b), ModelOutput.planeSize_eq hshape b, detections_eq_assemble, foundIn,
    List.filterMap_congr fun i hi => decode_slab hattr b (List.mem_range.1 hi)]

end Loop

end YoloDetector

end OnnxInference
