import OnnxInference.Argmax
import OnnxInference.BufferPool
import OnnxInference.Tensor

/-!
# Classification (`src/runner/classify/`)

The memory that `TensorBuffer::create` allocates and the input tensors that are used again hold what they happen to
hold, so this is a parameter.  What is returned must not depend on it (`classifies_iff`).
-/

namespace OnnxInference

/-- The classifier on the shape of its network, with the storage of `tensorBuffer()`.  OpenCV and
`cv::dnn::blobFromImage` are parameters. -/
structure ResNet where
  net : Net
  tensorData : Ptr
  cv : OpenCv
  /-- of an image, scaled to 224 x 224 -/
  blobFromImage : Mat → List ℚ
  length_blobFromImage : ∀ m, (blobFromImage m).length = 3 * (224 * 224)

namespace ResNet

variable (R : ResNet)

/-! ### Preprocess -/

/-- The factor of both sizes, rounded to a whole number. -/
def scale256 (img : Mat) : Int := cRound (256 / (min img.rows img.cols : Nat))

def resize256 (img : Mat) : Except Error Mat :=
  R.cv.resize img (scale256 img * img.cols) (scale256 img * img.rows)

def centerCrop (img : Mat) (size : Size) : Except Error Mat :=
  let padLeft := ((img.cols : Int) - size.width).tdiv 2
  let padTop := ((img.rows : Int) - size.height).tdiv 2
  R.cv.roi img padLeft padTop size

/-- The blob of an image.  It is a matrix of one channel, so `/=` divides all of it by the first number of `std_scalar`;
and it is continuous, so the check before the copy does not throw. -/
def prepare (img : Mat) : Except Error (List ℚ) := do
  let result ← R.resize256 img
  let result ← R.centerCrop result ⟨224, 224⟩
  return (R.blobFromImage result).map (· / (229 / 1000))

/-- `preprocess(img)` in the CPU build: the blob is not copied. -/
def preprocess (mem : Memory) (img : Mat) : Except Error (Memory × TensorBuffer R.net.batch) := do
  let _ ← R.prepare img
  return (mem, ⟨R.tensorData, fun _ => .zero⟩)

/-- `preprocess(img)` in the CUDA build; `none` while `GetTensorBuffer` waits. -/
def preprocessCuda (pool : InferTensorBufferPool) (mem : Memory) (img : Mat) :
    Option (Except Error (InferTensorBufferPool × Memory × TensorBuffer R.net.batch)) :=
  match R.prepare img with
  | .error e => some (.error e)
  | .ok blob => pool.acquire.map fun x => .ok (x.2, mem.store x.1 0 blob, ⟨x.1, fun _ => .zero⟩)

/-- `preprocess(img, tenbuf, offset)` has an empty body. -/
def preprocessAt (mem : Memory) (_ : Mat) (_ : TensorBuffer R.net.batch) (_ : Fin R.net.batch) : Memory := mem

/-! ### Postprocess -/

inductive Build
  | cpu
  | cuda
  deriving DecidableEq

/-- `std::max_element` on `n` floats. -/
def maxElement (data : Nat → ℚ) (n : Nat) : Nat := (Argmax.scan data id (data 0, 0) n).2

/-- The floats of `tb`: what the memory from `TensorBuffer::create` happens to hold, in the CUDA build under a copy of
the output. -/
def tbData {batch : Nat} (build : Build) (allocated : List ℚ) (out : ModelOutput batch) : List ℚ :=
  match build with
  | .cpu => allocated
  | .cuda => overlay 0 out.data allocated

def postprocess {batch : Nat} (build : Build) (allocated : List ℚ) (out : ModelOutput batch) : List Nat :=
  let tb := tbData build allocated out
  let classNum := out.shape.getD 1 0
  List.ofFn fun i : Fin batch => maxElement (fun j => tb.getD (i * out.planeSize + j) 0) classNum

/-- `Classifier::classify` in the CUDA build, for a network that is a function of the floats of its whole input
tensor. -/
def classifyCuda (session : List ℚ → List ℚ) (classNum : Nat) (pool : InferTensorBufferPool) (mem : Memory)
    (allocated : List ℚ) (img : Mat) : Option (Except Error Nat) :=
  (R.preprocessCuda pool mem img).map fun r => r.map fun (_, mem, tb) =>
    let out : ModelOutput R.net.batch := ⟨session (mem tb.data), [R.net.batch, classNum], tb.letterboxParams⟩
    (postprocess .cuda allocated out).headD 0

/-! ### What they are for -/

/-- The functions that prepare an input tensor. -/
inductive Overload (net : Net)
  | cpu
  | cuda
  | cudaAt (offset : Fin net.batch)
  deriving DecidableEq

/-- Whatever the input tensor has held before, its slot holds the blob afterwards. -/
def HoldsBlob (img : Mat) (blob : List ℚ) : Overload R.net → Prop
  | .cpu => ∀ mem, (mem R.tensorData).length = R.net.numElements → ∀ mem' tb, R.preprocess mem img = .ok (mem', tb) →
    segment 0 R.net.planeSize (mem' tb.data) = blob
  | .cuda => ∀ pool mem, (∀ p ∈ pool.buffer, (mem p).length = R.net.numElements) → ∀ pool' mem' tb,
    R.preprocessCuda pool mem img = some (.ok (pool', mem', tb)) → segment 0 R.net.planeSize (mem' tb.data) = blob
  | .cudaAt offset => ∀ mem tenbuf, (mem tenbuf.data).length = R.net.numElements →
    segment (offset * R.net.planeSize) R.net.planeSize (R.preprocessAt mem img tenbuf offset tenbuf.data) = blob

/-- An output of the shape `[B, C]`. -/
def HasShape {batch : Nat} (out : ModelOutput batch) (classNum : Nat) : Prop :=
  out.shape = [batch, classNum] ∧ out.data.length = batch * classNum

/-- Whatever the allocated memory holds, the class of each row is the first index of a maximum. -/
def FirstMaxima {batch : Nat} (build : Build) (out : ModelOutput batch) (classNum : Nat) : Prop :=
  ∀ allocated, allocated.length = out.numElements → (postprocess build allocated out).length = batch ∧
    ∀ i : Fin batch, ∃ c, (postprocess build allocated out)[i.val]? = some c ∧
      Argmax.IsFirst (fun j => out.data.getD (i * classNum + j) 0) classNum c

variable {R}

theorem length_prepare {img : Mat} {blob : List ℚ} (h : R.prepare img = .ok blob) :
    blob.length = 3 * (224 * 224) := by
  simp only [prepare, bind, Except.bind] at h
  split at h
  · cases h
  · split at h
    · cases h
    · cases h
      rw [List.length_map, R.length_blobFromImage]

theorem centerCrop_ok_iff {img : Mat} {size : Size} : (∃ cropped, R.centerCrop img size = .ok cropped) ↔
    (size.width : Int) ≤ img.cols ∧ (size.height : Int) ≤ img.rows := by
  have hroi : (∃ cropped, R.centerCrop img size = .ok cropped) ↔ _ := OpenCv.roi_ok_iff
  refine hroi.trans ⟨by omega, ?_⟩
  rintro ⟨hw, hh⟩
  rw [Int.tdiv_eq_ediv_of_nonneg (by omega), Int.tdiv_eq_ediv_of_nonneg (by omega)]
  omega

/-- The images that `preprocess` accepts: the scaled sizes are large enough for the crop. -/
theorem prepare_ok_iff (R : ResNet) (img : Mat) : (∃ blob, R.prepare img = .ok blob) ↔
    0 < img.rows ∧ 0 < img.cols ∧ 224 ≤ scale256 img * img.rows ∧ 224 ≤ scale256 img * img.cols := by
  by_cases hres : img.isEmpty = true ∨ scale256 img * img.cols ≤ 0 ∨ scale256 img * img.rows ≤ 0
  · have herr : R.resize256 img = .error .cvException := R.cv.resize_of_empty img _ _ hres
    simp only [prepare, herr, bind, Except.bind, reduceCtorEq, exists_false, false_iff, not_and]
    intro hr hc h
    rcases hres with hempty | hw | hh
    · rw [Mat.isEmpty_iff] at hempty
      omega
    · omega
    · omega
  · simp only [not_or, Bool.not_eq_true, Mat.isEmpty_eq_false_iff, not_le] at hres
    obtain ⟨hne, hw, hh⟩ := hres
    obtain ⟨resized, hok⟩ : ∃ resized, R.resize256 img = .ok resized := R.cv.resize_of_pos hne.1 hne.2 hw hh
    obtain ⟨-, -, -, -, hrows, hcols, -⟩ := OpenCv.resize_ok hok
    have hcrop : (∃ cropped, R.centerCrop resized ⟨224, 224⟩ = .ok cropped) ↔
        224 ≤ scale256 img * img.rows ∧ 224 ≤ scale256 img * img.cols := by
      rw [centerCrop_ok_iff, ← hcols, ← hrows]
      simp only [Nat.cast_ofNat]
      exact and_comm
    rw [← hcrop]
    simp only [prepare, hok, bind, Except.bind]
    rcases R.centerCrop resized ⟨224, 224⟩ with e | cropped
    · simp
    · simp [hne, pure, Except.pure]

/-! ### The class of a row -/

theorem maxElement_isFirst {data : Nat → ℚ} {n : Nat} (h : 0 < n) : Argmax.IsFirst data n (maxElement data n) := by
  unfold maxElement
  rcases Argmax.scan_cases data id (data 0, 0) n with ⟨hs, hle⟩ | ⟨c, hc, -, hs⟩
  · rw [hs]
    exact ⟨h, hle, fun c' hc' => absurd hc' (Nat.not_lt_zero c')⟩
  · rw [hs]
    exact hc

section Row

variable {batch classNum : Nat} {out : ModelOutput batch} {build : Build} {allocated : List ℚ}

theorem HasShape.numElements_eq (h : HasShape out classNum) : out.numElements = batch * classNum := by
  simp only [ModelOutput.numElements, h.1, List.prod_cons, List.prod_nil, mul_one]

theorem HasShape.planeSize_eq (h : HasShape out classNum) (hbatch : 0 < batch) : out.planeSize = classNum := by
  rw [ModelOutput.planeSize, h.numElements_eq, h.1]
  exact Nat.mul_div_cancel_left _ hbatch

theorem length_postprocess : (postprocess build allocated out).length = batch := List.length_ofFn

theorem HasShape.getElem?_postprocess (h : HasShape out classNum) (i : Fin batch) :
    (postprocess build allocated out)[i.val]? =
    some (maxElement (fun j => (tbData build allocated out).getD (i * classNum + j) 0) classNum) := by
  simp only [postprocess, List.getElem?_ofFn, i.isLt, dite_true, h.planeSize_eq i.pos, h.1]
  rfl

/-- The CUDA build looks at the output. -/
theorem firstMaxima_cuda (h : HasShape out classNum) (hpos : 0 < classNum) : FirstMaxima .cuda out classNum := by
  intro allocated hlen
  refine ⟨length_postprocess, fun i => ⟨_, h.getElem?_postprocess i, ?_⟩⟩
  have hdata : tbData .cuda allocated out = out.data := overlay_all (by rw [h.2, hlen, h.numElements_eq])
  rw [hdata]
  exact maxElement_isFirst hpos

/-- With one class nothing is looked at. -/
theorem firstMaxima_one (h : HasShape out 1) : FirstMaxima build out 1 := by
  intro allocated _
  refine ⟨length_postprocess, fun i => ⟨_, h.getElem?_postprocess i, ?_⟩⟩
  have hclass : ∀ data : Nat → ℚ, maxElement data 1 = 0 := fun data =>
    Nat.lt_one_iff.1 (maxElement_isFirst Nat.one_pos).lt
  rw [hclass, ← hclass fun j => out.data.getD (i * 1 + j) 0]
  exact maxElement_isFirst Nat.one_pos

/-- The memory that the CPU build looks at may hold the maximum at another index. -/
theorem not_firstMaxima_cpu (h : HasShape out classNum) (hbatch : 0 < batch) (hpos : 1 < classNum) :
    ¬FirstMaxima .cpu out classNum := by
  intro hfirst
  have hrow : Argmax.IsFirst (fun j => out.data.getD (0 * classNum + j) 0) classNum _ :=
    maxElement_isFirst (zero_lt_one.trans hpos)
  obtain ⟨k, hk, hne⟩ : ∃ k < classNum, k ≠ maxElement (fun j => out.data.getD (0 * classNum + j) 0) classNum := by
    by_cases hzero : maxElement (fun j => out.data.getD (0 * classNum + j) 0) classNum = 0
    · exact ⟨1, hpos, by omega⟩
    · exact ⟨0, by omega, fun he => hzero he.symm⟩
  have hle : classNum ≤ out.numElements := by
    rw [h.numElements_eq]
    exact Nat.le_mul_of_pos_left _ hbatch
  obtain ⟨-, hclasses⟩ := hfirst ((List.replicate out.numElements 0).set k 1) (by simp)
  obtain ⟨c, hc, hcfirst⟩ := hclasses ⟨0, hbatch⟩
  rw [h.getElem?_postprocess, Option.some.injEq] at hc
  -- the maximum of the memory is at `k`
  have hget : ∀ j < classNum, ((List.replicate out.numElements (0 : ℚ)).set k 1).getD (0 * classNum + j) 0 =
      if j = k then 1 else 0 := by
    intro j hj
    rw [zero_mul, zero_add, List.getD_eq_getElem?_getD, List.getElem?_set]
    by_cases hjk : k = j
    · rw [if_pos hjk, if_pos (by simp; omega), if_pos hjk.symm, Option.getD_some]
    · rw [if_neg hjk, if_neg (Ne.symm hjk), List.getElem?_replicate, if_pos (by omega), Option.getD_some]
  have hmem : Argmax.IsFirst (fun j => ((List.replicate out.numElements (0 : ℚ)).set k 1).getD (0 * classNum + j) 0)
      classNum k := by
    refine ⟨hk, fun j hj => ?_, fun j hj => ?_⟩
    · simp only [hget j hj, hget k hk, if_true]
      split
      · exact le_refl _
      · exact zero_le_one
    · simp only [hget j (hj.trans hk), hget k hk, if_true, if_neg hj.ne]
      exact zero_lt_one
  have hck : c = k := hc.symm.trans ((maxElement_isFirst (zero_lt_one.trans hpos)).unique hmem)
  exact hne (hck.symm.trans (hcfirst.unique hrow))

end Row

/-! ### The input tensor -/

section Blob

variable {img : Mat} {blob : List ℚ}

/-- A slot that is not written to may hold something else than the blob. -/
private theorem exists_segment_ne (n offset size : Nat) (hne : blob ≠ []) :
    ∃ contents : List ℚ, contents.length = n ∧ segment offset size contents ≠ blob := by
  obtain ⟨x, xs, rfl⟩ := List.exists_cons_of_ne_nil hne
  refine ⟨List.replicate n (x + 1), List.length_replicate, fun heq => ?_⟩
  have hhead := congrArg (fun l : List ℚ => l[0]?) heq
  simp only [getElem?_segment, List.getElem?_replicate, List.getElem?_cons_zero] at hhead
  split at hhead
  · split at hhead
    · rw [Option.some.injEq] at hhead
      linarith
    · cases hhead
  · cases hhead

theorem prepare_ne_nil (h : R.prepare img = .ok blob) : blob ≠ [] := by
  rintro rfl
  have hlen := length_prepare h
  rw [List.length_nil] at hlen
  omega

theorem preprocess_eq (h : R.prepare img = .ok blob) (mem : Memory) :
    R.preprocess mem img = .ok (mem, ⟨R.tensorData, fun _ => .zero⟩) := by
  simp only [preprocess, h, bind, Except.bind, pure, Except.pure]

theorem not_holdsBlob_cpu (h : R.prepare img = .ok blob) : ¬R.HoldsBlob img blob .cpu := by
  intro hholds
  obtain ⟨contents, hlen, hne⟩ := exists_segment_ne R.net.numElements 0 R.net.planeSize (prepare_ne_nil h)
  exact hne (hholds (fun _ => contents) hlen _ _ (preprocess_eq h _))

theorem not_holdsBlob_cudaAt (h : R.prepare img = .ok blob) (offset : Fin R.net.batch) :
    ¬R.HoldsBlob img blob (.cudaAt offset) := by
  intro hholds
  obtain ⟨contents, hlen, hne⟩ :=
    exists_segment_ne R.net.numElements (offset * R.net.planeSize) R.net.planeSize (prepare_ne_nil h)
  exact hne (hholds (fun _ => contents) (.wrap R.net.batch 0) hlen)

theorem planeSize_le_numElements (net : Net) : net.planeSize ≤ net.numElements :=
  Nat.le_mul_of_pos_left _ net.batch_pos

/-- The copy fills the first slot if and only if the network takes images of this size. -/
theorem holdsBlob_cuda_iff (h : R.prepare img = .ok blob) :
    R.HoldsBlob img blob .cuda ↔ R.net.height * R.net.width = 224 * 224 := by
  have hlen := length_prepare h
  have hle := planeSize_le_numElements R.net
  have hplane : R.net.planeSize = 3 * (R.net.height * R.net.width) := rfl
  constructor
  · intro hholds
    have hcall : R.preprocessCuda ⟨1, [0]⟩ (fun _ => List.replicate R.net.numElements 0) img = some (.ok (⟨1, []⟩,
        Memory.store (fun _ => List.replicate R.net.numElements 0) 0 0 blob, ⟨0, fun _ => .zero⟩)) := by
      rw [preprocessCuda, h]
      rfl
    have heq := congrArg List.length (hholds _ _ (fun _ _ => List.length_replicate) _ _ _ hcall)
    have hstored : (Memory.store (fun _ => List.replicate R.net.numElements 0) 0 0 blob 0).length =
        blob.length + (R.net.numElements - blob.length) := by
      simp [overlay]
    rw [segment, List.length_take, List.drop_zero, hstored] at heq
    omega
  · intro hsize pool mem hmem pool' mem' tb hcall
    rw [preprocessCuda, h] at hcall
    obtain ⟨⟨p, pool₁⟩, hp, heq⟩ := Option.map_eq_some_iff.1 hcall
    cases heq
    have hcontents : (mem p).length = R.net.numElements := hmem p (by
      rw [(InferTensorBufferPool.acquire_some hp).1]
      exact List.mem_cons_self)
    have hfits : 0 + blob.length ≤ (mem p).length := by omega
    rw [Memory.store_same]
    exact segment_overlay_same (by omega) hfits

end Blob

/-- The input tensor holds the blob of the image exactly when `preprocess(img)` of the CUDA build has been called for
a network that takes images of 224 x 224; and the classes are the first maxima of the output exactly in the CUDA build
or if there is one class. -/
theorem classifies_iff (R : ResNet) :
    (∀ (o : Overload R.net) (img : Mat) (blob : List ℚ), R.prepare img = .ok blob →
      (R.HoldsBlob img blob o ↔ o = .cuda ∧ R.net.height * R.net.width = 224 * 224)) ∧
    ∀ (build : Build) (out : ModelOutput R.net.batch) (classNum : Nat), HasShape out classNum → 1 ≤ classNum →
      (FirstMaxima build out classNum ↔ build = .cuda ∨ classNum = 1) := by
  constructor
  · intro o img blob h
    cases o with
    | cpu => exact ⟨fun hholds => absurd hholds (not_holdsBlob_cpu h), fun heq => nomatch heq.1⟩
    | cuda => exact (holdsBlob_cuda_iff h).trans ⟨fun hsize => ⟨rfl, hsize⟩, And.right⟩
    | cudaAt offset => exact ⟨fun hholds => absurd hholds (not_holdsBlob_cudaAt h offset), fun heq => nomatch heq.1⟩
  · intro build out classNum hshape hpos
    constructor
    · intro hfirst
      by_contra hnot
      push Not at hnot
      cases build with
      | cuda => exact hnot.1 rfl
      | cpu => exact not_firstMaxima_cpu hshape R.net.batch_pos (by omega) hfirst
    · rintro (rfl | rfl)
      · exact firstMaxima_cuda hshape hpos
      · exact firstMaxima_one hshape

/-- The blob of an image of 224 x 224: plane by plane the red, the green and the blue of the pixels less a mean, divided
by 255. -/
def planes224 (m : Mat) : List ℚ :=
  let plane (channel : Vec3b → UInt8) (mean : ℚ) : List ℚ :=
    (List.range (224 * 224)).map fun n => ((channel (m.at_ (n / 224) (n % 224))).toNat - mean) / 255
  plane Vec3b.c2 (485 / 1000) ++ (plane Vec3b.c1 (456 / 1000) ++ plane Vec3b.c0 (406 / 1000))

/-- A network for one image of 224 x 224. -/
def net224 : ResNet where
  net := ⟨1, 224, 224, by decide⟩
  tensorData := 0
  cv := .reference OpenCv.nearest
  blobFromImage := planes224
  length_blobFromImage _ := by simp [planes224]

def grayImage : Mat := .ofFn 224 224 fun _ _ => ⟨114, 114, 114⟩

/-- The first of two classes has the greater score. -/
def twoClasses : ModelOutput 1 := ⟨[5, 3], [1, 2], fun _ => .zero⟩

theorem classifies_iff_gray :
    (∃ blob, net224.prepare grayImage = .ok blob ∧ (net224.HoldsBlob grayImage blob .cuda ↔
      (.cuda : Overload net224.net) = .cuda ∧ net224.net.height * net224.net.width = 224 * 224)) ∧
    (FirstMaxima .cuda twoClasses 2 ↔ Build.cuda = .cuda ∨ 2 = 1) := by
  obtain ⟨blob, h⟩ := (net224.prepare_ok_iff grayImage).2 (by decide +kernel)
  exact ⟨⟨blob, h, (classifies_iff net224).1 .cuda grayImage blob h⟩,
    (classifies_iff net224).2 .cuda twoClasses 2 ⟨rfl, rfl⟩ (by decide)⟩

/-- In the CPU build neither the input tensor nor the class comes from the image. -/
theorem cpu_not_classifies : ¬∀ R : ResNet,
    (∀ (o : Overload R.net) (img : Mat) (blob : List ℚ), R.prepare img = .ok blob → R.HoldsBlob img blob o) ∧
    ∀ (build : Build) (out : ModelOutput R.net.batch) (classNum : Nat), HasShape out classNum → 1 ≤ classNum →
      FirstMaxima build out classNum := by
  intro hall
  obtain ⟨-, hclasses⟩ := (hall net224).2 .cpu twoClasses 2 ⟨rfl, rfl⟩ (by decide) [0, 1] rfl
  obtain ⟨c, hc, hfirst⟩ := hclasses ⟨0, by decide⟩
  have hone : (postprocess .cpu [0, 1] twoClasses)[0]? = some 1 := by decide +kernel
  obtain rfl : c = 1 := Option.some.inj (hc.symm.trans hone)
  exact absurd (hfirst.first 0 (by decide)) (by decide +kernel)

/-- Without other slots the class is a function of the blob, whatever the memory holds. -/
theorem classifyCuda_eq {R : ResNet} {img : Mat} {blob : List ℚ} (h : R.prepare img = .ok blob)
    (hbatch : R.net.batch = 1)
    (hsize : R.net.height * R.net.width = 224 * 224) {session : List ℚ → List ℚ} {classNum : Nat}
    (hpos : 0 < classNum)
    (hsession : (session blob).length = classNum) {pool : InferTensorBufferPool} {mem : Memory} {allocated : List ℚ}
    (hpool : pool.buffer ≠ []) (hmem : ∀ p ∈ pool.buffer, (mem p).length = R.net.numElements)
    (hallocated : allocated.length = classNum) : ∃ c,
      R.classifyCuda session classNum pool mem allocated img = some (.ok c) ∧
        Argmax.IsFirst (fun j => (session blob).getD j 0) classNum c := by
  obtain ⟨⟨p, pool'⟩, hp⟩ := InferTensorBufferPool.acquire_of_ne_nil hpool
  have hcall : R.preprocessCuda pool mem img = some (.ok (pool', mem.store p 0 blob, ⟨p, fun _ => .zero⟩)) := by
    rw [preprocessCuda, h, hp]
    rfl
  have hblob : mem.store p 0 blob p = blob := by
    have hslot := (holdsBlob_cuda_iff h).2 hsize pool mem hmem _ _ _ hcall
    have hcontents : (mem p).length = R.net.numElements := hmem p (by
      rw [(InferTensorBufferPool.acquire_some hp).1]
      exact List.mem_cons_self)
    have hlen := length_prepare h
    have hone : R.net.numElements = R.net.planeSize := by rw [Net.numElements, hbatch, Nat.one_mul]
    have hplane : R.net.planeSize = 3 * (R.net.height * R.net.width) := rfl
    have hlength : (mem.store p 0 blob p).length = R.net.planeSize := by
      rw [Memory.store_same, length_overlay (by omega)]
      omega
    rw [← segment_all hlength]
    exact hslot
  have hshape : HasShape (⟨session (mem.store p 0 blob p), [R.net.batch, classNum], fun _ => .zero⟩ :
      ModelOutput R.net.batch) classNum := ⟨rfl, by rw [hblob, hsession, hbatch, Nat.one_mul]⟩
  obtain ⟨hlen, hclasses⟩ := firstMaxima_cuda hshape hpos allocated (by
    rw [hallocated, hshape.numElements_eq, hbatch, Nat.one_mul])
  obtain ⟨c, hc, hfirst⟩ := hclasses ⟨0, R.net.batch_pos⟩
  have hhead : ∀ {l : List Nat}, l[0]? = some c → l.headD 0 = c := fun {l} hl => by
    rw [List.headD_eq_head?_getD, List.head?_eq_getElem?, hl, Option.getD_some]
  refine ⟨c, ?_, ?_⟩
  · rw [classifyCuda, hcall, Option.map_some]
    exact congrArg some (congrArg Except.ok (hhead hc))
  · simpa only [hblob, zero_mul, zero_add] using hfirst

end ResNet

end OnnxInference
