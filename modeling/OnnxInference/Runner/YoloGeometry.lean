import OnnxInference.Letterbox
import OnnxInference.Runner.YoloSlots

/-!
# The two builds before the network

Both builds scale the image to the network input and pad it, the CPU build with the functions of `utils.cpp` and the
CUDA build in one kernel.  They store the same letterbox parameters, and make each plane of the same channel and the
same pad value, exactly for the configurations of `agree_iff`.
-/

namespace OnnxInference

/-- `pad_color_`: the integers of the configuration. -/
structure Scalar where
  v0 : Int
  v1 : Int
  v2 : Int

/-- `cv::saturate_cast<uchar>`. -/
def saturateCast (v : Int) : UInt8 := .ofNat (max 0 (min v 255)).toNat

/-- The pixel that `cv::copyMakeBorder` makes of the colour. -/
def Scalar.pixel (s : Scalar) : Vec3b := ⟨saturateCast s.v0, saturateCast s.v1, saturateCast s.v2⟩

/-- Linear interpolation keeps an image of one colour. -/
def Interpolation.Uniform (interpolate : Interpolation) : Prop :=
  ∀ (m : Mat) (v : Vec3b), 0 < m.rows → 0 < m.cols → (∀ i < m.rows, ∀ j < m.cols, m.at_ i j = v) →
    ∀ {width height y x : Nat}, y < height → x < width → interpolate m width height y x = v

/-- What the three planes are made of: of each the channel of the image, and the pad value. -/
structure Fill where
  channel : Fin 3 → Fin 3
  pad : Fin 3 → ℚ

/-- The planes are made so: inside of the content of their channel, outside of their pad value. -/
def Fill.Of (fill : Fill) (size : Size) (values : List ℚ) (Inside : Nat → Nat → Prop)
    (content : Fin 3 → Nat → Nat → ℚ) : Prop :=
  ∀ (k : Fin 3) {y x : Nat}, y < size.height → x < size.width →
    (Inside y x → planeAt size values k y x = content (fill.channel k) y x * YoloDetector.normScale) ∧
      (¬Inside y x → planeAt size values k y x = fill.pad k * YoloDetector.normScale)

namespace Fill

variable {F G : Fill} {size : Size} {values : List ℚ} {Inside : Nat → Nat → Prop} {content : Fin 3 → Nat → Nat → ℚ}
  {y x : Nat}

private theorem normScale_ne : YoloDetector.normScale ≠ 0 := by norm_num [YoloDetector.normScale]

/-- The channels can be told from a pixel inside that differs in all of them. -/
theorem Of.channel_eq (hF : F.Of size values Inside content) (hG : G.Of size values Inside content)
    (hy : y < size.height)
    (hx : x < size.width) (hin : Inside y x) (hne : ∀ j k, content j y x = content k y x → j = k) (k : Fin 3) :
    F.channel k = G.channel k :=
  hne _ _ (mul_right_cancel₀ normScale_ne (((hF k hy hx).1 hin).symm.trans ((hG k hy hx).1 hin)))

/-- The pad values can be told from a pixel outside. -/
theorem Of.pad_eq (hF : F.Of size values Inside content) (hG : G.Of size values Inside content) (hy : y < size.height)
    (hx : x < size.width) (hout : ¬Inside y x) (k : Fin 3) : F.pad k = G.pad k :=
  mul_right_cancel₀ normScale_ne (((hF k hy hx).2 hout).symm.trans ((hG k hy hx).2 hout))

/-- Where nothing is outside, the pad values do not matter. -/
theorem Of.congr (hF : F.Of size values Inside content) (hchannel : ∀ k, G.channel k = F.channel k)
    (hpad : (∀ k, G.pad k = F.pad k) ∨ ∀ {y x : Nat}, y < size.height → x < size.width → Inside y x) :
    G.Of size values Inside content := by
  intro k y x hy hx
  constructor
  · intro hin
    rw [hchannel]
    exact (hF k hy hx).1 hin
  · intro hout
    rcases hpad with hpad | hpad
    · rw [hpad]
      exact (hF k hy hx).2 hout
    · exact absurd (hpad hy hx) hout

end Fill

/-! ### The kernel -/

namespace GpuPreprocess.Args

variable (a : Args)

/-- A channel of the image between the four pixels next to the position that belongs to `x` and `y`. -/
def bilinear (srcBgr : Nat → UInt8) (c : Fin 3) (y x : Nat) : ℚ :=
  let byte (px py : Nat) : ℚ := (srcBgr (a.offset px py + c)).toNat
  let fx := Int.fract (a.source a.padLeft x)
  let fy := Int.fract (a.source a.padTop y)
  let (x0, x1) := a.columns x
  let (y0, y1) := a.rows y
  (byte x0 y0 * (1 - fx) + byte x1 y0 * fx) * (1 - fy) + (byte x0 y1 * (1 - fx) + byte x1 y1 * fx) * fy

/-- The kernel takes the channels in the order red, green, blue. -/
theorem pixel_eq (dst : Size) (srcBgr : Nat → UInt8) (x y : Nat) (k : Fin 3) :
    a.pixel dst srcBgr x y k = if a.Valid dst x y then a.bilinear srcBgr k.rev y x else a.padValue.toNat := by
  have hrev : k.rev.val = 2 - k.val := by
    rw [Fin.val_rev]
    omega
  simp only [pixel, bilinear, readBgr, hrev]

theorem planeAt_planes (srcBgr : Nat → UInt8) {dst : Size} (k : Fin 3) {y x : Nat} (hy : y < dst.height)
    (hx : x < dst.width) :
    planeAt dst (a.planes dst srcBgr) k y x = a.pixel dst srcBgr x y k * a.normScale := by
  obtain ⟨t, rfl, rfl⟩ := Thread.exists_pixel hx hy
  exact value_address a srcBgr ⟨hx, hy⟩ k

/-- In an image of one colour there is nothing between the pixels. -/
theorem bilinear_uniform {srcBgr : Nat → UInt8} {v : Vec3b} (hw : 0 < a.srcW) (hh : 0 < a.srcH)
    (h : ∀ px < a.srcW, ∀ py < a.srcH, ∀ c : Fin 3, srcBgr (a.offset px py + c) = v.channel c) (c : Fin 3) (y x : Nat) :
    a.bilinear srcBgr c y x = (v.channel c).toNat := by
  simp only [bilinear, columns, rows, h _ (clampTo_lt hw _) _ (clampTo_lt hh _)]
  ring

end GpuPreprocess.Args

/-! ### Images of one colour -/

namespace Image

/-- An image of one colour. -/
def uniform (cols rows : Nat) (v : Vec3b) (hc : 0 < cols) (hr : 0 < rows) : Image where
  rows := rows
  cols := cols
  step := cols * 3
  data := (List.range (rows * (cols * 3))).map fun i => v.channel ⟨i % 3, Nat.mod_lt _ (by decide)⟩
  length_data := by simp
  rows_pos := hr
  cols_pos := hc
  le_step := Nat.le_refl _

variable {cols rows : Nat} {v : Vec3b} {hc : 0 < cols} {hr : 0 < rows}

theorem byte_uniform {px py : Nat} (hx : px < cols) (hy : py < rows) (c : Fin 3) :
    (uniform cols rows v hc hr).byte (py * (cols * 3) + px * 3 + c) = v.channel c := by
  have hlt : py * (cols * 3) + px * 3 + c < rows * (cols * 3) := by
    rw [Nat.add_assoc]
    exact index_lt hy (by omega)
  have hmod : (py * (cols * 3) + px * 3 + c) % 3 = c := by
    rw [← Nat.mul_assoc, ← Nat.add_mul, Nat.mul_add_mod_of_lt c.isLt]
  rw [byte, uniform, List.getD_eq_getElem?_getD, List.getElem?_map, List.getElem?_range hlt, Option.map_some,
    Option.getD_some]
  congr 1
  exact Fin.ext hmod

theorem at_uniform {i j : Nat} (hi : i < rows) (hj : j < cols) : (uniform cols rows v hc hr).toMat.at_ i j = v := by
  have h : ∀ c : Fin 3, (uniform cols rows v hc hr).byte (i * (cols * 3) + j * 3 + c) = v.channel c :=
    byte_uniform hj hi
  exact (Mat.at_ofFn _ hi hj).trans (congr (congr (congrArg Vec3b.mk (h 0)) (h 1)) (h 2))

end Image

namespace YoloDetector

variable (D : YoloDetector)

/-- A channel of the scaled image. -/
def resized (img : Mat) (params : LetterboxParams) (c : Fin 3) (y x : Nat) : ℚ :=
  ((D.cv.interpolate img (cRound (params.origW * params.scale)).toNat (cRound (params.origH * params.scale)).toNat
    (y - params.padTop).toNat (x - params.padLeft).toNat).channel c).toNat

/-- The channels are swapped by `convert_and_normalize` if it is told to, those of the border with those of the
image. -/
def fill : Fill where
  channel k := if D.bgr2rgb then k.rev else k
  pad k := (D.padColor.channel (if D.bgr2rgb then k.rev else k)).toNat

variable {D} {size : Size} {img : Mat} {params : LetterboxParams} {values : List ℚ}

theorem prepare_spec (h : D.prepare size img = .ok (params, values)) :
    params = .ofScale size img.cols img.rows (letterboxScale img size D.autoAspectRatio) ∧
      0 < cRound (params.origW * params.scale) ∧ 0 < cRound (params.origH * params.scale) ∧
      D.fill.Of size values params.Inside (D.resized img params) := by
  simp only [prepare, bind, Except.bind] at h
  split at h
  · cases h
  · rename_i x hx
    split at h
    · cases h
    · rename_i values' hv
      cases h
      obtain ⟨hparams, hbox⟩ := letterboxResize_spec hx
      refine ⟨hparams, hbox.width_pos, hbox.height_pos, fun k y x hy hx => ?_⟩
      rw [planeAt_convertAndNormalize hv hbox.hasSize k hy hx, hbox.at_eq hy hx]
      constructor
      · intro hin
        rw [if_pos hin]
        rfl
      · intro hout
        rw [if_neg hout]
        rfl

theorem prepare_of_pos (D : YoloDetector) (hr : 0 < img.rows) (hc : 0 < img.cols)
    (hw : 0 < cRound (img.cols * letterboxScale img size D.autoAspectRatio))
    (hh : 0 < cRound (img.rows * letterboxScale img size D.autoAspectRatio)) : ∃ x, D.prepare size img = .ok x := by
  obtain ⟨⟨params, resized⟩, hres⟩ := letterboxResize_of_pos D.cv D.padColor hr hc hw hh
  obtain ⟨hparams, hbox⟩ := letterboxResize_spec hres
  obtain ⟨hwidth, hheight⟩ := scaledSize_le size D.autoAspectRatio hr hc
  have hcols := hbox.hasSize.1
  have hrows := hbox.hasSize.2
  obtain ⟨values, hvalues⟩ : ∃ values, convertAndNormalize D.cv resized size normScale D.bgr2rgb = .ok values :=
    convertAndNormalize_of_pos D.cv (by omega) (by omega)
  exact ⟨(params, values), by simp only [prepare, hres, hvalues, bind, Except.bind, pure, Except.pure]⟩

/-- In an image of one colour the interpolation finds nothing else. -/
theorem resized_uniform (hD : D.cv.interpolate.Uniform) {cols rows : Nat} {v : Vec3b} {hc : 0 < cols} {hr : 0 < rows}
    {y x : Nat} (h : params.Inside y x) (c : Fin 3) :
    D.resized (Image.uniform cols rows v hc hr).toMat params c y x = (v.channel c).toNat := by
  obtain ⟨hy, hy', hx, hx'⟩ := h
  rw [resized, hD _ v hr hc (fun i hi j hj => Image.at_uniform hi hj) (by omega) (by omega)]

end YoloDetector

namespace YoloCuda

variable (D : YoloCuda) (padColor : Scalar) (toUint8 : Int → UInt8) (size : Size)

/-- The detector with this `pad_color_`. -/
def setPadColor : YoloCuda := { D with padColor := padColor.pixel }

/-- The arguments of `gpu_yolo_preprocess`: of `pad_color_` the first component, converted to `uint8_t`. -/
def kernelArgsOf (img : Image) : GpuPreprocess.Args :=
  { D.kernelArgs size img with padValue := toUint8 padColor.v0 }

/-- These are the arguments of the detector unless the first component is out of range. -/
theorem kernelArgsOf_eq (h : toUint8 padColor.v0 = saturateCast padColor.v0) (img : Image) :
    D.kernelArgsOf padColor toUint8 size img = (D.setPadColor padColor).kernelArgs size img := by
  rw [kernelArgsOf, h]
  rfl

/-- The kernel always swaps the channels, and pads all planes alike. -/
def kernelFill (padValue : UInt8) : Fill := ⟨Fin.rev, fun _ => padValue.toNat⟩

theorem fill_planes (img : Image) :
    (kernelFill (toUint8 padColor.v0)).Of size ((D.kernelArgsOf padColor toUint8 size img).planes size img.byte)
      (fun y x => (D.kernelArgsOf padColor toUint8 size img).Valid size x y)
      ((D.kernelArgsOf padColor toUint8 size img).bilinear img.byte) := by
  intro k y x hy hx
  rw [GpuPreprocess.Args.planeAt_planes _ _ _ hy hx, GpuPreprocess.Args.pixel_eq]
  constructor
  · intro hin
    rw [if_pos hin]
    rfl
  · intro hout
    rw [if_neg hout]
    rfl

/-- The two builds prepare the images of a size alike: they store the same letterbox parameters, and their planes are
made of the same channels and pad values. -/
def Agree (cols rows : Nat) : Prop :=
  ∃ (params : LetterboxParams) (fill : Fill), letterbox size cols rows = params ∧
    ∀ img : Image, img.cols = cols → img.rows = rows →
      (∃ values, (D.setPadColor padColor).prepare size img.toMat = .ok (params, values) ∧
        fill.Of size values params.Inside (D.resized img.toMat params)) ∧
      fill.Of size ((D.kernelArgsOf padColor toUint8 size img).planes size img.byte)
        (fun y x => (D.kernelArgsOf padColor toUint8 size img).Valid size x y)
        ((D.kernelArgsOf padColor toUint8 size img).bilinear img.byte)

/-- The alignment to the stride leaves an image; where the CPU build does not align, it changes nothing. -/
structure Aligned (auto : Bool) (size : Size) (cols rows : Nat) : Prop where
  width : 32 ≤ fitWidth size cols rows
  height : 32 ≤ fitHeight size cols rows
  exact_width : auto = false → 32 ∣ fitWidth size cols rows ∧ cols * fitScale size cols rows ≤ fitWidth size cols rows
  exact_height : auto = false → 32 ∣ fitHeight size cols rows ∧
    rows * fitScale size cols rows ≤ fitHeight size cols rows

/-- At most one column and one row are left to pad. -/
def Full (size : Size) (cols rows : Nat) : Prop :=
  size.width ≤ cRound (cols * alignedScale size cols rows) + 1 ∧
    size.height ≤ cRound (rows * alignedScale size cols rows) + 1

/-- The first component of `pad_color_` stands for all of them. -/
def OneColor (padColor : Scalar) (toUint8 : Int → UInt8) : Prop :=
  ∀ k, padColor.pixel.channel k = toUint8 padColor.v0

variable {D padColor toUint8 size} {cols rows : Nat}

theorem letterbox_eq : letterbox size cols rows = .ofScale size cols rows (alignedScale size cols rows) := rfl

/-- The CPU build comes to the parameters of the CUDA build if and only if the alignment does not matter. -/
theorem aligned_iff (auto : Bool) (img : Mat) (hc : 0 < img.cols) (hr : 0 < img.rows) :
    Aligned auto size img.cols img.rows ↔ letterboxScale img size auto = alignedScale size img.cols img.rows ∧
      0 < cRound (img.cols * alignedScale size img.cols img.rows) ∧
      0 < cRound (img.rows * alignedScale size img.cols img.rows) := by
  rw [aligned_size_pos_iff hc hr, letterboxScale_eq]
  cases auto with
  | false =>
    rw [if_neg Bool.false_ne_true, eq_comm, alignedScale_eq_fitScale_iff hc hr]
    exact ⟨fun h => ⟨⟨h.exact_width rfl, h.exact_height rfl⟩, h.width, h.height⟩,
      fun h => ⟨h.2.1, h.2.2, fun _ => h.1.1, fun _ => h.1.2⟩⟩
  | true =>
    rw [if_pos rfl]
    exact ⟨fun h => ⟨rfl, h.width, h.height⟩, fun h => ⟨h.2.1, h.2.2, nofun, nofun⟩⟩

theorem full_iff (hc : 0 < cols) (hr : 0 < rows) :
    Full size cols rows ↔ (letterbox size cols rows).padLeft = 0 ∧ (letterbox size cols rows).padTop = 0 := by
  obtain ⟨hw, hh⟩ := aligned_size_le hc hr size
  rw [letterbox_eq, Full]
  simp only [LetterboxParams.ofScale, Int.tdiv_eq_ediv_of_nonneg (Int.sub_nonneg.2 hw),
    Int.tdiv_eq_ediv_of_nonneg (Int.sub_nonneg.2 hh)]
  omega

section Regions

variable (D padColor toUint8 size) (img : Image)

/-- The area of the kernel is the scaled image, and one column or row more if an odd number of them is left to pad. -/
theorem valid_iff (y x : Nat) :
    (D.kernelArgsOf padColor toUint8 size img).Valid size x y ↔
      ((letterbox size img.cols img.rows).padTop ≤ y ∧
        y < (letterbox size img.cols img.rows).padTop + cRound (img.rows * alignedScale size img.cols img.rows) +
          (size.height - cRound (img.rows * alignedScale size img.cols img.rows)) % 2) ∧
      (letterbox size img.cols img.rows).padLeft ≤ x ∧
        x < (letterbox size img.cols img.rows).padLeft + cRound (img.cols * alignedScale size img.cols img.rows) +
          (size.width - cRound (img.cols * alignedScale size img.cols img.rows)) % 2 := by
  obtain ⟨hw, hh⟩ := aligned_size_le img.cols_pos img.rows_pos size
  simp only [GpuPreprocess.Args.Valid, kernelArgsOf, kernelArgs, letterbox_eq, LetterboxParams.ofScale,
    Int.tdiv_eq_ediv_of_nonneg (Int.sub_nonneg.2 hw), Int.tdiv_eq_ediv_of_nonneg (Int.sub_nonneg.2 hh)]
  omega

/-- The corner of the scaled image is inside in both builds. -/
theorem exists_inside (hw : 0 < cRound (img.cols * alignedScale size img.cols img.rows))
    (hh : 0 < cRound (img.rows * alignedScale size img.cols img.rows)) :
    ∃ y x, y < size.height ∧ x < size.width ∧ (letterbox size img.cols img.rows).Inside y x ∧
      (D.kernelArgsOf padColor toUint8 size img).Valid size x y := by
  obtain ⟨hwle, hhle⟩ := aligned_size_le img.cols_pos img.rows_pos size
  refine ⟨(letterbox size img.cols img.rows).padTop.toNat, (letterbox size img.cols img.rows).padLeft.toNat, ?_⟩
  rw [valid_iff]
  simp only [LetterboxParams.Inside, letterbox_eq, LetterboxParams.ofScale, Int.cast_natCast,
    Int.tdiv_eq_ediv_of_nonneg (Int.sub_nonneg.2 hwle), Int.tdiv_eq_ediv_of_nonneg (Int.sub_nonneg.2 hhle)]
  omega

/-- If there is anything to pad on the left or on the top, the first pixel is outside in both builds. -/
theorem outside_of_not_full (h : ¬Full size img.cols img.rows) :
    ¬(letterbox size img.cols img.rows).Inside 0 0 ∧ ¬(D.kernelArgsOf padColor toUint8 size img).Valid size 0 0 := by
  obtain ⟨hwle, hhle⟩ := aligned_size_le img.cols_pos img.rows_pos size
  rw [full_iff img.cols_pos img.rows_pos] at h
  rw [valid_iff]
  simp only [LetterboxParams.Inside, letterbox_eq, LetterboxParams.ofScale,
    Int.tdiv_eq_ediv_of_nonneg (Int.sub_nonneg.2 hwle), Int.tdiv_eq_ediv_of_nonneg (Int.sub_nonneg.2 hhle)] at h ⊢
  omega

/-- Where at most one column and one row are left to pad, the kernel pads nothing. -/
theorem valid_of_full (h : Full size img.cols img.rows) {y x : Nat} (hy : y < size.height) (hx : x < size.width) :
    (D.kernelArgsOf padColor toUint8 size img).Valid size x y := by
  obtain ⟨hwle, hhle⟩ := aligned_size_le img.cols_pos img.rows_pos size
  rw [full_iff img.cols_pos img.rows_pos] at h
  rw [valid_iff, h.1, h.2]
  simp only [letterbox_eq, LetterboxParams.ofScale, Int.tdiv_eq_ediv_of_nonneg (Int.sub_nonneg.2 hwle),
    Int.tdiv_eq_ediv_of_nonneg (Int.sub_nonneg.2 hhle)] at h
  omega

end Regions

theorem bilinear_uniform {v : Vec3b} {hc : 0 < cols} {hr : 0 < rows} (c : Fin 3) (y x : Nat) :
    (D.kernelArgsOf padColor toUint8 size (Image.uniform cols rows v hc hr)).bilinear
      (Image.uniform cols rows v hc hr).byte c y x = (v.channel c).toNat :=
  GpuPreprocess.Args.bilinear_uniform _ hc hr (fun _ hx _ hy c => Image.byte_uniform hx hy c) c y x

/-- The values of this pixel tell its channels apart. -/
private theorem channel_inj {j k : Fin 3}
    (h : (((⟨1, 2, 3⟩ : Vec3b).channel j).toNat : ℚ) = ((⟨1, 2, 3⟩ : Vec3b).channel k).toNat) :
    j = k := by
  revert j k
  decide

/-- From one image of one colour the configuration can be read off. -/
theorem Agree.necessary (hD : D.cv.interpolate.Uniform) (hc : 0 < cols) (hr : 0 < rows)
    (h : D.Agree padColor toUint8 size cols rows) :
    D.bgr2rgb = true ∧ Aligned D.autoAspectRatio size cols rows ∧
      (OneColor padColor toUint8 ∨ Full size cols rows) := by
  obtain ⟨params, F, rfl, h⟩ := h
  obtain ⟨⟨values, hprep, hF⟩, hF'⟩ := h (Image.uniform cols rows ⟨1, 2, 3⟩ hc hr) rfl rfl
  obtain ⟨hparams, hw, hh, hcpu⟩ := YoloDetector.prepare_spec hprep
  have hcuda := D.fill_planes padColor toUint8 size (Image.uniform cols rows ⟨1, 2, 3⟩ hc hr)
  have hscale : letterboxScale (Image.uniform cols rows ⟨1, 2, 3⟩ hc hr).toMat size D.autoAspectRatio =
      alignedScale size cols rows := (congrArg LetterboxParams.scale hparams).symm
  have hw' : 0 < cRound (cols * alignedScale size cols rows) := by simpa only [letterbox_eq, LetterboxParams.ofScale,
    Int.cast_natCast] using hw
  have hh' : 0 < cRound (rows * alignedScale size cols rows) := by simpa only [letterbox_eq, LetterboxParams.ofScale,
    Int.cast_natCast] using hh
  obtain ⟨y, x, hy, hx, hin, hin'⟩ :=
    exists_inside D padColor toUint8 size (Image.uniform cols rows ⟨1, 2, 3⟩ hc hr) hw' hh'
  have hin₀ : (letterbox size cols rows).Inside y x := hin
  -- the channels of a pixel inside
  have hswap : D.bgr2rgb = true := by
    have h1 : (D.setPadColor padColor).fill.channel 0 = F.channel 0 := by
      refine hcpu.channel_eq hF hy hx hin₀ (fun j k hjk => ?_) 0
      have hD' : (D.setPadColor padColor).cv.interpolate.Uniform := hD
      rw [YoloDetector.resized_uniform hD' hin₀, YoloDetector.resized_uniform hD' hin₀] at hjk
      exact channel_inj hjk
    have h2 : (kernelFill (toUint8 padColor.v0)).channel 0 = F.channel 0 := by
      refine hcuda.channel_eq hF' hy hx hin' (fun j k hjk => ?_) 0
      rw [bilinear_uniform, bilinear_uniform] at hjk
      exact channel_inj hjk
    have h3 : (if D.bgr2rgb then Fin.rev 0 else 0 : Fin 3) = Fin.rev 0 := h1.trans h2.symm
    by_contra hne
    rw [if_neg hne] at h3
    exact absurd h3 (by decide)
  refine ⟨hswap, (aligned_iff D.autoAspectRatio (Image.uniform cols rows ⟨1, 2, 3⟩ hc hr).toMat hc hr).2
    ⟨hscale, hw', hh'⟩, or_iff_not_imp_right.2 fun hfull k => ?_⟩
  -- the pad values of the first pixel
  obtain ⟨hout, hout'⟩ := outside_of_not_full D padColor toUint8 size (Image.uniform cols rows ⟨1, 2, 3⟩ hc hr) hfull
  have h1 := hcpu.pad_eq hF (Nat.zero_lt_of_lt hy) (Nat.zero_lt_of_lt hx) hout k.rev
  have h2 := hcuda.pad_eq hF' (Nat.zero_lt_of_lt hy) (Nat.zero_lt_of_lt hx) hout' k.rev
  have h3 : ((padColor.pixel.channel (if D.bgr2rgb then k.rev.rev else k.rev)).toNat : ℚ) =
    (toUint8 padColor.v0).toNat :=
    h1.trans h2.symm
  rw [if_pos hswap, Fin.rev_rev] at h3
  exact UInt8.toNat_inj.1 (by exact_mod_cast h3)

/-- In such a configuration one fill describes the planes of both builds, for all images. -/
theorem agree_of (hc : 0 < cols) (hr : 0 < rows) (hswap : D.bgr2rgb = true)
    (ha : Aligned D.autoAspectRatio size cols rows) (hpad : OneColor padColor toUint8 ∨ Full size cols rows) :
    D.Agree padColor toUint8 size cols rows := by
  refine ⟨letterbox size cols rows, (D.setPadColor padColor).fill, rfl, ?_⟩
  rintro img rfl rfl
  obtain ⟨hscale, hw, hh⟩ := (aligned_iff D.autoAspectRatio img.toMat hc hr).1 ha
  constructor
  · obtain ⟨⟨params, values⟩, hprep⟩ := (D.setPadColor padColor).toYoloDetector.prepare_of_pos
      (img.rows_pos : 0 < img.toMat.rows) img.cols_pos (by rw [← hscale] at hw; exact hw)
      (by rw [← hscale] at hh; exact hh)
    obtain ⟨hparams, -, -, hfill⟩ := YoloDetector.prepare_spec hprep
    obtain rfl : params = letterbox size img.cols img.rows := hparams.trans (congrArg _ hscale)
    exact ⟨values, hprep, hfill⟩
  · refine (D.fill_planes padColor toUint8 size img).congr (fun k => if_pos hswap) ?_
    rcases hpad with hone | hfull
    · refine .inl fun k => ?_
      show ((padColor.pixel.channel _).toNat : ℚ) = _
      rw [hone]
      rfl
    · exact .inr fun hy hx => valid_of_full D padColor toUint8 size img hfull hy hx

/-- The builds agree on a size if and only if the channels are to be swapped, the alignment to the stride leaves an
image and, where the CPU build does not align, changes nothing, and one colour is padded with, or none. -/
theorem agree_iff (D : YoloCuda) (hD : D.cv.interpolate.Uniform) (padColor : Scalar) (toUint8 : Int → UInt8)
    (size : Size) (cols rows : Nat) (hc : 0 < cols) (hr : 0 < rows) : D.Agree padColor toUint8 size cols rows ↔
      D.bgr2rgb = true ∧ Aligned D.autoAspectRatio size cols rows ∧
        (OneColor padColor toUint8 ∨ Full size cols rows) :=
  ⟨fun h => h.necessary hD hc hr, fun h => agree_of hc hr h.1 h.2.1 h.2.2⟩

theorem nearest_uniform : Interpolation.Uniform OpenCv.nearest := by
  intro m v hr hc h width height y x hy hx
  refine h _ (Nat.div_lt_of_lt_mul ?_) _ (Nat.div_lt_of_lt_mul ?_)
  · exact Nat.mul_lt_mul_of_pos_right hy hr
  · exact Nat.mul_lt_mul_of_pos_right hx hc

/-- The conversion of a number in range. -/
def inRange (v : Int) : UInt8 := .ofNat v.toNat

theorem agree_iff_square : oneAnchor.Agree ⟨114, 114, 114⟩ inRange ⟨32, 32⟩ 32 32 ↔
    true = true ∧ Aligned true ⟨32, 32⟩ 32 32 ∧ (OneColor ⟨114, 114, 114⟩ inRange ∨ Full ⟨32, 32⟩ 32 32) :=
  agree_iff oneAnchor nearest_uniform ⟨114, 114, 114⟩ inRange ⟨32, 32⟩ 32 32 (by decide)
    (by decide)

/-- The planes of the builds are in opposite orders if the channels are not to be swapped. -/
theorem unswapped_not_agree :
    ¬{ oneAnchor with bgr2rgb := false }.Agree ⟨114, 114, 114⟩ inRange ⟨32, 32⟩ 32 32 := by
  intro h
  exact absurd (h.necessary nearest_uniform (by decide) (by decide)).1 (by decide)

end YoloCuda

end OnnxInference
