import OnnxInference.Preprocess

/-!
# The preparation of an image on the device (`src/device/gpu_preprocess.cu`)

One thread for each pixel of the network input, in blocks of 16 times 16: it samples the image or takes the pad value,
and stores three floats, one in each plane.  The bytes of the image are memory addressed from `src_bgr`, the stores
have addresses from `dst_nchw` on.
-/

namespace OnnxInference.GpuPreprocess

/-- The scalar arguments of `gpu_yolo_preprocess` besides the size of the network input. -/
structure Args where
  srcW : Nat
  srcH : Nat
  srcStep : Nat
  scale : ℚ
  padLeft : Int
  padTop : Int
  normScale : ℚ
  padValue : UInt8

variable {dst : Size}

/-- `blockIdx` and `threadIdx`. -/
structure Thread (dst : Size) where
  blockX : Fin ((dst.width + 15) / 16)
  blockY : Fin ((dst.height + 15) / 16)
  threadX : Fin 16
  threadY : Fin 16
  deriving DecidableEq, Fintype

namespace Thread

variable (t : Thread dst)

def x : Nat := t.blockX * 16 + t.threadX

def y : Nat := t.blockY * 16 + t.threadY

/-- The thread does not return at the start. -/
def InRange : Prop := t.x < dst.width ∧ t.y < dst.height

instance : Decidable t.InRange := inferInstanceAs (Decidable (_ ∧ _))

/-- `k * hw + dst_idx`. -/
def address (k : Fin 3) : Nat := k * (dst.height * dst.width) + (t.y * dst.width + t.x)

end Thread

namespace Args

variable (a : Args)

/-- The pixel is in the valid area of the letterbox. -/
def Valid (dst : Size) (x y : Nat) : Prop :=
  let lx := x - a.padLeft
  let ly := y - a.padTop
  let validW := dst.width - 2 * a.padLeft
  let validH := dst.height - 2 * a.padTop
  0 ≤ lx ∧ lx < validW ∧ 0 ≤ ly ∧ ly < validH

instance (dst : Size) (x y : Nat) : Decidable (a.Valid dst x y) := inferInstanceAs (Decidable (_ ∧ _))

/-- `src_xf` and `src_yf`. -/
def source (pad : Int) (i : Nat) : ℚ := ((i - pad : Int) + 1 / 2) / a.scale - 1 / 2

/-- `max(0, min(i, n - 1))`. -/
def clampTo (n : Nat) (i : Int) : Nat := (max 0 (min i (n - 1))).toNat

/-- The offset of the first byte of a pixel. -/
def offset (px py : Nat) : Nat := py * a.srcStep + px * 3

/-- `read_bgr`: the channels in the order red, green, blue. -/
def readBgr (srcBgr : Nat → UInt8) (px py : Nat) (k : Fin 3) : ℚ := (srcBgr (a.offset px py + (2 - k))).toNat

/-- The columns `x0` and `x1` for a pixel. -/
def columns (x : Nat) : Nat × Nat :=
  let x0 := ⌊a.source a.padLeft x⌋
  (clampTo a.srcW x0, clampTo a.srcW (x0 + 1))

/-- The rows `y0` and `y1` for a pixel. -/
def rows (y : Nat) : Nat × Nat :=
  let y0 := ⌊a.source a.padTop y⌋
  (clampTo a.srcH y0, clampTo a.srcH (y0 + 1))

/-- `r`, `g` and `b` of a pixel before they are normalized. -/
def pixel (dst : Size) (srcBgr : Nat → UInt8) (x y : Nat) (k : Fin 3) : ℚ :=
  if a.Valid dst x y then
    let fx := Int.fract (a.source a.padLeft x)
    let fy := Int.fract (a.source a.padTop y)
    let (x0, x1) := a.columns x
    let (y0, y1) := a.rows y
    let p00 := a.readBgr srcBgr x0 y0 k
    let p10 := a.readBgr srcBgr x1 y0 k
    let p01 := a.readBgr srcBgr x0 y1 k
    let p11 := a.readBgr srcBgr x1 y1 k
    (p00 * (1 - fx) + p10 * fx) * (1 - fy) + (p01 * (1 - fx) + p11 * fx) * fy
  else a.padValue.toNat

/-- The offsets of the bytes that the thread of a pixel reads. -/
def reads (dst : Size) (x y : Nat) : List Nat :=
  if a.Valid dst x y then
    [((a.columns x).1, (a.rows y).1), ((a.columns x).2, (a.rows y).1), ((a.columns x).1, (a.rows y).2),
      ((a.columns x).2, (a.rows y).2)].flatMap fun p => [0, 1, 2].map fun c => a.offset p.1 p.2 + c
  else []

/-- What the kernel is to store: the three planes, as one list. -/
def planes (dst : Size) (srcBgr : Nat → UInt8) : List ℚ :=
  (List.range (3 * (dst.height * dst.width))).map fun i =>
    let hw := dst.height * dst.width
    a.pixel dst srcBgr (i % hw % dst.width) (i % hw / dst.width) ⟨i / hw % 3, Nat.mod_lt _ (by decide)⟩ * a.normScale

end Args

/-- Where a thread stands; `store` is the next store it makes. -/
inductive Pc
  | start
  | store (rgb : Fin 3 → ℚ) (k : Fin 3)
  | exit

/-- One step of a thread: the store it makes, if it makes one, and where it stands then. -/
def threadStep (a : Args) (srcBgr : Nat → UInt8) (t : Thread dst) : Pc → Option (Option (Nat × ℚ) × Pc)
  | .start =>
    if t.x ≥ dst.width ∨ t.y ≥ dst.height then some (none, .exit)
    else some (none, .store (a.pixel dst srcBgr t.x t.y) 0)
  | .store rgb k =>
    some (some (t.address k, rgb k * a.normScale), if h : k.val + 1 < 3 then .store rgb ⟨k.val + 1, h⟩ else .exit)
  | .exit => none

/-- One step of the kernel. -/
def step (a : Args) (srcBgr : Nat → UInt8) (pc : Thread dst → Pc) (t : Thread dst) :
    Option (Option (Nat × ℚ) × (Thread dst → Pc)) :=
  (threadStep a srcBgr t (pc t)).map fun x => (x.1, Function.update pc t x.2)

/-- The threads when the kernel is launched. -/
def launch (dst : Size) : Thread dst → Pc := fun _ => .start

instance (pc : Pc) : Decidable (pc = .exit) :=
  match pc with
  | .start | .store .. => isFalse nofun
  | .exit => isTrue rfl

/-- All threads have exited. -/
def Finished (pc : Thread dst → Pc) : Prop := ∀ t, pc t = .exit

instance (pc : Thread dst → Pc) : Decidable (Finished pc) := inferInstanceAs (Decidable (∀ t, pc t = .exit))

/-! ### The grid -/

namespace Thread

/-- Every pixel has a thread. -/
theorem exists_pixel {x y : Nat} (hx : x < dst.width) (hy : y < dst.height) :
    ∃ t : Thread dst, t.x = x ∧ t.y = y := by
  have hbx : x / 16 < (dst.width + 15) / 16 := by omega
  have hby : y / 16 < (dst.height + 15) / 16 := by omega
  refine ⟨⟨⟨x / 16, hbx⟩, ⟨y / 16, hby⟩, ⟨x % 16, Nat.mod_lt _ (by decide)⟩, ⟨y % 16, Nat.mod_lt _ (by decide)⟩⟩,
    ?_, ?_⟩
  · exact Nat.div_add_mod' x 16
  · exact Nat.div_add_mod' y 16

/-- Every pixel has one thread only. -/
theorem pixel_inj {t u : Thread dst} (hx : t.x = u.x) (hy : t.y = u.y) : t = u := by
  obtain ⟨⟨bx, hbx⟩, ⟨by', hby⟩, ⟨tx, htx⟩, ⟨ty, hty⟩⟩ := t
  obtain ⟨⟨bx', hbx'⟩, ⟨by'', hby'⟩, ⟨tx', htx'⟩, ⟨ty', hty'⟩⟩ := u
  simp only [x, y] at hx hy
  obtain rfl : bx = bx' := by omega
  obtain rfl : by' = by'' := by omega
  obtain rfl : tx = tx' := by omega
  obtain rfl : ty = ty' := by omega
  rfl

variable {t u : Thread dst}

theorem InRange.index_lt (h : t.InRange) : t.y * dst.width + t.x < dst.height * dst.width :=
  OnnxInference.index_lt h.2 h.1

/-- The address of a store determines the plane and the pixel. -/
theorem InRange.address_div (h : t.InRange) (k : Fin 3) : t.address k / (dst.height * dst.width) = k := by
  have hlt := h.index_lt
  rw [address, Nat.add_comm, Nat.add_mul_div_right _ _ (Nat.zero_lt_of_lt hlt), Nat.div_eq_of_lt hlt, Nat.zero_add]

theorem InRange.address_mod (h : t.InRange) (k : Fin 3) :
    t.address k % (dst.height * dst.width) = t.y * dst.width + t.x := Nat.mul_add_mod_of_lt h.index_lt

theorem InRange.address_x (h : t.InRange) (k : Fin 3) :
    t.address k % (dst.height * dst.width) % dst.width = t.x := by
  rw [h.address_mod, Nat.mul_add_mod_of_lt h.1]

theorem InRange.address_y (h : t.InRange) (k : Fin 3) :
    t.address k % (dst.height * dst.width) / dst.width = t.y := by
  rw [h.address_mod, Nat.add_comm, Nat.add_mul_div_right _ _ (Nat.zero_lt_of_lt h.1), Nat.div_eq_of_lt h.1,
    Nat.zero_add]

theorem InRange.address_lt (h : t.InRange) (k : Fin 3) : t.address k < 3 * (dst.height * dst.width) :=
  plane_index_lt k h.2 h.1

theorem address_inj {j k : Fin 3} (ht : t.InRange) (hu : u.InRange) (h : t.address j = u.address k) :
    t = u ∧ j = k := by
  refine ⟨pixel_inj ?_ ?_, Fin.ext ?_⟩
  · rw [← ht.address_x j, h, hu.address_x]
  · rw [← ht.address_y j, h, hu.address_y]
  · rw [← ht.address_div j, h, hu.address_div]

/-- Every element of the three planes is stored to by some thread. -/
theorem exists_address {i : Nat} (h : i < 3 * (dst.height * dst.width)) :
    ∃ t : Thread dst, t.InRange ∧ ∃ k, t.address k = i := by
  have hw : 0 < dst.height * dst.width := Nat.pos_of_ne_zero fun h0 => by simp [h0] at h
  have hwidth : 0 < dst.width := Nat.pos_of_mul_pos_left hw
  have hx : i % (dst.height * dst.width) % dst.width < dst.width := Nat.mod_lt _ hwidth
  have hy : i % (dst.height * dst.width) / dst.width < dst.height :=
    Nat.div_lt_of_lt_mul (by rw [Nat.mul_comm dst.width]; exact Nat.mod_lt _ hw)
  have hk : i / (dst.height * dst.width) < 3 := Nat.div_lt_of_lt_mul (by rwa [Nat.mul_comm])
  obtain ⟨t, htx, hty⟩ := exists_pixel hx hy
  refine ⟨t, ⟨htx ▸ hx, hty ▸ hy⟩, ⟨i / (dst.height * dst.width), hk⟩, ?_⟩
  rw [address, htx, hty, Nat.div_add_mod', Nat.div_add_mod']

end Thread

/-! ### The stores of a launch -/

/-- The addresses that a thread is still to store to. -/
def Pc.left (t : Thread dst) : Pc → List Nat
  | .start => if t.InRange then (List.finRange 3).map t.address else []
  | .store _ k => ((List.finRange 3).drop k).map t.address
  | .exit => []

/-- The addresses that the kernel is still to store to. -/
def left (pc : Thread dst → Pc) : Multiset Nat := ∑ t, ((pc t).left t : Multiset Nat)

theorem Pc.mem_left_start {t : Thread dst} {i : Nat} : i ∈ Pc.start.left t ↔ t.InRange ∧ ∃ k, t.address k = i := by
  simp only [Pc.left]
  split
  · rename_i ht
    simp [ht]
  · rename_i ht
    simp [ht]

theorem Pc.nodup_left_start (t : Thread dst) : (Pc.start.left t).Nodup := by
  simp only [Pc.left]
  split
  · rename_i ht
    exact (List.nodup_finRange 3).map fun j k h => (Thread.address_inj ht ht h).2
  · exact List.nodup_nil

/-- Before the first step these are all addresses of the three planes, each once. -/
theorem left_launch (dst : Size) : left (launch dst) = Multiset.range (3 * (dst.height * dst.width)) := by
  refine Multiset.ext.2 fun i => ?_
  rw [left, Multiset.count_sum']
  simp only [launch]
  by_cases hi : i < 3 * (dst.height * dst.width)
  · obtain ⟨t, ht, k, hk⟩ := Thread.exists_address hi
    rw [Multiset.count_eq_one_of_mem (Multiset.nodup_range _) (Multiset.mem_range.2 hi), Finset.sum_eq_single t]
    · rw [Multiset.coe_count]
      exact List.count_eq_one_of_mem (Pc.nodup_left_start t) (Pc.mem_left_start.2 ⟨ht, k, hk⟩)
    · intro u _ hut
      rw [Multiset.coe_count, List.count_eq_zero]
      intro hmem
      obtain ⟨hu, j, hj⟩ := Pc.mem_left_start.1 hmem
      exact hut (Thread.address_inj hu ht (hj.trans hk.symm)).1
    · exact fun h => absurd (Finset.mem_univ t) h
  · rw [Multiset.count_eq_zero_of_notMem fun h => hi (Multiset.mem_range.1 h)]
    refine Finset.sum_eq_zero fun t _ => ?_
    rw [Multiset.coe_count, List.count_eq_zero]
    intro hmem
    obtain ⟨ht, k, rfl⟩ := Pc.mem_left_start.1 hmem
    exact hi (ht.address_lt k)

theorem left_of_finished {pc : Thread dst → Pc} (h : Finished pc) : left pc = 0 := by
  refine Finset.sum_eq_zero fun t _ => ?_
  rw [h t]
  rfl

/-- The value that belongs to an address. -/
def Args.value (a : Args) (dst : Size) (srcBgr : Nat → UInt8) (i : Nat) : ℚ := (a.planes dst srcBgr).getD i 0

theorem length_planes (a : Args) (dst : Size) (srcBgr : Nat → UInt8) :
    (a.planes dst srcBgr).length = 3 * (dst.height * dst.width) := by
  rw [Args.planes, List.length_map, List.length_range]

theorem value_address (a : Args) (srcBgr : Nat → UInt8) {t : Thread dst} (h : t.InRange) (k : Fin 3) :
    a.value dst srcBgr (t.address k) = a.pixel dst srcBgr t.x t.y k * a.normScale := by
  have hk : (⟨t.address k / (dst.height * dst.width) % 3, Nat.mod_lt _ (by decide)⟩ : Fin 3) = k :=
    Fin.ext (by rw [h.address_div]; exact Nat.mod_eq_of_lt k.isLt)
  rw [Args.value, Args.planes, List.getD_eq_getElem?_getD, List.getElem?_map, List.getElem?_range (h.address_lt k),
    Option.map_some, Option.getD_some]
  simp only [hk, h.address_x, h.address_y]

/-- A thread about to store is in range and has the three values of its pixel. -/
def Loaded (a : Args) (srcBgr : Nat → UInt8) (pc : Thread dst → Pc) : Prop :=
  ∀ t rgb k, pc t = .store rgb k → t.InRange ∧ rgb = a.pixel dst srcBgr t.x t.y

theorem loaded_launch (a : Args) (srcBgr : Nat → UInt8) : Loaded a srcBgr (launch dst) := nofun

/-- The steps that a thread may still take. -/
def Pc.rank : Pc → Nat
  | .start => 4
  | .store _ k => 3 - k
  | .exit => 0

def rank (pc : Thread dst → Pc) : Nat := ∑ t, (pc t).rank

/-- What a step of a thread can do: it loads or returns, or it makes the next of its stores. -/
inductive ThreadMove (a : Args) (srcBgr : Nat → UInt8) (t : Thread dst) : Pc → Option (Nat × ℚ) → Pc → Prop
  | skip : ¬t.InRange → ThreadMove a srcBgr t .start none .exit
  | load : t.InRange → ThreadMove a srcBgr t .start none (.store (a.pixel dst srcBgr t.x t.y) 0)
  | store {rgb : Fin 3 → ℚ} {k : Fin 3} (h : k.val + 1 < 3) :
    ThreadMove a srcBgr t (.store rgb k) (some (t.address k, rgb k * a.normScale)) (.store rgb ⟨k.val + 1, h⟩)
  | last {rgb : Fin 3 → ℚ} {k : Fin 3} (h : ¬k.val + 1 < 3) :
    ThreadMove a srcBgr t (.store rgb k) (some (t.address k, rgb k * a.normScale)) .exit

theorem ThreadMove.of_step {a : Args} {srcBgr : Nat → UInt8} {t : Thread dst} {pc pc' : Pc} {o : Option (Nat × ℚ)}
    (h : threadStep a srcBgr t pc = some (o, pc')) : ThreadMove a srcBgr t pc o pc' := by
  cases pc with
  | start =>
    simp only [threadStep] at h
    split at h
    · rename_i hout
      cases h
      exact .skip fun hin => by have := hin.1; have := hin.2; omega
    · rename_i hin
      cases h
      exact .load ⟨by omega, by omega⟩
  | store rgb k =>
    simp only [threadStep, Option.some.injEq, Prod.mk.injEq] at h
    obtain ⟨rfl, rfl⟩ := h
    split
    · exact .store ‹_›
    · exact .last ‹_›
  | exit => cases h

/-- A store takes the address off the list. -/
theorem ThreadMove.left_eq {a : Args} {srcBgr : Nat → UInt8} {t : Thread dst} {pc pc' : Pc} {o : Option (Nat × ℚ)}
    (h : ThreadMove a srcBgr t pc o pc') : pc.left t = (o.map (·.1)).toList ++ pc'.left t := by
  cases h with
  | skip hout => simp [Pc.left, hout]
  | load hin => simp [Pc.left, hin]
  | @store rgb k h =>
    have hlen : k.val < (List.finRange 3).length := by rw [List.length_finRange]; exact k.isLt
    simp only [Pc.left, List.drop_eq_getElem_cons hlen, List.getElem_finRange]
    rfl
  | @last rgb k h =>
    have hlen : k.val < (List.finRange 3).length := by rw [List.length_finRange]; exact k.isLt
    simp only [Pc.left, List.drop_eq_getElem_cons hlen, List.getElem_finRange]
    rw [List.drop_of_length_le (by rw [List.length_finRange]; omega)]
    rfl

theorem ThreadMove.rank_lt {a : Args} {srcBgr : Nat → UInt8} {t : Thread dst} {pc pc' : Pc} {o : Option (Nat × ℚ)}
    (h : ThreadMove a srcBgr t pc o pc') : pc'.rank < pc.rank := by
  cases h with
  | skip => decide
  | load => exact Nat.lt_succ_self 3
  | @store rgb k h => simp only [Pc.rank]; omega
  | @last rgb k h => simp only [Pc.rank]; omega

variable {a : Args} {srcBgr : Nat → UInt8} {pc pc' : Thread dst → Pc} {t : Thread dst} {o : Option (Nat × ℚ)}

theorem step_cases (h : step a srcBgr pc t = some (o, pc')) :
    ∃ p, ThreadMove a srcBgr t (pc t) o p ∧ pc' = Function.update pc t p := by
  rw [step, Option.map_eq_some_iff] at h
  obtain ⟨⟨o', p⟩, hs, heq⟩ := h
  cases heq
  exact ⟨p, .of_step hs, rfl⟩

/-- A sum over the threads after a step of one of them. -/
private theorem sum_update {A : Type} [AddCommMonoid A] (f : Thread dst → Pc → A) (pc : Thread dst → Pc)
    (t : Thread dst)
    (p : Pc) : ∃ rest, ∑ u, f u (pc u) = f t (pc t) + rest ∧ ∑ u, f u (Function.update pc t p u) = f t p + rest := by
  refine ⟨∑ u ∈ Finset.univ.erase t, f u (pc u), (Finset.add_sum_erase _ _ (Finset.mem_univ t)).symm, ?_⟩
  rw [← Finset.add_sum_erase _ _ (Finset.mem_univ t), Function.update_self]
  congr 1
  exact Finset.sum_congr rfl fun u hu => by rw [Function.update_of_ne (Finset.ne_of_mem_erase hu)]

/-- Every step makes one of the stores that are left, or none. -/
theorem left_step (h : step a srcBgr pc t = some (o, pc')) : left pc = (o.map (·.1)).toList + left pc' := by
  obtain ⟨p, hm, rfl⟩ := step_cases h
  obtain ⟨rest, h1, h2⟩ := sum_update (fun u q => (Pc.left u q : Multiset Nat)) pc t p
  rw [left, left, h1, h2, hm.left_eq, ← Multiset.coe_add, add_assoc]

theorem rank_step (h : step a srcBgr pc t = some (o, pc')) : rank pc' < rank pc := by
  obtain ⟨p, hm, rfl⟩ := step_cases h
  obtain ⟨rest, h1, h2⟩ := sum_update (fun _ q => Pc.rank q) pc t p
  have := hm.rank_lt
  rw [rank, rank, h1, h2]
  omega

theorem Loaded.of_step (hl : Loaded a srcBgr pc) (h : step a srcBgr pc t = some (o, pc')) : Loaded a srcBgr pc' := by
  obtain ⟨p, hm, rfl⟩ := step_cases h
  intro u rgb k hu
  by_cases hut : u = t
  · subst hut
    rw [Function.update_self] at hu
    generalize hpc : pc u = q at hm
    cases hm with
    | skip => cases hu
    | load hin =>
      cases hu
      exact ⟨hin, rfl⟩
    | store =>
      cases hu
      exact hl u _ _ hpc
    | last => cases hu
  · rw [Function.update_of_ne hut] at hu
    exact hl u rgb k hu

/-- What is stored is what belongs to the address. -/
theorem Loaded.value_of_store (hl : Loaded a srcBgr pc) {i : Nat} {v : ℚ}
    (h : step a srcBgr pc t = some (some (i, v), pc')) :
    i < 3 * (dst.height * dst.width) ∧ v = a.value dst srcBgr i := by
  obtain ⟨p, hm, -⟩ := step_cases h
  generalize hpc : pc t = q at hm
  have hstore : ∀ rgb k, pc t = .store rgb k → t.address k < 3 * (dst.height * dst.width) ∧
      rgb k * a.normScale = a.value dst srcBgr (t.address k) := by
    intro rgb k hk
    obtain ⟨hin, rfl⟩ := hl t rgb k hk
    exact ⟨hin.address_lt k, (value_address a srcBgr hin k).symm⟩
  cases hm with
  | store => exact hstore _ _ hpc
  | last => exact hstore _ _ hpc

/-- A thread that has not exited can take a step. -/
theorem exists_step (h : ¬Finished pc) (a : Args) (srcBgr : Nat → UInt8) : ∃ t x, step a srcBgr pc t = some x := by
  obtain ⟨t, ht⟩ := not_forall.1 h
  refine ⟨t, ?_⟩
  have hsome : (step a srcBgr pc t).isSome := by
    rw [step, Option.isSome_map]
    unfold threadStep
    split
    · split <;> rfl
    · rfl
    · exact absurd ‹_› ht
  exact Option.isSome_iff_exists.1 hsome

/-! ### The reads of a thread -/

theorem Args.clampTo_lt {n : Nat} (h : 0 < n) (i : Int) : Args.clampTo n i < n := by
  unfold clampTo
  omega

/-- All reads are of bytes of the image. -/
theorem Args.reads_lt {a : Args} (hw : 0 < a.srcW) (hh : 0 < a.srcH) (hstep : a.srcW * 3 ≤ a.srcStep) (dst : Size)
    (x y : Nat) :
    ∀ i ∈ a.reads dst x y, i < a.srcH * a.srcStep := by
  have hoff : ∀ px < a.srcW, ∀ py < a.srcH, ∀ c < 3, a.offset px py + c < a.srcH * a.srcStep := by
    intro px hx py hy c hc
    have hle : (py + 1) * a.srcStep ≤ a.srcH * a.srcStep := Nat.mul_le_mul_right _ hy
    rw [Nat.add_mul, Nat.one_mul] at hle
    unfold offset
    omega
  intro i hi
  unfold reads at hi
  split at hi
  · obtain ⟨p, hp, hi⟩ := List.mem_flatMap.1 hi
    obtain ⟨c, hc, rfl⟩ := List.mem_map.1 hi
    have hc3 : c < 3 := by
      simp only [List.mem_cons, List.not_mem_nil, or_false] at hc
      omega
    simp only [List.mem_cons, List.not_mem_nil, or_false] at hp
    rcases hp with rfl | rfl | rfl | rfl <;>
      exact hoff _ (clampTo_lt hw _) _ (clampTo_lt hh _) c hc3
  · cases hi

/-- The values depend on the bytes read only. -/
theorem Args.pixel_congr {a : Args} {srcBgr srcBgr' : Nat → UInt8} {dst : Size} {x y : Nat}
    (h : ∀ i ∈ a.reads dst x y, srcBgr i = srcBgr' i) : a.pixel dst srcBgr x y = a.pixel dst srcBgr' x y := by
  funext k
  unfold pixel
  unfold reads at h
  split
  · rename_i hv
    rw [if_pos hv] at h
    have hread : ∀ px py, (px, py) ∈ [((a.columns x).1, (a.rows y).1), ((a.columns x).2, (a.rows y).1),
        ((a.columns x).1, (a.rows y).2), ((a.columns x).2, (a.rows y).2)] →
        a.readBgr srcBgr px py k = a.readBgr srcBgr' px py k := by
      intro px py hp
      unfold readBgr
      rw [h _ (List.mem_flatMap.2 ⟨(px, py), hp, List.mem_map.2 ⟨2 - k, ?_, rfl⟩⟩)]
      have hk : 2 - k.val = 0 ∨ 2 - k.val = 1 ∨ 2 - k.val = 2 := by omega
      rcases hk with hk | hk | hk <;> simp [hk]
    simp only [hread _ _ (by simp : ((a.columns x).1, (a.rows y).1) ∈ _),
      hread _ _ (by simp : ((a.columns x).2, (a.rows y).1) ∈ _),
      hread _ _ (by simp : ((a.columns x).1, (a.rows y).2) ∈ _),
      hread _ _ (by simp : ((a.columns x).2, (a.rows y).2) ∈ _)]
  · rfl

theorem step_congr {srcBgr' : Nat → UInt8} (h : ∀ i ∈ a.reads dst t.x t.y, srcBgr i = srcBgr' i) :
    step a srcBgr pc t = step a srcBgr' pc t := by
  unfold step threadStep
  rw [Args.pixel_congr h]

end OnnxInference.GpuPreprocess
