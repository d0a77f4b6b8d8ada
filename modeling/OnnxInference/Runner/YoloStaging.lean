import OnnxInference.Runner.YoloPreprocess

/-!
# The staging pool of YOLO

An element of the pool has the bytes of one slot of the network input; the copy has those of the image, whatever its
size is.  With `staging_safe_iff` nothing goes wrong in any run if and only if all images fit.
-/

namespace OnnxInference

open Concurrency Transition

variable {net : Net}

/-- The staging pool has `n` elements, all free, and the backend has an input buffer. -/
structure Gpu.Ready (n : Nat) (g : Gpu net) : Prop where
  staging : g.staging.Of n
  nodup : g.staging.buffer.Nodup
  staging_ne : g.staging.buffer ≠ []
  pool_ne : g.pool.buffer ≠ []

namespace YoloCuda

/-- The bytes of the image fit an element. -/
def FitsElement (net : Net) (img : Image) : Prop := img.rows * img.step ≤ Gpu.elementBytes net

/-- The element that a call copies to. -/
def PreAt.copied : PreAt net → Option Ptr
  | .copy _ _ p _ | .kernel _ _ p _ | .release _ _ p => some p
  | _ => none

theorem PreAt.staged_of_copied {l : PreAt net} {p : Ptr} (h : l.copied = some p) : l.staged = some p := by
  cases l <;> first | exact h | cases h

/-- The staging buffers are safe: the bytes that a call copies stay in its element, which is in the pool, and off
those of other calls; a step writes to no others; the kernel reads none but these; and an image that does not fit gets
nothing. -/
structure StagingSafe (D : YoloCuda) (n : Nat)
    (s : Calls (Gpu net) (PreAt net) (Option (TensorBuffer net.batch)) Error) :
    Prop where
  inside : ∀ (k : Nat) l p, s.calls[k]? = some (.inl l) → l.copied = some p →
    p * Gpu.elementBytes net + l.img.rows * l.img.step ≤ (p + 1) * Gpu.elementBytes net ∧
      (p + 1) * Gpu.elementBytes net ≤ n * Gpu.elementBytes net
  apart : ∀ (j k : Nat) l l' p q, j ≠ k → s.calls[j]? = some (.inl l) → s.calls[k]? = some (.inl l') →
    l.copied = some p → l'.copied = some q →
      p * Gpu.elementBytes net + l.img.rows * l.img.step ≤ q * Gpu.elementBytes net ∨
        q * Gpu.elementBytes net + l'.img.rows * l'.img.step ≤ p * Gpu.elementBytes net
  writes : ∀ (k : Nat) c s', (D.preprocess net).callsStep s (.step k c) = some s' →
    ∀ a, s'.shared.bytes a ≠ s.shared.bytes a → ∃ l p, s.calls[k]? = some (.inl l) ∧ l.copied = some p ∧
      p * Gpu.elementBytes net ≤ a ∧ a < p * Gpu.elementBytes net + l.img.rows * l.img.step
  reads : ∀ (k : Nat) img target p pc, s.calls[k]? = some (.inl (.kernel img target p pc)) →
    ∀ (t : GpuPreprocess.Thread net.size), ∀ i ∈ (D.kernelArgs net.size img).reads net.size t.x t.y,
      i < img.rows * img.step
  rejects : ∀ (k : Nat) l p, s.calls[k]? = some (.inl l) → l.staged = some p → FitsElement net l.img

/-- The runs in which only images accepted by the callers are passed to `preprocess`. -/
def Passing (accepts : Image → Prop) (_ : Calls (Gpu net) (PreAt net) (Option (TensorBuffer net.batch)) Error)
    (lb : CallLabel (Image × Overload net) (Option (GpuPreprocess.Thread net.size))) : Prop :=
  ∀ img o, lb = .call (img, o) → accepts img

variable {D : YoloCuda} {n : Nat} {g : Gpu net}

/-- A step copies at most one byte of the image of its call. -/
theorem PreMove.bytes_eq {g' : Gpu net} {l : PreAt net}
    {x : PreAt net ⊕ Except Error (Option (TensorBuffer net.batch))}
    (h : PreMove D g l g' x) {a : Nat} (hne : g'.bytes a ≠ g.bytes a) :
    ∃ p, l.copied = some p ∧ p * Gpu.elementBytes net ≤ a ∧
      a < p * Gpu.elementBytes net + l.img.rows * l.img.step := by
  cases h with
  | @byte img target p i hi =>
    refine ⟨p, rfl, ?_⟩
    by_cases ha : a = p * Gpu.elementBytes net + i
    · rw [ha]
      exact ⟨Nat.le_add_right _ _, Nat.add_lt_add_left hi _⟩
    · exact absurd (Function.update_of_ne ha _ _) hne
  | @thread _ target _ _ _ _ o _ => rcases o with _ | ⟨i, v⟩ <;> exact absurd rfl hne
  | acquire | access | own | slot | reject | launch | synchronize | release | foreign | storeOwn | storeSlot =>
    exact absurd rfl hne

theorem kernel_reads_lt (D : YoloCuda) (dst : Size) (img : Image) (x y : Nat) :
    ∀ i ∈ (D.kernelArgs dst img).reads dst x y, i < img.rows * img.step :=
  GpuPreprocess.Args.reads_lt img.cols_pos img.rows_pos img.le_step dst x y

/-- No two calls hold one element when the free elements and those held were all free once. -/
theorem staged_inj (hg : g.staging.buffer.Nodup)
    {s : Calls (Gpu net) (PreAt net) (Option (TensorBuffer net.batch)) Error}
    (hle : (s.shared.staging.buffer : Multiset Ptr) + total PreAt.held s.calls ≤ g.staging.buffer) {j k : Nat}
    {l l' : PreAt net} {p : Ptr} (hj : s.calls[j]? = some (.inl l)) (hk : s.calls[k]? = some (.inl l'))
    (hl : l.staged = some p) (hl' : l'.staged = some p) : j = k := by
  have hnodup := (Multiset.nodup_add.1 (Multiset.nodup_of_le hle (Multiset.coe_nodup.2 hg))).2.1
  have hheld : ∀ {l : PreAt net}, l.staged = some p →
      p ∈ weight PreAt.held (.inl l : PreAt net ⊕ Except Error (Option (TensorBuffer net.batch))) := by
    intro l hl
    simp [PreAt.held, hl]
  exact Ledger.index_eq_of_nodup_sum hnodup hj hk (hheld hl) (hheld hl')

/-- With images that fit, everything is safe. -/
theorem staging_safe (hg : g.Ready n) {accepts : Image → Prop} (hfit : ∀ img, accepts img → FitsElement net img)
    {s : Calls (Gpu net) (PreAt net) (Option (TensorBuffer net.batch)) Error}
    (h : ((D.preprocess net).calls g).ReachBy (Passing accepts) s) :
    D.StagingSafe n s := by
  have hheld : (s.shared.staging.buffer : Multiset Ptr) + total PreAt.held s.calls ≤ g.staging.buffer :=
    Prog.weight_le (fun g : Gpu net => (g.staging.buffer : Multiset Ptr)) PreAt.held (fun _ => rfl)
      (fun _ _ _ hs => (PreMove.of_step hs).held_le) h
  obtain ⟨-, hcalls⟩ := Prog.calls_invariant (K := fun g : Gpu net => g.staging.Of n)
    (J := fun l : PreAt net => (∀ p, l.staged = some p → p < n) ∧ accepts l.img) hg.staging
    (fun hG => ⟨nofun, hG _ _ rfl⟩)
    (fun hK hJ hs => by
      obtain ⟨hof, hlt⟩ := (PreMove.of_step hs).staging_of hK hJ.1
      exact ⟨hof, fun l' hl' => ⟨hlt l' hl', (PreMove.of_step hs).img_eq l' hl' ▸ hJ.2⟩⟩) h
  have hrange : ∀ {k : Nat} {l : PreAt net} {p : Ptr}, s.calls[k]? = some (.inl l) → l.copied = some p →
      p < n ∧ p * Gpu.elementBytes net + l.img.rows * l.img.step ≤ (p + 1) * Gpu.elementBytes net := by
    intro k l p hk hp
    obtain ⟨hlt, hacc⟩ := hcalls k l hk
    have hle : l.img.rows * l.img.step ≤ Gpu.elementBytes net := hfit _ hacc
    refine ⟨hlt p (PreAt.staged_of_copied hp), ?_⟩
    rw [Nat.succ_mul]
    exact Nat.add_le_add_left hle _
  exact {
    -- an image that fits stays in its element, and the elements are apart
    inside := fun k l p hk hp => by
      obtain ⟨hlt, hle⟩ := hrange hk hp
      exact ⟨hle, Nat.mul_le_mul_right _ hlt⟩
    apart := fun j k l l' p q hjk hj hk hp hq => by
      obtain ⟨-, hple⟩ := hrange hj hp
      obtain ⟨-, hqle⟩ := hrange hk hq
      have hpq : p ≠ q := by
        rintro rfl
        exact hjk (staged_inj hg.nodup hheld hj hk (PreAt.staged_of_copied hp) (PreAt.staged_of_copied hq))
      rcases Nat.lt_or_gt_of_ne hpq with hlt | hlt
      · exact .inl (hple.trans (Nat.mul_le_mul_right _ hlt))
      · exact .inr (hqle.trans (Nat.mul_le_mul_right _ hlt))
    writes := fun k c s' hs a hne => by
      obtain ⟨l, b', x, hl, hx, rfl⟩ := Prog.callsStep_step hs
      obtain ⟨p, hp, hlo, hhi⟩ := (PreMove.of_step hx).bytes_eq hne
      exact ⟨l, p, hl, hp, hlo, hhi⟩
    reads := fun k img target p pc _ t => kernel_reads_lt D net.size img t.x t.y
    rejects := fun k l p hk _ => hfit _ (hcalls k l hk).2 }

/-- A call alone gets to the copy, whatever its image is. -/
theorem exists_copy (D : YoloCuda) (hg : g.Ready n) (img : Image)
    {G : Calls (Gpu net) (PreAt net) (Option (TensorBuffer net.batch)) Error →
      CallLabel (Image × Overload net) (Option (GpuPreprocess.Thread net.size)) → Prop}
    (hcall : ∀ s, G s (.call (img, .single))) (hstep : ∀ s k c, G s (.step k c)) :
    ∃ s data p, ((D.preprocess net).calls g).ReachBy G s ∧ s.calls = [.inl (.copy img (.own data) p 0)] := by
  obtain ⟨⟨p, staging⟩, hp⟩ := InferTensorBufferPool.acquire_of_ne_nil hg.staging_ne
  obtain ⟨⟨data, pool⟩, hdata⟩ := InferTensorBufferPool.acquire_of_ne_nil hg.pool_ne
  have h0 : ((D.preprocess net).calls g).ReachBy G ⟨g, [.inl (.acquire img .single)]⟩ := .step .init (hcall _) rfl
  have h1 : ((D.preprocess net).calls g).ReachBy G ⟨{ g with staging := staging }, [.inl (.access img .single p)]⟩ :=
    .step h0 (hstep _ 0 none) (by simp [Prog.calls, Prog.callsStep, preStep, hp])
  have h2 : ((D.preprocess net).calls g).ReachBy G
      ⟨{ g with staging := staging, streams := (g.streams.index p).2 }, [.inl (.prepare img .single p)]⟩ :=
    .step h1 (hstep _ 0 none) (by simp [Prog.calls, Prog.callsStep, preStep])
  have h3 : ((D.preprocess net).calls g).ReachBy G
      ⟨{ g with staging := staging, streams := (g.streams.index p).2, pool := pool },
        [.inl (.copy img (.own data) p 0)]⟩ :=
    .step h2 (hstep _ 0 none) (by simp [Prog.calls, Prog.callsStep, preStep, hdata])
  exact ⟨_, data, p, h3, rfl⟩

/-- The staging buffers are safe in all runs of both overloads on the images accepted by the callers if and only if
these images have at most `plane_size() * sizeof(float)` bytes. -/
theorem staging_safe_iff (D : YoloCuda) {net : Net} {n : Nat} (g : Gpu net) (hg : g.Ready n)
    (accepts : Image → Prop) :
    (∀ s, ((D.preprocess net).calls g).ReachBy (Passing accepts) s → D.StagingSafe n s) ↔
      ∀ img, accepts img → img.rows * img.step ≤ net.planeSize * 4 := by
  constructor
  · intro h img himg
    obtain ⟨s, data, p, hs, hcalls⟩ := exists_copy D hg img (G := Passing accepts)
      (fun _ _ _ hlb => by cases hlb; exact himg) (fun _ _ _ _ _ hlb => by cases hlb)
    exact (h s hs).rejects 0 (.copy img (.own data) p 0) p (by rw [hcalls]; rfl) rfl
  · intro hfit s hs
    exact staging_safe hg hfit hs

/-- A network of one pixel, whose staging elements have twelve bytes. -/
def onePixelNet : Net := ⟨1, 1, 1, Nat.one_pos⟩

/-- Two staging elements with their streams and two input buffers. -/
def onePixelGpu : Gpu onePixelNet :=
  ⟨.create 2, fun p => if p < 2 then some (some p) else none, fun _ => 0, .create 2, fun _ => [0, 0, 0], .wrap 1 0⟩

theorem onePixelGpu_ready : onePixelGpu.Ready 2 := ⟨.create 2, by decide, by decide, by decide⟩

/-- An image of five pixels in a row. -/
def fivePixels : Image := ⟨1, 5, 15, List.replicate 15 0, rfl, Nat.one_pos, by decide, by decide⟩

/-- Images of at most two rows with at most two pixels are safe, those of five columns are not. -/
theorem staging_safe_iff_pixel :
    (∀ s, ((oneAnchor.preprocess onePixelNet).calls onePixelGpu).ReachBy
        (Passing fun img => img.rows ≤ 2 ∧ img.step ≤ 6) s → oneAnchor.StagingSafe 2 s) ∧
      ¬∀ s, ((oneAnchor.preprocess onePixelNet).calls onePixelGpu).ReachBy (Passing fun img => img.cols = 5) s →
        oneAnchor.StagingSafe 2 s := by
  constructor
  · rw [staging_safe_iff oneAnchor onePixelGpu onePixelGpu_ready]
    intro img ⟨hrows, hstep⟩
    exact (Nat.mul_le_mul hrows hstep).trans (by decide)
  · rw [staging_safe_iff oneAnchor onePixelGpu onePixelGpu_ready]
    exact fun h => absurd (h fivePixels rfl) (by decide)

/-- Its fifteen bytes are copied to an element of twelve. -/
theorem fivePixels_not_safe : ¬∀ (D : YoloCuda) (net : Net) (n : Nat) (g : Gpu net), g.Ready n →
    ∀ s, ((D.preprocess net).calls g).Reachable s → D.StagingSafe n s := by
  intro h
  obtain ⟨s, data, p, hs, hcalls⟩ := exists_copy oneAnchor onePixelGpu_ready fivePixels (G := fun _ _ => True)
    (fun _ => trivial) (fun _ _ _ => trivial)
  obtain ⟨hle, -⟩ := (h oneAnchor onePixelNet 2 onePixelGpu onePixelGpu_ready s hs).inside 0
    (.copy fivePixels (.own data) p 0) p (by rw [hcalls]; rfl) rfl
  have hlen : (PreAt.copy fivePixels (.own data) p 0 : PreAt onePixelNet).img.rows *
      (PreAt.copy fivePixels (.own data) p 0 : PreAt onePixelNet).img.step = 15 := rfl
  have helem : Gpu.elementBytes onePixelNet = 12 := rfl
  rw [hlen, helem, Nat.succ_mul] at hle
  exact absurd (Nat.le_of_add_le_add_left hle) (by decide)

end YoloCuda

end OnnxInference
