import OnnxInference.Runner.YoloStaging

/-!
# The slots of a batch

The tasks of a batch prepare their images in one tensor buffer.  Whatever the order of their steps is, a call on a slot
leaves the other slots alone (`PreMove.frame`), all calls end (`exists_ended`), and each has stored the floats and the
letterbox parameters of its image (`stored_of_ended`), and every float once (`trace_eq`).
-/

namespace OnnxInference

open Concurrency Transition

variable {net : Net}

/-- The input buffers have room for the floats of a batch. -/
structure Gpu.Sized (g : Gpu net) : Prop where
  pool : ∀ p ∈ g.pool.buffer, (g.mem p).length = net.numElements
  tenbuf : (g.mem g.tenbuf.data).length = net.numElements

namespace YoloCuda

/-! ### Rank -/

/-- A bound on the steps of a call that are still to come. -/
def PreAt.rank : PreAt net → Nat
  | .acquire img _ => img.rows * img.step + GpuPreprocess.rank (GpuPreprocess.launch net.size) + 7
  | .access img _ _ => img.rows * img.step + GpuPreprocess.rank (GpuPreprocess.launch net.size) + 6
  | .prepare img _ _ => img.rows * img.step + GpuPreprocess.rank (GpuPreprocess.launch net.size) + 5
  | .copy img _ _ i => img.rows * img.step - i + GpuPreprocess.rank (GpuPreprocess.launch net.size) + 4
  | .kernel _ _ _ pc => GpuPreprocess.rank pc + 3
  | .release .. => 2
  | .store .. => 1

variable {D : YoloCuda} {n : Nat} {c : Option (GpuPreprocess.Thread net.size)} {g g' : Gpu net} {l : PreAt net}
  {x : PreAt net ⊕ Except Error (Option (TensorBuffer net.batch))}

theorem PreMove.rank_lt (h : PreMove D g l g' x) : weight PreAt.rank x < l.rank := by
  cases h with
  | thread hs =>
    have := GpuPreprocess.rank_step hs
    simp only [weight_inl, PreAt.rank]
    omega
  | byte hi =>
    simp only [weight_inl, PreAt.rank]
    omega
  | acquire | access | own | slot | launch | synchronize | release =>
    simp only [weight_inl, PreAt.rank]
    omega
  | reject | foreign | storeOwn | storeSlot =>
    simp only [weight_inr, PreAt.rank]
    omega

/-! ### What a call has done -/

/-- The slot that belongs to an overload. -/
def Matches : Overload net → Target net → Prop
  | .single, .own _ => True
  | .batched k, .slot k' => k = k'
  | _, _ => False

/-- The call may be made: the other overload of `preprocess` takes every image. -/
def Accepts : Image × Overload net → Prop
  | (_, .single) => True
  | (img, .batched _) => img.isContinuous = true

/-- The arguments of the kernel, and what it is to store. -/
def slotValue (D : YoloCuda) (net : Net) (img : Image) (i : Nat) : ℚ :=
  (D.kernelArgs net.size img).value net.size img.byte i

/-- The target belongs to the overload and its memory has room for the floats of a batch. -/
structure Placed (g : Gpu net) (o : Overload net) (target : Target net) : Prop where
  target_of : Matches o target
  length : (g.mem (g.destination target).1).length = net.numElements

/-- The floats of the target with these indices have been stored. -/
def Filled (D : YoloCuda) (g : Gpu net) (img : Image) (target : Target net) (P : Nat → Prop) : Prop :=
  ∀ i < net.planeSize, P i →
    (g.mem (g.destination target).1)[(g.destination target).2 + i]? = some (D.slotValue net img i)

/-- What a call of `preprocess` on a request has done by now. -/
def At (D : YoloCuda) (g : Gpu net) (r : Image × Overload net) :
    PreAt net ⊕ Except Error (Option (TensorBuffer net.batch)) → Prop
  | .inl (.acquire img o) => (img, o) = r
  | .inl (.access img o _) => (img, o) = r
  | .inl (.prepare img o _) => (img, o) = r
  | .inl (.copy img target p i) => img = r.1 ∧ Placed g r.2 target ∧ i ≤ img.rows * img.step ∧
    ∀ j < i, g.source p j = img.byte j
  | .inl (.kernel img target p pc) =>
      img = r.1 ∧ Placed g r.2 target ∧ (∀ j < img.rows * img.step, g.source p j = img.byte j) ∧
      GpuPreprocess.Loaded (D.kernelArgs net.size img) img.byte pc ∧
        Filled D g img target fun i => i ∉ GpuPreprocess.left pc
  | .inl (.release img target _) => img = r.1 ∧ Placed g r.2 target ∧ Filled D g img target fun _ => True
  | .inl (.store img target) => img = r.1 ∧ Placed g r.2 target ∧ Filled D g img target fun _ => True
  | .inr (.ok (some buf)) => ∃ data, Placed g r.2 (.own data) ∧ buf = ownBuffer data r.1 ∧
      Filled D g r.1 (.own data) fun _ => True
  | .inr (.ok none) => ∃ k, Placed g r.2 (.slot k) ∧ Filled D g r.1 (.slot k) (fun _ => True) ∧
      g.tenbuf.letterboxParams k = letterbox net.size r.1.cols r.1.rows
  | .inr (.error _) => False

/-! ### Stores -/

@[simp] theorem write_staging (g : Gpu net) (target : Target net) (o : Option (Nat × ℚ)) :
    (g.write target o).staging = g.staging := by
  cases o <;> rfl

@[simp] theorem write_pool (g : Gpu net) (target : Target net) (o : Option (Nat × ℚ)) :
    (g.write target o).pool = g.pool := by
  cases o <;> rfl

@[simp] theorem write_tenbuf (g : Gpu net) (target : Target net) (o : Option (Nat × ℚ)) :
    (g.write target o).tenbuf = g.tenbuf := by
  cases o <;> rfl

@[simp] theorem write_bytes (g : Gpu net) (target : Target net) (o : Option (Nat × ℚ)) :
    (g.write target o).bytes = g.bytes := by
  cases o <;> rfl

@[simp] theorem write_destination (g : Gpu net) (target target' : Target net) (o : Option (Nat × ℚ)) :
    (g.write target o).destination target' = g.destination target' := by
  cases o <;> rfl

@[simp] theorem length_write (g : Gpu net) (target : Target net) (o : Option (Nat × ℚ)) (q : Ptr) :
    ((g.write target o).mem q).length = (g.mem q).length := by
  rcases o with _ | ⟨i, v⟩
  · rfl
  · show ((Function.update g.mem _ _ : Memory) q).length = _
    by_cases hq : q = (g.destination target).1
    · rw [hq, Function.update_self, List.length_set]
    · rw [Function.update_of_ne hq]

/-- A store changes one float. -/
private theorem getElem?_write_of_ne {g : Gpu net} {target : Target net} {i a : Nat} {v : ℚ} {q : Ptr}
    (h : q ≠ (g.destination target).1 ∨ a ≠ (g.destination target).2 + i) :
    ((g.write target (some (i, v))).mem q)[a]? = (g.mem q)[a]? := by
  show ((Function.update g.mem _ _ : Memory) q)[a]? = _
  by_cases hq : q = (g.destination target).1
  · rw [hq, Function.update_self, List.getElem?_set_ne (h.resolve_left (not_not.2 hq)).symm]
  · rw [Function.update_of_ne hq]

private theorem getElem?_write_self {g : Gpu net} {target : Target net} {i : Nat} {v : ℚ}
    (h : (g.destination target).2 + i < (g.mem (g.destination target).1).length) :
    ((g.write target (some (i, v))).mem (g.destination target).1)[(g.destination target).2 + i]? = some v := by
  show ((Function.update g.mem _ _ : Memory) _)[_]? = _
  rw [Function.update_self, List.getElem?_set_self h]

/-- The target is in its buffer. -/
private theorem Placed.index_lt {o : Overload net} {target : Target net} (h : Placed g o target) {i : Nat}
    (hi : i < net.planeSize) :
    (g.destination target).2 + i < (g.mem (g.destination target).1).length := by
  rw [h.length]
  cases target with
  | own data =>
    have hle : 1 * net.planeSize ≤ net.batch * net.planeSize := Nat.mul_le_mul_right _ net.batch_pos
    show 0 + i < net.batch * net.planeSize
    omega
  | slot k =>
    have hle := net.slot_le k
    show net.planeSize * k + i < net.numElements
    rw [Nat.mul_comm]
    omega

/-- One step of a call keeps what is known of it. -/
private theorem At.step {r : Image × Overload net} (hat : At D g r (.inl l)) (h : PreMove D g l g' x) (hacc : Accepts r)
    (hs : g.Sized) (hof : g.staging.Of n) (hlt : ∀ p, l.staged = some p → p < n) : At D g' r x := by
  cases h with
  | acquire | access => exact hat
  | @own img p data pool h =>
    obtain rfl : (img, .single) = r := hat
    refine ⟨rfl, ⟨trivial, ?_⟩, Nat.zero_le _, nofun⟩
    exact hs.pool data ((InferTensorBufferPool.acquire_some h).1 ▸ List.mem_cons_self)
  | @slot img p offset h =>
    obtain rfl : (img, .batched offset) = r := hat
    exact ⟨rfl, ⟨rfl, hs.tenbuf⟩, Nat.zero_le _, nofun⟩
  | @reject img p offset h =>
    obtain rfl : (img, .batched offset) = r := hat
    exact absurd (hacc.symm.trans h) (by decide)
  | @byte img target p i hi =>
    obtain ⟨rfl, hplaced, -, hbytes⟩ := hat
    refine ⟨rfl, ⟨hplaced.target_of, hplaced.length⟩, hi, fun j hj => ?_⟩
    by_cases hji : j = i
    · subst hji
      exact Function.update_self ..
    · exact (Function.update_of_ne (by omega) _ _).trans (hbytes j (by omega))
  | @launch img target p i hi =>
    obtain ⟨rfl, hplaced, hle, hbytes⟩ := hat
    refine ⟨rfl, hplaced, fun j hj => hbytes j (by omega), GpuPreprocess.loaded_launch _ _, fun i hi hnot => ?_⟩
    rw [GpuPreprocess.left_launch] at hnot
    exact absurd (Multiset.mem_range.2 hi) hnot
  | @thread img target p pc pc' t o hstep =>
    obtain ⟨rfl, hplaced, hbytes, hloaded, hfilled⟩ := hat
    rw [GpuPreprocess.step_congr fun i hi => hbytes i (kernel_reads_lt D _ _ _ _ i hi)] at hstep
    have hleft := GpuPreprocess.left_step hstep
    refine ⟨rfl, ⟨hplaced.target_of, by rw [write_destination, length_write]; exact hplaced.length⟩,
      fun j hj => by rw [Gpu.source, write_bytes]; exact hbytes j hj, hloaded.of_step hstep, fun i hi hnot => ?_⟩
    rw [write_destination]
    rcases o with _ | ⟨a, v⟩
    · exact hfilled i hi fun hmem => hnot (by rw [hleft] at hmem; simpa using hmem)
    · obtain ⟨-, rfl⟩ := hloaded.value_of_store hstep
      by_cases hia : i = a
      · subst hia
        exact getElem?_write_self (hplaced.index_lt hi)
      · rw [getElem?_write_of_ne (.inr (by omega))]
        refine hfilled i hi fun hmem => hnot ?_
        rw [hleft] at hmem
        simpa [hia] using hmem
  | @synchronize img target p pc hf =>
    obtain ⟨rfl, hplaced, -, -, hfilled⟩ := hat
    refine ⟨rfl, hplaced, fun i hi _ => hfilled i hi ?_⟩
    rw [GpuPreprocess.left_of_finished hf]
    exact Multiset.notMem_zero i
  | @release img target p staging h =>
    obtain ⟨rfl, hplaced, hfilled⟩ := hat
    exact ⟨rfl, ⟨hplaced.target_of, hplaced.length⟩, hfilled⟩
  | @foreign img target p e h =>
    rw [hof.release_eq (hlt p rfl)] at h
    cases h
  | @storeOwn img data =>
    obtain ⟨rfl, hplaced, hfilled⟩ := hat
    exact ⟨data, hplaced, rfl, hfilled⟩
  | @storeSlot img offset =>
    obtain ⟨rfl, hplaced, hfilled⟩ := hat
    exact ⟨offset, ⟨hplaced.target_of, hplaced.length⟩, hfilled, Function.update_self ..⟩

theorem At.img_eq {r : Image × Overload net} (hat : At D g r (.inl l)) : l.img = r.1 := by
  cases l with
  | acquire | access | prepare => exact congrArg Prod.fst hat
  | copy | kernel | release | store => exact hat.1

/-- A call of `preprocess(img)` that has not acquired its input buffer. -/
def PreAt.Unplaced : PreAt net → Prop
  | .acquire _ .single | .access _ .single _ | .prepare _ .single _ => True
  | _ => False

private theorem At.single_of {r : Image × Overload net} (hat : At D g r (.inl l)) (hl : l.Unplaced) :
    r.2 = .single := by
  cases l with
  | acquire img o | access img o p | prepare img o p =>
    cases o with
    | single => exact (congrArg Prod.snd hat).symm
    | batched => exact hl.elim
  | copy | kernel | release | store => exact hl.elim

private theorem PreMove.unplaced_of (h : PreMove D g l g' x) {l' : PreAt net} (hx : x = .inl l') (hl' : l'.Unplaced) :
    l.Unplaced ∧ g'.pool = g.pool := by
  cases h with
  | @acquire _ o | @access _ o =>
    cases hx
    cases o with
    | single => exact ⟨trivial, rfl⟩
    | batched => exact hl'.elim
  | own | slot | byte | launch | thread | synchronize | release =>
    cases hx
    exact hl'.elim
  | reject | foreign | storeOwn | storeSlot => cases hx

/-! ### What a call leaves alone -/

/-- A call on another slot has kept the slot, its parameters, and the bytes of the staging element. -/
structure Frame (g g' : Gpu net) (k : Fin net.batch) (img : Image) (staged : Option Ptr) : Prop where
  length : ∀ q, (g'.mem q).length = (g.mem q).length
  data : g'.tenbuf.data = g.tenbuf.data
  floats : ∀ i < net.planeSize,
    (g'.mem g.tenbuf.data)[net.planeSize * k + i]? = (g.mem g.tenbuf.data)[net.planeSize * k + i]?
  params : g'.tenbuf.letterboxParams k = g.tenbuf.letterboxParams k
  bytes : ∀ p, staged = some p → ∀ j < img.rows * img.step, g'.source p j = g.source p j

section Frame

variable {k : Fin net.batch} {img : Image} {staged : Option Ptr}

private theorem Placed.slot_eq {target : Target net} (h : Placed g (.batched k) target) : target = .slot k := by
  cases target with
  | own data => exact h.target_of.elim
  | slot k' =>
    have hk : k = k' := h.target_of
    rw [hk]

private theorem Frame.placed (hf : Frame g g' k img staged) {target : Target net} (h : Placed g (.batched k) target) :
    Placed g' (.batched k) target := by
  obtain rfl := h.slot_eq
  refine ⟨rfl, ?_⟩
  show (g'.mem g'.tenbuf.data).length = _
  rw [hf.data, hf.length]
  exact h.length

private theorem Frame.filled (hf : Frame g g' k img staged) {img' : Image} {target : Target net}
    (h : Placed g (.batched k) target) {P : Nat → Prop} (hfilled : Filled D g img' target P) :
    Filled D g' img' target P := by
  obtain rfl := h.slot_eq
  intro i hi hP
  show (g'.mem g'.tenbuf.data)[net.planeSize * k + i]? = _
  rw [hf.data, hf.floats i hi]
  exact hfilled i hi hP

/-- What is known of a call on a slot still holds when a call on another slot has taken a step. -/
private theorem At.frame {y : PreAt net ⊕ Except Error (Option (TensorBuffer net.batch))}
    (hat : At D g (img, .batched k) y)
    (hf : Frame g g' k img (y.elim PreAt.staged fun _ => none)) : At D g' (img, .batched k) y := by
  rcases y with l | r
  · cases l with
    | acquire | access | prepare => exact hat
    | copy img' target p i =>
      obtain ⟨rfl, hplaced, hle, hbytes⟩ := hat
      exact ⟨rfl, hf.placed hplaced, hle, fun j hj => (hf.bytes p rfl j (by omega)).trans (hbytes j hj)⟩
    | kernel img' target p pc =>
      obtain ⟨rfl, hplaced, hbytes, hloaded, hfilled⟩ := hat
      exact ⟨rfl, hf.placed hplaced, fun j hj => (hf.bytes p rfl j hj).trans (hbytes j hj), hloaded,
        hf.filled hplaced hfilled⟩
    | release img' target p =>
      obtain ⟨rfl, hplaced, hfilled⟩ := hat
      exact ⟨rfl, hf.placed hplaced, hf.filled hplaced hfilled⟩
    | store img' target =>
      obtain ⟨rfl, hplaced, hfilled⟩ := hat
      exact ⟨rfl, hf.placed hplaced, hf.filled hplaced hfilled⟩
  · rcases r with e | _ | buf
    · exact hat
    · obtain ⟨k', hplaced, hfilled, hparams⟩ := hat
      have hk : Target.slot k' = .slot k := hplaced.slot_eq
      cases hk
      exact ⟨k, hf.placed hplaced, hf.filled hplaced hfilled, hf.params.trans hparams⟩
    · -- a call on a slot returns no buffer of its own
      obtain ⟨data, hplaced, -⟩ := hat
      exact hplaced.target_of.elim

end Frame

private theorem PreMove.length_mem (h : PreMove D g l g' x) (q : Ptr) : (g'.mem q).length = (g.mem q).length := by
  cases h with
  | thread => exact length_write ..
  | acquire | access | own | slot | reject | byte | launch | synchronize | release | foreign | storeOwn | storeSlot =>
    rfl

theorem PreMove.data_eq (h : PreMove D g l g' x) : g'.tenbuf.data = g.tenbuf.data := by
  cases h with
  | thread => rw [write_tenbuf]
  | acquire | access | own | slot | reject | byte | launch | synchronize | release | foreign | storeOwn | storeSlot =>
    rfl

private theorem PreMove.pool_subset (h : PreMove D g l g' x) : g'.pool.buffer ⊆ g.pool.buffer := by
  cases h with
  | own h => rw [(InferTensorBufferPool.acquire_some h).1]; exact List.subset_cons_self _ _
  | thread => rw [write_pool]; exact List.Subset.refl _
  | acquire | access | slot | reject | byte | launch | synchronize | release | foreign | storeOwn | storeSlot =>
    exact List.Subset.refl _

private theorem PreMove.sized (h : PreMove D g l g' x) (hs : g.Sized) : g'.Sized where
  pool p hp := (h.length_mem p).trans (hs.pool p (h.pool_subset hp))
  tenbuf := by rw [h.data_eq, h.length_mem]; exact hs.tenbuf

/-- A byte belongs to one element. -/
private theorem eq_of_ranges {p q size len i : Nat} (hlo : p * size ≤ q * size + i)
    (hhi : q * size + i < p * size + len) (hlen : len ≤ size) (hi : i < size) : p = q := by
  rcases Nat.lt_trichotomy p q with hlt | heq | hlt
  · have hmul := Nat.mul_le_mul_right size (Nat.succ_le_of_lt hlt)
    rw [Nat.succ_mul] at hmul
    omega
  · exact heq
  · have hmul := Nat.mul_le_mul_right size (Nat.succ_le_of_lt hlt)
    rw [Nat.succ_mul] at hmul
    omega

/-- A call on a slot leaves the other slots alone. -/
private theorem PreMove.frame {j k : Fin net.batch} {img img' : Image} (h : PreMove D g l g' x)
    (hat : At D g (img, .batched j) (.inl l)) (hjk : j ≠ k) (hfit : FitsElement net img)
    (hfit' : FitsElement net img') {staged : Option Ptr}
    (hne : ∀ p q, l.staged = some p → staged = some q → p ≠ q) : Frame g g' k img' staged where
  length := h.length_mem
  data := h.data_eq
  floats i hi := by
    cases h with
    | @thread img₀ target p pc pc' t o hstep =>
      obtain ⟨rfl, hplaced, hbytes, hloaded, -⟩ := hat
      rw [GpuPreprocess.step_congr fun i hi => hbytes i (kernel_reads_lt D _ _ _ _ i hi)] at hstep
      obtain rfl := hplaced.slot_eq
      rcases o with _ | ⟨a, v⟩
      · rfl
      · obtain ⟨ha, -⟩ := hloaded.value_of_store hstep
        have ha' : a < net.planeSize := ha
        refine getElem?_write_of_ne (.inr ?_)
        have hdisj := net.slot_disjoint hjk
        show net.planeSize * k + i ≠ net.planeSize * j + a
        rw [Nat.mul_comm _ k.val, Nat.mul_comm _ j.val]
        omega
    | acquire | access | own | slot | reject | byte | launch | synchronize | release | foreign | storeOwn | storeSlot =>
      rfl
  params := by
    cases h with
    | thread => rw [write_tenbuf]
    | @storeSlot img₀ offset =>
      obtain ⟨-, hplaced, -⟩ := hat
      have hk : Target.slot offset = .slot j := hplaced.slot_eq
      cases hk
      exact Function.update_of_ne hjk.symm _ _
    | acquire | access | own | slot | reject | byte | launch | synchronize | release | foreign | storeOwn => rfl
  bytes q hq i hi := by
    by_contra hbytes
    obtain ⟨p, hp, hlo, hhi⟩ := h.bytes_eq hbytes
    have himg : l.img = img := hat.img_eq
    rw [himg] at hhi
    exact hne p q (PreAt.staged_of_copied hp) hq (eq_of_ranges hlo hhi hfit (Nat.lt_of_lt_of_le hi hfit'))

/-! ### Runs -/

/-- The requests that may be made together: one alone, or several for different slots. -/
def Apart (reqs : List (Image × Overload net)) : Prop :=
  ∀ (j k : Nat) r r', j ≠ k → reqs[j]? = some r → reqs[k]? = some r' → ∃ a b, r.2 = .batched a ∧
    r'.2 = .batched b ∧ a ≠ b

/-- The requests are for images that `preprocess` accepts and that fit the staging elements. -/
def Valid (reqs : List (Image × Overload net)) : Prop := ∀ r ∈ reqs, Accepts r ∧ FitsElement net r.1

/-- Which staging elements are in use, and what each call has done. -/
structure Inv (D : YoloCuda) (n : Nat) (g : Gpu net) (reqs : List (Image × Overload net))
    (s : Calls (Gpu net) (PreAt net) (Option (TensorBuffer net.batch)) Error) : Prop where
  staging_of : s.shared.staging.Of n
  staging_eq : (s.shared.staging.buffer : Multiset Ptr) + total PreAt.held s.calls = g.staging.buffer
  lt : ∀ (k : Nat) l p, s.calls[k]? = some (.inl l) → l.staged = some p → p < n
  sized : s.shared.Sized
  data_eq : s.shared.tenbuf.data = g.tenbuf.data
  pool : ∀ (k : Nat) l, s.calls[k]? = some (.inl l) → l.Unplaced → s.shared.pool.buffer ≠ []
  length : s.calls.length = reqs.length
  at_ : ∀ (k : Nat) r y, reqs[k]? = some r → s.calls[k]? = some y → At D s.shared r y

variable {reqs : List (Image × Overload net)}

theorem Inv.init (hg : g.Ready n) (hs : g.Sized) : Inv D n g reqs ((D.preprocess net).tasks g reqs).init where
  staging_of := hg.staging
  staging_eq := by
    have hzero : total PreAt.held ((D.preprocess net).tasks g reqs).init.calls = 0 := by
      refine List.sum_eq_zero fun m hm => ?_
      obtain ⟨y, hy, rfl⟩ := List.mem_map.1 hm
      obtain ⟨r, -, rfl⟩ := List.mem_map.1 hy
      rfl
    rw [hzero, add_zero]
    rfl
  lt k l p hk hp := by
    obtain ⟨r, -, hr⟩ := List.mem_map.1 (List.mem_of_getElem? hk)
    cases hr
    cases hp
  sized := hs
  data_eq := rfl
  pool _ _ _ _ := hg.pool_ne
  length := List.length_map _
  at_ k r y hr hy := by
    have hinit : ((D.preprocess net).tasks g reqs).init.calls[k]? = some (.inl (.acquire r.1 r.2)) :=
      (List.getElem?_map ..).trans (by rw [hr]; rfl)
    rw [hinit, Option.some.injEq] at hy
    exact hy ▸ rfl

variable {s s' : Calls (Gpu net) (PreAt net) (Option (TensorBuffer net.batch)) Error}

/-- No two calls hold one element. -/
theorem Inv.staged_ne (hi : Inv D n g reqs s) (hg : g.Ready n) {j k : Nat} {l l' : PreAt net} {p q : Ptr}
    (hjk : j ≠ k) (hj : s.calls[j]? = some (.inl l)) (hk : s.calls[k]? = some (.inl l')) (hl : l.staged = some p)
    (hl' : l'.staged = some q) : p ≠ q := by
  rintro rfl
  exact hjk (staged_inj hg.nodup hi.staging_eq.le hj hk hl hl')

/-- A call of a request that `preprocess` accepts throws nothing. -/
theorem Inv.held_eq (hi : Inv D n g reqs s) (hv : Valid reqs) {k : Nat} {r : Image × Overload net}
    (hr : reqs[k]? = some r) (hl : s.calls[k]? = some (.inl l)) (h : PreMove D s.shared l g' x) :
    (g'.staging.buffer : Multiset Ptr) + weight PreAt.held x = s.shared.staging.buffer + l.held := by
  rcases h.held_eq with heq | ⟨⟨e, rfl⟩, -⟩
  · exact heq
  -- only an exception loses an element
  · exact ((hi.at_ k r _ hr hl).step h (hv r (List.mem_of_getElem? hr)).1 hi.sized hi.staging_of (hi.lt k l · hl)).elim

theorem Inv.step (hi : Inv D n g reqs s) (hg : g.Ready n) (hv : Valid reqs) (ha : Apart reqs)
    {lb : Nat × Option (GpuPreprocess.Thread net.size)} (h : ((D.preprocess net).tasks g reqs).step s lb = some s') :
    Inv D n g reqs s' := by
  obtain ⟨k, c⟩ := lb
  obtain ⟨l, g', x, hl, hx, rfl⟩ := Prog.callsStep_step h
  have hm := PreMove.of_step hx
  have hk : k < reqs.length := hi.length ▸ (List.getElem?_eq_some_iff.1 hl).1
  obtain ⟨r, hr⟩ : ∃ r, reqs[k]? = some r := ⟨_, List.getElem?_eq_getElem hk⟩
  have hat := hi.at_ k r _ hr hl
  obtain ⟨hof, hlt⟩ := hm.staging_of hi.staging_of (hi.lt k l · hl)
  have hother : ∀ {j y}, j ≠ k → (s.calls.set k x)[j]? = some y → s.calls[j]? = some y := fun hjk hy => by
    rwa [List.getElem?_set_ne (Ne.symm hjk)] at hy
  have hself : ∀ {y}, (s.calls.set k x)[k]? = some y → x = y := fun hy => by
    rwa [List.getElem?_set_self (List.getElem?_eq_some_iff.1 hl).1, Option.some.injEq] at hy
  exact {
    staging_of := hof
    staging_eq := by
      have htotal := total_set PreAt.held hl x
      have hheld := hi.held_eq hv hr hl hm
      rw [weight_inl] at htotal
      refine add_right_cancel (b := weight PreAt.held x + l.held) ?_
      calc (g'.staging.buffer : Multiset Ptr) + total PreAt.held (s.calls.set k x) + (weight PreAt.held x + l.held)
          = (g'.staging.buffer + weight PreAt.held x) + (total PreAt.held (s.calls.set k x) + l.held) := by abel
        _ = (s.shared.staging.buffer + l.held) + (total PreAt.held s.calls + weight PreAt.held x) := by
          rw [hheld, htotal]
        _ = g.staging.buffer + (weight PreAt.held x + l.held) := by rw [← hi.staging_eq]; abel
    lt := fun j l' p hj hp => by
      by_cases hjk : j = k
      · subst hjk
        exact hlt l' (hself hj) p hp
      · exact hi.lt j l' p (hother hjk hj) hp
    sized := hm.sized hi.sized
    data_eq := hm.data_eq.trans hi.data_eq
    pool := fun j l' hj hl' => by
      by_cases hjk : j = k
      · subst hjk
        obtain ⟨hunplaced, hpool⟩ := hm.unplaced_of (hself hj) hl'
        rw [hpool]
        exact hi.pool j l hl hunplaced
      · -- a single call is alone
        have hj' := hother hjk hj
        obtain ⟨r', hr'⟩ : ∃ r', reqs[j]? = some r' :=
          ⟨_, List.getElem?_eq_getElem (hi.length ▸ (List.getElem?_eq_some_iff.1 hj').1)⟩
        obtain ⟨b, _, hb', -⟩ := ha j k r' r hjk hr' hr
        rw [(hi.at_ j r' _ hr' hj').single_of hl'] at hb'
        cases hb'
    length := (List.length_set ..).trans hi.length
    at_ := fun j r' y hr' hy => by
      by_cases hjk : j = k
      · subst hjk
        obtain rfl := hself hy
        obtain rfl : r = r' := Option.some.inj (hr.symm.trans hr')
        exact hat.step hm (hv r (List.mem_of_getElem? hr)).1 hi.sized hi.staging_of (hi.lt j l · hl)
      · have hy' := hother hjk hy
        obtain ⟨b, a, hb', ha', hne⟩ := ha j k r' r hjk hr' hr
        obtain ⟨img, o⟩ := r
        obtain ⟨img', o'⟩ := r'
        obtain rfl : o = .batched a := ha'
        obtain rfl : o' = .batched b := hb'
        refine (hi.at_ j _ y hr' hy').frame (hm.frame hat hne.symm (hv _ (List.mem_of_getElem? hr)).2
          (hv _ (List.mem_of_getElem? hr')).2 fun p q hp hq => ?_)
        rcases y with l' | _
        · exact hi.staged_ne hg (Ne.symm hjk) hl hy' hp hq
        · cases hq }

/-- A call that holds an element can take a step. -/
private theorem exists_step_of_staged {p : Ptr} (hl : l.staged = some p)
    (hpool : l.Unplaced → g.pool.buffer ≠ []) : ∃ c y, D.preStep c g l = some y := by
  cases l with
  | acquire | store => cases hl
  | access img o q => exact ⟨none, _, rfl⟩
  | prepare img o q =>
    cases o with
    | single =>
      obtain ⟨y, hy⟩ := InferTensorBufferPool.acquire_of_ne_nil (hpool trivial)
      exact ⟨none, _, by rw [preStep, hy, Option.map_some]⟩
    | batched k =>
      refine ⟨none, Option.isSome_iff_exists.1 ?_⟩
      simp only [preStep]
      split <;> rfl
  | copy img target q i =>
    refine ⟨none, Option.isSome_iff_exists.1 ?_⟩
    simp only [preStep]
    split <;> rfl
  | kernel img target q pc =>
    by_cases hf : GpuPreprocess.Finished pc
    · exact ⟨none, _, by rw [preStep]; exact if_pos hf⟩
    · obtain ⟨t, y, hy⟩ := GpuPreprocess.exists_step hf (D.kernelArgs net.size img) (g.source q)
      exact ⟨some t, _, by rw [preStep]; simp only [hy, Option.map_some]; rfl⟩
  | release img target q =>
    refine ⟨none, Option.isSome_iff_exists.1 ?_⟩
    simp only [preStep]
    split <;> rfl

/-- Some call can take a step until all have ended: a call that waits for an element waits for one that holds it. -/
private theorem Inv.exists_step (hi : Inv D n g reqs s) (hg : g.Ready n) (hne : ¬(D.preprocess net).Ended s) :
    ∃ lb s', ((D.preprocess net).tasks g reqs).step s lb = some s' := by
  have hgo : ∀ {k : Nat} {l c y}, s.calls[k]? = some (.inl l) → D.preStep c s.shared l = some y →
      ∃ lb s', ((D.preprocess net).tasks g reqs).step s lb = some s' := fun {k _ c _} hl hy =>
    ⟨(k, c), _, Prog.callsStep_of hl hy⟩
  have hstaged : ∀ {k : Nat} {l p}, s.calls[k]? = some (.inl l) → l.staged = some p →
      ∃ lb s', ((D.preprocess net).tasks g reqs).step s lb = some s' := by
    intro k l p hl hp
    obtain ⟨c, y, hy⟩ := exists_step_of_staged (D := D) (g := s.shared) hp (hi.pool k l hl)
    exact hgo hl hy
  simp only [Prog.Ended, not_forall, not_not] at hne
  obtain ⟨k, l, hl⟩ := hne
  cases l with
  | acquire img o =>
    by_cases hfree : s.shared.staging.buffer = []
    · have hsum : total PreAt.held s.calls ≠ 0 := by
        have heq := hi.staging_eq
        rw [hfree, Multiset.coe_nil, zero_add] at heq
        rw [heq]
        exact fun h0 => hg.staging_ne (Multiset.coe_eq_zero _ |>.1 h0)
      obtain ⟨j, l', hl', hheld⟩ := exists_of_total_ne_zero PreAt.held hsum
      cases hp : l'.staged with
      | none => exact absurd (by simp [PreAt.held, hp]) hheld
      | some p => exact hstaged hl' hp
    · obtain ⟨y, hy⟩ := InferTensorBufferPool.acquire_of_ne_nil hfree
      exact hgo (c := none) hl (by rw [preStep, hy, Option.map_some])
  | access img o p => exact hstaged hl rfl
  | prepare img o p => exact hstaged hl rfl
  | copy img target p i => exact hstaged hl rfl
  | kernel img target p pc => exact hstaged hl rfl
  | release img target p => exact hstaged hl rfl
  | store img target =>
    cases target with
    | own data => exact hgo (c := none) hl rfl
    | slot k' => exact hgo (c := none) hl rfl

/-! ### The stores of a call -/

/-- A store of a call: to the float with this index of the tensor, or to the letterbox parameters of a slot. -/
inductive Store
  | float (i : Nat)
  | params (k : Nat)
  deriving DecidableEq

/-- The index of a float of the target, and the slot. -/
def Target.offset : Target net → Nat
  | .own _ => 0
  | .slot k => net.planeSize * k

def Target.slot_ : Target net → Nat
  | .own _ => 0
  | .slot k => k

/-- The stores that a step makes. -/
def stores (D : YoloCuda) (c : Option (GpuPreprocess.Thread net.size)) (g : Gpu net) : PreAt net → List Store
  | .kernel img target p pc =>
    match c with
    | some t =>
      match GpuPreprocess.step (D.kernelArgs net.size img) (g.source p) pc t with
      | some (some (i, _), _) => [.float (target.offset + i)]
      | _ => []
    | none => []
  | .store _ target => [.params target.slot_]
  | _ => []

/-- The stores of a whole call. -/
def slotStores (net : Net) (k : Nat) : Multiset Store :=
  (Multiset.range net.planeSize).map (fun i => .float (net.planeSize * k + i)) + {.params k}

def Overload.slot_ : Overload net → Nat
  | .single => 0
  | .batched k => k

/-- The stores that a call is still to make. -/
def toStore : PreAt net ⊕ Except Error (Option (TensorBuffer net.batch)) → Multiset Store
  | .inl (.acquire _ o) | .inl (.access _ o _) | .inl (.prepare _ o _) => slotStores net o.slot_
  | .inl (.copy _ target _ _) => slotStores net target.slot_
  | .inl (.kernel _ target _ pc) =>
    (GpuPreprocess.left pc).map (fun i => .float (target.offset + i)) + {.params target.slot_}
  | .inl (.release _ target _) | .inl (.store _ target) => {.params target.slot_}
  | .inr _ => 0

private theorem Target.offset_eq (target : Target net) : target.offset = net.planeSize * target.slot_ := by
  cases target <;> rfl

private theorem toStore_launch (img : Image) (target : Target net) (p : Ptr) :
    toStore (.inl (.kernel img target p (GpuPreprocess.launch net.size))) = slotStores net target.slot_ := by
  rw [toStore, GpuPreprocess.left_launch, slotStores, target.offset_eq]
  rfl

/-- A step takes the stores it makes off those to come, unless it throws. -/
private theorem stores_add (h : D.preStep c g l = some (g', x)) (hx : ∀ e, x ≠ .inr (.error e)) :
    (D.stores c g l : Multiset Store) + toStore x = toStore (.inl l) := by
  cases l with
  | acquire img o =>
    cases PreMove.of_step h with
    | acquire => exact zero_add _
  | access img o p =>
    cases PreMove.of_step h with
    | access => exact zero_add _
  | prepare img o p =>
    cases PreMove.of_step h with
    | own => exact zero_add _
    | slot => exact zero_add _
    | reject => exact absurd rfl (hx _)
  | copy img target p i =>
    cases PreMove.of_step h with
    | byte => exact zero_add _
    | launch => exact (zero_add _).trans (toStore_launch img target p)
  | kernel img target p pc =>
    cases c with
    | some t =>
      simp only [preStep, Option.map_eq_some_iff] at h
      obtain ⟨⟨o, pc'⟩, hs, heq⟩ := h
      cases heq
      have hleft := GpuPreprocess.left_step hs
      simp only [stores, hs, toStore, hleft]
      rcases o with _ | ⟨i, v⟩
      · simp
      · simp
    | none =>
      simp only [preStep, Option.ite_none_right_eq_some] at h
      obtain ⟨hf, heq⟩ := h
      cases heq
      simp [stores, toStore, GpuPreprocess.left_of_finished hf]
  | release img target p =>
    cases PreMove.of_step h with
    | release => exact zero_add _
    | foreign => exact absurd rfl (hx _)
  | store img target =>
    cases PreMove.of_step h with
    | storeOwn => exact add_zero _
    | storeSlot => exact add_zero _

/-- What a step changes is among the stores it makes. -/
private theorem stores_of_changed (h : D.preStep c g l = some (g', x)) :
    (∀ q a, (g'.mem q)[a]? ≠ (g.mem q)[a]? → .float a ∈ D.stores c g l) ∧
      ∀ k, g'.tenbuf.letterboxParams k ≠ g.tenbuf.letterboxParams k → .params k.val ∈ D.stores c g l := by
  cases l with
  | acquire | access | prepare | copy | release =>
    cases PreMove.of_step h <;> exact ⟨fun _ _ hne => absurd rfl hne, fun _ hne => absurd rfl hne⟩
  | kernel img target p pc =>
    cases c with
    | some t =>
      simp only [preStep, Option.map_eq_some_iff] at h
      obtain ⟨⟨o, pc'⟩, hs, heq⟩ := h
      cases heq
      refine ⟨fun q a hne => ?_, fun k hne => absurd (by rw [write_tenbuf]) hne⟩
      rcases o with _ | ⟨i, v⟩
      · exact absurd rfl hne
      · have ha : a = (g.destination target).2 + i := by
          by_contra hne'
          exact hne (getElem?_write_of_ne (.inr hne'))
        simp only [stores, hs, ha, List.mem_singleton]
        cases target <;> rfl
    | none =>
      simp only [preStep, Option.ite_none_right_eq_some] at h
      cases h.2
      exact ⟨fun _ _ hne => absurd rfl hne, fun _ hne => absurd rfl hne⟩
  | store img target =>
    cases PreMove.of_step h with
    | storeOwn => exact ⟨fun _ _ hne => absurd rfl hne, fun _ hne => absurd rfl hne⟩
    | @storeSlot _ offset =>
      refine ⟨fun _ _ hne => absurd rfl hne, fun k hne => ?_⟩
      have hk : k = offset := by
        by_contra hne'
        exact hne (Function.update_of_ne hne' _ _)
      rw [hk]
      exact List.mem_singleton_self _

/-! ### Whole runs -/

section Runs

variable {ls : List (Nat × Option (GpuPreprocess.Thread net.size))}

theorem Inv.run (hg : g.Ready n) (hv : Valid reqs) (ha : Apart reqs) (hi : Inv D n g reqs s)
    (hr : ((D.preprocess net).tasks g reqs).run s ls = some s') : Inv D n g reqs s' := by
  induction ls generalizing s with
  | nil =>
    cases hr
    exact hi
  | cons lb ls ih =>
    rw [System.run_cons, Option.bind_eq_some_iff] at hr
    obtain ⟨s₁, hs, hr⟩ := hr
    exact ih (hi.step hg hv ha hs) hr

/-- When all calls have ended, each has returned, and its target has the floats of its image. -/
theorem Inv.ended (hi : Inv D n g reqs s) (he : (D.preprocess net).Ended s) {k : Nat} {r : Image × Overload net}
    (hr : reqs[k]? = some r) : ∃ o, s.calls[k]? = some (.inr (.ok o)) ∧ At D s.shared r (.inr (.ok o)) := by
  have hk : k < s.calls.length := hi.length ▸ (List.getElem?_eq_some_iff.1 hr).1
  obtain ⟨y, hy⟩ : ∃ y, s.calls[k]? = some y := ⟨_, List.getElem?_eq_getElem hk⟩
  have hat := hi.at_ k r y hr hy
  rcases y with l | e | o
  · exact absurd hy (he k l)
  · exact hat.elim
  · exact ⟨o, hy, hat⟩

/-- The floats of a target that is filled. -/
private theorem Filled.segment_eq {img : Image} {target : Target net} (h : Filled D g img target fun _ => True)
    (hp : ∃ o, Placed g o target) :
    segment (g.destination target).2 net.planeSize (g.mem (g.destination target).1) =
      (D.kernelArgs net.size img).planes net.size img.byte := by
  obtain ⟨o, hp⟩ := hp
  have hlen : ((D.kernelArgs net.size img).planes net.size img.byte).length = net.planeSize :=
    GpuPreprocess.length_planes ..
  refine List.ext_getElem? fun i => ?_
  rw [getElem?_segment]
  split
  · rename_i hi
    rw [h i hi trivial, slotValue, GpuPreprocess.Args.value, List.getD_eq_getElem?_getD,
      List.getElem?_eq_getElem (hlen.symm ▸ hi), Option.getD_some]
  · exact (List.getElem?_eq_none (by omega)).symm

/-- What a call that has returned has stored: the planes of its image and its letterbox parameters. -/
def Stored (D : YoloCuda) (g : Gpu net) (r : Image × Overload net) : Option (TensorBuffer net.batch) → Prop
  | some buf => r.2 = .single ∧
      segment 0 net.planeSize (g.mem buf.data) = (D.kernelArgs net.size r.1).planes net.size r.1.byte ∧
      buf.letterboxParams net.slot0 = letterbox net.size r.1.cols r.1.rows
  | none => ∃ k, r.2 = .batched k ∧
      segment (net.planeSize * k) net.planeSize (g.mem g.tenbuf.data) =
        (D.kernelArgs net.size r.1).planes net.size r.1.byte ∧
      g.tenbuf.letterboxParams k = letterbox net.size r.1.cols r.1.rows

theorem ownBuffer_params (data : Ptr) (img : Image) :
    (ownBuffer data img : TensorBuffer net.batch).letterboxParams net.slot0 =
    letterbox net.size img.cols img.rows := by
  simp only [ownBuffer, Function.update_self]

private theorem At.stored {r : Image × Overload net} {o : Option (TensorBuffer net.batch)}
    (h : At D g r (.inr (.ok o))) :
    Stored D g r o := by
  obtain ⟨img, ov⟩ := r
  cases o with
  | none =>
    obtain ⟨k, hplaced, hfilled, hparams⟩ := h
    cases ov with
    | single => exact hplaced.target_of.elim
    | batched k' =>
      obtain rfl : k' = k := hplaced.target_of
      exact ⟨k', rfl, hfilled.segment_eq ⟨_, hplaced⟩, hparams⟩
  | some buf =>
    obtain ⟨data, hplaced, rfl, hfilled⟩ := h
    cases ov with
    | single => exact ⟨rfl, hfilled.segment_eq ⟨_, hplaced⟩, ownBuffer_params data img⟩
    | batched k => exact hplaced.target_of.elim

/-- When all calls have ended, each has stored what belongs to its image. -/
theorem stored_of_ended (hg : g.Ready n) (hs : g.Sized) (hv : Valid reqs) (ha : Apart reqs)
    (hr : ((D.preprocess net).tasks g reqs).run ((D.preprocess net).tasks g reqs).init ls = some s)
    (he : (D.preprocess net).Ended s) {k : Nat} {r : Image × Overload net} (hk : reqs[k]? = some r) :
    ∃ o, s.calls[k]? = some (.inr (.ok o)) ∧ Stored D s.shared r o := by
  obtain ⟨o, ho, hat⟩ := ((Inv.init hg hs).run hg hv ha hr).ended he hk
  exact ⟨o, ho, hat.stored⟩

theorem exists_ended (hg : g.Ready n) (hs : g.Sized) (hv : Valid reqs) (ha : Apart reqs)
    (hr : ((D.preprocess net).tasks g reqs).run ((D.preprocess net).tasks g reqs).init ls = some s) :
    ∃ ls' s', ((D.preprocess net).tasks g reqs).run s ls' = some s' ∧ (D.preprocess net).Ended s' :=
  Prog.exists_ended (K := Inv D n g reqs) (fun hi hs => hi.step hg hv ha hs)
    (fun hx => (PreMove.of_step hx).rank_lt) (fun hi hne => hi.exists_step hg hne)
    ((Inv.init hg hs).run hg hv ha hr)

/-- The stores that a call makes in a run in which all calls end. -/
theorem trace_eq (hg : g.Ready n) (hs : g.Sized) (hv : Valid reqs) (ha : Apart reqs)
    (hr : ((D.preprocess net).tasks g reqs).run ((D.preprocess net).tasks g reqs).init ls = some s)
    (he : (D.preprocess net).Ended s) {k : Nat} {r : Image × Overload net} (hk : reqs[k]? = some r) :
    ((D.preprocess net).trace D.stores k ((D.preprocess net).tasks g reqs).init ls : Multiset Store) =
      slotStores net r.2.slot_ := by
  have hinit : ((D.preprocess net).tasks g reqs).init.calls[k]? = some (.inl (.acquire r.1 r.2)) :=
    (List.getElem?_map ..).trans (by rw [hk]; rfl)
  obtain ⟨y, hy, heq⟩ := Prog.trace_add (K := Inv D n g reqs) (v := toStore)
    (fun hi hs => hi.step hg hv ha hs) (fun {s k c l b' x} hi hl hx => by
      refine stores_add hx ?_
      rintro e rfl
      obtain ⟨r, hr⟩ : ∃ r, reqs[k]? = some r :=
        ⟨_, List.getElem?_eq_getElem (hi.length ▸ (List.getElem?_eq_some_iff.1 hl).1)⟩
      exact (hi.at_ k r _ hr hl).step (PreMove.of_step hx) (hv r (List.mem_of_getElem? hr)).1 hi.sized hi.staging_of
        (hi.lt k l · hl)) (Inv.init hg hs) hr hinit
  rcases y with l | r'
  · exact absurd hy (he k l)
  · exact (add_zero _).symm.trans heq

end Runs

end YoloCuda

end OnnxInference
