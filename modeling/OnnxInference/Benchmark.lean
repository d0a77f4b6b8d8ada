import OnnxInference.Yaml

/-!
# The benchmark (`benchmark/benchmark_runner.h`, `benchmark/main.cpp`)

Each mode of an execution makes a runner of its own, from the base YAML with an override applied to it.  A
`YAML::Node` is a handle to contents in memory, and a copy of it is a handle to the same contents; so the override of
a mode is written into the base, and the modes after it find it there.  The modes are independent if and only if no
override changes anything (`configured_independently_iff`).
-/

namespace OnnxInference.Benchmark

/-- A `YAML::Node`: a handle to contents in memory. -/
abbrev Node := Nat

inductive Mode
  | sync
  | async
  | batch
  deriving DecidableEq

structure ModelConfigOverride where
  batch : Nat
  bufferSize : Nat
  warmUp : Int
  executionProviders : String

/-- An override with all fields at their defaults. -/
def ModelConfigOverride.default : ModelConfigOverride := ⟨0, 0, -1, ""⟩

structure BenchmarkConfig where
  mode : String
  syncOverride : ModelConfigOverride
  asyncOverride : ModelConfigOverride
  batchOverride : ModelConfigOverride

inductive Error
  | badSubscript
  | imread
  | runner
  | pipeline
  | exit

/-- Whether in a mode the image can be read, the runner can be made of a configuration, and the requests come
through. -/
structure Environment (Y : Type) where
  imread : Mode → Bool
  runner : Mode → Y → Bool
  pipeline : Mode → Bool

/-- The memory, the configurations with which runners have been built, and the contents of the base after each call of
`apply_override`. -/
structure Process (Y : Type) where
  memory : Node → Y
  built : List (Mode × Y)
  overridden : List Y

abbrev Run (Y : Type) := ExceptT Error (StateM (Process Y))

variable {Y : Type}

theorem ite_bind_unit {α : Type} (c : Prop) [Decidable c] (x : Run Y Unit) (k : Run Y α) :
    (do (if c then x else pure ()); k) = if c then (do x; k) else k := by
  split
  · rfl
  · rw [pure_bind]

theorem run_bind {α β : Type} (x : Run Y α) (f : α → Run Y β) (p : Process Y) : (x >>= f).run.run p =
    match x.run.run p with
    | (.ok a, p') => (f a).run.run p'
    | (.error e, p') => (.error e, p') := by
  rw [ExceptT.run_bind, StateT.run_bind]
  rcases x.run.run p with ⟨r | r, p'⟩ <;> rfl

theorem run_get_bind {α : Type} (f : Process Y → Run Y α) (p : Process Y) :
    (get >>= f).run.run p = (f p).run.run p := rfl

/-- Whether or not the call throws, the contents of the base are recorded after it. -/
def observe {α : Type} (base : Node) (call : Run Y α) : Run Y α := do
  let r ← ExceptT.lift call.run
  let p ← get
  set { p with overridden := p.overridden ++ [p.memory base] }
  MonadExcept.ofExcept r

theorem run_observe {α : Type} (call : Run Y α) (p : Process Y) : (observe base call).run.run p =
    ((call.run.run p).1, { (call.run.run p).2 with
      overridden := (call.run.run p).2.overridden ++ [(call.run.run p).2.memory base] }) := by
  have hlift : (ExceptT.lift call.run : Run Y (Except Error α)).run.run p =
      (.ok (call.run.run p).1, (call.run.run p).2) := rfl
  rw [observe, run_bind, hlift]
  rcases call.run.run p with ⟨r | r, p'⟩ <;> rfl

/-- `std::make_shared<Runner>(node)`. -/
def makeRunner (env : Environment Y) (mode : Mode) (node : Node) : Run Y Unit := do
  let p ← get
  set { p with built := p.built ++ [(mode, p.memory node)] }
  if !env.runner mode (p.memory node) then throw .runner

theorem run_makeRunner (env : Environment Y) (mode : Mode) (node : Node) (p : Process Y) :
    (makeRunner env mode node).run.run p =
    (if env.runner mode (p.memory node) then .ok () else .error .runner,
      { p with built := p.built ++ [(mode, p.memory node)] }) := by
  rw [makeRunner, run_get_bind]
  cases env.runner mode (p.memory node) <;> rfl

theorem run_rest (env : Environment Y) (mode : Mode) (node : Node) (p : Process Y) :
    (do makeRunner env mode node; if !env.pipeline mode then throw .pipeline : Run Y Unit).run.run p =
      (if env.runner mode (p.memory node) then if env.pipeline mode then .ok () else .error .pipeline
        else .error .runner, { p with built := p.built ++ [(mode, p.memory node)] }) := by
  rw [run_bind, run_makeRunner]
  cases env.runner mode (p.memory node) with
  | false => rfl
  | true => cases env.pipeline mode <;> rfl

/-! ### The modes -/

open YamlNode (Apart Assignment Inert assignAll assignAll_eq_self_iff)

variable [YamlNode Y]

/-- The assignment to a node below this one, through `operator[]`. -/
def assignAt (node : Node) (a : Assignment Y) : Run Y Unit := do
  let p ← get
  match YamlNode.assign a.2 a.1 (p.memory node) with
  | some y => set { p with memory := Function.update p.memory node y }
  | none => throw .badSubscript

def applyOverride (base : Node) (ov : ModelConfigOverride) : Run Y Node := do
  let node := base -- deep copy
  if ov.batch > 0 then assignAt node (["model", "batch"], YamlNode.scalar (toString ov.batch))
  if ov.bufferSize > 0 then assignAt node (["model", "buffer_size"], YamlNode.scalar (toString ov.bufferSize))
  if ov.warmUp ≥ 0 then assignAt node (["model", "warm_up"], YamlNode.scalar (toString ov.warmUp))
  if !ov.executionProviders.isEmpty then
    assignAt node (["model", "session_options", "execution_providers"], YamlNode.scalar ov.executionProviders)
  return node

/-- What the three modes have in common. -/
def runMode (env : Environment Y) (base : Node) (mode : Mode) (ov : ModelConfigOverride) : Run Y Unit := do
  if !env.imread mode then throw .imread
  let node ← observe base (applyOverride base ov)
  makeRunner env mode node
  if !env.pipeline mode then throw .pipeline

variable (env : Environment Y) (base : Node) (config : BenchmarkConfig)

def runSync : Run Y Unit := runMode env base .sync config.syncOverride

def runAsync : Run Y Unit := runMode env base .async config.asyncOverride

def runBatch : Run Y Unit := runMode env base .batch config.batchOverride

def runAll (enableCuda : Bool) : Run Y Unit := do
  runSync env base config
  runAsync env base config
  if enableCuda then runBatch env base config

def executeBenchmark (enableCuda : Bool) : Run Y Unit := do
  if config.mode == "sync" || config.mode == "all" then runSync env base config
  if config.mode == "async" || config.mode == "all" then runAsync env base config
  if enableCuda then
    if config.mode == "batch" || config.mode == "all" then runBatch env base config
  else
    if config.mode == "batch" then throw .exit

/-! ### Overlays -/

/-- The fields that an override sets; the others are inherited. -/
def ModelConfigOverride.assignments (ov : ModelConfigOverride) : List (Assignment Y) :=
  (if ov.batch > 0 then [(["model", "batch"], YamlNode.scalar (toString ov.batch))] else []) ++
  ((if ov.bufferSize > 0 then [(["model", "buffer_size"], YamlNode.scalar (toString ov.bufferSize))] else []) ++
  ((if ov.warmUp ≥ 0 then [(["model", "warm_up"], YamlNode.scalar (toString ov.warmUp))] else []) ++
  (if !ov.executionProviders.isEmpty then
    [(["model", "session_options", "execution_providers"], YamlNode.scalar ov.executionProviders)] else [])))

/-- The base overlaid with an override, unless a scalar is in the way. -/
def overlay (ov : ModelConfigOverride) (y : Y) : Option Y :=
  if (assignAll ov.assignments y).2 then some (assignAll ov.assignments y).1 else none

def BenchmarkConfig.override (config : BenchmarkConfig) : Mode → ModelConfigOverride
  | .sync => config.syncOverride
  | .async => config.asyncOverride
  | .batch => config.batchOverride

/-- Every runner is built with the base overlaid with the override of its mode, and no override is written into the
base. -/
structure Independent (config : BenchmarkConfig) (y : Y) (p : Process Y) : Prop where
  built : ∀ x ∈ p.built, overlay (config.override x.1) y = some x.2
  overridden : ∀ y' ∈ p.overridden, y' = y

/-! ### Assignments -/

def assignEach (node : Node) : List (Assignment Y) → Run Y Unit
  | [] => pure ()
  | a :: as => do
    assignAt node a
    assignEach node as

theorem assignEach_append (node : Node) (as bs : List (Assignment Y)) :
    assignEach node (as ++ bs) = (do assignEach node as; assignEach node bs) := by
  induction as with
  | nil => simp [assignEach]
  | cons a as ih => simp only [List.cons_append, assignEach, ih, bind_assoc]

theorem assignEach_ite (node : Node) (c : Prop) [Decidable c] (a : Assignment Y) :
    assignEach node (if c then [a] else []) = if c then assignAt node a else pure () := by
  split
  · simp [assignEach]
  · rfl

theorem applyOverride_eq (ov : ModelConfigOverride) :
    (applyOverride base ov : Run Y Node) = (do assignEach base ov.assignments; return base) := by
  simp only [ModelConfigOverride.assignments, assignEach_append, assignEach_ite, bind_assoc]
  simp only [applyOverride, ite_bind_unit]

theorem run_assignAt (a : Assignment Y) (p : Process Y) : (assignAt base a).run.run p =
    match YamlNode.assign a.2 a.1 (p.memory base) with
    | some y => (.ok (), { p with memory := Function.update p.memory base y })
    | none => (.error .badSubscript, p) := by
  rw [assignAt, run_get_bind]
  cases YamlNode.assign a.2 a.1 (p.memory base) <;> rfl

theorem run_assignEach (as : List (Assignment Y)) (p : Process Y) : (assignEach base as).run.run p =
    (if (assignAll as (p.memory base)).2 then .ok () else .error .badSubscript,
      { p with memory := Function.update p.memory base (assignAll as (p.memory base)).1 }) := by
  induction as generalizing p with
  | nil =>
    rw [assignAll, Function.update_eq_self]
    rfl
  | cons a as ih =>
    rw [assignEach, run_bind, run_assignAt, assignAll]
    cases YamlNode.assign a.2 a.1 (p.memory base) with
    | none =>
      rw [Function.update_eq_self]
      rfl
    | some y =>
      simp only [ih, Function.update_self, Function.update_idem]

/-- What a call of `apply_override` does to the base. -/
theorem run_applyOverride (ov : ModelConfigOverride) (p : Process Y) : (applyOverride base ov).run.run p =
    (if (assignAll ov.assignments (p.memory base)).2 then .ok base else .error .badSubscript,
      { p with memory := Function.update p.memory base (assignAll ov.assignments (p.memory base)).1 }) := by
  rw [applyOverride_eq, run_bind, run_assignEach]
  cases (assignAll ov.assignments (p.memory base)).2 <;> rfl

/-! ### One mode -/

/-- What a mode adds to the process, given the contents of the base: nothing without an image; otherwise the base
after the override, and the configuration of a runner unless the override has failed. -/
def modeTrace (env : Environment Y) (mode : Mode) (ov : ModelConfigOverride) (y : Y) :
    List (Mode × Y) × List Y :=
  if env.imread mode then
    ((overlay ov y).toList.map fun y' => (mode, y'), [(assignAll ov.assignments y).1])
  else ([], [])

/-- The mode comes through to its end. -/
def Completes (env : Environment Y) (mode : Mode) (ov : ModelConfigOverride) (y : Y) : Bool :=
  env.imread mode && ((overlay ov y).any (env.runner mode) && env.pipeline mode)

/-- The process after a mode. -/
def after (env : Environment Y) (mode : Mode) (ov : ModelConfigOverride) (p : Process Y) : Process Y where
  memory := if env.imread mode then Function.update p.memory base (assignAll ov.assignments (p.memory base)).1
    else p.memory
  built := p.built ++ (modeTrace env mode ov (p.memory base)).1
  overridden := p.overridden ++ (modeTrace env mode ov (p.memory base)).2

theorem run_overridden (ov : ModelConfigOverride) (p : Process Y) :
    (observe base (applyOverride base ov)).run.run p =
      (if (assignAll ov.assignments (p.memory base)).2 then .ok base else .error .badSubscript,
        { p with
          memory := Function.update p.memory base (assignAll ov.assignments (p.memory base)).1
          overridden := p.overridden ++ [(assignAll ov.assignments (p.memory base)).1] }) := by
  simp only [run_observe, run_applyOverride, Function.update_self]

theorem run_runMode_of_not_imread {mode : Mode} (h : env.imread mode = false) (ov : ModelConfigOverride)
    (p : Process Y) : (runMode env base mode ov).run.run p = (.error .imread, p) := by
  rw [runMode, h]
  rfl

theorem run_runMode_of_imread {mode : Mode} (h : env.imread mode = true) (ov : ModelConfigOverride) (p : Process Y) :
    (runMode env base mode ov).run.run p =
      match (observe base (applyOverride base ov)).run.run p with
      | (.ok node, p') =>
        (do makeRunner env mode node; if !env.pipeline mode then throw .pipeline : Run Y Unit).run.run p'
      | (.error e, p') => (.error e, p') := by
  rw [runMode, h, Bool.not_true, if_neg Bool.false_ne_true]
  beta_reduce
  rw [run_bind]
  rcases (observe base (applyOverride base ov)).run.run p with ⟨r | r, p'⟩ <;> rfl

/-- A mode does what its trace says, and the next one gets its turn if it completes. -/
theorem run_runMode (mode : Mode) (ov : ModelConfigOverride) (p : Process Y) :
    ((runMode env base mode ov).run.run p).2 = after base env mode ov p ∧
      (((runMode env base mode ov).run.run p).1 = .ok () ↔ Completes env mode ov (p.memory base) = true) := by
  unfold after modeTrace Completes overlay
  cases himg : env.imread mode with
  | false =>
    rw [run_runMode_of_not_imread env base himg]
    simp
  | true =>
    rw [run_runMode_of_imread env base himg, run_overridden]
    cases hok : (assignAll ov.assignments (p.memory base)).2 with
    | false => simp
    | true =>
      simp only [if_true, run_rest, Function.update_self]
      cases hrunner : env.runner mode (assignAll ov.assignments (p.memory base)).1 with
      | false => simp [hrunner]
      | true => cases hpipeline : env.pipeline mode <;> simp [hrunner]

/-! ### Executions -/

variable (ov : Mode → ModelConfigOverride)

/-- Modes in order, up to one that throws. -/
def runModes : List Mode → Run Y Unit
  | [] => pure ()
  | m :: ms => do
    runMode env base m (ov m)
    runModes ms

/-- The modes whose overrides are applied, if none changes the base. -/
def reached (y : Y) : List Mode → List Mode
  | [] => []
  | m :: ms => if env.imread m then m :: if Completes env m (ov m) y then reached y ms else [] else []

/-- What a list of modes adds to the process. -/
def trace (y : Y) : List Mode → List (Mode × Y) × List Y
  | [] => ([], [])
  | m :: ms =>
    let t := if Completes env m (ov m) y then trace (assignAll (ov m).assignments y).1 ms else ([], [])
    ((modeTrace env m (ov m) y).1 ++ t.1, (modeTrace env m (ov m) y).2 ++ t.2)

theorem run_runModes (ms : List Mode) (p : Process Y) :
    ((runModes env base ov ms).run.run p).2.built = p.built ++ (trace env ov (p.memory base) ms).1 ∧
      ((runModes env base ov ms).run.run p).2.overridden = p.overridden ++ (trace env ov (p.memory base) ms).2 := by
  induction ms generalizing p with
  | nil => exact ⟨(List.append_nil _).symm, (List.append_nil _).symm⟩
  | cons m ms ih =>
    obtain ⟨hafter, hok⟩ := run_runMode env base m (ov m) p
    rw [runModes, run_bind]
    rcases hrun : (runMode env base m (ov m)).run.run p with ⟨r | r, p'⟩
    · have hcompletes : Completes env m (ov m) (p.memory base) = false := by
        rw [hrun] at hok
        simpa using hok
      rw [hrun] at hafter
      simp only at hafter ⊢
      rw [hafter, trace, hcompletes]
      simp [after]
    · have hcompletes : Completes env m (ov m) (p.memory base) = true := by
        rw [hrun] at hok
        exact hok.1 rfl
      have hmemory : (after base env m (ov m) p).memory base =
        (assignAll (ov m).assignments (p.memory base)).1 := by
        simp only [Completes, Bool.and_eq_true] at hcompletes
        simp only [after, hcompletes.1, if_true, Function.update_self]
      rw [hrun] at hafter
      simp only at hafter ⊢
      obtain ⟨h1, h2⟩ := ih p'
      rw [h1, h2, hafter, hmemory, trace, hcompletes]
      simp [after]

/-- The assignments of an override go to different fields. -/
theorem assignments_apart (ov : ModelConfigOverride) : (ov.assignments : List (Assignment Y)).Pairwise Apart := by
  have hall : ∀ b s w e : Y, [((["model", "batch"], b) : Assignment Y), (["model", "buffer_size"], s),
      (["model", "warm_up"], w), (["model", "session_options", "execution_providers"], e)].Pairwise Apart := by
    intro b s w e
    simp [Apart]
  have hsub : ∀ (c : Prop) [Decidable c] (a : Assignment Y), (if c then [a] else []).Sublist [a] := by
    intro c _ a
    split
    · exact List.Sublist.refl _
    · exact List.nil_sublist _
  exact (hall (YamlNode.scalar (toString ov.batch)) (YamlNode.scalar (toString ov.bufferSize))
    (YamlNode.scalar (toString ov.warmUp)) (YamlNode.scalar ov.executionProviders)).sublist
      ((hsub _ _).append ((hsub _ _).append ((hsub _ _).append (hsub _ _))))

theorem assignAll_assignments_iff (ov : ModelConfigOverride) (y : Y) :
    (assignAll ov.assignments y).1 = y ↔ Inert ov.assignments y :=
  assignAll_eq_self_iff (assignments_apart ov)

/-- The trace of some modes is as it should be if and only if each of them that is reached finds its values in the base:
the first one that does not has changed it. -/
theorem trace_independent_iff (y : Y) (ms : List Mode) :
    ((∀ x ∈ (trace env ov y ms).1, overlay (ov x.1) y = some x.2) ∧ ∀ y' ∈ (trace env ov y ms).2, y' = y) ↔
      ∀ m ∈ reached env ov y ms, Inert (ov m).assignments y := by
  induction ms with
  | nil => simp [trace, reached]
  | cons m ms ih =>
    rw [trace, reached, modeTrace]
    cases himg : env.imread m with
    | false => simp [Completes, himg]
    | true =>
      rw [if_pos rfl, if_pos rfl]
      constructor
      · rintro ⟨hbuilt, hover⟩
        have hsame : (assignAll (ov m).assignments y).1 = y := hover _ (by simp)
        rw [hsame] at hbuilt hover
        intro m' hm'
        rcases List.mem_cons.1 hm' with rfl | hm'
        · exact (assignAll_assignments_iff _ y).1 hsame
        · split at hm'
          · rename_i hcompletes
            rw [if_pos hcompletes] at hbuilt hover
            refine ih.1 ⟨fun x hx => hbuilt x ?_, fun y' hy' => hover y' ?_⟩ m' hm'
            · exact List.mem_append_right _ hx
            · exact List.mem_append_right _ hy'
          · cases hm'
      · intro h
        have hsame := (assignAll_assignments_iff _ y).2 (h m List.mem_cons_self)
        rw [hsame]
        have hrest : (∀ x ∈ (if Completes env m (ov m) y then trace env ov y ms else ([], [])).1,
              overlay (ov x.1) y = some x.2) ∧
            ∀ y' ∈ (if Completes env m (ov m) y then trace env ov y ms else ([], [])).2, y' = y := by
          split
          · rename_i hcompletes
            refine ih.2 fun m' hm' => h m' (List.mem_cons_of_mem _ ?_)
            rwa [if_pos hcompletes]
          · exact ⟨nofun, nofun⟩
        constructor
        · intro x hx
          rcases List.mem_append.1 hx with hx | hx
          · obtain ⟨y', hy', rfl⟩ := List.mem_map.1 hx
            exact Option.mem_toList.1 hy'
          · exact hrest.1 x hx
        · intro y' hy'
          rcases List.mem_append.1 hy' with hy' | hy'
          · exact List.mem_singleton.1 hy'
          · exact hrest.2 y' hy'

/-- The modes that an execution runs. -/
def modesOf (enableCuda : Bool) (mode : String) : List Mode :=
  (if mode == "sync" || mode == "all" then [.sync] else []) ++
    ((if mode == "async" || mode == "all" then [.async] else []) ++
      if enableCuda && (mode == "batch" || mode == "all") then [.batch] else [])

theorem runModes_append (ms ms' : List Mode) : runModes env base ov (ms ++ ms') =
    (do runModes env base ov ms; runModes env base ov ms') := by
  induction ms with
  | nil => simp [runModes]
  | cons m ms ih => simp only [List.cons_append, runModes, ih, bind_assoc]

theorem runModes_ite (c : Prop) [Decidable c] (m : Mode) :
    runModes env base ov (if c then [m] else []) = if c then runMode env base m (ov m) else pure () := by
  split
  · simp [runModes]
  · rfl

theorem runAll_eq (enableCuda : Bool) :
    runAll env base config enableCuda = runModes env base config.override (modesOf enableCuda "all") := by
  cases enableCuda <;> simp [runAll, modesOf, runModes, runSync, runAsync, runBatch, BenchmarkConfig.override]

/-- Without CUDA the batch mode is refused after nothing has been run. -/
theorem run_executeBenchmark (enableCuda : Bool) (p : Process Y) :
    ((executeBenchmark env base config enableCuda).run.run p).2 =
      ((runModes env base config.override (modesOf enableCuda config.mode)).run.run p).2 := by
  simp only [modesOf, runModes_append, runModes_ite]
  simp only [executeBenchmark, ite_bind_unit, runSync, runAsync, runBatch, BenchmarkConfig.override]
  cases enableCuda with
  | true => simp
  | false =>
    have hexit : ((throw Error.exit : Run Y Unit).run.run p).2 = ((pure () : Run Y Unit).run.run p).2 := rfl
    by_cases hbatch : config.mode = "batch"
    · simpa [hbatch] using hexit
    · simp [hbatch]

theorem independent_iff {p : Process Y} (y : Y) (ms : List Mode)
    (hbuilt : p.built = (trace env config.override y ms).1)
    (hover : p.overridden = (trace env config.override y ms).2) :
    Independent config y p ↔ ∀ m ∈ reached env config.override y ms, Inert
    (config.override m).assignments y := by
  rw [← trace_independent_iff, ← hbuilt, ← hover]
  exact ⟨fun h => ⟨h.built, h.overridden⟩, fun h => ⟨h.1, h.2⟩⟩

/-- The modes of an execution are configured independently if and only if every override that is applied sets each of
its fields to what the base has there already, up to a field with a scalar in its way. -/
theorem configured_independently_iff (env : Environment Y) (memory : Node → Y) (base : Node)
    (config : BenchmarkConfig) (enableCuda : Bool) :
    (Independent config (memory base) ((executeBenchmark env base config enableCuda).run.run ⟨memory, [], []⟩).2 ↔
      ∀ m ∈ reached env config.override (memory base) (modesOf enableCuda config.mode),
        Inert (config.override m).assignments (memory base)) ∧
    (Independent config (memory base) ((runAll env base config enableCuda).run.run ⟨memory, [], []⟩).2 ↔
      ∀ m ∈ reached env config.override (memory base) (modesOf enableCuda "all"),
        Inert (config.override m).assignments (memory base)) := by
  constructor
  · obtain ⟨hbuilt, hover⟩ := run_runModes env base config.override (modesOf enableCuda config.mode) ⟨memory, [], []⟩
    rw [run_executeBenchmark]
    exact independent_iff env config _ _ hbuilt hover
  · obtain ⟨hbuilt, hover⟩ := run_runModes env base config.override (modesOf enableCuda "all") ⟨memory, [], []⟩
    rw [runAll_eq]
    exact independent_iff env config _ _ hbuilt hover

/-- A base with a batch of 16 and 32 buffers. -/
def baseYaml : Yaml :=
  .map [("model", .map [("batch", .scalar "16"), ("buffer_size", .scalar "32")])]

/-- Only the synchronous mode has an override. -/
def oneBuffer : BenchmarkConfig := ⟨"all", { ModelConfigOverride.default with bufferSize := 1 }, .default, .default⟩

/-- Everything goes well. -/
def noFailures : Environment Yaml := ⟨fun _ => true, fun _ _ => true, fun _ => true⟩

/-- The asynchronous mode, which inherits everything, gets the one buffer of the synchronous mode. -/
theorem oneBuffer_not_independent : ¬Independent oneBuffer baseYaml
    ((executeBenchmark noFailures 0 oneBuffer false).run.run ⟨fun _ => baseYaml, [], []⟩).2 := by
  intro h
  have hbuilt := h.built (.async, .map [("model", .map [("batch", .scalar "16"), ("buffer_size", .scalar "1")])])
    (List.mem_cons_of_mem _ List.mem_cons_self)
  have hinherit : overlay (oneBuffer.override .async) baseYaml = some baseYaml := rfl
  rw [hinherit, Option.some.injEq] at hbuilt
  have hbuffers := congrArg (Yaml.get ["model", "buffer_size"]) hbuilt
  exact absurd hbuffers (by simp [Yaml.get, baseYaml, List.lookup])

end OnnxInference.Benchmark
