import OnnxInference.Benchmark.Report
import OnnxInference.Grouping

/-!
# The reader of the reports (`scripts/plot_benchmark.py`)

The script loads the reports of a directory and collects their results by the number of clients and the mode.  Every
result is counted once, under its own key and in the order of the files, and no value is a default (`aggregated`).
-/

namespace OnnxInference.Benchmark

open Json Latency

/-! ### `load_json_files` -/

/-- The contents of the files in the order of their names.  A file that cannot be loaded is left out. -/
def loadJsonFiles (files : List (List Char)) : List Json := files.filterMap loads

/-! ### Values of the script -/

inductive PyError
  | typeError
  | keyError (k : String)
  deriving DecidableEq

/-- Of several members with one key the last counts. -/
def get? (ms : List (List Nat × Json)) (k : String) : Option Json := ms.reverse.lookup (codes k.toList)

/-- `x[k]` -/
def subscript (x : Json) (k : String) : Except PyError Json :=
  match x with
  | .object ms =>
    match get? ms k with
    | some y => .ok y
    | none => .error (.keyError k)
  | _ => .error .typeError

/-- What a loop over `x` goes through. -/
def iterate : Json → Except PyError (List Json)
  | .array xs => .ok xs
  | .object ms => .ok ((ms.map Prod.fst).eraseDups.map .string)
  | .string s => .ok (s.map fun c => .string [c])
  | _ => .error .typeError

/-- The keys of a dictionary, up to equality: `True`, `1` and `1.0` are one key. -/
inductive Key
  | null
  | number (x : ℚ)
  | nan
  | infinity (negative : Bool)
  | string (s : List Nat)
  deriving DecidableEq

def hash : Json → Except PyError Key
  | .null => .ok .null
  | .bool b => .ok (.number b.toNat)
  | .number (.int n) => .ok (.number n)
  | .number (.float x) => .ok (.number x)
  | .number .nan => .ok .nan
  | .number (.infinity negative) => .ok (.infinity negative)
  | .string s => .ok (.string s)
  | .array _ | .object _ => .error .typeError

/-! ### `aggregate_by_clients` -/

def fieldNames : List String :=
  ["latency_avg_ms", "latency_min_ms", "latency_max_ms", "latency_p50_ms", "latency_p90_ms", "latency_p95_ms",
    "latency_p99_ms", "throughput_qps", "total_requests", "samples_count", "override_batch"]

/-- The lists of values, by the clients and the mode and then by the field. -/
abbrev Agg : Type := List ((Key × Key) × List (String × List Json))

/-- `res.get(field, 0)` -/
def getField (res : List (List Nat × Json)) (f : String) : Json := (get? res f).getD (.number (.int 0))

def appendResult (agg : Agg) (key : Key × Key) (res : List (List Nat × Json)) : Agg :=
  let agg := if key ∈ agg.map Prod.fst then agg else agg ++ [(key, fieldNames.map fun f => (f, []))]
  agg.map fun e => if e.1 = key then (e.1, e.2.map fun (f, xs) => (f, xs ++ [getField res f])) else e

def aggregateResult (clients : Json) (agg : Agg) (res : Json) : Except PyError Agg := do
  let mode ← subscript res "mode"
  let clientsKey ← hash clients
  let modeKey ← hash mode
  match res with
  | .object ms => return appendResult agg (clientsKey, modeKey) ms
  -- `res["mode"]` has thrown
  | _ => throw .typeError

def aggregateByClients (dataList : List Json) : Except PyError Agg :=
  dataList.foldlM (fun agg entry => do
    let benchmark ← subscript entry "benchmark"
    let clients ← subscript benchmark "concurrent_clients"
    let results ← subscript entry "results"
    let results ← iterate results
    results.foldlM (aggregateResult clients) agg) []

/-! ### Rows of groups -/

/-- The lists of the fields of the results of a group. -/
def row (g : (Key × Key) × List (List (List Nat × Json))) : (Key × Key) × List (String × List Json) :=
  (g.1, fieldNames.map fun f => (f, g.2.map fun res => getField res f))

theorem appendResult_map_row (groups : List ((Key × Key) × List (List (List Nat × Json)))) (key : Key × Key)
    (res : List (List Nat × Json)) :
    appendResult (groups.map row) key res = (Grouping.add groups key res).map row := by
  have hkeys : (groups.map row).map Prod.fst = groups.map Prod.fst := by
    rw [List.map_map]
    rfl
  have hmap : ∀ gs : List ((Key × Key) × List (List (List Nat × Json))),
      ((gs.map row).map fun e =>
        if e.1 = key then (e.1, e.2.map fun (f, xs) => (f, xs ++ [getField res f])) else e) =
      (gs.map fun g => if g.1 = key then (g.1, g.2 ++ [res]) else g).map row := by
    intro gs
    rw [List.map_map, List.map_map]
    refine List.map_congr_left fun g _ => ?_
    by_cases hg : g.1 = key <;> simp [row, hg]
  unfold appendResult Grouping.add
  rw [hkeys]
  by_cases hk : key ∈ groups.map Prod.fst
  · simp only [hk, if_true, hmap]
  · have hnew : groups.map row ++ [(key, fieldNames.map fun f => (f, []))] = (groups ++ [(key, [])]).map row := by
      simp [row]
    simp only [hk, if_false, hnew, hmap]

/-! ### Members of a report -/

theorem codes_injective : Function.Injective fun k : String => codes k.toList := by
  intro k k' h
  have hchar : Function.Injective Char.toNat := fun c d => Char.toNat_inj.1
  exact String.toList_inj.1 (List.map_injective_iff.2 hchar h)

theorem get?_of_mem {ms : List (List Nat × Json)} (ks : List String)
    (hms : ms.map Prod.fst = ks.map fun k => codes k.toList) (hks : ks.Nodup) {k : String} {x : Json}
    (h : (codes k.toList, x) ∈ ms) : get? ms k = some x := by
  have hnodup : (ms.reverse.map Prod.fst).Nodup := by
    rw [List.map_reverse, List.nodup_reverse, hms]
    exact hks.map codes_injective
  obtain ⟨before, behind, hsplit⟩ := List.append_of_mem (List.mem_reverse.2 h)
  refine List.lookup_eq_some_iff.2 ⟨before, behind, hsplit, fun p hp => ?_⟩
  rw [hsplit, List.map_append, List.nodup_append] at hnodup
  have := hnodup.2.2 p.1 (List.mem_map_of_mem hp) (codes k.toList) (by simp)
  simpa using this.symm

theorem subscript_of_mem {ms : List (List Nat × Json)} (ks : List String)
    (hms : ms.map Prod.fst = ks.map fun k => codes k.toList) (hks : ks.Nodup) {k : String} {x : Json}
    (h : (codes k.toList, x) ∈ ms) : subscript (.object ms) k = .ok x := by
  simp only [subscript, get?_of_mem ks hms hks h]

def resultKeys : List String :=
  ["mode", "override_batch", "total_requests", "total_wall_ms", "throughput_qps", "latency_avg_ms", "latency_min_ms",
    "latency_max_ms", "latency_p50_ms", "latency_p90_ms", "latency_p95_ms", "latency_p99_ms", "samples_count"]

theorem get?_result {r : BenchmarkResult} {k : String} {c : Cell} (h : (k.toList, c) ∈ resultCells r) :
    get? (fields (resultCells r)) k = some c.toJson :=
  get?_of_mem resultKeys rfl (by decide) (mem_fields h)

/-- No field is missing. -/
theorem exists_cell (r : BenchmarkResult) {f : String} (hf : f ∈ fieldNames) : ∃ c, (f.toList, c) ∈ resultCells r := by
  have hkeys : f ∈ resultKeys := (by decide : fieldNames ⊆ resultKeys) hf
  have hmap : (resultCells r).map Prod.fst = resultKeys.map String.toList := rfl
  have hmem : f.toList ∈ (resultCells r).map Prod.fst := hmap ▸ List.mem_map_of_mem hkeys
  obtain ⟨⟨k, c⟩, hc, hk⟩ := List.mem_map.1 hmem
  exact ⟨c, hk ▸ hc⟩

structure Report where
  results : List BenchmarkResult
  config : Config
  timestamp : Int

def Report.text (rep : Report) : List Char := exportJson rep.results rep.config rep.timestamp

def Report.document (rep : Report) : Json := Benchmark.document rep.results rep.config rep.timestamp

def benchmarkKeys : List String :=
  ["config_path", "image_path", "model_type", "mode", "warmup_count", "test_duration_sec", "min_iterations",
    "concurrent_clients", "show_gpu_stats", "output_dir"]

theorem subscript_document (rep : Report) :
    subscript rep.document "benchmark" = .ok (.object (fields (benchmarkCells rep.config))) ∧
    subscript rep.document "results" = .ok (.array (rep.results.map fun r => .object (fields (resultCells r)))) ∧
    subscript (.object (fields (benchmarkCells rep.config))) "concurrent_clients" =
      .ok (.number (.int rep.config.concurrentClients)) :=
  ⟨subscript_of_mem ["benchmark", "overrides", "timestamp", "results"] rfl (by decide) (by simp),
    subscript_of_mem ["benchmark", "overrides", "timestamp", "results"] rfl (by decide) (by simp),
    subscript_of_mem benchmarkKeys rfl (by decide)
      (mem_fields (c := .int rep.config.concurrentClients) (by simp [benchmarkCells]))⟩

/-! ### Every result once -/

def keyOf (clients : Int) (mode : String) : Key × Key := (.number clients, .string (codes mode.toList))

/-- The results of the reports with their numbers of clients, in the order of the files. -/
def entries (reports : List Report) : List (Int × BenchmarkResult) :=
  reports.flatMap fun rep => rep.results.map fun r => (rep.config.concurrentClients, r)

def pair (e : Int × BenchmarkResult) : (Key × Key) × List (List Nat × Json) :=
  (keyOf e.1 e.2.modeName, fields (resultCells e.2))

theorem aggregateResult_eq (clients : Int) (agg : Agg) (r : BenchmarkResult) :
    aggregateResult (.number (.int clients)) agg (.object (fields (resultCells r))) =
      .ok (appendResult agg (keyOf clients r.modeName) (fields (resultCells r))) := by
  have hmode : subscript (.object (fields (resultCells r))) "mode" = .ok (.string (codes r.modeName.toList)) :=
    subscript_of_mem resultKeys rfl (by decide)
      (mem_fields (c := .string r.modeName.toList) (by simp [resultCells]))
  rw [aggregateResult, hmode]
  rfl

theorem foldlM_results (clients : Int) (results : List BenchmarkResult)
    (groups : List ((Key × Key) × List (List (List Nat × Json)))) :
    (results.map fun r => .object (fields (resultCells r))).foldlM (aggregateResult (.number (.int clients)))
        (groups.map row) =
      .ok (((results.map fun r => pair (clients, r)).foldl (fun gs p => Grouping.add gs p.1 p.2) groups).map row) := by
  induction results generalizing groups with
  | nil => rfl
  | cons r results ih =>
    rw [List.map_cons, List.foldlM_cons, aggregateResult_eq, appendResult_map_row]
    exact ih _

theorem foldl_entries (reports : List Report) (groups : List ((Key × Key) × List (List (List Nat × Json)))) :
    (reports.map Report.document).foldlM (fun agg entry => do
        let benchmark ← subscript entry "benchmark"
        let clients ← subscript benchmark "concurrent_clients"
        let results ← subscript entry "results"
        let results ← iterate results
        results.foldlM (aggregateResult clients) agg) (groups.map row) =
      .ok ((((entries reports).map pair).foldl (fun gs p => Grouping.add gs p.1 p.2) groups).map row) := by
  induction reports generalizing groups with
  | nil => rfl
  | cons rep reports ih =>
    obtain ⟨hbenchmark, hresults, hclients⟩ := subscript_document rep
    have hentries : (entries (rep :: reports)).map pair =
        (rep.results.map fun r => pair (rep.config.concurrentClients, r)) ++ (entries reports).map pair := by
      simp [entries, Function.comp_def]
    rw [List.map_cons, List.foldlM_cons, hentries, List.foldl_append, ← ih, hbenchmark]
    simp only [bind, Except.bind, hclients, hresults, iterate, foldlM_results]

theorem aggregateByClients_documents (reports : List Report) :
    aggregateByClients (reports.map Report.document) =
      .ok ((Grouping.group ((entries reports).map pair)).map row) :=
  foldl_entries reports []

/-- What the script has collected: each result once under its own key, in the order of the files. -/
structure Aggregated (reports : List Report) (agg : Agg) : Prop where
  nodup : (agg.map Prod.fst).Nodup
  mem_iff : ∀ key, key ∈ agg.map Prod.fst ↔ ∃ e ∈ entries reports, key = keyOf e.1 e.2.modeName
  names : ∀ e ∈ agg, e.2.map Prod.fst = fieldNames
  values : ∀ e ∈ agg, ∀ f xs, (f, xs) ∈ e.2 →
    List.Forall₂ (fun x e' => ∃ c, (f.toList, c) ∈ resultCells e'.2 ∧ x = c.toJson) xs
      ((entries reports).filter fun e' => keyOf e'.1 e'.2.modeName = e.1)
  total : ∀ f ∈ fieldNames, (agg.map fun e => ((e.2.lookup f).getD []).length).sum = (entries reports).length

theorem forall₂_values {f : String} (hf : f ∈ fieldNames) (es : List (Int × BenchmarkResult)) :
    List.Forall₂ (fun x e => ∃ c, (f.toList, c) ∈ resultCells e.2 ∧ x = c.toJson)
      (es.map fun e => getField (fields (resultCells e.2)) f) es := by
  induction es with
  | nil => exact .nil
  | cons e es ih =>
    obtain ⟨c, hc⟩ := exists_cell e.2 hf
    exact .cons ⟨c, hc, by simp only [getField, get?_result hc, Option.getD_some]⟩ ih

theorem lookup_map_pair {α : Type} {fs : List String} {f : String} (hf : f ∈ fs) (v : String → α) :
    (fs.map fun f => (f, v f)).lookup f = some (v f) := by
  induction fs with
  | nil => simp at hf
  | cons f' fs ih =>
    by_cases heq : f = f'
    · simp [heq]
    · rw [List.map_cons, List.lookup_cons, beq_false_of_ne heq, ih (List.mem_of_ne_of_mem heq hf)]

/-- Of reports that can be read back the script counts every result once. -/
theorem aggregated {reports : List Report} (h : ∀ rep ∈ reports, ReportPlain rep.results rep.config) :
    ∃ agg, aggregateByClients (loadJsonFiles (reports.map Report.text)) = .ok agg ∧ Aggregated reports agg := by
  have hload : loadJsonFiles (reports.map Report.text) = reports.map Report.document := by
    rw [loadJsonFiles, List.filterMap_map]
    refine (List.filterMap_congr fun rep hrep => ?_).trans (congrFun List.filterMap_eq_map reports)
    exact (loads_exportJson_iff rep.results rep.config rep.timestamp).2 (h rep hrep)
  have hgroups := Grouping.groups_group ((entries reports).map pair)
  have hkeys : ∀ gs, (List.map row gs).map Prod.fst = gs.map Prod.fst := by
    intro gs
    rw [List.map_map]
    rfl
  refine ⟨_, by rw [hload, aggregateByClients_documents], ?_, fun key => ?_, ?_, ?_, ?_⟩
  · rw [hkeys]
    exact hgroups.nodup
  · rw [hkeys, hgroups.mem_iff]
    simp [pair, eq_comm]
  · intro e he
    obtain ⟨g, -, rfl⟩ := List.mem_map.1 he
    simp [row, Function.comp_def]
  · intro e he f xs hxs
    obtain ⟨g, hg, rfl⟩ := List.mem_map.1 he
    obtain ⟨f', hf, heq⟩ := List.mem_map.1 hxs
    cases heq
    have hvalues : g.2 =
        ((entries reports).filter fun e' => keyOf e'.1 e'.2.modeName = g.1).map fun e' =>
          fields (resultCells e'.2) := by
      rw [hgroups.values g hg, List.filter_map, List.map_map]
      rfl
    rw [hvalues, List.map_map]
    exact forall₂_values hf _
  · intro f hf
    have hlookup : ∀ g, (((row g).2.lookup f).getD []).length = g.2.length := by
      intro g
      rw [row, lookup_map_pair hf, Option.getD_some, List.length_map]
    rw [List.map_map]
    simp only [Function.comp_def, hlookup, hgroups.sum_length, List.length_map]

/-- Two runs with one client each: the script has both of them under one key. -/
def oneClient (timestamp : Int) (latency : ℚ) : Report where
  results := [{ modeName := "Sync", totalRequests := 1, latencyAvgMs := latency, latencySamplesMs := [latency] }]
  config :=
    { mode := "sync"
      syncOverride := .default
      asyncOverride := .default
      batchOverride := .default
      configPath := "config/model_config.yaml"
      imagePath := "assets/bus.png"
      warmupCount := 1
      testDurationSec := 1
      minIterations := 1
      concurrentClients := 1
      modelType := "yolo"
      showGpuStats := false
      outputDir := "./benchmark_output"
      exportJson := true
      exportCsv := false }
  timestamp := timestamp

theorem oneClient_plain (timestamp : Int) (latency : ℚ) :
    ReportPlain (oneClient timestamp latency).results (oneClient timestamp latency).config := by
  refine ⟨?_, ?_, ?_, ?_, ?_, ?_⟩ <;> simp [oneClient, Plain]

theorem aggregated_oneClient : ∃ agg,
    aggregateByClients (loadJsonFiles ([oneClient 1 3, oneClient 2 5].map Report.text)) = .ok agg ∧
      Aggregated [oneClient 1 3, oneClient 2 5] agg ∧ keyOf 1 "Sync" ∈ agg.map Prod.fst := by
  have hplain : ∀ rep ∈ [oneClient 1 3, oneClient 2 5], ReportPlain rep.results rep.config := by
    intro rep hrep
    rcases List.mem_pair.1 hrep with rfl | rfl <;> exact oneClient_plain _ _
  obtain ⟨agg, hagg, h⟩ := aggregated hplain
  exact ⟨agg, hagg, h, (h.mem_iff _).2 ⟨_, List.mem_cons_self, rfl⟩⟩

end OnnxInference.Benchmark
