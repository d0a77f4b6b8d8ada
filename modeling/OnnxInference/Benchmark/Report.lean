import OnnxInference.Benchmark.Config
import OnnxInference.Json.Cells
import OnnxInference.Latency

/-!
# The report of a benchmark (`benchmark/benchmark_runner.cpp`)

`export_json` puts the strings of the configuration between quotes as they are.  The report is read back as it was meant
exactly when none of them has a quote, a backslash or a control character (`report_read`).
-/

namespace OnnxInference.Benchmark

open Json Latency

/-! ### `export_json` -/

def benchmarkText (config : Config) : List Char :=
  List.flatten
    ["  \"benchmark\": \x7b\n".toList,
      "    \"config_path\": \"".toList ++ config.configPath.toList ++ "\",\n".toList,
      "    \"image_path\": \"".toList ++ config.imagePath.toList ++ "\",\n".toList,
      "    \"model_type\": \"".toList ++ config.modelType.toList ++ "\",\n".toList,
      "    \"mode\": \"".toList ++ config.mode.toList ++ "\",\n".toList,
      "    \"warmup_count\": ".toList ++ Decimal.integer config.warmupCount ++ ",\n".toList,
      "    \"test_duration_sec\": ".toList ++ Decimal.fixed 1 config.testDurationSec ++ ",\n".toList,
      "    \"min_iterations\": ".toList ++ Decimal.integer config.minIterations ++ ",\n".toList,
      "    \"concurrent_clients\": ".toList ++ Decimal.integer config.concurrentClients ++ ",\n".toList,
      "    \"show_gpu_stats\": ".toList ++ (if config.showGpuStats then "true".toList else "false".toList) ++
        ",\n".toList,
      "    \"output_dir\": \"".toList ++ config.outputDir.toList ++ "\"\n".toList,
      "  \x7d,\n".toList]

def overrideText (ov : ModelConfigOverride) : List Char :=
  Decimal.integer ov.batch ++ ", \"buffer_size\": ".toList ++ Decimal.integer ov.bufferSize

def overridesText (config : Config) : List Char :=
  List.flatten
    ["  \"overrides\": \x7b\n".toList,
      "    \"sync\": \x7b \"batch\": ".toList ++ overrideText config.syncOverride ++ " \x7d,\n".toList,
      "    \"async\": \x7b \"batch\": ".toList ++ overrideText config.asyncOverride ++ " \x7d,\n".toList,
      "    \"batch\": \x7b \"batch\": ".toList ++ overrideText config.batchOverride ++ " \x7d\n".toList,
      "  \x7d,\n".toList]

def resultText (r : BenchmarkResult) : List Char :=
  List.flatten
    ["    \x7b\n".toList,
      "      \"mode\": \"".toList ++ r.modeName.toList ++ "\",\n".toList,
      "      \"override_batch\": ".toList ++ Decimal.integer r.overrideBatch ++ ",\n".toList,
      "      \"total_requests\": ".toList ++ Decimal.integer r.totalRequests ++ ",\n".toList,
      "      \"total_wall_ms\": ".toList ++ Decimal.fixed 2 r.totalWallMs ++ ",\n".toList,
      "      \"throughput_qps\": ".toList ++ Decimal.fixed 2 r.throughputFps ++ ",\n".toList,
      "      \"latency_avg_ms\": ".toList ++ Decimal.fixed 4 r.latencyAvgMs ++ ",\n".toList,
      "      \"latency_min_ms\": ".toList ++ Decimal.fixed 4 r.latencyMinMs ++ ",\n".toList,
      "      \"latency_max_ms\": ".toList ++ Decimal.fixed 4 r.latencyMaxMs ++ ",\n".toList,
      "      \"latency_p50_ms\": ".toList ++ Decimal.fixed 4 r.latencyP50Ms ++ ",\n".toList,
      "      \"latency_p90_ms\": ".toList ++ Decimal.fixed 4 r.latencyP90Ms ++ ",\n".toList,
      "      \"latency_p95_ms\": ".toList ++ Decimal.fixed 4 r.latencyP95Ms ++ ",\n".toList,
      "      \"latency_p99_ms\": ".toList ++ Decimal.fixed 4 r.latencyP99Ms ++ ",\n".toList,
      "      \"samples_count\": ".toList ++ Decimal.integer r.latencySamplesMs.length ++ "\n".toList,
      "    \x7d".toList]

/-- The results, with a comma behind each but the last. -/
def resultsText : List BenchmarkResult → List Char
  | [] => []
  | r :: rs => resultText r ++ (if rs.isEmpty then [] else ",".toList) ++ "\n".toList ++ resultsText rs

/-- What `export_json` writes into the file that it has opened, `timestamp` seconds after the epoch. -/
def exportJson (results : List BenchmarkResult) (config : Config) (timestamp : Int) : List Char :=
  List.flatten
    ["\x7b\n".toList,
      benchmarkText config,
      overridesText config,
      "  \"timestamp\": ".toList ++ Decimal.integer timestamp ++ ",\n".toList,
      "  \"results\": [\n".toList,
      resultsText results,
      "  ]\n\x7d\n".toList]

/-! ### What the report says -/

def benchmarkCells (config : Config) : List (List Char × Cell) :=
  [("config_path".toList, .string config.configPath.toList),
    ("image_path".toList, .string config.imagePath.toList),
    ("model_type".toList, .string config.modelType.toList),
    ("mode".toList, .string config.mode.toList),
    ("warmup_count".toList, .int config.warmupCount),
    ("test_duration_sec".toList, .fixed 1 config.testDurationSec),
    ("min_iterations".toList, .int config.minIterations),
    ("concurrent_clients".toList, .int config.concurrentClients),
    ("show_gpu_stats".toList, .bool config.showGpuStats),
    ("output_dir".toList, .string config.outputDir.toList)]

def overrideCells (ov : ModelConfigOverride) : List (List Char × Cell) :=
  [("batch".toList, .int ov.batch), ("buffer_size".toList, .int ov.bufferSize)]

def resultCells (r : BenchmarkResult) : List (List Char × Cell) :=
  [("mode".toList, .string r.modeName.toList),
    ("override_batch".toList, .int r.overrideBatch),
    ("total_requests".toList, .int r.totalRequests),
    ("total_wall_ms".toList, .fixed 2 r.totalWallMs),
    ("throughput_qps".toList, .fixed 2 r.throughputFps),
    ("latency_avg_ms".toList, .fixed 4 r.latencyAvgMs),
    ("latency_min_ms".toList, .fixed 4 r.latencyMinMs),
    ("latency_max_ms".toList, .fixed 4 r.latencyMaxMs),
    ("latency_p50_ms".toList, .fixed 4 r.latencyP50Ms),
    ("latency_p90_ms".toList, .fixed 4 r.latencyP90Ms),
    ("latency_p95_ms".toList, .fixed 4 r.latencyP95Ms),
    ("latency_p99_ms".toList, .fixed 4 r.latencyP99Ms),
    ("samples_count".toList, .int r.latencySamplesMs.length)]

def document (results : List BenchmarkResult) (config : Config) (timestamp : Int) : Json :=
  .object
    [(codes "benchmark".toList, .object (fields (benchmarkCells config))),
      (codes "overrides".toList, .object
        [(codes "sync".toList, .object (fields (overrideCells config.syncOverride))),
          (codes "async".toList, .object (fields (overrideCells config.asyncOverride))),
          (codes "batch".toList, .object (fields (overrideCells config.batchOverride)))]),
      (codes "timestamp".toList, .number (.int timestamp)),
      (codes "results".toList, .array (results.map fun r => .object (fields (resultCells r))))]

/-! ### The pieces of a report -/

def lines (n : Nat) (ms : List (List Char × Cell)) : List Piece := layout (indent n) [newline] ms

def benchmarkPieces (config : Config) : List Piece :=
  (indent 2 ++ key "benchmark".toList ++ [openBrace, newline]) ++ lines 4 (benchmarkCells config) ++
    (indent 2 ++ [closeBrace, comma, newline])

def overridePieces (k : String) (ov : ModelConfigOverride) : List Piece :=
  indent 4 ++ key k.toList ++ openBrace :: layout (indent 1) [] (overrideCells ov) ++ indent 1 ++ [closeBrace]

def overridesPieces (config : Config) : List Piece :=
  (indent 2 ++ key "overrides".toList ++ [openBrace, newline]) ++
    (overridePieces "sync" config.syncOverride ++ [comma, newline]) ++
    (overridePieces "async" config.asyncOverride ++ [comma, newline]) ++
    (overridePieces "batch" config.batchOverride ++ [newline]) ++
    (indent 2 ++ [closeBrace, comma, newline])

def resultPieces (r : BenchmarkResult) : List Piece :=
  (indent 4 ++ [openBrace, newline]) ++ lines 6 (resultCells r) ++ (indent 4 ++ [closeBrace])

def resultsPieces : List BenchmarkResult → List Piece
  | [] => []
  | r :: rs => resultPieces r ++ (if rs.isEmpty then [] else [comma]) ++ [newline] ++ resultsPieces rs

def reportPieces (results : List BenchmarkResult) (config : Config) (timestamp : Int) : List Piece :=
  [openBrace, newline] ++ benchmarkPieces config ++ overridesPieces config ++
    (indent 2 ++ key "timestamp".toList ++ [Cell.piece (.int timestamp), comma, newline]) ++
    (indent 2 ++ key "results".toList ++ [openBracket, newline]) ++ resultsPieces results ++
    (indent 2 ++ [closeBracket, newline, closeBrace, newline])

theorem benchmarkText_eq (config : Config) : benchmarkText config = textOf (benchmarkPieces config) := by
  unfold benchmarkText
  rw [benchmarkPieces, lines, benchmarkCells, textOf_append, textOf_append, List.append_assoc]
  simp only [layout, textOf_append (_ ++ _ :: _), List.flatten_cons, List.append_assoc (textOf _)]
  refine congrArg₂ (· ++ ·) rfl ?_
  iterate 10 refine congrArg₂ (· ++ ·) (by simp [Cell.piece, Piece.text, comma, newline]) ?_
  rfl

theorem resultText_eq (r : BenchmarkResult) : resultText r = textOf (resultPieces r) := by
  unfold resultText
  rw [resultPieces, lines, resultCells, textOf_append, textOf_append, List.append_assoc]
  simp only [layout, textOf_append (_ ++ _ :: _), List.flatten_cons, List.append_assoc (textOf _)]
  refine congrArg₂ (· ++ ·) rfl ?_
  iterate 13 refine congrArg₂ (· ++ ·) (by simp [Cell.piece, Piece.text, comma, newline]) ?_
  rfl

theorem textOf_overridePieces (k : String) (ov : ModelConfigOverride) :
    textOf (overridePieces k ov) =
      "    ".toList ++ '"' :: (k.toList ++ "\": \x7b \"batch\": ".toList ++ overrideText ov ++ " \x7d".toList) := by
  unfold overrideText
  simp [overridePieces, overrideCells, layout, Cell.piece, Piece.text, openBrace, closeBrace, comma]

theorem overridesText_eq (config : Config) : overridesText config = textOf (overridesPieces config) := by
  unfold overridesText
  rw [overridesPieces, textOf_append, textOf_append, textOf_append, textOf_append]
  simp only [List.flatten_cons, List.append_assoc (textOf _)]
  refine congrArg₂ (· ++ ·) rfl ?_
  iterate 3
    refine congrArg₂ (· ++ ·) (by rw [textOf_append, textOf_overridePieces]; simp [Piece.text, comma, newline]) ?_
  rfl

theorem resultsText_eq (results : List BenchmarkResult) : resultsText results = textOf (resultsPieces results) := by
  induction results with
  | nil => rfl
  | cons r rs ih =>
    rw [resultsText, resultsPieces, resultText_eq, ih]
    cases rs <;> simp [comma, newline, Piece.text]

theorem exportJson_eq (results : List BenchmarkResult) (config : Config) (timestamp : Int) :
    exportJson results config timestamp = textOf (reportPieces results config timestamp) := by
  unfold exportJson
  rw [benchmarkText_eq, overridesText_eq, resultsText_eq, reportPieces]
  simp [Cell.piece, Piece.text, openBrace, closeBrace, openBracket, closeBracket, comma, newline]

/-! ### The values of a report -/

theorem tokensOf_lines (n : Nat) (ms : List (List Char × Cell)) : tokensOf (lines n ms) = members (fields ms) :=
  tokensOf_layout (blank_indent n) (by simp [Blank, newline, isSpace])

theorem tokensOf_overridePieces (k : String) (ov : ModelConfigOverride) :
    tokensOf (overridePieces k ov) =
      .string (codes k.toList) :: .colon :: (Json.object (fields (overrideCells ov))).tokens := by
  have hnil : Blank [] := by simp [Blank]
  simp [overridePieces, tokensOf_blank (blank_indent _), tokensOf_layout (blank_indent 1) hnil, openBrace, closeBrace,
    Piece.tokens, tokens]

theorem tokensOf_resultPieces (r : BenchmarkResult) :
    tokensOf (resultPieces r) = (Json.object (fields (resultCells r))).tokens := by
  simp [resultPieces, tokensOf_blank (blank_indent _), tokensOf_lines, tokens, openBrace, closeBrace, newline,
    Piece.tokens]

theorem tokensOf_resultsPieces (results : List BenchmarkResult) :
    tokensOf (resultsPieces results) = items (results.map fun r => .object (fields (resultCells r))) := by
  induction results with
  | nil => rfl
  | cons r rs ih =>
    rw [resultsPieces, tokensOf_append, tokensOf_append, tokensOf_append, tokensOf_resultPieces, ih]
    rcases rs with _ | ⟨r', rs⟩ <;> simp [items, comma, newline, Piece.tokens]

theorem tokensOf_reportPieces (results : List BenchmarkResult) (config : Config) (timestamp : Int) :
    tokensOf (reportPieces results config timestamp) = (document results config timestamp).tokens := by
  rw [reportPieces, document]
  simp [benchmarkPieces, overridesPieces, tokensOf_blank (blank_indent _), tokensOf_lines, tokensOf_overridePieces,
    tokensOf_resultsPieces, tokens, members, openBrace, closeBrace, openBracket, closeBracket, comma, newline,
    Piece.tokens, Cell.piece]

/-! ### The pieces fit -/

theorem wellFormed_lines (n : Nat) {ms : List (List Char × Cell)} (h : ∀ m ∈ ms, Plain m.1 ∧ m.2.Valid)
    (rest : List Char) : WellFormed rest (lines n ms) :=
  wellFormed_layout (blank_indent n) (by simp [Blank, newline, isSpace]) h (by simp [Ends, newline, Piece.text])
    (.inr fun cs => units_control (by decide) cs)

theorem benchmarkCells_valid (config : Config) : ∀ m ∈ benchmarkCells config, Plain m.1 ∧ m.2.Valid := by
  rw [benchmarkCells]
  iterate 10 refine List.forall_mem_cons.2 ⟨⟨by simp [Plain], by simp [Cell.Valid]⟩, ?_⟩
  simp

theorem resultCells_valid (r : BenchmarkResult) : ∀ m ∈ resultCells r, Plain m.1 ∧ m.2.Valid := by
  rw [resultCells]
  iterate 13 refine List.forall_mem_cons.2 ⟨⟨by simp [Plain], by simp [Cell.Valid]⟩, ?_⟩
  simp

theorem overrideCells_valid (ov : ModelConfigOverride) :
    ∀ m ∈ overrideCells ov, Plain m.1 ∧ m.2.Valid ∧ m.2.Plain := by
  rw [overrideCells]
  iterate 2 refine List.forall_mem_cons.2 ⟨⟨by simp [Plain], trivial, trivial⟩, ?_⟩
  simp

theorem wellFormed_overridePieces {k : String} (hk : Plain k.toList) (ov : ModelConfigOverride) (rest : List Char) :
    WellFormed rest (overridePieces k ov) := by
  have hcells := overrideCells_valid ov
  rw [overridePieces]
  simp only [wellFormed_append]
  refine ⟨⟨⟨⟨wellFormed_blank (blank_indent _) _, wellFormed_key hk _⟩, (fits_punctuation _).1, ?_⟩,
    wellFormed_blank (blank_indent _) _⟩, (fits_punctuation _).2.1, trivial⟩
  refine wellFormed_layout (blank_indent _) (by simp [Blank]) (fun m hm => ⟨(hcells m hm).1, (hcells m hm).2.1⟩) ?_
    (.inl fun m hm => (hcells m hm).2.2)
  simp [Ends, List.replicate]

theorem wellFormed_resultPieces (r : BenchmarkResult) (rest : List Char) : WellFormed rest (resultPieces r) := by
  rw [resultPieces]
  simp only [wellFormed_append]
  refine ⟨⟨⟨wellFormed_blank (blank_indent _) _, (fits_punctuation _).1, rfl, trivial⟩,
    wellFormed_lines 6 (resultCells_valid r) _⟩, wellFormed_blank (blank_indent _) _, (fits_punctuation _).2.1, trivial⟩

theorem wellFormed_resultsPieces (results : List BenchmarkResult) (rest : List Char) :
    WellFormed rest (resultsPieces results) := by
  induction results with
  | nil => trivial
  | cons r rs ih =>
    rw [resultsPieces]
    simp only [wellFormed_append]
    refine ⟨⟨⟨wellFormed_resultPieces r _, ?_⟩, rfl, trivial⟩, ih⟩
    split
    · trivial
    · exact ⟨(fits_punctuation _).2.2.2.2.1, trivial⟩

theorem wellFormed_benchmarkPieces (config : Config) (rest : List Char) : WellFormed rest (benchmarkPieces config) := by
  rw [benchmarkPieces]
  simp only [wellFormed_append]
  refine ⟨⟨⟨⟨wellFormed_blank (blank_indent _) _, wellFormed_key (by simp [Plain]) _⟩, (fits_punctuation _).1, rfl,
    trivial⟩, wellFormed_lines 4 (benchmarkCells_valid config) _⟩, wellFormed_blank (blank_indent _) _,
    (fits_punctuation _).2.1, (fits_punctuation _).2.2.2.2.1, rfl, trivial⟩

theorem wellFormed_overridesPieces (config : Config) (rest : List Char) : WellFormed rest (overridesPieces config) := by
  rw [overridesPieces]
  simp only [wellFormed_append]
  refine ⟨⟨⟨⟨⟨⟨wellFormed_blank (blank_indent _) _, wellFormed_key (by simp [Plain]) _⟩, (fits_punctuation _).1, rfl,
    trivial⟩, ?_⟩, ?_⟩, ?_⟩, wellFormed_blank (blank_indent _) _, (fits_punctuation _).2.1,
    (fits_punctuation _).2.2.2.2.1, rfl, trivial⟩
  · exact ⟨wellFormed_overridePieces (by simp [Plain]) _ _, (fits_punctuation _).2.2.2.2.1, rfl, trivial⟩
  · exact ⟨wellFormed_overridePieces (by simp [Plain]) _ _, (fits_punctuation _).2.2.2.2.1, rfl, trivial⟩
  · exact ⟨wellFormed_overridePieces (by simp [Plain]) _ _, rfl, trivial⟩

theorem wellFormed_reportPieces (results : List BenchmarkResult) (config : Config) (timestamp : Int) :
    WellFormed [] (reportPieces results config timestamp) := by
  rw [reportPieces]
  simp only [wellFormed_append]
  refine ⟨⟨⟨⟨⟨⟨⟨(fits_punctuation _).1, rfl, trivial⟩, wellFormed_benchmarkPieces config _⟩,
    wellFormed_overridesPieces config _⟩, ⟨wellFormed_blank (blank_indent _) _, wellFormed_key (by simp [Plain]) _⟩,
    ?_, (fits_punctuation _).2.2.2.2.1, rfl, trivial⟩,
    ⟨wellFormed_blank (blank_indent _) _, wellFormed_key (by simp [Plain]) _⟩, (fits_punctuation _).2.2.1, rfl,
      trivial⟩,
    wellFormed_resultsPieces results _⟩, wellFormed_blank (blank_indent _) _, (fits_punctuation _).2.2.2.1, rfl,
    (fits_punctuation _).2.1, rfl, trivial⟩
  exact fits_piece (c := .int timestamp) trivial (by simp [Ends, comma, Piece.text]) (.inl trivial)

/-! ### Round trip -/

/-- The strings of a report stand for themselves between quotes. -/
structure ReportPlain (results : List BenchmarkResult) (config : Config) : Prop where
  configPath : Plain config.configPath.toList
  imagePath : Plain config.imagePath.toList
  modelType : Plain config.modelType.toList
  mode : Plain config.mode.toList
  outputDir : Plain config.outputDir.toList
  modeName : ∀ r ∈ results, Plain r.modeName.toList

theorem allPlain_lines {n : Nat} {ms : List (List Char × Cell)} (h : ∀ m ∈ ms, Plain m.1) :
    AllPlain (lines n ms) ↔ ∀ m ∈ ms, m.2.Plain :=
  allPlain_layout (blank_indent n) (by simp [Blank, newline, isSpace]) h

theorem allPlain_benchmarkPieces (config : Config) :
    AllPlain (benchmarkPieces config) ↔ ∀ m ∈ benchmarkCells config, m.2.Plain := by
  simp [benchmarkPieces, allPlain_blank (blank_indent _), allPlain_key, Plain, openBrace, closeBrace, comma, newline,
    allPlain_lines fun m hm => (benchmarkCells_valid config m hm).1]

theorem allPlain_overridePieces {k : String} (hk : Plain k.toList) (ov : ModelConfigOverride) :
    AllPlain (overridePieces k ov) := by
  have hcells := overrideCells_valid ov
  have hlayout : AllPlain (layout (indent 1) [] (overrideCells ov)) :=
    (allPlain_layout (blank_indent _) (by simp [Blank]) fun m hm => (hcells m hm).1).2 fun m hm => (hcells m hm).2.2
  simp [overridePieces, allPlain_blank (blank_indent _), allPlain_key.2 hk, hlayout, openBrace, closeBrace]

theorem allPlain_overridesPieces (config : Config) : AllPlain (overridesPieces config) := by
  have hsync := allPlain_overridePieces (k := "sync") (by simp [Plain]) config.syncOverride
  have hasync := allPlain_overridePieces (k := "async") (by simp [Plain]) config.asyncOverride
  have hbatch := allPlain_overridePieces (k := "batch") (by simp [Plain]) config.batchOverride
  simp [overridesPieces, allPlain_blank (blank_indent _), allPlain_key, Plain, hsync, hasync, hbatch, openBrace,
    closeBrace, comma, newline]

theorem allPlain_resultsPieces (results : List BenchmarkResult) :
    AllPlain (resultsPieces results) ↔ ∀ r ∈ results, Plain r.modeName.toList := by
  have hresult : ∀ r, AllPlain (resultPieces r) ↔ Plain r.modeName.toList := by
    intro r
    have hlines := allPlain_lines (n := 6) fun m hm => (resultCells_valid r m hm).1
    simp only [resultPieces, allPlain_append, hlines]
    simp [allPlain_blank (blank_indent _), openBrace, closeBrace, newline, resultCells, Cell.Plain]
  induction results with
  | nil => simp [resultsPieces]
  | cons r rs ih => cases rs <;> simp_all [resultsPieces, newline, comma]

theorem allPlain_reportPieces (results : List BenchmarkResult) (config : Config) (timestamp : Int) :
    AllPlain (reportPieces results config timestamp) ↔ ReportPlain results config := by
  have hpieces : AllPlain (reportPieces results config timestamp) ↔
      (∀ m ∈ benchmarkCells config, m.2.Plain) ∧ ∀ r ∈ results, Plain r.modeName.toList := by
    rw [← allPlain_benchmarkPieces, ← allPlain_resultsPieces]
    simp [reportPieces, allPlain_overridesPieces, allPlain_blank (blank_indent _), allPlain_key, Plain, openBrace,
      closeBrace, openBracket, closeBracket, comma, newline, allPlain_piece, Cell.Plain]
  rw [hpieces]
  constructor
  · rintro ⟨hcells, hresults⟩
    simp [benchmarkCells, Cell.Plain] at hcells
    exact ⟨hcells.1, hcells.2.1, hcells.2.2.1, hcells.2.2.2.1, hcells.2.2.2.2, hresults⟩
  · rintro ⟨hconfig, himage, hmodel, hmode, houtput, hresults⟩
    exact ⟨by simp [benchmarkCells, Cell.Plain, hconfig, himage, hmodel, hmode, houtput], hresults⟩

/-! ### What is lost -/

/-- The numbers of a result as they are printed. -/
def printed (r : BenchmarkResult) : BenchmarkResult :=
  { r with
    totalWallMs := Decimal.rounded 2 r.totalWallMs
    throughputFps := Decimal.rounded 2 r.throughputFps
    latencyP50Ms := Decimal.rounded 4 r.latencyP50Ms
    latencyP90Ms := Decimal.rounded 4 r.latencyP90Ms
    latencyP95Ms := Decimal.rounded 4 r.latencyP95Ms
    latencyP99Ms := Decimal.rounded 4 r.latencyP99Ms
    latencyAvgMs := Decimal.rounded 4 r.latencyAvgMs
    latencyMinMs := Decimal.rounded 4 r.latencyMinMs
    latencyMaxMs := Decimal.rounded 4 r.latencyMaxMs }

/-- The one number of the configuration that is not whole, as it is printed. -/
def printedConfig (config : Config) : Config :=
  { config with testDurationSec := Decimal.rounded 1 config.testDurationSec }

theorem document_printed (results : List BenchmarkResult) (config : Config) (timestamp : Int) :
    document (results.map printed) (printedConfig config) timestamp = document results config timestamp := by
  have hresult : ∀ r, fields (resultCells (printed r)) = fields (resultCells r) := by
    intro r
    simp only [fields, resultCells, printed, List.map_cons, List.map_nil, Cell.toJson, Decimal.rounded_rounded]
  have hconfig : fields (benchmarkCells (printedConfig config)) = fields (benchmarkCells config) := by
    simp only [fields, benchmarkCells, printedConfig, List.map_cons, List.map_nil, Cell.toJson,
      Decimal.rounded_rounded]
  rw [document, document, List.map_map, hconfig]
  simp only [Function.comp_def, hresult]
  rfl

theorem printed_ordered {r : BenchmarkResult} (h : r.Ordered) : (printed r).Ordered :=
  ⟨Decimal.rounded_mono 4 h.min_le_p50, Decimal.rounded_mono 4 h.p50_le_p90, Decimal.rounded_mono 4 h.p90_le_p95,
    Decimal.rounded_mono 4 h.p95_le_p99, Decimal.rounded_mono 4 h.p99_le_max, Decimal.rounded_mono 4 h.min_le_avg,
    Decimal.rounded_mono 4 h.avg_le_max⟩

/-- All members of a report with a value of their own, but the time. -/
def reportCells (results : List BenchmarkResult) (config : Config) : List (List Char × Cell) :=
  benchmarkCells config ++ overrideCells config.syncOverride ++ overrideCells config.asyncOverride ++
    overrideCells config.batchOverride ++ results.flatMap resultCells

/-- What a reader of the report gets: the printed numbers, and those of a result stand in the same order. -/
structure ReadBack (results : List BenchmarkResult) (config : Config) (timestamp : Int) : Prop where
  read_iff : loads (exportJson results config timestamp) = some (document results config timestamp) ↔
    ReportPlain results config
  printed : document (results.map printed) (printedConfig config) timestamp = document results config timestamp
  close : ∀ m ∈ reportCells results config, ∀ k x, m.2 = .fixed k x →
    ∃ y, m.2.toJson = .number (.float y) ∧ |y - x| ≤ 1 / 2 / 10 ^ k
  ordered : ∀ r ∈ results, r.Ordered → (Benchmark.printed r).Ordered

theorem loads_exportJson_iff (results : List BenchmarkResult) (config : Config) (timestamp : Int) :
    loads (exportJson results config timestamp) = some (document results config timestamp) ↔
      ReportPlain results config := by
  rw [exportJson_eq, loads_textOf_iff (wellFormed_reportPieces results config timestamp)
    (tokensOf_reportPieces _ _ _), allPlain_reportPieces]

/-- The report is read back as it was meant exactly when its strings stand for themselves. -/
theorem report_read (results : List BenchmarkResult) (config : Config) (timestamp : Int) :
    ReadBack results config timestamp :=
  ⟨loads_exportJson_iff results config timestamp, document_printed results config timestamp,
    fun _ _ k x hm => ⟨_, by rw [hm]; rfl, Decimal.abs_rounded_sub_le k x⟩, fun _ _ => printed_ordered⟩

end OnnxInference.Benchmark
