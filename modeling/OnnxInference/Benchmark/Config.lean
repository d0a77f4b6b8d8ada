import OnnxInference.Benchmark

/-!
# The configuration of a benchmark
-/

namespace OnnxInference.Benchmark

/-- `BenchmarkConfig` with the fields that its modes do not look at. -/
structure Config extends BenchmarkConfig where
  configPath : String
  imagePath : String
  warmupCount : Nat
  testDurationSec : ℚ
  minIterations : Nat
  concurrentClients : Int
  modelType : String
  showGpuStats : Bool
  outputDir : String
  exportJson : Bool
  exportCsv : Bool

end OnnxInference.Benchmark
