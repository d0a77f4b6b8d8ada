import OnnxInference.Transition
import OnnxInference.Task
import OnnxInference.Ledger
import OnnxInference.Service
import OnnxInference.Calls
import OnnxInference.Argmax
import OnnxInference.Monitor
import OnnxInference.ThreadSafeQueue
import OnnxInference.PoolWorkers
import OnnxInference.PoolRetention
import OnnxInference.RingIndex
import OnnxInference.SPSCQueue
import OnnxInference.QueueCapacity
import OnnxInference.ThreadPool
import OnnxInference.PoolRefinement
import OnnxInference.Preprocess
import OnnxInference.Yaml
import OnnxInference.Benchmark
import OnnxInference.Quantile
import OnnxInference.Latency
import OnnxInference.Benchmark.Config
import OnnxInference.Benchmark.Pipeline
import OnnxInference.Benchmark.Deadline
import OnnxInference.Decimal
import OnnxInference.Json
import OnnxInference.Json.Lexer
import OnnxInference.Json.Cells
import OnnxInference.Grouping
import OnnxInference.Benchmark.Report
import OnnxInference.Benchmark.Plot
import OnnxInference.Letterbox
import OnnxInference.LetterboxGeometry
import OnnxInference.Tensor
import OnnxInference.CallBacks
import OnnxInference.BufferPool
import OnnxInference.Blocks
import OnnxInference.PoolAddresses
import OnnxInference.BufferSharing
import OnnxInference.Scheduler.Stage
import OnnxInference.Scheduler.AsyncScheduler
import OnnxInference.Scheduler.AsyncMoves
import OnnxInference.Scheduler.AsyncDelivery
import OnnxInference.Scheduler.AsyncShutdown
import OnnxInference.Scheduler.SyncScheduler
import OnnxInference.Scheduler.BatchScheduler
import OnnxInference.Scheduler.BatchMoves
import OnnxInference.Scheduler.BatchQueues
import OnnxInference.Scheduler.BatchPairing
import OnnxInference.Scheduler.BatchSlots
import OnnxInference.Backend.OutputBuffer
import OnnxInference.Backend.CudaRunner
import OnnxInference.Backend.CudaPools
import OnnxInference.Backend.InputShape
import OnnxInference.Backend.WarmUp
import OnnxInference.Runner.NAFNet
import OnnxInference.Device.ElementPool
import OnnxInference.Device.GpuFilter
import OnnxInference.Device.GpuFilterRuns
import OnnxInference.Device.GpuFilterCorrect
import OnnxInference.Device.GpuFilterImages
import OnnxInference.Device.GpuFilterRaces
import OnnxInference.Device.GpuFilterSchedules
import OnnxInference.Device.GpuPreprocess
import OnnxInference.Runner.YoloDetector
import OnnxInference.Runner.YoloPostprocess
import OnnxInference.Runner.CpuRunner
import OnnxInference.Scheduler.AsyncIsolation
import OnnxInference.Scheduler.BatchExecutors
import OnnxInference.Scheduler.BatchShutdown
import OnnxInference.Scheduler.BatchProgress
import OnnxInference.Scheduler.BatchBuffers
import OnnxInference.Scheduler.AsyncBuffers
import OnnxInference.Scheduler.AsyncProgress
import OnnxInference.Scheduler.AsyncOutputs
import OnnxInference.Scheduler.AsyncCompletion
import OnnxInference.Scheduler.InferenceService
import OnnxInference.Scheduler.BatchStarvation
import OnnxInference.Scheduler.InputBuffers
import OnnxInference.Scheduler.BatchLifetime
import OnnxInference.Runner.YoloCuda
import OnnxInference.Runner.YoloAgreement
import OnnxInference.Runner.YoloReadBack
import OnnxInference.Runner.YoloCap
import OnnxInference.Runner.YoloPreprocess
import OnnxInference.Runner.YoloStaging
import OnnxInference.Runner.YoloStreams
import OnnxInference.Runner.YoloSlots
import OnnxInference.Runner.YoloBatch
import OnnxInference.Runner.YoloRunner
import OnnxInference.Runner.YoloGeometry
import OnnxInference.Runner.YoloRegion
import OnnxInference.Runner.YoloRestore
import OnnxInference.Runner.YoloBoxes
import OnnxInference.Runner.YoloScan
import OnnxInference.Runner.YoloPartial
import OnnxInference.Runner.NAFNetRoundTrip
import OnnxInference.Runner.ResNet
import OnnxInference.Runner.ResNetCrop
import OnnxInference.VideoInfer
import OnnxInference.VideoInferRuns
