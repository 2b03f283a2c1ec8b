import TopoLlvm.Library.Machine
import TopoLlvm.Runtime.WorkHelping
import TopoLlvm.Runtime.PoolShutdown
import TopoLlvm.Runtime.PriorityOrder
import TopoLlvm.Runtime.ScopedReset
import TopoLlvm.Runtime.CostAggregation
import TopoLlvm.Runtime.PoolLifetime
import TopoLlvm.Runtime.AwaitAllExceptions
import TopoLlvm.Transforms.DispatchBalance
import TopoLlvm.Runtime.AdaptiveCounter
import TopoLlvm.Runtime.VariantHistory
import TopoLlvm.Runtime.AdaptiveShutdown
import TopoLlvm.Runtime.MeasurementProvenance
import TopoLlvm.Runtime.ArenaSafety
import TopoLlvm.Runtime.ArenaReset
import TopoLlvm.Backend.JitExports
import TopoLlvm.Backend.PostTransformVerifier
import TopoLlvm.Backend.ConstPropagation
import TopoLlvm.Backend.EmbeddedClosure
import TopoLlvm.JitEngine.PipelineMetadata
import TopoLlvm.Decompile.CompoundAssign
import TopoLlvm.Decompile.RegionRollback
import TopoLlvm.Decompile.RegionRuns
import TopoLlvm.Decompile.TypeSpelling
import TopoLlvm.Decompile.ValueNames
import TopoLlvm.Decompile.LiftingLimits
import TopoLlvm.Transforms.ChunkOrder
import TopoLlvm.Transforms.ReductionFolds
import TopoLlvm.Transforms.ParallelGate
import TopoLlvm.Transforms.ArenaTeardown
import TopoLlvm.Transforms.ArenaLowering
import TopoLlvm.Transforms.TaskProbes
import TopoLlvm.Transforms.TaskCosts
import TopoLlvm.Transforms.LoopAnnotation
import TopoLlvm.Transforms.ErasedRuns
import TopoLlvm.Transforms.EscapingFrees
import TopoLlvm.Transforms.InvariantLoads
import TopoLlvm.Transforms.PipelineDelivery
import TopoLlvm.Transforms.DataLayout
import TopoLlvm.Transforms.ArraySignature
import TopoLlvm.Transforms.PointerAttrs
import TopoLlvm.Transforms.RefcountRuns
import TopoLlvm.Transforms.StartupChecks
import TopoLlvm.JitEngine.SpecializationRuns
import TopoLlvm.Backend.StageParallelSafety
import TopoLlvm.Transforms.Devirtualization
import TopoLlvm.Transforms.InlineRewriteRuns
import TopoLlvm.Transforms.ContainmentInterception
import TopoLlvm.Transforms.DispatchEvents
import TopoLlvm.Transforms.Prefetch
import TopoLlvm.Transforms.PipelineOrder
import TopoLlvm.Transforms.PipelineTypes
import TopoLlvm.Transforms.TopoInline
import TopoLlvm.Runtime.ContainmentDump
import TopoLlvm.Runtime.EngineLoader
import TopoLlvm.Runtime.SpanNesting
import TopoLlvm.Transforms.Observability
import TopoLlvm.Backend.PassReportsSidecar
import TopoLlvm.Backend.BaselineCache
import TopoLlvm.Backend.MappingValidity
import TopoLlvm.Backend.SymbolOrder
import TopoLlvm.Backend.DemangledKeys
import TopoLlvm.Backend.ParameterList
import TopoLlvm.Backend.BodyConformance
import TopoLlvm.Backend.TemplateArgs
import TopoLlvm.Backend.ObfuscationMap
import TopoLlvm.Backend.TypeResolution
import TopoLlvm.Backend.RustPaths
import TopoLlvm.Backend.RustImpls
import TopoLlvm.Transforms.DemandedFields
