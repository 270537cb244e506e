import Loker.DiffApplier
import Loker.EditFiles
import Loker.EditRetry
import Loker.FileTree
import Loker.LoadSpec
import Loker.Programs
import Loker.RunFiles
import Loker.RunLoad
import Loker.TextOps
import Loker.UndoLog
import Loker.Grammar
import Loker.Dispatch
import Loker.Template
import Loker.PhaseBridge
import Loker.ParallelEdits
import Loker.RunOps
import Loker.Strategies
import Loker.PromptDelivery
import Loker.PhaseRunner
import Loker.Resume
import Loker.CommitProtocol
import Loker.CrashHistories
import Loker.Resumability
import Loker.ResumeDecision
import Loker.ResumedRuns
import Loker.CompletedRuns
import Loker.LoaderAgreement
import Loker.AttemptNumbers
import Loker.TextSearch
import Loker.Summary
import Loker.MarkerNames
import Loker.FailedAttempts
import Loker.SummaryAgreement
import Loker.RunStages
import Loker.FailureRecords
import Loker.ConcurrentCommits
import Loker.StepWorkflow
import Loker.EditParser
import Loker.TextLines
import Loker.UnifiedDiff
import Loker.DiffSemantics
import Loker.DeclaredInputs
import Loker.RegisteredSummary
import Loker.SkippedPhases
import Loker.StepLevels
import Loker.PhaseLock
import Loker.LockVisibility
import Loker.HumanGate
import Loker.GateHistory
import Loker.GateListings
import Loker.GatePosts
import Loker.ResumedGates
import Loker.Consensus
import Loker.StepOps
import Loker.StepExecution
import Loker.StepSafeguards
import Loker.Concat
import Loker.FanOut
import Loker.Ladder
import Loker.Vote
import Loker.Attribution
import Loker.ReadProtocol
import Loker.TmpSweep
import Loker.CalledBackends
import Loker.Archiving
import Loker.MarkerReaders
import Loker.ByteLines
import Loker.TraceStream
import Loker.ConfigLayers
import Loker.ResultCache
import Loker.Rollback
import Loker.FindReplace
import Loker.EditPaths
import Loker.DependencyLevels
import Loker.VoteOutcome
import Loker.LlmJudge
import Loker.AnyFail
import Loker.TemplateReading
import Loker.SpecFiles
import Loker.SpecBlocks
import Loker.GrammarReports
import Loker.FencedPayloads
import Loker.RetryDelays
import Loker.ValidationPrompt
import Loker.ShellReading
import Loker.CommandWrapper
import Loker.JsonReader
import Loker.JsonSanitizing
import Loker.JsonExtraction
import Loker.LoopVariables
import Loker.LoopPrompts
import Loker.LoopDelivery
import Loker.MatchScan
import Loker.PatternRuns
import Loker.SecretPatterns
import Loker.RedactedSecrets
import Loker.RedactedOutput
import Loker.Overriding
import Loker.WorkflowInheritance
import Loker.MajorityVote
import Loker.RetryExecutor
import Loker.ManifestUpdates
import Loker.TraceTotals
import Loker.SummaryTimes
import Loker.Promotion
import Loker.TargetFamilies
import Loker.BraceTemplates
import Loker.ConcatSections
import Loker.LexicalPaths
import Loker.PlanCommands
import Loker.PlanConfinement
import Loker.ByteSlices
import Loker.FailureEnvelope
import Loker.VoteComment
import Loker.LinkedTrees
import Loker.PercentCoding
import Loker.RoleRouting
import Loker.ArtefactFiles
import Loker.IssueContext
import Loker.LossyText
import Loker.CommandCapture
import Loker.TestVerdicts
import Loker.HoleTexts
import Loker.VerifierPrompt
import Loker.KnownSecrets
import Loker.TomlStatements
import Loker.TomlLines
import Loker.SpecStatus
import Loker.ParentChains
import Loker.WorkflowLoading
