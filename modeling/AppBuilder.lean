import AppBuilder.Agent.EventSequence
import AppBuilder.Branches.LeaseSafety
import AppBuilder.Async.Extension
import AppBuilder.Server.Conformance
import AppBuilder.Server.FinalStatus
import AppBuilder.Sandbox.QuotaLockSafety
import AppBuilder.Sandbox.Fingerprint
import AppBuilder.Sandbox.DestroySafety
import AppBuilder.Sandbox.Hydration
import AppBuilder.Sandbox.Occupancy
import AppBuilder.Sandbox.Terminability
import AppBuilder.Sandbox.Termination
import AppBuilder.Sandbox.CommandSafety
import AppBuilder.Agent.PathAgreement
import AppBuilder.Workspaces.Ownership
import AppBuilder.Migrations.Completeness
import AppBuilder.Web.TimelineSession
import AppBuilder.Agent.GenerationTranscript
import AppBuilder.Sandbox.Reservations
import AppBuilder.Sandbox.Expiry
import AppBuilder.Artifacts.Reading
import AppBuilder.Artifacts.PassOutcome
import AppBuilder.Artifacts.PreviewRoundTrip
import AppBuilder.Artifacts.ProjectBundle
import AppBuilder.Artifacts.Retention
import AppBuilder.Agent.ContextBuilder
import AppBuilder.Agent.EffectiveChanges
import AppBuilder.Web.AppBuilderWorkspace
import AppBuilder.Agent.BuildEvidence
import AppBuilder.Agent.Classify
import AppBuilder.Web.AgentEventStream
import AppBuilder.Web.TimelineAgreement
import AppBuilder.Agent.GuardRelease
import AppBuilder.Encoding.RegexReplace
import AppBuilder.Web.AgentRunMonitor
import AppBuilder.Agent.CacheCleanup
import AppBuilder.Server.BackgroundLoops
import AppBuilder.Agent.PathContainment
import AppBuilder.Agent.RunCommand
import AppBuilder.Encoding.JsonPretty
import AppBuilder.Agent.StylingCapabilities
import AppBuilder.Web.SnapshotPreview
import AppBuilder.Sandbox.DaytonaProvider
import AppBuilder.Artifacts.ProjectRoundTrip
import AppBuilder.Artifacts.SharedFilesystemStore
import AppBuilder.Artifacts.PublicationSafety
import AppBuilder.Server.Completion
import AppBuilder.Agent.SseStream
import AppBuilder.Web.StreamAgentEvents
import AppBuilder.Web.StreamDelivery
import AppBuilder.Web.RunStream
import AppBuilder.Agent.DependencyCache
import AppBuilder.Agent.CacheOperations
import AppBuilder.Agent.CacheSafety
