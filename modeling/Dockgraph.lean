import Dockgraph.Collector.Types
import Dockgraph.Library.Keyed
import Dockgraph.State.Diff
import Dockgraph.State.DiffCompleteness
import Dockgraph.Frontend.DeltaUtils
import Dockgraph.Frontend.Wire
import Dockgraph.Frontend.ClientDelta
import Dockgraph.Collector.Stream
import Dockgraph.Library.Transition
import Dockgraph.State.Manager
import Dockgraph.State.MergedGraph
import Dockgraph.State.MergePrecedence
import Dockgraph.State.Subscription
import Dockgraph.Frontend.DockGraph
import Dockgraph.Api.Hub
import Dockgraph.Frontend.MessageStream
import Dockgraph.Api.Registration
import Dockgraph.Server.Pipeline
import Dockgraph.Server.Delivery
import Dockgraph.AgentAuth.Signature
import Dockgraph.AgentAuth.Verifier
import Dockgraph.AgentAuth.Replay
import Dockgraph.Api.LogLines
import Dockgraph.Api.NewestLines
import Dockgraph.Api.SourcePage
import Dockgraph.Api.AggregateHistory
import Dockgraph.Api.LogPaging
import Dockgraph.Api.LiveCoverage
import Dockgraph.Api.ResumedLog
import Dockgraph.Collector.AgentPool
import Dockgraph.Collector.AgentRefresh
import Dockgraph.Collector.AgentLocate
import Dockgraph.Collector.AgentPlacement
import Dockgraph.Auth.LoginLimit
import Dockgraph.Auth.Jwt
import Dockgraph.Auth.Session
import Dockgraph.AgentAuth.Authorized
import Dockgraph.AgentAuth.CacheRoom
import Dockgraph.Frontend.LogBuffer
import Dockgraph.Library.Rewrite
import Dockgraph.Secrets.Keys
import Dockgraph.Secrets.Formats
import Dockgraph.Secrets.Masker
import Dockgraph.Secrets.FlagValues
import Dockgraph.Secrets.PlainValues
import Dockgraph.Secrets.PairWords
import Dockgraph.Secrets.CredentialKeys
import Dockgraph.Frontend.LogWindows
import Dockgraph.Frontend.WindowsInvariant
import Dockgraph.Api.Limits
import Dockgraph.Api.SlotsBalance
import Dockgraph.Api.LineSelection
import Dockgraph.Api.LogReader
import Dockgraph.Api.LinesAlike
import Dockgraph.Library.MapLoop
import Dockgraph.Library.Bufio
import Dockgraph.Library.TokenBucket
import Dockgraph.Api.AgentProxy
import Dockgraph.Api.RequestRates
import Dockgraph.Collector.Stats
import Dockgraph.Collector.NodeAggregates
import Dockgraph.Collector.SampleMerge
import Dockgraph.Collector.StatsHistory
import Dockgraph.Collector.HistoryOrder
import Dockgraph.Collector.StatsCalc
import Dockgraph.Frontend.ActiveTab
import Dockgraph.Library.SortBy
import Dockgraph.Collector.Ports
import Dockgraph.Collector.DockerSnapshot
import Dockgraph.Collector.SwarmSnapshot
import Dockgraph.Collector.SnapshotIDs
import Dockgraph.Collector.NodeCount
import Dockgraph.Collector.ExtendsBudget
import Dockgraph.Collector.ExtendsExact
import Dockgraph.Library.FailingLoop
import Dockgraph.Collector.ComposeInclude
import Dockgraph.Collector.Downsampling
import Dockgraph.Collector.HistoryQuery
import Dockgraph.Auth.ClientIP
import Dockgraph.Library.NetIP
import Dockgraph.Auth.BucketTable
import Dockgraph.Auth.TrackedClients
import Dockgraph.Collector.IncludeChains
import Dockgraph.Collector.IncludeLimits
import Dockgraph.Collector.SwarmNodes
import Dockgraph.Api.FollowerTracking
import Dockgraph.Collector.ExtendsChains
import Dockgraph.Secrets.JSONMembers
import Dockgraph.Frontend.Flow
import Dockgraph.Frontend.SelectionGraph
import Dockgraph.Frontend.Highlighting
import Dockgraph.Frontend.GraphTransform
import Dockgraph.Frontend.NetworkView
import Dockgraph.Frontend.NodeTransform
import Dockgraph.Frontend.NodeBoxes
import Dockgraph.Frontend.NodeView
import Dockgraph.Frontend.NodeLayout
import Dockgraph.Frontend.NodeGrid
import Dockgraph.Frontend.LayoutApart
import Dockgraph.Frontend.ElkGraph
import Dockgraph.Frontend.ElkConserved
import Dockgraph.Frontend.EdgePaths
import Dockgraph.Library.CodeUnits
import Dockgraph.Frontend.GraphLayout
import Dockgraph.Frontend.TopologyKey
import Dockgraph.Frontend.TopologySound
import Dockgraph.Collector.EventHistory
import Dockgraph.Collector.SelfServices
import Dockgraph.Server.EventFeed
import Dockgraph.Auth.Password
import Dockgraph.Auth.Gate
import Dockgraph.Api.RemoteMask
import Dockgraph.Library.Http
import Dockgraph.Api.AgentResponse
import Dockgraph.Frontend.PollingFetch
import Dockgraph.Api.Hosts
import Dockgraph.Api.RemoteVolumes
import Dockgraph.Collector.ComposeCollector
import Dockgraph.Collector.ComposeSnapshot
import Dockgraph.Collector.DockerCollector
import Dockgraph.Frontend.Stack
import Dockgraph.AgentAuth.Overtaking
