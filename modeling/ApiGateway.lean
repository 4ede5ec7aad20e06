import ApiGateway.GreedyWalk
import ApiGateway.RouteTrie
import ApiGateway.RouteTrieShape
import ApiGateway.RouterHistory
import ApiGateway.RouterOrder
import ApiGateway.RouterSelection
import ApiGateway.RouterAtomicity
import ApiGateway.RateBound
import ApiGateway.RateInterleaving
import ApiGateway.RefillArithmetic
import ApiGateway.ChunkedReading
import ApiGateway.CrlfLines
import ApiGateway.RequestParsing
import ApiGateway.RequestFraming
import ApiGateway.RequestReading
import ApiGateway.MessageHeaders
import ApiGateway.ResponseParsing
import ApiGateway.UpstreamClient
import ApiGateway.ResponseForwarding
import ApiGateway.RequestForwarding
import ApiGateway.ConnectionPooling
import ApiGateway.ProxyForwarding
import ApiGateway.ProxySeparation
import ApiGateway.MiddlewareChain
import ApiGateway.Reactor
import ApiGateway.ReactorPhases
import ApiGateway.ReactorRuns
import ApiGateway.JsonEscape
import ApiGateway.Utf8Text
import ApiGateway.JsonStrings
import ApiGateway.JsonEscapeExact
import ApiGateway.RequestDispatching
import ApiGateway.ResponseRoundTrip
import ApiGateway.DownstreamRoundTrip
import ApiGateway.UpstreamRoundTrip
import ApiGateway.AsyncLogging
import ApiGateway.RequestTransparency
import ApiGateway.ResourceLogs
import ApiGateway.UpstreamDescriptors
import ApiGateway.UpstreamCalls
import ApiGateway.PartialWrites
import ApiGateway.ErrorContainment
import ApiGateway.ReadReadiness
import ApiGateway.ResponseFraming
import ApiGateway.UpstreamReads
import ApiGateway.ResponseCompletion
import ApiGateway.CutPositions
import ApiGateway.ResponseSegmentation
import ApiGateway.ThreadPooling
import ApiGateway.PathSplitting
import ApiGateway.PollingCredit
import ApiGateway.SortedEnumeration
import ApiGateway.PoolRuns
import ApiGateway.PoolRecency
import ApiGateway.IdleTimeout
import ApiGateway.MirroredStatus
import ApiGateway.BoundedReads
import ApiGateway.PathRestoring
import ApiGateway.LogLines
import ApiGateway.JsonDocuments
import ApiGateway.EchoDocument
import ApiGateway.PoolWakeups
import ApiGateway.GatewayLifetime
import ApiGateway.GatewayTeardown
import ApiGateway.RateWindows
import ApiGateway.WholeMessages
import ApiGateway.ForwardProgress
import ApiGateway.ClientExchanges
import ApiGateway.ResponseReadiness
import ApiGateway.ReactorProgress
import ApiGateway.GatewayChains
import ApiGateway.LoggerWakeups
import ApiGateway.ProcessDescriptors
