import Gateway.Protocol.PacketStore
import Gateway.Routing.CidrValidation
import Gateway.Auth.Forgery
import Gateway.Auth.ConfiguredSecret
import Gateway.Config.FailedLoad
import Gateway.Config.Validation
import Gateway.Config.RoundTrip
import Gateway.Logging.LogConservation
import Gateway.Logging.SlotOwnership
import Gateway.Network.EchoAccounting
import Gateway.Network.Lifecycle
import Gateway.Network.IdlePurge
import Gateway.Network.Ownership
import Gateway.Network.Dissection
import Gateway.RateLimit.Polling
import Gateway.RateLimit.Width
import Gateway.Concurrency.Wakeup
import Gateway.Echo.Chunking
import Gateway.Echo.BufferReads
import Gateway.Benchmark.LatencyTracker
import Gateway.Telemetry.CpuUsage
import Gateway.Service.EchoServers
import Gateway.Benchmark.ClientRuns
import Gateway.Network.UdpServer
import Gateway.Echo.SocketPair
import Gateway.Auth.SessionTable
import Gateway.Telemetry.Dashboard
import Gateway.Routing.Updates
import Gateway.RateLimit.Burst
import Gateway.Logging.ConsoleText
import Gateway.Telemetry.DropRate
import Gateway.RateLimit.Conformance
