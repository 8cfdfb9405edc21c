import LanguageClient.Rpc.Text
import LanguageClient.Transport.Framing
import LanguageClient.Transport.WebSocket
import LanguageClient.Path
import LanguageClient.Session.Documents
import LanguageClient.Session.Capabilities
import LanguageClient.Session.Handshake
import LanguageClient.Schema.Features
import LanguageClient.Schema.ServerCapabilities
import LanguageClient.Config.Load
import LanguageClient.Client.New
import LanguageClient.Rehearsal.Report
import LanguageClient.Rehearsal.Exchange
import LanguageClient.Rehearsal.Surroundings
import LanguageClient.CommandLine.Commands
import LanguageClient.Main
import LanguageClient.Proofs.FramingRoundTrip
import LanguageClient.Proofs.HeaderSections
import LanguageClient.Proofs.FrameTruncation
import LanguageClient.Proofs.StreamContinuation
import LanguageClient.Proofs.Settlement
import LanguageClient.Proofs.ConnectionEvents
import LanguageClient.Proofs.DocumentHistory
import LanguageClient.Proofs.Schedule
import LanguageClient.Proofs.MessageGrammar
import LanguageClient.Proofs.ValueRoundTrip
import LanguageClient.Proofs.ReadingInContext
import LanguageClient.Proofs.CanonicalForm
import LanguageClient.Proofs.MessageRoundTrip
import LanguageClient.Proofs.StaleAttempts
import LanguageClient.Proofs.Farewells
import LanguageClient.Proofs.RequestFrames
import LanguageClient.Proofs.WireDiscipline
import LanguageClient.Proofs.Watchdogs
import LanguageClient.Proofs.InboundFrames
import LanguageClient.Proofs.Passage
import LanguageClient.Proofs.Representation
import LanguageClient.Proofs.OutboundFrames
import LanguageClient.Proofs.Apart
import LanguageClient.Proofs.Batches
import LanguageClient.Proofs.CompletionOrder
import LanguageClient.Proofs.NotificationOrder
import LanguageClient.Proofs.Lifecycle
import LanguageClient.Proofs.HandshakeOrder
import LanguageClient.Proofs.Tending
import LanguageClient.Proofs.LaunchPhases
import LanguageClient.Proofs.LaunchConnection
import LanguageClient.Proofs.SessionStart
import LanguageClient.Proofs.TextMirror
import LanguageClient.Proofs.ConfigRoundTrip
import LanguageClient.Proofs.OneWayCalls
import LanguageClient.Proofs.OperationTurns
import LanguageClient.Proofs.Negotiation
import LanguageClient.Proofs.Shutdown
import LanguageClient.Proofs.CallsSideBySide
import LanguageClient.Proofs.GivingUp
import LanguageClient.Proofs.ConnectionLoss
import LanguageClient.Proofs.ConfigDefaults
import LanguageClient.Proofs.FileUris
import LanguageClient.Proofs.KeepaliveTimes
import LanguageClient.Proofs.LoadedConfigs
import LanguageClient.Proofs.RegistryHistory
import LanguageClient.Proofs.CapabilityReadings
import LanguageClient.Proofs.SocketMessages
import LanguageClient.Proofs.EditorsSideBySide
import LanguageClient.Proofs.DocumentLanguages
