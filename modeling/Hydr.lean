import Hydr.Address
import Hydr.AnnouncedLength
import Hydr.CertConvergence
import Hydr.CertReload
import Hydr.ClientAcceptance
import Hydr.ClientReconnect
import Hydr.Congestion
import Hydr.CreditWait
import Hydr.Fingerprint
import Hydr.FirstStart
import Hydr.Frame
import Hydr.Keystream
import Hydr.Library.BigEndian
import Hydr.Library.Checked
import Hydr.Library.Chunks
import Hydr.Library.Dialogue
import Hydr.Library.Hexadecimal
import Hydr.Library.Mealy
import Hydr.Library.Notifier
import Hydr.Library.Path
import Hydr.Library.PrefixExact
import Hydr.Library.Recent
import Hydr.Library.Row
import Hydr.Library.Segment
import Hydr.Library.Table
import Hydr.Library.Transition
import Hydr.Library.Window
import Hydr.MalformedItems
import Hydr.Message
import Hydr.NonceHistory
import Hydr.ObfuscatedChannel
import Hydr.Obfuscation
import Hydr.ObfuscationIntegrity
import Hydr.QuicEvents
import Hydr.QuicFraming
import Hydr.QuicHandshake
import Hydr.QuicStream
import Hydr.RateLimit
import Hydr.RateWindow
import Hydr.ReconnectSafety
import Hydr.Relay
import Hydr.RelayFrames
import Hydr.ReplayAgreement
import Hydr.ReplayDelivery
import Hydr.ReplayFilter
import Hydr.ReplayMemory
import Hydr.ReplayWindow
import Hydr.SafeDecoding
import Hydr.Socks5
import Hydr.Socks5Format
import Hydr.Socks5Login
import Hydr.Socks5Userpass
import Hydr.StreamCredits
import Hydr.StreamDeadlock
import Hydr.StreamDelivery
import Hydr.StreamEnding
import Hydr.StreamFlow
import Hydr.StreamHalfClose
import Hydr.StreamIds
import Hydr.StreamLiveness
import Hydr.StreamOpening
import Hydr.StreamOrder
import Hydr.StreamPath
import Hydr.StreamProgress
import Hydr.StreamReceiver
import Hydr.StreamRegistration
import Hydr.StreamSender
import Hydr.StreamWindow
import Hydr.TunnelClose
import Hydr.TunnelStreams
import Hydr.Udp
import Hydr.UdpAssociation
import Hydr.UdpCleanup
import Hydr.UdpExpiry
import Hydr.UdpIsolation
import Hydr.UdpLiveness
import Hydr.UdpRecreation
import Hydr.UdpRelay
import Hydr.UdpRoundTrip
import Hydr.UdpSender
import Hydr.UdpSessionIds
import Hydr.UdpTable
import Hydr.Utf8
import Hydr.Validation
import Hydr.ValidationFlood
import Hydr.Varint
import Hydr.VarintCodec
import Hydr.WireFormat
import Hydr.WsAgreement
import Hydr.WsAuthentication
import Hydr.WsBooks
import Hydr.WsChannel
import Hydr.WsClose
import Hydr.WsDeadlock
import Hydr.WsEndpoint
import Hydr.WsGate
import Hydr.WsHonest
import Hydr.WsIntegrity
import Hydr.WsLedger
import Hydr.WsLink
import Hydr.WsLoop
import Hydr.WsSessions
import Hydr.WsStrand
import Hydr.WsView
import Hydr.WsWaiters
