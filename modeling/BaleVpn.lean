import BaleVpn.Lib.Base128
import BaleVpn.Lib.Decimal
import BaleVpn.Lib.Items
import BaleVpn.Lib.Log
import BaleVpn.Lib.OnesComplement
import BaleVpn.Lib.Serial
import BaleVpn.Lib.Utf8
import BaleVpn.Net.RewriteFrame
import BaleVpn.Carrier.Survive
import BaleVpn.Carrier.Wakeup
import BaleVpn.Dispatch.Backpressure
import BaleVpn.Dispatch.FragMemory
import BaleVpn.Dispatch.UdpReply
import BaleVpn.Dispatch.Reactor
import BaleVpn.Dispatch.UdpLength
import BaleVpn.Dispatch.UdpRecv
import BaleVpn.Server.Leases
import BaleVpn.Server.LeaseReclaim
import BaleVpn.Server.TunQueue
import BaleVpn.Socks.FrontEnds
import BaleVpn.Tcp.Abort
import BaleVpn.Tcp.AdvertisedWindow
import BaleVpn.Tcp.DupAcks
import BaleVpn.Tcp.FinAccept
import BaleVpn.Tcp.FinOrder
import BaleVpn.Tcp.Reassembly
import BaleVpn.Tcp.RecvWindow
import BaleVpn.Tcp.RetxQueue
import BaleVpn.Tcp.Reuse
import BaleVpn.Tcp.Stimulus
import BaleVpn.Tcp.WellFormed
import BaleVpn.Tunnel.Teardown
import BaleVpn.Tunnel.BringUp
import BaleVpn.Tunnel.Terminal
import BaleVpn.Tunnel.Inbound
import BaleVpn.Tunnel.QuicSlot
import BaleVpn.Tunnel.Roster
import BaleVpn.Daemon.Capacity
import BaleVpn.Daemon.Slots
import BaleVpn.Daemon.Replace
import BaleVpn.Daemon.Admission
import BaleVpn.Daemon.Config
import BaleVpn.Daemon.TokenStore
import BaleVpn.Signaling.Activation
import BaleVpn.Signaling.Backoff
import BaleVpn.Signaling.Base64
import BaleVpn.Signaling.Jwt
import BaleVpn.Signaling.Decoders
import BaleVpn.Signaling.Walks
import BaleVpn.Signaling.EventsSink
import BaleVpn.Signaling.GrpcWeb
import BaleVpn.Signaling.HangUp
import BaleVpn.Signaling.Names
import BaleVpn.Signaling.Outgoing
import BaleVpn.Signaling.Paired
import BaleVpn.Signaling.Peers
import BaleVpn.Signaling.Reconnect
import BaleVpn.Signaling.Replies
import BaleVpn.Signaling.Subscription
import BaleVpn.Signaling.Token
import BaleVpn.Signaling.SessionCount
import BaleVpn.Socks.Delivery
import BaleVpn.Socks.Progress
import BaleVpn.Dispatch.Sessions
import BaleVpn.Net.Icmpv6
import BaleVpn.Tunnel.Reads
import BaleVpn.Carrier.Datagrams
import BaleVpn.Signaling.Written
import BaleVpn.Signaling.Frames
import BaleVpn.Signaling.Contacts
import BaleVpn.Tcp.Ranges
import BaleVpn.Signaling.Events
import BaleVpn.Daemon.RunMode
import BaleVpn.Signaling.SignIn
