import Qeli.Tcp.Slots
import Qeli.Udp.Agreement
import Qeli.Packet.Bounds
import Qeli.Mux.Lossless
import Qeli.Mux.Limits
import Qeli.Mux.Carrier
import Qeli.DataFrag.RoundTrip
import Qeli.Control.Delivery
import Qeli.Pool.Frame
import Qeli.Dhcp.Exact
import Qeli.Reality.ReplayGuard
import Qeli.Config.Injection
import Qeli.Ip.Safety
import Qeli.Route.Canonical
import Qeli.Route.Pushed
import Qeli.Acl.Law
import Qeli.Session.Ownership
import Qeli.Session.Placement
import Qeli.Egress.Publication
import Qeli.Udp.Candidacy
import Qeli.Capability.Trailer
import Qeli.Control.Safety
import Qeli.UdpFrag.Handshake
import Qeli.Quic.Envelope
import Qeli.Dns.Names
import Qeli.Dns.CacheBudget
import Qeli.Dns.LocalReply
import Qeli.Limits.FailedAuth
import Qeli.Web.Revocation
import Qeli.Transport.BufferPool
import Qeli.Journal.Durable
