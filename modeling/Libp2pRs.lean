import Libp2pRs.Kad.QueryResult
import Libp2pRs.Kad.FindClosest
import Libp2pRs.Kad.Pinning
import Libp2pRs.Kad.Providers
import Libp2pRs.Kad.RefreshProgress
import Libp2pRs.Kad.Wire
import Libp2pRs.Gossip.BackoffRuns
import Libp2pRs.Gossip.Filtering
import Libp2pRs.Gossip.Pruning
import Libp2pRs.Gossip.Degree
import Libp2pRs.Gossip.Validation
import Libp2pRs.Gossip.Duplicates
import Libp2pRs.Gossip.Wire
import Libp2pRs.Gossip.Faults
import Libp2pRs.Gossip.History
import Libp2pRs.Gossip.Fanout
import Libp2pRs.Gossip.PeerEvents
import Libp2pRs.Core.Multistream.Negotiator
import Libp2pRs.Addr.TextRoundTrip
import Libp2pRs.Core.Pnet
import Libp2pRs.Core.ReadBounds
import Libp2pRs.Swarm.Notices
import Libp2pRs.Swarm.Bans
import Libp2pRs.Mplex.Transfer
import Libp2pRs.Noise.Handshake
import Libp2pRs.Secio.Negotiation
import Libp2pRs.Mplex.Numbers
import Libp2pRs.Mplex.Shutdown
import Libp2pRs.Core.AddressBook
import Libp2pRs.Addr.FromUrl
import Libp2pRs.Gossip.FanoutPeers
import Libp2pRs.Gossip.Offering
import Libp2pRs.Kad.Ranges
import Libp2pRs.Core.PreSharedKey
import Libp2pRs.Mdns.Dns
import Libp2pRs.Noise.Legacy
import Libp2pRs.Runtime.TaskLimiter
