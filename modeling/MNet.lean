import MNet.Core.Progress
import MNet.Moves.Spec
import MNet.Flush
import MNet.Protocol
import MNet.Tls.Owned
import MNet.Tls.Balance
import MNet.Sockets
import MNet.Teardown
import MNet.Stream
import MNet.HangUp
import MNet.Cursor
import MNet.Registry
import MNet.Queue
import MNet.Delivery
import MNet.Failures
import MNet.Interest
import MNet.WriteInterest
import MNet.Stale
import MNet.Silent
import MNet.Masks
import MNet.Records
import MNet.Opaque
import MNet.Slots
import MNet.Cached
import MNet.SkipList.Refine
import MNet.Dns.Owners
import MNet.Counters
import MNet.Retry
import MNet.Reset
import MNet.Release
import MNet.Protocol.Shutdown
import MNet.Rounds
import MNet.Dns.Writes
import MNet.ChannAddr
import MNet.Dns.Untouched
import MNet.Dns.Waking
import MNet.Datagrams
import MNet.Backed
import MNet.Occasions
import MNet.Balancer
import MNet.Wepoll.TreeMap
import MNet.Wepoll.Queue
import MNet.Wepoll.PortDelete
import MNet.Wepoll.Reflock
import MNet.Unheard
import MNet.Berths
import MNet.Blocked
import MNet.Resume
import MNet.Attuned
