import ClusterGo.Lib.Transition
import ClusterGo.Lib.BigEndian
import ClusterGo.Lib.Fallible
import ClusterGo.Lib.Framing
import ClusterGo.Addr
import ClusterGo.Rpc.Bytes
import ClusterGo.Rpc.Message
import ClusterGo.Rpc.RoundTrip
import ClusterGo.Rpc.Faithful
import ClusterGo.Rpc.Pending
import ClusterGo.Rpc.Sequence
import ClusterGo.Codec.Buffer
import ClusterGo.Codec.Pb
import ClusterGo.Codec.Registry
import ClusterGo.Codec.SS
import ClusterGo.Codec.Payload
import ClusterGo.Codec.Frame
import ClusterGo.Codec.RoundTrip
import ClusterGo.Codec.Batch
import ClusterGo.Codec.Complete
import ClusterGo.Codec.Total
import ClusterGo.Codec.Identity
import ClusterGo.Peer.Basic
import ClusterGo.Peer.Mutex
import ClusterGo.Lib.Grouping
import ClusterGo.Lib.Keyed
import ClusterGo.Membership
import ClusterGo.NodeCache.Basic
import ClusterGo.NodeCache.Index
import ClusterGo.NodeCache.View
import ClusterGo.NodeCache.Visibility
import ClusterGo.NodeCache.Handler
import ClusterGo.Lib.Descent
import ClusterGo.Relay.Route
import ClusterGo.Relay.Basic
import ClusterGo.Relay.Bounded
import ClusterGo.Socket.Conn
import ClusterGo.Socket.Stream
import ClusterGo.Lib.Pool
import ClusterGo.Rpc.AsyncCall.Basic
import ClusterGo.Rpc.AsyncCall.Effect
import ClusterGo.Rpc.AsyncCall.Ownership
import ClusterGo.Rpc.AsyncCall.Isolation
import ClusterGo.Rpc.AsyncCall.Outcome
import ClusterGo.Rpc.SyncCall.Basic
import ClusterGo.Rpc.SyncCall.Isolation
import ClusterGo.Peer.Effect
import ClusterGo.Peer.Lifecycle
import ClusterGo.Peer.Pending
import ClusterGo.Peer.CurrentSocket
import ClusterGo.Peer.Loss
import ClusterGo.Peer.Pair.Agreement
import ClusterGo.Peer.Drain.Basic
import ClusterGo.Peer.Drain.Progress
import ClusterGo.Peer.Drain.Deadlock
import ClusterGo.Rpc.Server.Accounting
import ClusterGo.Rpc.Server.GracefulStop
import ClusterGo.Rpc.Server.Replyer
import ClusterGo.Rpc.SelfChannel
import ClusterGo.Rpc.Values.Basic
import ClusterGo.Rpc.Values.Agreement
import ClusterGo.Addr.Parse
import ClusterGo.Addr.Grammar
import ClusterGo.Membership.Record
import ClusterGo.Lib.LocalLoop
import ClusterGo.Membership.Subscriber
import ClusterGo.Membership.Redis.Script
import ClusterGo.Membership.Redis.System
import ClusterGo.Membership.Redis.MemberSync
import ClusterGo.Membership.Redis.Liveness
import ClusterGo.Membership.Redis.Recovery
import ClusterGo.Membership.Coherence
import ClusterGo.Membership.Snapshot
import ClusterGo.Membership.Etcd.Basic
import ClusterGo.Lib.Replica
import ClusterGo.Membership.Etcd.Convergence
import ClusterGo.Membership.Watch
import ClusterGo.Membership.RoundTrip
import ClusterGo.NodeCache.Tidy
import ClusterGo.NodeCache.Lists
import ClusterGo.NodeCache.Choice
import ClusterGo.Membership.Etcd.Batch
import ClusterGo.Socket.Receive
import ClusterGo.Socket.Recv
import ClusterGo.Relay.Transparent
import ClusterGo.Delivery
import ClusterGo.Lib.Select
import ClusterGo.Socket.Send
import ClusterGo.SendReport
import ClusterGo.Socket.Life.Basic
import ClusterGo.Socket.Life.Effect
import ClusterGo.Socket.Life.Callback
import ClusterGo.Socket.Life.Finish
import ClusterGo.Socket.Life.Flow
import ClusterGo.Lib.Ledger
import ClusterGo.Rpc.SyncCall.Moves
import ClusterGo.Rpc.Network.Basic
import ClusterGo.Rpc.Network.EndToEnd
import ClusterGo.Lib.Chaining
import ClusterGo.Crypto.Aes
import ClusterGo.Handshake
import ClusterGo.NodeCache.Feed
import ClusterGo.Peer.Order
import ClusterGo.Lib.WorkQueue
import ClusterGo.Rpc.Server.AsyncPool
import ClusterGo.Lifecycle.Basic
import ClusterGo.Lifecycle.Teardown
import ClusterGo.Lifecycle.Pool
import ClusterGo.Lifecycle.Hang
import ClusterGo.Streams
import ClusterGo.Dispatch
import ClusterGo.Codec.Fields
import ClusterGo.Membership.Natsjet.Connection
import ClusterGo.Rpc.SyncCall.Request
import ClusterGo.Rpc.SyncCall.Refinement
import ClusterGo.Socket.Life.Transfer
import ClusterGo.Rpc.Server.Methods
