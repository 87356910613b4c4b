import RingOverlay.Bytes.BigEndian
import RingOverlay.Bytes.Hex
import RingOverlay.Text.Utf8
import RingOverlay.Number.Float
import RingOverlay.Number.Shortest
import RingOverlay.Random.Words
import RingOverlay.Data.Reading
import RingOverlay.Address.Class
import RingOverlay.Address.Ring
import RingOverlay.Address.Basic
import RingOverlay.Address.Codec
import RingOverlay.Address.Text
import RingOverlay.Address.Seed
import RingOverlay.Packet.Basic
import RingOverlay.Packet.Codec
import RingOverlay.Message.ConnectRequest
import RingOverlay.Message.Discovery
import RingOverlay.Table.Feed
import RingOverlay.Table.History
import RingOverlay.Table.Subscription
import RingOverlay.Link.Request
import RingOverlay.Rpc.Registry
import RingOverlay.Discovery.Interface
import RingOverlay.Routing.Network
import RingOverlay.Connection.Edges
import RingOverlay.Handshake.Session
import RingOverlay.Link.Attempts
import RingOverlay.Scripted.Stage
import RingOverlay.Config.Shape
import RingOverlay.Overlord.Leaf
import RingOverlay.Overlord.Unstructured
import RingOverlay.Overlord.Managed
import RingOverlay.Overlord.Discovery
import RingOverlay.Node.Steps
import RingOverlay.Config.Loading
import RingOverlay.Proofs.Table.Search
import RingOverlay.Proofs.Table.Arrangement
import RingOverlay.Link.Setup
import RingOverlay.Proofs.Address.Distance
import RingOverlay.Proofs.Link.Attempts
import RingOverlay.Proofs.Link.Conservation
import RingOverlay.Proofs.Routing.Descent
import RingOverlay.Proofs.Routing.ClosedRing
import RingOverlay.Proofs.Routing.Wandering
import RingOverlay.Proofs.Routing.Circling
import RingOverlay.Proofs.Routing.Coverage
import RingOverlay.Proofs.Packet.Codec
import RingOverlay.Proofs.Packet.FloodDestination
import RingOverlay.Proofs.Handshake.Outcome
import RingOverlay.Proofs.Node.Retries
import RingOverlay.Proofs.Node.Lateness
import RingOverlay.Proofs.Node.Startup
import RingOverlay.Proofs.Node.Unpinning
import RingOverlay.Proofs.Table.Replay
import RingOverlay.Proofs.Node.Answering
import RingOverlay.Proofs.Node.Agreement
import RingOverlay.Proofs.Node.Linking
import RingOverlay.Proofs.Node.Overshoot
import RingOverlay.Proofs.Node.Pacing
import RingOverlay.Proofs.Node.Walks
import RingOverlay.Proofs.Node.Dormancy
import RingOverlay.Proofs.Node.Away
import RingOverlay.Proofs.Node.Remembering
import RingOverlay.Proofs.Node.Sharing
import RingOverlay.Proofs.Message.Spelling
import RingOverlay.Proofs.Address.Betweenness
import RingOverlay.Proofs.Address.Metric
import RingOverlay.Proofs.Node.Queries
import RingOverlay.Proofs.Node.Gathering
import RingOverlay.Proofs.Table.Cycle
import RingOverlay.Proofs.Routing.NearestFirst
import RingOverlay.Proofs.Routing.Sender
import RingOverlay.Proofs.Config.Loading
import RingOverlay.Proofs.Node.Trimming
import RingOverlay.Proofs.Address.TextForm
import RingOverlay.Proofs.Node.Backoff
import RingOverlay.Proofs.Node.Advertising
import RingOverlay.Proofs.Config.Precedence
import RingOverlay.Proofs.Address.ClassTag
