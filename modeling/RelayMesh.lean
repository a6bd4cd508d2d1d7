import RelayMesh.Action
import RelayMesh.Client
import RelayMesh.Config
import RelayMesh.Election
import RelayMesh.Exclusion
import RelayMesh.Fault
import RelayMesh.Frame
import RelayMesh.Frame.Reader
import RelayMesh.Id
import RelayMesh.Interception
import RelayMesh.Main
import RelayMesh.Mesh.Basic
import RelayMesh.Mesh.Step
import RelayMesh.Message
import RelayMesh.MessageType
import RelayMesh.Outbox
import RelayMesh.Program
import RelayMesh.Proofs.Chat.Arrivals
import RelayMesh.Proofs.Chat.AtMostOnce
import RelayMesh.Proofs.Chat.Channels
import RelayMesh.Proofs.Chat.Clients
import RelayMesh.Proofs.Chat.Delivery
import RelayMesh.Proofs.Chat.ExactlyOnce
import RelayMesh.Proofs.Chat.Flow
import RelayMesh.Proofs.Chat.Forum
import RelayMesh.Proofs.Chat.Numbering
import RelayMesh.Proofs.Chat.Relay
import RelayMesh.Proofs.Chat.Setup
import RelayMesh.Proofs.Chat.Sizes
import RelayMesh.Proofs.Chat.Talk
import RelayMesh.Proofs.Election.Agreement
import RelayMesh.Proofs.Election.Completion
import RelayMesh.Proofs.Election.Late
import RelayMesh.Proofs.Election.Leading
import RelayMesh.Proofs.Election.Minting
import RelayMesh.Proofs.Election.Order
import RelayMesh.Proofs.Election.Output
import RelayMesh.Proofs.Election.Spread
import RelayMesh.Proofs.Election.Steps
import RelayMesh.Proofs.Election.Traffic
import RelayMesh.Proofs.Election.Wave
import RelayMesh.Proofs.Exclusion.Custody
import RelayMesh.Proofs.Exclusion.Flooding
import RelayMesh.Proofs.Exclusion.Ledger
import RelayMesh.Proofs.Exclusion.Pool
import RelayMesh.Proofs.Exclusion.Progress
import RelayMesh.Proofs.Exclusion.Relaying
import RelayMesh.Proofs.Exclusion.Steps
import RelayMesh.Proofs.Frame.Chunks
import RelayMesh.Proofs.Frame.Writing
import RelayMesh.Proofs.Mesh.Alongside
import RelayMesh.Proofs.Mesh.Answers
import RelayMesh.Proofs.Mesh.Calm
import RelayMesh.Proofs.Mesh.Causes
import RelayMesh.Proofs.Mesh.Creditors
import RelayMesh.Proofs.Mesh.Discovery
import RelayMesh.Proofs.Mesh.Enrolled
import RelayMesh.Proofs.Mesh.Events
import RelayMesh.Proofs.Mesh.Fixtures
import RelayMesh.Proofs.Mesh.Forwarding
import RelayMesh.Proofs.Mesh.Gossip
import RelayMesh.Proofs.Mesh.Guidance
import RelayMesh.Proofs.Mesh.Identities
import RelayMesh.Proofs.Mesh.Introductions
import RelayMesh.Proofs.Mesh.Moves
import RelayMesh.Proofs.Mesh.Newcomers
import RelayMesh.Proofs.Mesh.Outsiders
import RelayMesh.Proofs.Mesh.Passing
import RelayMesh.Proofs.Mesh.Queues
import RelayMesh.Proofs.Mesh.Sane
import RelayMesh.Proofs.Mesh.Silence
import RelayMesh.Proofs.Mesh.Sound
import RelayMesh.Proofs.Mesh.Space
import RelayMesh.Proofs.Mesh.Trails
import RelayMesh.Proofs.Mesh.Turns
import RelayMesh.Proofs.Overlay.Order
import RelayMesh.Proofs.Overlay.Projection
import RelayMesh.Proofs.Overlay.Run
import RelayMesh.Proofs.Overlay.Topology
import RelayMesh.Proofs.Routes.Learning
import RelayMesh.Proofs.Routes.Minima
import RelayMesh.Proofs.Routes.NextHops
import RelayMesh.Proofs.Server.Acts
import RelayMesh.Proofs.Server.Among
import RelayMesh.Proofs.Server.Calls
import RelayMesh.Proofs.Server.Debts
import RelayMesh.Proofs.Server.Delays
import RelayMesh.Proofs.Server.Handover
import RelayMesh.Proofs.Server.Harmless
import RelayMesh.Proofs.Server.Parallel
import RelayMesh.Proofs.Server.Refusals
import RelayMesh.Proofs.Server.Sends
import RelayMesh.Proofs.Server.Stays
import RelayMesh.Proofs.Server.Steps
import RelayMesh.Proofs.Server.Turns
import RelayMesh.Proofs.Startup.Arguments
import RelayMesh.Proofs.Wire.Normal
import RelayMesh.Proofs.Wire.Reading
import RelayMesh.Proofs.Wire.RoundTrip
import RelayMesh.Routes
import RelayMesh.Server.Actions
import RelayMesh.Server.Basic
import RelayMesh.Server.Command
import RelayMesh.Server.Events
import RelayMesh.Session
import RelayMesh.Site
import RelayMesh.SortedMap
import RelayMesh.Startup
import RelayMesh.Station
import RelayMesh.Text.Blank
import RelayMesh.Text.Decimal
import RelayMesh.Text.Invisible
import RelayMesh.Text.Quoted
import RelayMesh.Wire.Payload
import RelayMesh.Wire.Varint
