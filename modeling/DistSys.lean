import DistSys.Lib.Runs
import DistSys.Lib.Ballots
import DistSys.Lib.Reigns
import DistSys.Lib.Chronicle
import DistSys.Lib.Completeness
import DistSys.Lib.Maps
import DistSys.Lib.Transfer
import DistSys.Lib.Cover
import DistSys.Lib.Pipes
import DistSys.Lib.Gossip
import DistSys.Lib.Registry
import DistSys.Consensus.Peer
import DistSys.Consensus.Cluster
import DistSys.Consensus.Steps
import DistSys.Consensus.Conditions
import DistSys.Consensus.Votes
import DistSys.Consensus.Broadcast
import DistSys.Consensus.Apply
import DistSys.Consensus.History
import DistSys.Consensus.LogMatching
import DistSys.Consensus.Commit
import DistSys.Consensus.Safety
import DistSys.Consensus.Bounds
import DistSys.Consensus.Locks
import DistSys.Lsp.Message
import DistSys.Lsp.Endpoint
import DistSys.Lsp.Refine
import DistSys.Lsp.Link
import DistSys.Lsp.Client
import DistSys.Lsp.Server
import DistSys.Lsp.Session
import DistSys.Lsp.Table
import DistSys.Lsp.Results
import DistSys.Lsp.Loops
import DistSys.Lsp.Datagrams
import DistSys.Mining.Server
import DistSys.Mining.Moves
import DistSys.Mining.Turns
import DistSys.Mining.Disconnects
import DistSys.Mining.Coverage
import DistSys.Mining.Answers
import DistSys.Mining.Minimum
import DistSys.Actor.System
import DistSys.Actor.Net
import DistSys.Actor.Delivery
import DistSys.Actor.Reliable
import DistSys.Kv.QueryActor
import DistSys.Kv.World
import DistSys.Kv.Steps
import DistSys.Kv.Changes
import DistSys.Kv.Replicas
import DistSys.Kv.Members
import DistSys.Kv.Convergence
import DistSys.Kv.Rpc
import DistSys.Kv.Linearizable
import DistSys.Consensus.LogRules
import DistSys.Lsp.Calls
import DistSys.Lsp.Shutdown
import DistSys.Lsp.Window
import DistSys.Lsp.Handshake
import DistSys.Lib.Channels
import DistSys.Store.Requests
import DistSys.Store.Server
import DistSys.Store.Counts
import DistSys.Store.Clients
import DistSys.Store.Closing
import DistSys.Game.Cmud
import DistSys.Game.Isolation
import DistSys.Lsp.Ends
import DistSys.Lsp.Cumulative
import DistSys.Lsp.Backoff
import DistSys.Lsp.Damage
import DistSys.Mining.Chunks
import DistSys.Kv.Merging
import DistSys.Kv.Quiescence
import DistSys.Actor.Threads
import DistSys.Store.Replies
import DistSys.Store.Accounts
import DistSys.Store.Parsing
import DistSys.Game.Ledger
import DistSys.Game.Inventory
import DistSys.Game.Repairs
import DistSys.Game.Sessions
import DistSys.Game.Fortune
import DistSys.Lib.Simulation
import DistSys.Rpc.Network
import DistSys.Rpc.Calls
import DistSys.Rpc.Delivery
import DistSys.Consensus.OverRpc
import DistSys.Consensus.RpcRefines
import DistSys.Kv.Origin
import DistSys.Consensus.Slices
