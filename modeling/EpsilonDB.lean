import EpsilonDB.Lib.LastWriter
import EpsilonDB.Lib.RunningBest
import EpsilonDB.Lib.Selection
import EpsilonDB.Lib.Runs
import EpsilonDB.Engine.Shard
import EpsilonDB.Engine.Convergence
import EpsilonDB.Engine.Tombstones
import EpsilonDB.Socket.Cluster
import EpsilonDB.Socket.WriteQuorum
import EpsilonDB.Socket.RejectedWrite
import EpsilonDB.Socket.ReplMerge
import EpsilonDB.Socket.MergeOrder
import EpsilonDB.Socket.ReplRead
import EpsilonDB.Socket.ReadCopies
import EpsilonDB.Socket.ReadForms
import EpsilonDB.Socket.PushDown
import EpsilonDB.Socket.Gossip
import EpsilonDB.Socket.Rebalance
import EpsilonDB.Socket.Membership
import EpsilonDB.Socket.Mesh
import EpsilonDB.Socket.Compliance
import EpsilonDB.Socket.LiveOwners
import EpsilonDB.Lib.Quorums
import EpsilonDB.Socket.LocalRun
import EpsilonDB.Socket.Generations
import EpsilonDB.Socket.Leadership
import EpsilonDB.Socket.Removal
import EpsilonDB.Socket.RebalanceLock
import EpsilonDB.Socket.DataPlane
import EpsilonDB.Socket.Members
import EpsilonDB.Socket.Joining
import EpsilonDB.Socket.TableNames
import EpsilonDB.Socket.CatchUp
import EpsilonDB.Socket.CacheOpen
import EpsilonDB.Socket.PendingCache
import EpsilonDB.Lib.Files
import EpsilonDB.Socket.Snap
import EpsilonDB.Socket.SnapTraffic
import EpsilonDB.Socket.Placement
import EpsilonDB.Socket.Deployment
import EpsilonDB.Socket.ReadYourWrites
import EpsilonDB.Lib.Chunked
import EpsilonDB.Engine.Crypto
import EpsilonDB.Socket.EstpWire
import EpsilonDB.Httpd.Http
import EpsilonDB.Httpd.Reading
import EpsilonDB.Httpd.Segmentation
import EpsilonDB.Httpd.Pipelining
import EpsilonDB.Api.ReplBackend
import EpsilonDB.Api.Config
import EpsilonDB.Api.Data
import EpsilonDB.Api.AfterEvents
import EpsilonDB.Eql.WriteBack
import EpsilonDB.Api.Requests
import EpsilonDB.Api.Isolation
import EpsilonDB.Eql.Confidentiality
import EpsilonDB.Eql.Permissions
import EpsilonDB.Eql.Frame
import EpsilonDB.Lib.Edits
import EpsilonDB.Eql.Difference
import EpsilonDB.Api.GroupBits
import EpsilonDB.Api.Entities
import EpsilonDB.Api.LocalConfig
import EpsilonDB.Api.Revocation
import EpsilonDB.Api.Authenticate
import EpsilonDB.Api.Sessions
import EpsilonDB.Lib.Loops
import EpsilonDB.Lua.Values
import EpsilonDB.Lua.Fire
import EpsilonDB.Eql.PartitionWide
import EpsilonDB.Socket.GetQuorum
import EpsilonDB.Socket.Drain
import EpsilonDB.Socket.CurrentOwners
import EpsilonDB.Socket.Persistence
import EpsilonDB.Lib.Joins
import EpsilonDB.Socket.GossipJoin
import EpsilonDB.Engine.Manager
import EpsilonDB.Socket.Connections
import EpsilonDB.Engine.Detached
import EpsilonDB.Api.Restore
import EpsilonDB.Lua.StdGet
import EpsilonDB.Socket.MergeSound
import EpsilonDB.Socket.MalformedGossip
import EpsilonDB.Lib.Positional
import EpsilonDB.Socket.Slices
import EpsilonDB.Socket.Publishing
import EpsilonDB.Socket.Rotation
import EpsilonDB.Engine.JsonPath
import EpsilonDB.Engine.Listing
import EpsilonDB.Lib.Rounding
import EpsilonDB.Api.Expiry
import EpsilonDB.Lib.SqlWhere
import EpsilonDB.Engine.Filters
import EpsilonDB.Engine.FilterQuery
import EpsilonDB.Api.BodyCredentials
import EpsilonDB.Api.Accounts
import EpsilonDB.Api.Throttle
import EpsilonDB.Eql.Cursor
import EpsilonDB.Eql.RewriteBuffer
import EpsilonDB.Engine.CJson
import EpsilonDB.Eql.Envelope
import EpsilonDB.Eql.Materialize
import EpsilonDB.Eql.Lexemes
import EpsilonDB.Eql.Assignments
import EpsilonDB.Eql.Literals
import EpsilonDB.Eql.Replacement
import EpsilonDB.Eql.References
import EpsilonDB.Eql.Collection
import EpsilonDB.Engine.Aead
import EpsilonDB.Socket.ExactFrames
import EpsilonDB.Api.Passwords
import EpsilonDB.Lib.Joined
import EpsilonDB.Api.Registry
import EpsilonDB.Lua.ActionNames
import EpsilonDB.Api.DataPaths
import EpsilonDB.Lua.FailedConversions
import EpsilonDB.Lua.Entities
import EpsilonDB.Api.ReplicaEvents
import EpsilonDB.Lua.Traversal
import EpsilonDB.Lua.Conversions
import EpsilonDB.Lib.Pairings
import EpsilonDB.Lua.RoundTrips
import EpsilonDB.Lib.Keys
import EpsilonDB.Api.Masks
import EpsilonDB.Lib.BlockFold
import EpsilonDB.Lib.Sha2
import EpsilonDB.Lib.Hmac
import EpsilonDB.Engine.Sha256
import EpsilonDB.Engine.Hkdf
import EpsilonDB.Lib.Whiles
import EpsilonDB.Eql.ScanCursor
import EpsilonDB.Eql.ScanRest
import EpsilonDB.Eql.ScannersEnd
import EpsilonDB.Socket.Replicas
import EpsilonDB.Socket.Quiescence
import EpsilonDB.Httpd.Replies
import EpsilonDB.Httpd.Exchange
import EpsilonDB.Httpd.Routes
import EpsilonDB.Httpd.Workers
import EpsilonDB.Lib.BlockBuffer
import EpsilonDB.Lib.Sines
import EpsilonDB.Lib.Md5
import EpsilonDB.Engine.Md5
import EpsilonDB.Api.Surface
import EpsilonDB.Tools.Nodes
import EpsilonDB.Tools.Restore
import EpsilonDB.Tools.Backup
import EpsilonDB.Lib.Tallies
import EpsilonDB.Engine.Analytics
import EpsilonDB.Engine.Reports
import EpsilonDB.Lib.Simulations
import EpsilonDB.Api.Records
import EpsilonDB.Api.Admin
