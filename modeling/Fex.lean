import Fex.Lib.BitStream
import Fex.Lib.BlockList
import Fex.Lib.Buffer
import Fex.Lib.CInt
import Fex.Lib.PrefixTree
import Fex.Lib.Run
import Fex.Lib.Runs
import Fex.Lib.Masks
import Fex.Base.Random
import Fex.Lib.SwapRemove
import Fex.Lib.Loop
import Fex.Lib.Window
import Fex.Engine.RingBuffer
import Fex.Engine.RingBuffer.Tiling
import Fex.Engine.RingBuffer.Invariant
import Fex.Engine.RingBuffer.Queue
import Fex.Engine.RingBuffer.Runs
import Fex.Engine.RingBuffer.Walk
import Fex.Engine.RingBuffer.Backward
import Fex.Engine.Huffman
import Fex.Engine.Huffman.Tree
import Fex.Engine.Huffman.Codec
import Fex.Engine.Huffman.Truncated
import Fex.Engine.Network
import Fex.Engine.Network.Wire
import Fex.Engine.Connection
import Fex.Engine.Connection.Bounds
import Fex.Engine.Connection.Frames
import Fex.Engine.Connection.Queueing
import Fex.Engine.Connection.Framing
import Fex.Engine.Connection.Sending
import Fex.Engine.Connection.Feeding
import Fex.Engine.Connection.Link
import Fex.Engine.Connection.Tracking
import Fex.Engine.Connection.SenderSide
import Fex.Engine.Connection.ReceiverSide
import Fex.Engine.Connection.Delivery
import Fex.Engine.Connection.Messages
import Fex.Engine.Connection.Retention
import Fex.Lib.Links
import Fex.Engine.SnapIdPool
import Fex.Engine.SnapIdPool.Runs
import Fex.Lib.Cuts
import Fex.Lib.DList
import Fex.Lib.Lex
import Fex.Lib.Memory
import Fex.Lib.Ints
import Fex.Lib.Text
import Fex.Engine.NetBan
import Fex.Engine.NetBan.Pool
import Fex.Engine.NetBan.Runs
import Fex.Engine.NetBan.Lookup
import Fex.Engine.NetBan.Bans
import Fex.Engine.Snapshot
import Fex.Engine.Snapshot.Layout
import Fex.Engine.Snapshot.Builder
import Fex.Engine.Snapshot.Uuids
import Fex.Engine.Snapshot.Find
import Fex.Engine.Snapshot.Lookup
import Fex.Engine.SnapshotDelta
import Fex.Engine.Snapshot.Hashing
import Fex.Engine.Snapshot.Create
import Fex.Engine.Snapshot.Built
import Fex.Engine.Snapshot.Unpack
import Fex.Engine.Snapshot.Loops
import Fex.Engine.Snapshot.RoundTrip
import Fex.Engine.Snapshot.Hostile
import Fex.Mastersrv.Addr
import Fex.Mastersrv.Servers
import Fex.Mastersrv.Servers.Consistency
import Fex.Mastersrv.Servers.Dumps
import Fex.Mastersrv.Servers.Merging
import Fex.Mastersrv.Register
import Fex.Mastersrv.Register.Runs
import Fex.Base.Utf8
import Fex.Base.Strings
import Fex.Base.Characters
import Fex.Engine.Packer
import Fex.Engine.Unpacker
import Fex.Engine.Packer.Fields
import Fex.Engine.Packer.RoundTrip
import Fex.Engine.Server
import Fex.Engine.Server.Maplist
import Fex.Engine.Server.RconSync
import Fex.Engine.Console
import Fex.Engine.Console.Scanning
import Fex.Engine.Console.Quoting
import Fex.Engine.Config
import Fex.Engine.Config.GameSettings
import Fex.Engine.ServerInfo
import Fex.Engine.Stun
import Fex.Engine.ConsoleConnection
import Fex.Engine.Datafile
import Fex.Engine.Map
import Fex.Engine.Map.Sources
import Fex.Engine.Map.Layers
import Fex.Engine.Map.Load
import Fex.Engine.Favorites
import Fex.Engine.Favorites.Index
import Fex.Engine.Favorites.Runs
import Fex.Engine.MapDownload
import Fex.Engine.MapDownload.Chunks
import Fex.Engine.MapDownload.Transfer
import Fex.Engine.MapDownload.Invariant
import Fex.Engine.MapDownload.Runs
import Fex.Lib.Positions
import Fex.Editor.History
import Fex.Editor.Replay
import Fex.Editor.DeleteQuads
import Fex.Lib.Grid
import Fex.Lib.History
import Fex.Game.MapItems
import Fex.Game.Collision
import Fex.Editor.Brush
import Fex.Editor.TileHistory
import Fex.Editor.AutoMap
import Fex.Editor.AutoMap.Region
import Fex.Editor.AutoMap.Inside
import Fex.Engine.Auth
import Fex.Engine.Auth.Keys
import Fex.Engine.Auth.Runs
import Fex.Client.WarList
import Fex.Client.Webhooks
import Fex.Client.ChatBinds
import Fex.Client.WarList.Players
import Fex.Base.Decoding
import Fex.Base.Truncation
import Fex.Base.Offsets
import Fex.Base.Filenames
import Fex.Base.Base64
import Fex.Engine.Compression
import Fex.Engine.Packer.Bounds
import Fex.Engine.Datafile.Cache
import Fex.Engine.Datafile.Open
import Fex.Engine.Datafile.Sound
import Fex.Engine.Demo
import Fex.Engine.Demo.KeyFrames
import Fex.Engine.Demo.Replay
import Fex.Engine.Demo.Playback
import Fex.Lib.Cells
import Fex.Lib.Intervals
import Fex.Lib.EditDistance
import Fex.Base.Distance
import Fex.Base.Confusables
import Fex.Engine.Ghost
import Fex.Engine.Ghost.Recording
import Fex.Engine.Ghost.Playback
import Fex.Engine.Ghost.Files
import Fex.Engine.NetBan.Text
import Fex.Lib.Csv
import Fex.Engine.Csv
import Fex.Engine.LineReader
import Fex.Engine.UuidManager
import Fex.Engine.Snapshot.Memory
import Fex.Engine.Snapshot.Delivery
import Fex.Lib.Fragments
import Fex.Engine.Snapshot.Transport
import Fex.Engine.Snapshot.Transported
import Fex.Engine.Snapshot.Carried
import Fex.Game.TeeHistorian
import Fex.Game.TeeHistorian.Decoder
import Fex.Game.TeeHistorian.Stream
import Fex.Game.TeeHistorian.Packets
import Fex.Game.TeeHistorian.Ticks
import Fex.Game.TeeHistorian.Invariant
import Fex.Game.TeeHistorian.Runs
import Fex.Game.Teams
import Fex.Game.Teams.Membership
import Fex.Lib.Segments
import Fex.Engine.Console.Commands
import Fex.Engine.Console.Sorting
import Fex.Engine.Console.Registered
import Fex.Lib.Json
import Fex.Lib.JsonInverse
import Fex.Engine.JsonWriter
import Fex.Engine.Server.Input
import Fex.Game.SaveTeam
import Fex.Game.SaveTeam.Lines
import Fex.Game.SaveTeam.Numbers
import Fex.Game.SaveTeam.RoundTrip
import Fex.Game.SaveTeam.Accepted
import Fex.Game.SaveTeam.Players
import Fex.Engine.NameBans
import Fex.Engine.Server.LogLine
import Fex.Engine.Console.Saved
import Fex.Client.QuickActions
import Fex.Client.TempLists
import Fex.Client.WarLog
import Fex.Client.LineInput
import Fex.Client.LineInput.Editing
import Fex.Client.LineInput.Moves
import Fex.Client.LineInput.Keys
import Fex.Client.LineInput.Runs
import Fex.Client.SavedBinds.Wheel
