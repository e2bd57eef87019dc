import WutherCore.Text.Str
import WutherCore.Text.Radix
import WutherCore.Text.Trim
import WutherCore.Data.Except
import WutherCore.Data.Search
import WutherCore.Data.Trie
import WutherCore.Data.Table
import WutherCore.Data.Chain
import WutherCore.Data.Run
import WutherCore.Data.Louds
import WutherCore.Data.Framing
import WutherCore.Data.Buffer
import WutherCore.Data.AssocMap
import WutherCore.Data.FirstFit
import WutherCore.Data.Indexed
import WutherCore.Data.Moves
import WutherCore.Data.Broadcast
import WutherCore.Net.Addr
import WutherCore.Net.Prefix
import WutherCore.Net.Aggregate
import WutherCore.Net.Canonical
import WutherCore.Net.Range
import WutherCore.Logic.Kleene
import WutherCore.Ruleset.Crates
import WutherCore.Ruleset.Context
import WutherCore.Ruleset.DomainSet
import WutherCore.Ruleset.SrsDomain
import WutherCore.Ruleset.Mrs
import WutherCore.Ruleset.Ir
import WutherCore.Ruleset.Srs
import WutherCore.Ruleset.SrsSafe
import WutherCore.Ruleset.Prefixes
import WutherCore.Ruleset.Txt
import WutherCore.Ruleset.Logical
import WutherCore.Ruleset.Matcher
import WutherCore.Ruleset.SuffixTrie
import WutherCore.Ruleset.Deferred
import WutherCore.Ruleset.Index
import WutherCore.Ruleset.Exact
import WutherCore.Ruleset.IndexEval
import WutherCore.Route.Plan
import WutherCore.Route.Matchers
import WutherCore.Route.Tables
import WutherCore.Route.Engine
import WutherCore.Route.Pipeline
import WutherCore.Resolver.FakeIp
import WutherCore.Resolver.FakeIpRange
import WutherCore.Resolver.DnsCache
import WutherCore.Resolver.CacheBounds
import WutherCore.Resolver.Singleflight
import WutherCore.Young.Wire
import WutherCore.Young.DataFrames
import WutherCore.Young.Udp
import WutherCore.Young.Reassembly
import WutherCore.Young.Replay
import WutherCore.Young.FlowOpen
import WutherCore.Engine.Selector
import WutherCore.Engine.State
import WutherCore.Engine.Feeds
import WutherCore.Engine.Pins
import WutherCore.Engine.Probes
import WutherCore.Engine.Interleaving
import WutherCore.Engine.LostPins
import WutherCore.Capture.TcpNat
import WutherCore.Capture.UdpSession
import WutherCore.Capture.RedirectRules
import WutherCore.Capture.RedirectLease
import WutherCore.Capture.NatTable
import WutherCore.Capture.NatLocks
import WutherCore.Capture.NatSound
import WutherCore.Capture.Gro
import WutherCore.Capture.GsoSplit
import WutherCore.Capture.GroPackets
import WutherCore.Capture.GroMerged
import WutherCore.Capture.GroCut
import WutherCore.Capture.GroClusters
import WutherCore.Capture.GroBatch
import WutherCore.Capture.GroSound
import WutherCore.Capture.GroOrder
import WutherCore.Xhttp.UploadQueue
import WutherCore.Ss2022.Udp
import WutherCore.Ss2022.Replay
import WutherCore.Data.Slots
import WutherCore.Hysteria2.Message
import WutherCore.Hysteria2.Defragger
import WutherCore.Anytls.Padding
import WutherCore.Data.Transport
import WutherCore.Sudoku.Record
import WutherCore.Sudoku.RecordStream
import WutherCore.Data.Pull
import WutherCore.Ss2022.Tcp
import WutherCore.Ss2022.TcpSound
import WutherCore.Data.Pieces
import WutherCore.Net.IpFragment
import WutherCore.Net.IpFragmentSound
import WutherCore.Data.Keyed
import WutherCore.Mesh.Model
import WutherCore.Mesh.Conflict
import WutherCore.Data.Rand
import WutherCore.Data.Bit
import WutherCore.Sudoku.Grid
import WutherCore.Sudoku.CustomBits
import WutherCore.Data.Transducer
import WutherCore.Finalmask.SudokuLayout
import WutherCore.Sudoku.Hints
import WutherCore.Sudoku.Clues
import WutherCore.Finalmask.SudokuTable
import WutherCore.Finalmask.SudokuStream
import WutherCore.Finalmask.Salamander
import WutherCore.Finalmask.Gecko
import WutherCore.Data.Exact
import WutherCore.Proto.Chunks
import WutherCore.Proto.Snell
import WutherCore.Proto.ChunkStream
import WutherCore.Proto.Vmess
import WutherCore.Proto.VmessStream
import WutherCore.Data.EndOfStream
import WutherCore.Proto.StreamEnds
import WutherCore.Data.Loop
import WutherCore.Ruleset.RangeLoops
import WutherCore.Data.Pool
import WutherCore.Smart.NodeStats
import WutherCore.Xhttp.Xmux
import WutherCore.Xhttp.XmuxInv
import WutherCore.Xhttp.XmuxSound
import WutherCore.Health.UrlTest
import WutherCore.Health.UrlTestSound
import WutherCore.Route.Sniff
import WutherCore.Resolver.Packet
import WutherCore.Data.Spells
import WutherCore.Data.Words
import WutherCore.Ruleset.DomainWords
import WutherCore.Ruleset.MrsBitmap
import WutherCore.Ruleset.MrsDomain
import WutherCore.Ruleset.MrsHas
import WutherCore.Ruleset.MrsWords
import WutherCore.Engine.GroupPick
import WutherCore.Engine.GroupPickSound
import WutherCore.Engine.Resolve
import WutherCore.Engine.ResolveSound
import WutherCore.Capture.RouteLedger
import WutherCore.Data.Incremental
import WutherCore.Hysteria2.TcpResponse
import WutherCore.Proto.SocksAddr
import WutherCore.Data.Intervals
import WutherCore.Capture.AndroidRoutes
import WutherCore.Capture.TunFrame
import WutherCore.Ss2022.UdpSeal
import WutherCore.Data.Priority
import WutherCore.Capture.RedirectVerdict
import WutherCore.Ruleset.IndexFrames
import WutherCore.Capture.GsoBounds
import WutherCore.Capture.IpHeader
import WutherCore.Capture.GsoDelivery
import WutherCore.Capture.SystemStack
import WutherCore.Capture.Translation
import WutherCore.Capture.TcpReset
import WutherCore.Finalmask.Mkcp
import WutherCore.Finalmask.Transform
import WutherCore.Finalmask.UdpCustom
import WutherCore.Data.Carrier
import WutherCore.Proto.Trojan
import WutherCore.Finalmask.Fragment
import WutherCore.Proto.UdpStream
import WutherCore.Engine.FastPick
import WutherCore.Resolver.Policy
import WutherCore.Resolver.PolicySets
import WutherCore.Resolver.PolicyRules
import WutherCore.Resolver.PolicySyntax
import WutherCore.Resolver.PolicyAgreement
import WutherCore.Wireguard.Config
import WutherCore.Observe.CopyCounted
import WutherCore.Xhttp.XPadding
import WutherCore.Health.ReplyHead
import WutherCore.Config.ShareLink
import WutherCore.Config.RuleSetMerge
