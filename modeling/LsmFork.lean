import LsmFork.Filter.ShownCode
import LsmFork.Filter.WriteExec
import LsmFork.Kernel.AnalyzerThread
import LsmFork.Kernel.Collector
import LsmFork.Kernel.DoMmap
import LsmFork.Kernel.FrameBounds
import LsmFork.Kernel.Growth
import LsmFork.Kernel.Hook
import LsmFork.Kernel.HookCounter
import LsmFork.Kernel.HookResources
import LsmFork.Kernel.HookRuns
import LsmFork.Kernel.Instrument
import LsmFork.Kernel.LostPages
import LsmFork.Kernel.Netlink
import LsmFork.Kernel.PageRefs
import LsmFork.Kernel.PageTable
import LsmFork.Kernel.PerfAlive
import LsmFork.Kernel.PerfBuffer
import LsmFork.Kernel.Remap
import LsmFork.Kernel.RunFrames
import LsmFork.Kernel.SecondArg
import LsmFork.Kernel.SentHeaders
import LsmFork.Kernel.Verdict
import LsmFork.Lib.CString
import LsmFork.Lib.CStruct
import LsmFork.Lib.Double
import LsmFork.Lib.FileTree
import LsmFork.Lib.FirstFree
import LsmFork.Lib.GroupBy
import LsmFork.Lib.Ledger
import LsmFork.Lib.LittleEndian
import LsmFork.Lib.Machine
import LsmFork.Lib.MarkerSearch
import LsmFork.Lib.MaximalRuns
import LsmFork.Lib.Overlay
import LsmFork.Lib.Overwrite
import LsmFork.Lib.Printf
import LsmFork.Lib.References
import LsmFork.Lib.RequestReply
import LsmFork.Lib.Ring
import LsmFork.Lib.Runs
import LsmFork.Lib.Seccomp
import LsmFork.Lib.Segments
import LsmFork.Lib.SharedReply
import LsmFork.Lib.ShellTokens
import LsmFork.Protocol.Alignment
import LsmFork.Protocol.ClosedLoop
import LsmFork.Protocol.Connection
import LsmFork.Protocol.FailOpen
import LsmFork.Protocol.Handshake
import LsmFork.Protocol.Interleaving
import LsmFork.Protocol.NetlinkLoop
import LsmFork.Protocol.NetlinkReplies
import LsmFork.Protocol.NetlinkVerdicts
import LsmFork.Protocol.RecvLoop
import LsmFork.Protocol.Registration
import LsmFork.Protocol.Rendezvous
import LsmFork.Protocol.SendLoop
import LsmFork.Protocol.SharedSocket
import LsmFork.Server.Accept
import LsmFork.Server.Bounds
import LsmFork.Server.DumpMapping
import LsmFork.Server.DumpNames
import LsmFork.Server.DumpPath
import LsmFork.Server.Fragments
import LsmFork.Server.FrameContent
import LsmFork.Server.InPlace
import LsmFork.Server.Lifetime
import LsmFork.Server.PointerLoop
import LsmFork.Server.Reassemble
import LsmFork.Server.ReceiveLoop
import LsmFork.Server.Reconstruct
import LsmFork.Server.SendTcp
import LsmFork.Server.Session
import LsmFork.Tools.Analyzer
import LsmFork.Tools.DumpTree
import LsmFork.Tools.EndToEnd
import LsmFork.Tools.ExtractPid
import LsmFork.Tools.MatchYara
import LsmFork.Tools.PerfLog
import LsmFork.Tools.PreprocessSamples
import LsmFork.Tools.ReadCharDevice
import LsmFork.Wire.HeaderImage
import LsmFork.Wire.MappingInfo
