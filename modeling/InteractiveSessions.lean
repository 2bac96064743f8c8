import InteractiveSessions.Lib.Prog
import InteractiveSessions.Lib.Triple
import InteractiveSessions.Lib.Runs
import InteractiveSessions.Lib.Expect
import InteractiveSessions.Lib.GapToken
import InteractiveSessions.Lib.Decimal
import InteractiveSessions.Lib.Blocks
import InteractiveSessions.Lib.Pieces
import InteractiveSessions.Lib.Dict
import InteractiveSessions.Lib.Dag
import InteractiveSessions.Lib.SetOrder
import InteractiveSessions.Lib.Utf8
import InteractiveSessions.Lib.Removal
import InteractiveSessions.SharedBytesIo
import InteractiveSessions.TokenReader
import InteractiveSessions.ChunkComm
import InteractiveSessions.ChunkGrammar
import InteractiveSessions.ChunkErrors
import InteractiveSessions.StrComm
import InteractiveSessions.Line
import InteractiveSessions.NoisyChunks
import InteractiveSessions.EndOfFile
import InteractiveSessions.BadSizes
import InteractiveSessions.Timeouts
import InteractiveSessions.StringGrammar
import InteractiveSessions.Rubbish
import InteractiveSessions.AbortedWrites
import InteractiveSessions.AckLinks
import InteractiveSessions.Peers
import InteractiveSessions.MsgBase
import InteractiveSessions.TerminalComm
import InteractiveSessions.LostFrames
import InteractiveSessions.LostStrings
import InteractiveSessions.SendAndReceive
import InteractiveSessions.Budget
import InteractiveSessions.Resync
import InteractiveSessions.Msgs
import InteractiveSessions.MsgCaches
import InteractiveSessions.Servers
import InteractiveSessions.Resends
import InteractiveSessions.TerminalClient
import InteractiveSessions.Exchange
import InteractiveSessions.ExecutionOrder
import InteractiveSessions.PythonCmdline
import InteractiveSessions.Traffic
import InteractiveSessions.Pool
import InteractiveSessions.TerminalPools
import InteractiveSessions.Ownership
import InteractiveSessions.Usage
import InteractiveSessions.Occupancy
import InteractiveSessions.BusyGets
import InteractiveSessions.Process
import InteractiveSessions.AutoRecoveringTerminal
import InteractiveSessions.RemoteProxies
import InteractiveSessions.AutoRunnerTerminal
import InteractiveSessions.Recovery
import InteractiveSessions.StaleProxies
import InteractiveSessions.Modules
import InteractiveSessions.MsgPythonShell
import InteractiveSessions.RunnerTerminal
import InteractiveSessions.Responses
import InteractiveSessions.Transfers
import InteractiveSessions.Shell
import InteractiveSessions.AnsiEscape
import InteractiveSessions.ParamikoSpawn
import InteractiveSessions.FileCopier
import InteractiveSessions.RemoteFile
import InteractiveSessions.InteractiveSession
import InteractiveSessions.BackgroundProcess
import InteractiveSessions.GarbageManager
import InteractiveSessions.SharedMatchers
import InteractiveSessions.Lib.FileTree
import InteractiveSessions.LocalDirCopier
import InteractiveSessions.SelfRepairingSession
import InteractiveSessions.Retries
import InteractiveSessions.OpenSessions
import InteractiveSessions.ShellSubprocess
import InteractiveSessions.Accounts
import InteractiveSessions.RemoteRunner
import InteractiveSessions.RemoteCalls
import InteractiveSessions.ResponseThreads
import InteractiveSessions.RemoteSession
