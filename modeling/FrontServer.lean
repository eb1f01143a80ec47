import FrontServer.Lib.Machine
import FrontServer.Lib.Fifo
import FrontServer.Lib.Lines
import FrontServer.Lib.CMemory
import FrontServer.Lib.Numerals
import FrontServer.Lib.SqlLiteral
import FrontServer.TcpBuf
import FrontServer.Lemmas.TcpBuf
import FrontServer.Theorems.TcpBuf
import FrontServer.Utils
import FrontServer.HeaderScan
import FrontServer.Lemmas.HeaderScan
import FrontServer.HttpBuf
import FrontServer.Lemmas.HttpHead
import FrontServer.HttpMessage
import FrontServer.Lemmas.HttpMessage
import FrontServer.HttpFlow
import FrontServer.Lemmas.HttpFlow
import FrontServer.Lemmas.HeadEnds
import FrontServer.Theorems.NoGap
import FrontServer.Theorems.Framing
import FrontServer.Lemmas.CompleteMessage
import FrontServer.Theorems.Segmentation
import FrontServer.Theorems.HeaderRendering
import FrontServer.Lemmas.UnfinishedHead
import FrontServer.Theorems.Recovery
import FrontServer.Packet
import FrontServer.ParsePkg
import FrontServer.PcapHandler
import FrontServer.Lemmas.Packet
import FrontServer.Lemmas.ParsePkg
import FrontServer.Lemmas.Utils
import FrontServer.Theorems.Decoders
import FrontServer.Theorems.RingSafety
import FrontServer.Flows
import FrontServer.Lemmas.Flows
import FrontServer.Theorems.Isolation
import FrontServer.DatabaseConnectionPool
import FrontServer.Lemmas.DatabaseConnectionPool
import FrontServer.Theorems.PoolLimit
import FrontServer.ConnectionPool
import FrontServer.Lemmas.ConnectionPool
import FrontServer.Theorems.InUse
import FrontServer.Theorems.Waiters
import FrontServer.Theorems.BadConnections
import FrontServer.DatabaseConnector
import FrontServer.Lemmas.DatabaseConnector
import FrontServer.Theorems.Retries
import FrontServer.Theorems.AtMostOnce
import FrontServer.ConnectionParameters
import FrontServer.Theorems.ConnectorParameters
import FrontServer.DingMsgSender
import FrontServer.Lemmas.DingMsgSender
import FrontServer.Theorems.DingQueue
import FrontServer.Server
import FrontServer.Theorems.Echo
import FrontServer.Theorems.OutputLength
import FrontServer.Theorems.Draining
import FrontServer.Theorems.HeaderEnd
import FrontServer.Theorems.DumpRange
import FrontServer.Theorems.VlanTag
import FrontServer.Lemmas.FrameReads
import FrontServer.Theorems.CapturedReads
import FrontServer.Theorems.Padding
import FrontServer.Theorems.QueryAtomicity
import FrontServer.Theorems.SessionCharset
import FrontServer.Theorems.Escape
import FrontServer.Theorems.ScannersAgree
import FrontServer.Theorems.CopyRanges
import FrontServer.Theorems.Unreachable
import FrontServer.Theorems.HexDump
import FrontServer.Theorems.InterfaceIp
import FrontServer.CurlOp
import FrontServer.Theorems.Accumulation
import FrontServer.DingTalk
import FrontServer.Theorems.DingMessage
import FrontServer.InitServer
import FrontServer.Theorems.Backlog
import FrontServer.Lib.Json
import FrontServer.Theorems.DingBody
import FrontServer.Lib.Logging
import FrontServer.Console
import FrontServer.ParsePkgLog
import FrontServer.Lemmas.ParsePkgLog
import FrontServer.Lemmas.CgiDump
import FrontServer.Lib.Components
import FrontServer.Theorems.Capture
import FrontServer.Theorems.LogLedger
import FrontServer.Theorems.ConsoleMode
import FrontServer.DatabaseCallers
import FrontServer.Lemmas.DatabaseCallers
import FrontServer.Theorems.Serialization
import FrontServer.Theorems.Exhaustion
import FrontServer.Theorems.FieldsRead
import FrontServer.CgiDumpMain
import FrontServer.Theorems.Programs
import FrontServer.Theorems.DingWakeUps
import FrontServer.DingService
import FrontServer.Theorems.DingDelivery
