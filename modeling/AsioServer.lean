import AsioServer.Lib.Framing
import AsioServer.Lib.Machine
import AsioServer.Ref.CSession
import AsioServer.Proofs.ReadRun
import AsioServer.Proofs.HandleRead
import AsioServer.Proofs.HostileLengths
import AsioServer.Proofs.SendNode
import AsioServer.Proofs.SendQueue
import AsioServer.Proofs.SendString
import AsioServer.Proofs.SendBound
import AsioServer.Proofs.LogicQueue
import AsioServer.Proofs.Shutdown
import AsioServer.Proofs.Codec
import AsioServer.Lib.Table
import AsioServer.Ref.Database
import AsioServer.Ref.LogicSystem
import AsioServer.Proofs.CallBacks
import AsioServer.Spec.Styled
import AsioServer.Proofs.WorkerFaults
import AsioServer.Proofs.Replies
import AsioServer.Proofs.ReadBack
import AsioServer.Proofs.Reachability
import AsioServer.Proofs.Accepting
import AsioServer.Lib.Accounts
import AsioServer.Proofs.Logins
import AsioServer.Proofs.Credentials
import AsioServer.Proofs.Outgoing
import AsioServer.Proofs.ReplySize
import AsioServer.Proofs.OneChat
import AsioServer.Proofs.Footprint
import AsioServer.Lib.Handles
import AsioServer.Ref.Mysql
import AsioServer.Proofs.Connection
import AsioServer.Lib.Replace
import AsioServer.Ref.SqlText
import AsioServer.Proofs.SqlFormat
import AsioServer.Proofs.Translation
import AsioServer.Proofs.Placeholders
import AsioServer.Spec.Parameters
import AsioServer.Proofs.Literals
import AsioServer.Proofs.BindPositions
import AsioServer.Ref.Binding
import AsioServer.Ref.SqlLexer
import AsioServer.Lib.Scanner
import AsioServer.Spec.Markers
import AsioServer.Proofs.Markers
import AsioServer.Proofs.BoundValues
import AsioServer.Lib.Utf8
import AsioServer.Proofs.Relay
import AsioServer.Proofs.TcpMessages
import AsioServer.Proofs.TcpLengths
import AsioServer.Lib.Wildcard
import AsioServer.Proofs.MatchStr
import AsioServer.Ref.Public
import AsioServer.Ref.Relay
import AsioServer.Ref.Tcp
import AsioServer.Lib.Loop
import AsioServer.Lib.Rewrite
import AsioServer.Ref.Strings
import AsioServer.Proofs.Strings
import AsioServer.Proofs.UpdateStr
import AsioServer.Lib.Split
import AsioServer.Ref.CmdStr
import AsioServer.Proofs.SplitToCmd
import AsioServer.Lib.Blocks
import AsioServer.Ref.Xml
import AsioServer.Proofs.XmlBuffer
import AsioServer.Ref.Dir
import AsioServer.Proofs.Paths
import AsioServer.Proofs.OpenDir
import AsioServer.Ref.File
import AsioServer.Proofs.Copy
import AsioServer.Proofs.CopyEnds
import AsioServer.Ref.CFile
import AsioServer.Proofs.TmpFile
import AsioServer.Lib.Calendar
import AsioServer.Ref.Time
import AsioServer.Proofs.AddTime
import AsioServer.Lib.Lines
import AsioServer.Ref.Fgets
import AsioServer.Proofs.Records
import AsioServer.Ref.LoginEnv
import AsioServer.Proofs.SetDbOpt
import AsioServer.Ref.CPActive
import AsioServer.Proofs.Heartbeats
import AsioServer.Ref.MyUpdateStr
import AsioServer.Proofs.ReplaceOnce
import AsioServer.Proofs.BoundedStrings
import AsioServer.Ref.IniFile
import AsioServer.Proofs.LoadFile
import AsioServer.Proofs.StrToTime
import AsioServer.Ref.Pipeline
import AsioServer.Ref.Statements
import AsioServer.Proofs.Pipeline
import AsioServer.Proofs.Delivered
import AsioServer.Proofs.Routing
import AsioServer.Proofs.QueueProgress
import AsioServer.Proofs.Statements
import AsioServer.Proofs.StatementReads
import AsioServer.Lib.Puller
import AsioServer.Ref.Ws
import AsioServer.Ref.WsReceiver
import AsioServer.Spec.WsReading
import AsioServer.Proofs.WsReceiver
import AsioServer.Proofs.WsFrames
import AsioServer.Proofs.WsUtf8
import AsioServer.Proofs.WsSound
import AsioServer.Ref.WsRelay
import AsioServer.Proofs.WsRelay
import AsioServer.Proofs.PageToServer
