import Boostander.Library.EventMachine
import Boostander.Library.Segments
import Boostander.Library.IndexLoop
import Boostander.Algo.CSVSave
import Boostander.Net.ReadLoop
import Boostander.Net.WsListener
import Boostander.Net.WsServer
import Boostander.Algo.DispatchHistory
import Boostander.Net.SendProgress
import Boostander.Net.DeadPeer
import Boostander.Net.Registry
import Boostander.Net.FailedRead
import Boostander.Algo.CSVFile
import Boostander.Algo.CSVHistory
import Boostander.Algo.CSVReload
import Boostander.Net.RowCount
import Boostander.Algo.CSVBlocks
import Boostander.Algo.CSVColumns
import Boostander.Net.Routing
import Boostander.Net.Echo
import Boostander.Net.ReceivedMessages
import Boostander.Algo.DispatchForest
import Boostander.Net.LatestRow
import Boostander.Algo.CSVGrid
import Boostander.Algo.DateText
import Boostander.Net.ListenerShutdown
import Boostander.Algo.Trim
import Boostander.Algo.DispatchThreads
import Boostander.Library.Rounds
import Boostander.Net.Inbox
import Boostander.Net.NetworkManager
import Boostander.Net.ServerTick
import Boostander.Net.ServerLifecycle
import Boostander.Net.Conversation
import Boostander.Net.Answers
import Boostander.Algo.DateOrder
import Boostander.Net.DatedRows
import Boostander.Net.Client
import Boostander.Net.TickRefinement
import Boostander.Net.FileRequest
import Boostander.Net.ManyClients
import Boostander.Net.Service
import Boostander.Net.ServiceProgress
