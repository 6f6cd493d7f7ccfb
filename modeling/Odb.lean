import Odb.Server.Stops
import Odb.Server.Symbols
import Odb.Mess.RoundTrip
import Odb.Server.DataClientHandler
import Odb.Client.DataClient
import Odb.Client.Remote
import Odb.Client.Refinement
import Odb.Lib.Stoll
import Odb.Mess.ParseInt
import Odb.Mess.TcpTransfer
import Odb.Server.Depth
import Odb.Server.SymbolLoad
import Odb.Lib.Machine
import Odb.Server.Runner
import Odb.Server.ServerApp
import Odb.Server.Serve
import Odb.Server.ConnectionLoss
import Odb.Mess.Writes
import Odb.Server.AnyRequest
import Odb.Lib.KeyIndex
import Odb.Mess.DBClient
import Odb.Server.Registers
import Odb.Client.RegCache
import Odb.Client.RegCalls
import Odb.Client.RegRuns
import Odb.Server.SymbolRequests
import Odb.Server.Breakpoints
import Odb.Server.BlockSizes
import Odb.Mess.Malformed
import Odb.Client.Whole
import Odb.Client.RegValues
import Odb.Mess.Arguments
import Odb.Mess.SimpleCLIClient
import Odb.Mess.Listing
import Odb.Server.TypedMemory
import Odb.Client.Transfers
import Odb.Server.CWrapperVMApi
import Odb.Server.StartUp
import Odb.Server.ItemCounts
import Odb.Mess.Labels
import Odb.Server.CodeView
import Odb.Client.Assignments
import Odb.Client.Lookups
import Odb.Client.Coherence
import Odb.Client.RemoteTransfers
import Odb.Client.Entries
import Odb.Client.Agreement
import Odb.Client.Peers
import Odb.Server.CLIClientHandler
import Odb.Client.Transparency
import Odb.Mvm0.StepOver
import Odb.Apps.SimpleCli
import Odb.Apps.Cli
