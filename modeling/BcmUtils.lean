import BcmUtils.Foundation.CString
import BcmUtils.Foundation.Memory
import BcmUtils.Foundation.Joined
import BcmUtils.Foundation.Rows
import BcmUtils.Foundation.Records
import BcmUtils.Foundation.Ranges
import BcmUtils.Foundation.Words
import BcmUtils.Foundation.Stores
import BcmUtils.Foundation.Tokens
import BcmUtils.Foundation.Heap
import BcmUtils.Foundation.Links
import BcmUtils.Foundation.Sockets
import BcmUtils.Foundation.Descriptors
import BcmUtils.Foundation.Machine
import BcmUtils.Foundation.Prefixes
import BcmUtils.Foundation.Processes
import BcmUtils.Foundation.Objects
import BcmUtils.Foundation.Files
import BcmUtils.Foundation.LockedFiles
import BcmUtils.Foundation.Semaphores
import BcmUtils.Foundation.Groups
import BcmUtils.Model.PortList
import BcmUtils.Model.Nvram
import BcmUtils.Model.VlanForward
import BcmUtils.Model.VlanEntries
import BcmUtils.Model.Addresses
import BcmUtils.Model.Subnets
import BcmUtils.Model.Bindings
import BcmUtils.Model.ConfLists
import BcmUtils.Model.PoeNames
import BcmUtils.Model.PortTables
import BcmUtils.Model.ConfRuns
import BcmUtils.Model.VlanPort
import BcmUtils.Model.Rstp
import BcmUtils.Model.UserTables
import BcmUtils.Model.Aaa
import BcmUtils.Model.LineInfo
import BcmUtils.Model.Clients
import BcmUtils.Model.Scfgmgr
import BcmUtils.Model.DeviceFiles
import BcmUtils.Model.Configuration
import BcmUtils.Model.StatusFiles
import BcmUtils.Model.SerialThreads
import BcmUtils.Model.VlanLists
import BcmUtils.Model.CliPorts
import BcmUtils.Model.PortVlans
import BcmUtils.Model.Ipc
import BcmUtils.Model.LinkList
import BcmUtils.Model.Serial
import BcmUtils.Model.PowerManager
import BcmUtils.Verification.PortList.Encoding
import BcmUtils.Verification.PortList.RoundTrip
import BcmUtils.Verification.PortList.Bounds
import BcmUtils.Verification.CliPorts.Items
import BcmUtils.Verification.CliPorts.Lists
import BcmUtils.Verification.CliPorts.Groups
import BcmUtils.Verification.PortVlans.Cursor
import BcmUtils.Verification.PortVlans.Records
import BcmUtils.Verification.VlanForward.Encoding
import BcmUtils.Verification.ConfLists.Filling
import BcmUtils.Verification.VlanForward.RoundTrip
import BcmUtils.Verification.VlanForward.Entries
import BcmUtils.Verification.VlanForward.MessageSize
import BcmUtils.Verification.PoeNames.Slots
import BcmUtils.Verification.ConfLists.Runs
import BcmUtils.Verification.VlanPort.Encoding
import BcmUtils.Verification.VlanPort.Readers
import BcmUtils.Verification.VlanPort.RoundTrip
import BcmUtils.Verification.Rstp.RoundTrip
import BcmUtils.Verification.UserTables.StaleBytes
import BcmUtils.Verification.UserTables.AccessRoundTrip
import BcmUtils.Verification.UserTables.Filling
import BcmUtils.Verification.UserTables.SnmpRoundTrip
import BcmUtils.Verification.UserTables.TrunkRoundTrip
import BcmUtils.Verification.Bindings.Encoding
import BcmUtils.Verification.Bindings.RoundTrip
import BcmUtils.Verification.Subnets.Masks
import BcmUtils.Verification.Subnets.Ipv4
import BcmUtils.Verification.Subnets.Defaults
import BcmUtils.Verification.Subnets.Ipv6
import BcmUtils.Verification.PortTables.RoundTrip
import BcmUtils.Verification.Aaa.Replies
import BcmUtils.Verification.LineInfo.RoundTrip
import BcmUtils.Verification.LineInfo.Malformed
import BcmUtils.Verification.Scfgmgr.Replies
import BcmUtils.Verification.Scfgmgr.Streams
import BcmUtils.Verification.Descriptors.Balance
import BcmUtils.Verification.VlanLists.Items
import BcmUtils.Verification.VlanLists.Agreement
import BcmUtils.Verification.VlanLists.Overrun
import BcmUtils.Verification.LinkList.Nodes
import BcmUtils.Verification.LinkList.Refinement
import BcmUtils.Verification.LinkList.Sorting
import BcmUtils.Verification.LinkList.Iteration
import BcmUtils.Verification.Clients.Interleavings
import BcmUtils.Verification.Ipc.Replies
import BcmUtils.Verification.Serial.Steps
import BcmUtils.Verification.Serial.Bounds
import BcmUtils.Verification.Serial.Delivery
import BcmUtils.Verification.PowerManager.Steps
import BcmUtils.Verification.PowerManager.Lock
import BcmUtils.Verification.PowerManager.Getters
import BcmUtils.Verification.PowerManager.LateAnswers
import BcmUtils.Verification.PortMaps.Conversions
import BcmUtils.Verification.VlanPort.MissingItems
import BcmUtils.Verification.Ipmc.Counters
import BcmUtils.Verification.PortList.Listed
import BcmUtils.Verification.VlanLists.Extremes
import BcmUtils.Verification.VlanForward.Room
import BcmUtils.Verification.UserTables.Room
import BcmUtils.Verification.UserTables.TrunkRoom
import BcmUtils.Verification.PidSearch.Matches
import BcmUtils.Verification.PortVlans.Reads
import BcmUtils.Verification.Crc.Tables
import BcmUtils.Verification.Crc.Bursts
import BcmUtils.Verification.MacText.Agreement
import BcmUtils.Verification.Itoa.Decimal
import BcmUtils.Verification.IntLists.RoundTrip
import BcmUtils.Verification.IntLists.Rows
import BcmUtils.Verification.InputNum.Spellings
import BcmUtils.Verification.MacList.Entries
import BcmUtils.Verification.Requests.Distinct
import BcmUtils.Verification.Sessions.Entries
import BcmUtils.Verification.StatusFiles.Atomicity
import BcmUtils.Verification.StatusFiles.Running
import BcmUtils.Verification.Serial.Threads
import BcmUtils.Verification.Serial.Clock
import BcmUtils.Verification.Configuration.Independence
import BcmUtils.Foundation.Passes
import BcmUtils.Model.Polling
import BcmUtils.Verification.Polling.Rounds
import BcmUtils.Verification.Polling.Runs
import BcmUtils.Model.SocketNames
import BcmUtils.Verification.IpcNetwork.Names
import BcmUtils.Foundation.Datagrams
import BcmUtils.Model.IpcNetwork
import BcmUtils.Verification.IpcNetwork.Turns
import BcmUtils.Verification.IpcNetwork.Exchanges
