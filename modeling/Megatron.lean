import Megatron.Lib.Machine
import Megatron.Lib.Framing
import Megatron.Corelib.IoBuffer
import Megatron.Corelib.Route
import Megatron.Oscar.Service
import Megatron.Oscar.Segmentation
import Megatron.Rpc.Service
import Megatron.Rpc.Delivery
import Megatron.Rpc.Interleaving
import Megatron.Socket.Service
import Megatron.Socket.Control
import Megatron.Socket.Accept
import Megatron.Socket.WriteInterest
import Megatron.Socket.Lifecycle
import Megatron.Socket.Connect
import Megatron.Socket.Phase
import Megatron.Rpc.Sessions
import Megatron.Lib.Mailbox
import Megatron.Dfs.Event
import Megatron.Dfs.Service
import Megatron.Dfs.Network
import Megatron.Dfs.Toplink
import Megatron.Lib.OrdSet
import Megatron.Timer.Service
import Megatron.Referrer.Service
import Megatron.Referrer.Run
import Megatron.Referrer.Uplink
import Megatron.Referrer.Notifications
import Megatron.Referrer.Epochs
import Megatron.Referrer.Alarms
import Megatron.Referrer.Configuration
import Megatron.Referrer.History
import Megatron.Referrer.Downlinks
import Megatron.Referrer.Level
import Megatron.Referrer.Preference
import Megatron.Referrer.Disaccept
import Megatron.Dfs.Forwarding
import Megatron.Lib.Block
import Megatron.Lib.Comparator
import Megatron.Corelib.Refbuffer
import Megatron.Corelib.OutBuffer
import Megatron.Corelib.Handout
import Megatron.Corelib.Cursor
import Megatron.Corelib.Typed
import Megatron.Corelib.Hostile
import Megatron.Ssl.Aes
import Megatron.Corelib.Sizes
import Megatron.Corelib.Copies
import Megatron.Corelib.Serialise
import Megatron.Corelib.RoundTrip
import Megatron.Lib.Trace
import Megatron.OscarSecure.Service
import Megatron.OscarSecure.Handshake
import Megatron.Corelib.RouteOrder
import Megatron.Timer.Threads
import Megatron.Timer.Tasks
import Megatron.Timer.Cancellation
import Megatron.Timer.Bookkeeping
import Megatron.Timer.Batch
import Megatron.Timer.Wakeups
import Megatron.OscarSecure.Buffering
import Megatron.OscarSecure.Segmentation
import Megatron.Ssl.Encrypt
import Megatron.Ssl.Decrypt
import Megatron.Corelib.RouteCodec
import Megatron.Corelib.RouteStrict
import Megatron.ObjectProxy.Sending
import Megatron.ObjectProxy.Removal
import Megatron.Listener.Buffered
import Megatron.Listener.Delivery
import Megatron.Listener.Shutdown
import Megatron.Lib.Locks
import Megatron.Instance.Listeners
import Megatron.Instance.Services
import Megatron.Instance.OneObject
import Megatron.Instance.StartFirst
import Megatron.Lib.OrdMap
import Megatron.Lib.Search
import Megatron.Lib.Paced
import Megatron.Http.Text
import Megatron.Http.Request
import Megatron.Http.Parsing
import Megatron.Http.Sanity
import Megatron.Http.Segmentation
import Megatron.Lib.TotalOrder
import Megatron.Corelib.RouteKeys
import Megatron.Timer.KeyOrder
import Megatron.Timer.Refinement
import Megatron.Referrer.Threads
import Megatron.Corelib.Address
import Megatron.Corelib.AddressSets
import Megatron.ReferrerClient.Service
import Megatron.ReferrerClient.Referrers
import Megatron.ReferrerClient.Initialisation
import Megatron.Lib.EditLine
import Megatron.Telnet.Entries
import Megatron.Telnet.Service
import Megatron.Telnet.Keys
import Megatron.Telnet.Safety
import Megatron.Telnet.Editing
import Megatron.Telnet.Chunks
import Megatron.Corelib.Url
import Megatron.Lib.BitString
import Megatron.Http.Numerals
import Megatron.GeoIp.Networks
import Megatron.GeoIp.Table
import Megatron.GeoIp.Lookup
import Megatron.Http.Range
import Megatron.Corelib.AddressStrict
import Megatron.Lib.Ranked
import Megatron.DfsCaps.Container
import Megatron.DfsCaps.Algorithm
import Megatron.DfsCaps.Grids
import Megatron.DfsCaps.Nearest
import Megatron.DfsCaps.Retention
import Megatron.DfsCaps.Growth
import Megatron.Lib.Loop
import Megatron.Http.Cutting
import Megatron.Http.Form
import Megatron.Http.Multipart
import Megatron.Corelib.UrlReuse
import Megatron.CUtils.Unescape
import Megatron.CUtils.UriEncode
import Megatron.CUtils.Base64
import Megatron.CUtils.Base64RoundTrip
import Megatron.CUtils.Base64Safety
import Megatron.Database.Pool
import Megatron.Lib.Calendar
import Megatron.CUtils.Dates
import Megatron.CUtils.Compression
import Megatron.Config.Loading
import Megatron.Config.Values
import Megatron.Config.Defaults
import Megatron.Lib.Leftmost
import Megatron.CUtils.Regex
import Megatron.Lib.LinkedTree
import Megatron.WebHandler.Tree
import Megatron.WebHandler.Registration
import Megatron.Corelib.AddressOrder
import Megatron.Lib.Stateful
import Megatron.Lib.Bits
import Megatron.Corelib.BitStream
import Megatron.Corelib.BitWriting
import Megatron.Corelib.BitReading
import Megatron.Corelib.BitNumbers
import Megatron.Corelib.BitFields
import Megatron.Corelib.TlvLength
import Megatron.Corelib.BitReaders
import Megatron.Corelib.BitBounds
import Megatron.Corelib.Ref
import Megatron.Corelib.Mtimespec
import Megatron.Instance.ThreadNames
import Megatron.Telnet.Completion
import Megatron.Database.Transactions
import Megatron.DfsCaps.Service
import Megatron.ErrorDispatcher.Service
import Megatron.Lib.Channel
import Megatron.Lib.Slices
import Megatron.Oscar.Channel
import Megatron.OscarSecure.Endpoints
import Megatron.OscarSecure.Session
import Megatron.Events.Wire
