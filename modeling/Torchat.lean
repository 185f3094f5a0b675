import Torchat.Foundation.CString
import Torchat.Foundation.Scan
import Torchat.Foundation.Strtol
import Torchat.Foundation.Decimal
import Torchat.Foundation.Printf
import Torchat.Foundation.Heap
import Torchat.Foundation.Links
import Torchat.Foundation.QueueTable
import Torchat.Foundation.Transition
import Torchat.Foundation.DescriptorTable
import Torchat.Foundation.DoublyLinked
import Torchat.Foundation.Simulation
import Torchat.Foundation.Session
import Torchat.Foundation.HeapFrame
import Torchat.Json.Value
import Torchat.Json.Utf8
import Torchat.Json.StringToken
import Torchat.Json.Lexer
import Torchat.Json.Parser
import Torchat.Json.MemberTokens
import Torchat.Json.Writer
import Torchat.Daemon.Util
import Torchat.Daemon.Datastruct
import Torchat.Daemon.StoreRefinement
import Torchat.Daemon.JsonHelper
import Torchat.Daemon.Torchatproto
import Torchat.Daemon.Reception
import Torchat.Daemon.Actions
import Torchat.Daemon.Dispatch
import Torchat.Daemon.Unread
import Torchat.Daemon.Reachability
import Torchat.Daemon.Handling
import Torchat.Daemon.RemotePeers
import Torchat.Daemon.Replies
import Torchat.Daemon.Logging
import Torchat.Daemon.Delivery
import Torchat.Daemon.Relay
import Torchat.Daemon.IdBuffers
import Torchat.Daemon.Forwarding
import Torchat.Daemon.SendOverTor
import Torchat.Daemon.Ports
import Torchat.Daemon.EventLoop
import Torchat.Daemon.Isolation
import Torchat.Daemon.MessageLists
import Torchat.Daemon.PeerList
import Torchat.Daemon.Tracking
import Torchat.Daemon.Accounting
import Torchat.Uthash.Table
import Torchat.Uthash.Buckets
import Torchat.Uthash.Integrity
import Torchat.Uthash.Runs
import Torchat.Daemon.HashedStore
import Torchat.Daemon.HashedRefinement
import Torchat.Daemon.Memory
import Torchat.Daemon.Interleaving
import Torchat.Config.ParseConfig
import Torchat.Config.ParseLines
import Torchat.Config.ConfigFile
import Torchat.Config.Overruns
import Torchat.Config.Leftovers
import Torchat.Config.Argparse
import Torchat.Config.Settings
import Torchat.Net.Iol
import Torchat.Net.Fd
import Torchat.Proxy.Socket
import Torchat.Proxy.HttpProxy
import Torchat.Proxy.Proxysocket
import Torchat.Proxy.Descriptors
import Torchat.Proxy.Socks5
import Torchat.Proxy.Base64
import Torchat.Proxy.HttpFraming
import Torchat.Proxy.Requests
import Torchat.Proxy.Lookups
import Torchat.Proxy.Tunnel
