import DnsMultiZone.Rfc1035.Drop
import DnsMultiZone.Config.Lookup
import DnsMultiZone.Lib.Halving
import DnsMultiZone.Config.Search
import DnsMultiZone.Lib.Assoc
import DnsMultiZone.Lib.Runs
import DnsMultiZone.Work.Connect
import DnsMultiZone.Work.Query
import DnsMultiZone.Work.Scan
import DnsMultiZone.Work.Steps
import DnsMultiZone.Work.Cursor
import DnsMultiZone.Work.Decided
import DnsMultiZone.Work.Confluence
import DnsMultiZone.Rfc1035.Question
import DnsMultiZone.Rfc1035.Append
import DnsMultiZone.Work.Answers
import DnsMultiZone.Work.ReplyAddress
import DnsMultiZone.Rfc1035.Judge
import DnsMultiZone.Rfc1035.Rewrite
import DnsMultiZone.Lib.Handles
import DnsMultiZone.Rfc1035.Expand
import DnsMultiZone.MainLoop.Descriptors
import DnsMultiZone.MainLoop.Dispatch
import DnsMultiZone.MainLoop.Ownership
import DnsMultiZone.MainLoop.Waiting
import DnsMultiZone.MainLoop.Batch
import DnsMultiZone.Rfc1035.Memory
import DnsMultiZone.Rfc1035.Safety
import DnsMultiZone.Work.Replies
import DnsMultiZone.Work.ReplyID
import DnsMultiZone.MainLoop.Clients
import DnsMultiZone.Work.Asking
import DnsMultiZone.MainLoop.Timeout
import DnsMultiZone.MainLoop.Idle
import DnsMultiZone.Rfc1035.Decode
import DnsMultiZone.Rfc1035.Accept
import DnsMultiZone.Config.Refresh
import DnsMultiZone.Watch.INotify
import DnsMultiZone.Watch.Setup
import DnsMultiZone.Config.ListFile
import DnsMultiZone.Rfc1035.Permute
import DnsMultiZone.Work.Verdict
import DnsMultiZone.Rfc1035.Pointers
import DnsMultiZone.Rfc1035.Twice
import DnsMultiZone.Work.Forward
import DnsMultiZone.Config.Compare
import DnsMultiZone.Config.Passes
import DnsMultiZone.Lib.Fifo
import DnsMultiZone.MainLoop.SendQueue
import DnsMultiZone.Config.LoadConfig
import DnsMultiZone.Config.Priority
import DnsMultiZone.Config.Nameserver
import DnsMultiZone.Config.Usable
import DnsMultiZone.Lib.Decimal
import DnsMultiZone.Json.Parser
import DnsMultiZone.Json.Grammar
import DnsMultiZone.Json.Utf8
import DnsMultiZone.Json.Buffer
import DnsMultiZone.Json.Strings
import DnsMultiZone.Json.Values
import DnsMultiZone.Json.Rfc8259
import DnsMultiZone.Config.Accepted
import DnsMultiZone.Config.Init
import DnsMultiZone.MainLoop.Process
import DnsMultiZone.MainLoop.Listening
import DnsMultiZone.Lib.Family
import DnsMultiZone.MainLoop.Isolated
import DnsMultiZone.MainLoop.Traffic
import DnsMultiZone.Config.Layout
import DnsMultiZone.MainLoop.Polling
