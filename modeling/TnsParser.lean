import TnsParser.Mempool.Threads
import TnsParser.Queue.Threads
import TnsParser.Queue.RingThreads
import TnsParser.Network.Connection
import TnsParser.OracleTns.Bounds
import TnsParser.OracleTns.Codes
import TnsParser.OracleTns.Checked
import TnsParser.OracleTns.Independence
import TnsParser.Process.Isolation
import TnsParser.Process.Checked
import TnsParser.Process.NewSession
import TnsParser.Process.Keys
import TnsParser.Pipeline.Errors
import TnsParser.OracleTns.Layout
import TnsParser.OracleTns.JsonBuffer
import TnsParser.Session.Lookups
import TnsParser.CJson.Bound
import TnsParser.CJson.Checked
import TnsParser.CJson.PrintChecked
import TnsParser.OracleTns.Reports
import TnsParser.OracleTns.Meaning
import TnsParser.OracleTns.LongestRun
import TnsParser.OracleTns.Malformed
import TnsParser.OracleTns.History
import TnsParser.Mempool.Sequential
import TnsParser.HexDump
import TnsParser.Pipeline.Capture
import TnsParser.Queue.Nodes
import TnsParser.Queue.Wakeups
import TnsParser.Queue.RingWakeups
import TnsParser.ListHead.Lists
import TnsParser.CJson.Duplicate
import TnsParser.Process.Descriptions
import TnsParser.Process.Memory
import TnsParser.CJson.RoundTrip
import TnsParser.CJson.StringBuffer
