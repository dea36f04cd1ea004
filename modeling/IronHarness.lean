import IronHarness.SerialReader
import IronHarness.Lib.Json
import IronHarness.Lib.JsonRoundTrip
import IronHarness.Lib.JsonRules
import IronHarness.Lib.JsonPrefix
import IronHarness.Journal.Files
import IronHarness.Lib.Lines
import IronHarness.Journal.Rotate
import IronHarness.Journal.Reader
import IronHarness.Journal.Append
import IronHarness.Lib.Runs
import IronHarness.Journal.History
import IronHarness.Journal.Faults
import IronHarness.Journal.Torn
import IronHarness.Journal.Lenient
import IronHarness.Journal.Locks
import IronHarness.Journal.Section
import IronHarness.Lib.Mutex
import IronHarness.Journal.Concurrent
import IronHarness.Journal.Exclusion
import IronHarness.Journal.Snapshot
import IronHarness.Journal.Reads
import IronHarness.Journal.View
import IronHarness.Session.Registry
import IronHarness.Session.Slots
import IronHarness.Session.Steps
import IronHarness.Session.Ownership
import IronHarness.Session.WireExclusion
import IronHarness.Session.Close
import IronHarness.Session.Outside
import IronHarness.Session.Trail
import IronHarness.Lib.Hex
import IronHarness.Lib.JsonLines
import IronHarness.Replay
import IronHarness.Campaign.Rows
import IronHarness.Campaign.Torn
import IronHarness.Lib.JsonCut
import IronHarness.Journal.Live
import IronHarness.Campaign.Coverage
import IronHarness.Campaign.Tools
import IronHarness.Campaign.Setup
import IronHarness.Lib.Literal
import IronHarness.Lib.Polled
import IronHarness.Campaign.Steps
import IronHarness.Board.Device
import IronHarness.Board.Session
import IronHarness.Board.Transfer
import IronHarness.Board.Refusals
import IronHarness.Lib.Segments
import IronHarness.Runner.Task
import IronHarness.Runner.Log
import IronHarness.Runner.Anchor
import IronHarness.Mqtt.Retained
import IronHarness.Mqtt.Sends
import IronHarness.Mqtt.Converge
import IronHarness.Mqtt.Subscribe
import IronHarness.Lib.Tally
import IronHarness.Report.Exact
import IronHarness.Runner.Plant
import IronHarness.Tasks.Detectors
import IronHarness.Runner.Burst
import IronHarness.Lib.Utf8Stream
import IronHarness.Runner.Backup
import IronHarness.Lib.JsonAscii
import IronHarness.Ops.SameReport
import IronHarness.Lib.Telnet
import IronHarness.Runner.Renode
import IronHarness.Lib.Traced
import IronHarness.Ops.Attempt
import IronHarness.SerialReader.History
import IronHarness.SerialReader.Expect
import IronHarness.Lib.Words
import IronHarness.Modbus.Sim
import IronHarness.Monitor.Window
import IronHarness.Monitor.Deadline
import IronHarness.Runner.Stdin
import IronHarness.Journal.Calls
import IronHarness.Lib.Weight
import IronHarness.Sandbox.Tree
import IronHarness.Sandbox.Quota
import IronHarness.Sandbox.Contract
import IronHarness.Limits.Rate
import IronHarness.Lib.Literals
import IronHarness.Board.Fallible
import IronHarness.Board.Quoting
import IronHarness.Board.Cleanup
import IronHarness.Board.Sections
import IronHarness.Verify.Expect
import IronHarness.Mqtt.Codec
import IronHarness.Mqtt.Filter
import IronHarness.Policy.Hosts
import IronHarness.Runner.Telnet
import IronHarness.Runner.Echo
import IronHarness.Lib.Relaxation
import IronHarness.Plant.Loop
import IronHarness.Plant.Metrics
import IronHarness.Runner.Waits
import IronHarness.Runner.Real
import IronHarness.Lib.LineEnds
import IronHarness.Runner.PrePrinted
import IronHarness.Ops.WireClient
import IronHarness.Lib.Buckets
import IronHarness.Ops.Summary
import IronHarness.Ops.Checks
import IronHarness.Agent.Chat
import IronHarness.Agent.Attempt
import IronHarness.Python.Json
import IronHarness.Python.Loads
import IronHarness.Lib.Sorting
import IronHarness.Report.Lenient
import IronHarness.Report.Survive
import IronHarness.Lib.PyLex
import IronHarness.Runner.Paste
import IronHarness.Lib.Replace
import IronHarness.Lib.JsonInert
import IronHarness.Lib.JsonDict
import IronHarness.Lib.JsonWalk
import IronHarness.Journal.Timeline
import IronHarness.Journal.Page
import IronHarness.Lib.Drain
import IronHarness.Runner.Writers
import IronHarness.Runner.Pump
import IronHarness.Ops.OptIn
import IronHarness.Lib.FirstError
import IronHarness.Tasks.Spec
import IronHarness.Tasks.Rejects
import IronHarness.Faults
import IronHarness.Lib.Flow
import IronHarness.Lib.Census
import IronHarness.Mqtt.Delivery
import IronHarness.Replay.Recording
import IronHarness.Ops.Dialogue
import IronHarness.Ops.Assets
import IronHarness.Limits.Stack
import IronHarness.SerialReader.Lifecycle
import IronHarness.Lib.JsonTorn
import IronHarness.Campaign.Driver
import IronHarness.Mqtt.Inbox
import IronHarness.Modbus.Server
import IronHarness.Session.Esp
import IronHarness.Campaign.Latest
import IronHarness.Ops.Loader
