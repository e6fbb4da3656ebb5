import JvmDebug.Adapter.Basic
import JvmDebug.Adapter.Host
import JvmDebug.Breakpoint.Basic
import JvmDebug.Breakpoint.Book
import JvmDebug.Build
import JvmDebug.Bus.Basic
import JvmDebug.Bus.Delivery
import JvmDebug.ClientView
import JvmDebug.Dap.Arguments
import JvmDebug.Dap.Body
import JvmDebug.Dap.Framing
import JvmDebug.Dap.Message
import JvmDebug.Debuggee.Basic
import JvmDebug.Debuggee.Control
import JvmDebug.Debuggee.Inspect
import JvmDebug.Debuggee.Machine
import JvmDebug.Debuggee.Pump
import JvmDebug.Debuggee.State
import JvmDebug.Decimal.Binary
import JvmDebug.Decimal.Shortest
import JvmDebug.Error
import JvmDebug.FileTree
import JvmDebug.Handles
import JvmDebug.Jdwp.Class
import JvmDebug.Jdwp.Connection.Basic
import JvmDebug.Jdwp.Connection.Traffic
import JvmDebug.Jdwp.Error
import JvmDebug.Jdwp.Event
import JvmDebug.Jdwp.Modifier
import JvmDebug.Jdwp.Packet
import JvmDebug.Jdwp.Query
import JvmDebug.Jdwp.Reader
import JvmDebug.Jdwp.Signature
import JvmDebug.Jdwp.Value
import JvmDebug.Jdwp.Wire
import JvmDebug.Json.Basic
import JvmDebug.Json.Cursor
import JvmDebug.Json.Document
import JvmDebug.Json.Printer
import JvmDebug.Json.Record
import JvmDebug.Launch
import JvmDebug.Log
import JvmDebug.Log.Journal
import JvmDebug.Main
import JvmDebug.Network
import JvmDebug.OsError
import JvmDebug.Path
import JvmDebug.Placement.Backend
import JvmDebug.Placement.Placer
import JvmDebug.Proofs.Adapter.Sparing
import JvmDebug.Proofs.Breakpoint.Book
import JvmDebug.Proofs.Breakpoint.Identity
import JvmDebug.Proofs.Bus.Standing
import JvmDebug.Proofs.Connection.Correlation
import JvmDebug.Proofs.Connection.Routing
import JvmDebug.Proofs.Debuggee.Beginning
import JvmDebug.Proofs.Debuggee.Caching
import JvmDebug.Proofs.Debuggee.Completing
import JvmDebug.Proofs.Debuggee.Concord
import JvmDebug.Proofs.Debuggee.Handling
import JvmDebug.Proofs.Debuggee.InTurn
import JvmDebug.Proofs.Debuggee.Keeping
import JvmDebug.Proofs.Debuggee.Outstanding
import JvmDebug.Proofs.Debuggee.Overtaking
import JvmDebug.Proofs.Debuggee.Preparing
import JvmDebug.Proofs.Debuggee.Replies
import JvmDebug.Proofs.Debuggee.Silence
import JvmDebug.Proofs.Debuggee.Sources
import JvmDebug.Proofs.Debuggee.Stepping
import JvmDebug.Proofs.Debuggee.UpToDate
import JvmDebug.Proofs.Jdwp.Events
import JvmDebug.Proofs.Jdwp.Lists
import JvmDebug.Proofs.Jdwp.Reading
import JvmDebug.Proofs.Jdwp.Requests
import JvmDebug.Proofs.Jdwp.Signatures
import JvmDebug.Proofs.List
import JvmDebug.Proofs.Machine.Announcing
import JvmDebug.Proofs.Path
import JvmDebug.Proofs.Placement.Account
import JvmDebug.Proofs.Placement.Alive
import JvmDebug.Proofs.Placement.Exact
import JvmDebug.Proofs.Placement.History
import JvmDebug.Proofs.Placement.Filters
import JvmDebug.Proofs.Placement.Once
import JvmDebug.Proofs.Placement.Order
import JvmDebug.Proofs.Placement.Overlap
import JvmDebug.Proofs.Placement.Recorded
import JvmDebug.Proofs.Placement.Refusals
import JvmDebug.Proofs.Placement.Replay
import JvmDebug.Proofs.Placement.Source
import JvmDebug.Proofs.Placement.Stops
import JvmDebug.Proofs.Placement.Sync
import JvmDebug.Proofs.Placement.Unwaiting
import JvmDebug.Proofs.Placement.World
import JvmDebug.Proofs.Rendezvous
import JvmDebug.Proofs.Routine.Outcome
import JvmDebug.Proofs.Routine.Phases
import JvmDebug.Proofs.Routine.Scene
import JvmDebug.Proofs.Routine.Terms
import JvmDebug.Proofs.Server.Reading
import JvmDebug.Proofs.Server.Returning
import JvmDebug.Proofs.Server.Writing
import JvmDebug.Proofs.Session.Disconnecting
import JvmDebug.Proofs.Session.Ending
import JvmDebug.Proofs.Session.Forwarding
import JvmDebug.Proofs.Session.Holding
import JvmDebug.Proofs.Session.Lifetime
import JvmDebug.Proofs.Session.Matching
import JvmDebug.Proofs.Session.Navigating
import JvmDebug.Proofs.Session.Recalling
import JvmDebug.Proofs.Session.Replacing
import JvmDebug.Proofs.Session.Resuming
import JvmDebug.Proofs.Session.Verified
import JvmDebug.Rendezvous
import JvmDebug.Routine.Basic
import JvmDebug.Routine.Crew
import JvmDebug.Server
import JvmDebug.Session.Events
import JvmDebug.Session.Lanes
import JvmDebug.Session.Requests
import JvmDebug.Session.Start
import JvmDebug.Session.State
import JvmDebug.Source
import JvmDebug.SourceIndex.Basic
import JvmDebug.SourceIndex.Scan
import JvmDebug.SourceIndex.TargetFile
import JvmDebug.Text.Blank
import JvmDebug.Text.Hex
import JvmDebug.Text.Hidden
import JvmDebug.Text.Line
import JvmDebug.Text.Quoted
import JvmDebug.Text.Utf8
