import AutobricksVpn.Lib.Vec
import AutobricksVpn.Lib.RemovalLoop
import AutobricksVpn.Lib.Machine
import AutobricksVpn.Lib.Eventcount
import AutobricksVpn.Lib.Alarm
import AutobricksVpn.Lib.Inbox
import AutobricksVpn.Lib.IsoTime
import AutobricksVpn.Lib.TextStream
import AutobricksVpn.Lib.SlidingWindow
import AutobricksVpn.Lib.Json
import AutobricksVpn.Lib.Newest
import AutobricksVpn.Lib.Replay
import AutobricksVpn.Lib.OnesComplement
import AutobricksVpn.Lib.Stamped
import AutobricksVpn.Lib.Undo
import AutobricksVpn.Base.Queue
import AutobricksVpn.Base.QueueFifo
import AutobricksVpn.Base.QueueOverflow
import AutobricksVpn.Base.QueueDrain
import AutobricksVpn.Base.QueueStamps
import AutobricksVpn.Base.RetryTimeout
import AutobricksVpn.Net.IoError
import AutobricksVpn.Net.Ipv4
import AutobricksVpn.Tun.Write
import AutobricksVpn.Tun.Echo
import AutobricksVpn.Net.RateLimiter
import AutobricksVpn.Net.SlidingWindow
import AutobricksVpn.Net.Auth
import AutobricksVpn.Config.Text
import AutobricksVpn.Lib.Fields
import AutobricksVpn.Server.Session
import AutobricksVpn.Config.Clients
import AutobricksVpn.Net.Cidr
import AutobricksVpn.Config.Bindings
import AutobricksVpn.Config.Lines
import AutobricksVpn.Config.Embedded
import AutobricksVpn.Config.Settings
import AutobricksVpn.Net.SourcePolicy
import AutobricksVpn.Access.Table
import AutobricksVpn.Access.History
import AutobricksVpn.Server.Drain
import AutobricksVpn.Server.Admission
import AutobricksVpn.Server.Handshake
import AutobricksVpn.Server.Egress
import AutobricksVpn.Server.Control
import AutobricksVpn.Server.Passes
import AutobricksVpn.Server.System
import AutobricksVpn.Server.Refine
import AutobricksVpn.Server.Answers
import AutobricksVpn.Server.Invariants
import AutobricksVpn.Server.Gate
import AutobricksVpn.Server.Replace
import AutobricksVpn.Server.Reconnect
import AutobricksVpn.Server.Reload
import AutobricksVpn.Server.Reply
import AutobricksVpn.Server.Displace
import AutobricksVpn.Server.Account
import AutobricksVpn.Server.Life
import AutobricksVpn.Server.Shifts
import AutobricksVpn.Server.Dialogue
import AutobricksVpn.Server.Connections
import AutobricksVpn.Server.Usage
import AutobricksVpn.Server.Idle
import AutobricksVpn.Server.Isolation
import AutobricksVpn.Server.Deliverable
import AutobricksVpn.Server.SendPath
import AutobricksVpn.Server.SendOrder
import AutobricksVpn.Server.Threads
import AutobricksVpn.Server.Shutdown
import AutobricksVpn.Server.Winding
import AutobricksVpn.Server.Intake
import AutobricksVpn.Server.Injection
import AutobricksVpn.Server.Wakeup
import AutobricksVpn.Server.Watcher
import AutobricksVpn.Server.Removals
import AutobricksVpn.Server.ControlSocket
import AutobricksVpn.Server.Publish
import AutobricksVpn.Server.Commands
import AutobricksVpn.Server.Deadlines
import AutobricksVpn.Server.Sleep
import AutobricksVpn.Client.Keepalive
import AutobricksVpn.Client.Login
import AutobricksVpn.Client.Exchange
import AutobricksVpn.Server.Forwarding
import AutobricksVpn.Client.Tunnel
import AutobricksVpn.Client.Workers
import AutobricksVpn.Client.Outcome
import AutobricksVpn.Client.Carriage
import AutobricksVpn.Client.Wakeful
import AutobricksVpn.Client.Stopping
import AutobricksVpn.Client.Life
import AutobricksVpn.Client.Reconnects
import AutobricksVpn.Client.ForcedDns
import AutobricksVpn.Web.VpnControl
import AutobricksVpn.Web.JsText
import AutobricksVpn.Web.ServerConfig
import AutobricksVpn.Web.ClientAddress
import AutobricksVpn.Web.JsNumber
import AutobricksVpn.Web.SourceCidr
import AutobricksVpn.Web.Rewrite
import AutobricksVpn.Web.ClientLine
import AutobricksVpn.Web.SavedClient
import AutobricksVpn.Web.ClientEdits
import AutobricksVpn.Web.Registration
import AutobricksVpn.Web.StoredLogin
import AutobricksVpn.Web.App
import AutobricksVpn.Web.Issuance
import AutobricksVpn.Web.Reread
import AutobricksVpn.Web.Rollback
import AutobricksVpn.Web.ActivityLog
import AutobricksVpn.Web.ActivityReplay
import AutobricksVpn.Web.ClientFile
import AutobricksVpn.Web.SameSettings
import AutobricksVpn.Web.ClientStart
import AutobricksVpn.Bin.Arguments
