import Rmsgw.Lib.Process
import Rmsgw.Lib.CStrings
import Rmsgw.Lib.Decimal
import Rmsgw.Lib.ByteOrder
import Rmsgw.Lib.Footprint
import Rmsgw.Lib.Numeral
import Rmsgw.Lib.Utf8
import Rmsgw.Lib.ByteLink
import Rmsgw.Lib.PacketCuts
import Rmsgw.Lib.Transcript
import Rmsgw.Lib.SlotTable
import Rmsgw.Lib.SlotStability
import Rmsgw.Lib.LeastRecent
import Rmsgw.Lib.SharedOrder
import Rmsgw.Lib.StableOrder
import Rmsgw.Lib.Batches
import Rmsgw.Lib.Cursor
import Rmsgw.Lib.Templates
import Rmsgw.Lib.Tokens
import Rmsgw.Lib.BlockHash
import Rmsgw.Lib.UnitCircle
import Rmsgw.Lib.SlotRace
import Rmsgw.Lib.SlotAgreement
import Rmsgw.Lib.LostUpdate
import Rmsgw.Lib.Shuffle
import Rmsgw.Lib.OnDemand
import Rmsgw.Lib.Memory
import Rmsgw.Rms
import Rmsgw.Readln.Model
import Rmsgw.Readln.Lines
import Rmsgw.Gateway.Model
import Rmsgw.Gateway.Steps
import Rmsgw.Gateway.Relay
import Rmsgw.Gateway.KeepAlive
import Rmsgw.Gateway.Analysis
import Rmsgw.Channels.Model
import Rmsgw.Channels.Isolation
import Rmsgw.Channels.Subst
import Rmsgw.Channels.Entry
import Rmsgw.Channels.Traversal
import Rmsgw.Channels.Bounds
import Rmsgw.Channels.Omissions
import Rmsgw.Channels.Lookup
import Rmsgw.Channels.Iteration
import Rmsgw.Strtrim
import Rmsgw.Symbols
import Rmsgw.Login.Model
import Rmsgw.Login.Steps
import Rmsgw.Login.Safety
import Rmsgw.Login.Challenge
import Rmsgw.Login.Verdict
import Rmsgw.Login.Bound
import Rmsgw.Login.Response
import Rmsgw.Md5.Model
import Rmsgw.Md5.Rounds
import Rmsgw.Md5.SineTable
import Rmsgw.Md5.Append
import Rmsgw.Md5.Digest
import Rmsgw.Login.Library
import Rmsgw.Login.Stream
import Rmsgw.Login.Spoken
import Rmsgw.Statblock.Model
import Rmsgw.Statblock.Refinement
import Rmsgw.Statblock.Invariant
import Rmsgw.Statblock.Shown
import Rmsgw.Statblock.Attach
import Rmsgw.Statblock.Attached
import Rmsgw.Statblock.Names
import Rmsgw.Statblock.Race
import Rmsgw.Statblock.Adding
import Rmsgw.Statblock.AttachRace
import Rmsgw.StatFile
import Rmsgw.Hosts.Model
import Rmsgw.Hosts.Fields
import Rmsgw.Hosts.OwnLine
import Rmsgw.Hosts.Order
import Rmsgw.Hosts.RoundTrip
import Rmsgw.Hosts.Memory
import Rmsgw.Sendrf.Model
import Rmsgw.Sendrf.Loop
import Rmsgw.Sendrf.Text
import Rmsgw.Sendrf.Retries
import Rmsgw.Gateway.Counters
import Rmsgw.Gateway.Exit
import Rmsgw.Gateway.Handshake
import Rmsgw.Gateway.WriteLoop
import Rmsgw.Conf.Model
import Rmsgw.Conf.Settings
import Rmsgw.Conf.Agreement
import Rmsgw.Conf.Startup
import Rmsgw.Conf.Environment
import Rmsgw.Session.Model
import Rmsgw.Session.OneCms
import Rmsgw.Session.Rotation
import Rmsgw.Session.Sharing
import Rmsgw.Session.Program
import Rmsgw.Session.Turns
import Rmsgw.Session.Idle
import Rmsgw.Session.Accounting
import Rmsgw.Session.Heard
import Rmsgw.Session.Told
import Rmsgw.Session.Concurrent
import Rmsgw.Session.Wire
import Rmsgw.Session.Sockets
import Rmsgw.Conf.Optional
import Rmsgw.Aci.Model
import Rmsgw.Aci.Steps
import Rmsgw.Aci.Posting
import Rmsgw.Aci.Schedule
import Rmsgw.Aci.Retry
import Rmsgw.Aci.Incomplete
import Rmsgw.Aci.Exits
import Rmsgw.Aci.Records
