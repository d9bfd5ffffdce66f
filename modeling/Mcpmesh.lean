import Mcpmesh.Codec
import Mcpmesh.Gate.Composed
import Mcpmesh.Net.Sever
import Mcpmesh.Pairing.Invites
import Mcpmesh.Roster.AllOrNothing
import Mcpmesh.Roster.Anchor
import Mcpmesh.Roster.Functional
import Mcpmesh.Trust.Statements
import Mcpmesh.Trust.Heartbeat
import Mcpmesh.Net.Service
import Mcpmesh.Dial.ConnCache
import Mcpmesh.Pairing.Ceremony
import Mcpmesh.Gate.Principals
import Mcpmesh.Dial.Coverage
import Mcpmesh.Dial.Hooks
import Mcpmesh.Net.Admit
import Mcpmesh.Roster.Staleness
import Mcpmesh.Roster.Successor
import Mcpmesh.Backends.Identity
import Mcpmesh.Backends.AuditTrail
import Mcpmesh.Blobs.Access
import Mcpmesh.Daemon.Reach
import Mcpmesh.Daemon.Evidence
import Mcpmesh.Daemon.Announce
import Mcpmesh.Daemon.Unpair
import Mcpmesh.Pairing.Chain
import Mcpmesh.Daemon.LiveIdentity
import Mcpmesh.Daemon.CutOff
import Mcpmesh.Daemon.RevokedForward
import Mcpmesh.Pairing.DisplayOnly
import Mcpmesh.Daemon.FastSwap
import Mcpmesh.Daemon.Undisturbed
import Mcpmesh.Daemon.Ephemeral
import Mcpmesh.Audit.Live
import Mcpmesh.Roster.Labels
import Mcpmesh.Roster.Degradation
import Mcpmesh.Roster.Agreement
import Mcpmesh.Limits.RateLimiter
import Mcpmesh.Pairing.Attestation
import Mcpmesh.Pairing.Recovery
import Mcpmesh.Pairing.InviteLine
import Mcpmesh.Backends.DropReport
import Mcpmesh.Backends.Wedge
import Mcpmesh.Blobs.ListPage
import Mcpmesh.Daemon.GrantRefusal
import Mcpmesh.Backends.ArgsHash
import Mcpmesh.Audit.Reading
import Mcpmesh.Blobs.FetchProgress
import Mcpmesh.Daemon.PathRun
import Mcpmesh.Daemon.ConfigReading
import Mcpmesh.Blobs.FetchExact
import Mcpmesh.Daemon.RelayDrift
import Mcpmesh.Backends.SpawnEnv
import Mcpmesh.Dial.LookupHygiene
import Mcpmesh.Audit.Retention
import Mcpmesh.Control.Exchange
import Mcpmesh.Accept.AcceptLoop
import Mcpmesh.Dial.Race
import Mcpmesh.Trust.KeyFile
import Mcpmesh.Daemon.Resume
import Mcpmesh.Limits.ServiceLimits
import Mcpmesh.Control.Subscription
import Mcpmesh.Roster.Distribution
import Mcpmesh.Cli.Proxy
import Mcpmesh.Roster.Members
import Mcpmesh.Daemon.SelfNet
