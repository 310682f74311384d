import Conveyance.Wire.Bounds
import Conveyance.Storage.Inspection
import Conveyance.Storage.ReportLists
import Conveyance.Storage.Migrations
import Conveyance.Storage.ExportRoundTrip
import Conveyance.Core.SessionObject
import Conveyance.Pairing.QrCode
import Conveyance.Pairing.Agreement
import Conveyance.Pairing.NonceFile
import Conveyance.Pairing.Connecting
import Conveyance.Pairing.HostileBytes
import Conveyance.Daemon.Queueing
import Conveyance.Daemon.Consent
import Conveyance.Daemon.Lifecycle
import Conveyance.Daemon.Sweeping
import Conveyance.Daemon.Orphans
import Conveyance.Daemon.Timers
import Conveyance.Daemon.Granting
import Conveyance.Daemon.Inbound
import Conveyance.Daemon.Reverification
import Conveyance.Daemon.Starting
import Conveyance.Phone.SessionSwitch
import Conveyance.Phone.SessionEnd
import Conveyance.Phone.Outbound
import Conveyance.Phone.ServerAttach
import Conveyance.Phone.PromptTimers
import Conveyance.Ffi.RequestIds
import Conveyance.Phone.LoggedAnswers
import Conveyance.Phone.IdentityCodec
import Conveyance.Phone.WrapMigration
import Conveyance.Phone.CredentialStore
import Conveyance.Cli.Since
