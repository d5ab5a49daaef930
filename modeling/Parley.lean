import Parley.Message.Layout
import Parley.Proofs.Accounting
import Parley.Proofs.Client.Lifecycle
import Parley.Proofs.Connection.Lifecycle
import Parley.Proofs.Connection.Release
import Parley.Proofs.Deque
import Parley.Proofs.Gauge
import Parley.Proofs.Grammar
import Parley.Proofs.Handshake
import Parley.Proofs.Message.Stack
import Parley.Proofs.Network.Delivery
import Parley.Proofs.Server.Broadcast
import Parley.Proofs.Server.Dispatch
import Parley.Proofs.Server.Gate
import Parley.Proofs.Server.Isolation
import Parley.Proofs.Server.Stopping
import Parley.Proofs.Settings.Environment
import Parley.Proofs.Settings.Partial
import Parley.Proofs.Settings.Validation
import Parley.Settings.Document
import Parley.Simulation
