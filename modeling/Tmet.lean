import Tmet.Proofs.FifoNetwork.Counters
import Tmet.Proofs.FifoNetwork.ConnList
import Tmet.Proofs.FifoNetwork.Compound
import Tmet.Proofs.PySyncObj.VoteRule
import Tmet.Proofs.PySyncObj.Broadcast
import Tmet.Proofs.PySyncObj.Frame
import Tmet.Proofs.PySyncObj.Accounting
import Tmet.Proofs.Mysyscall.SendPath
import Tmet.Proofs.Mysyscall.Clock
import Tmet.Proofs.Mysyscall.Times
import Tmet.Proofs.Mysyscall.Tracking
import Tmet.Proofs.Concerned
import Tmet.Proofs.Loading
import Tmet.Proofs.StoredRules
import Tmet.Proofs.Tproxy.Masquerade
import Tmet.Proofs.Tproxy.Ownership
import Tmet.Proofs.Tproxy.Receiver
import Tmet.Proofs.Tproxy.Delivery
import Tmet.Proofs.Tproxy.Router
import Tmet.Proofs.Tproxy.Recover
import Tmet.Proofs.Tproxy.Backlog
import Tmet.Proofs.Tproxy.PassThrough
import Tmet.Lib.Fold
import Tmet.Lib.Tokens
import Tmet.Tproxy.Command
import Tmet.Mysyscall.Router
import Tmet.Mysyscall.InitConfig
import Tmet.Proofs.Mysyscall.Router
import Tmet.Proofs.Mysyscall.Increments
import Tmet.Proofs.Mysyscall.Wrappers
import Tmet.Proofs.Mysyscall.Bookkeeping
import Tmet.Proofs.Mysyscall.MallocFree
import Tmet.Proofs.Mysyscall.BinaryStr
import Tmet.Proofs.Tproxy.Commands
import Tmet.Proofs.RouterCmd
import Tmet.Proofs.FrameCodec
import Tmet.Proofs.Tproxy.Moves
import Tmet.Proofs.Tproxy.Direct
import Tmet.Proofs.Tproxy.Alignment
import Tmet.Proofs.EndToEnd
import Tmet.Lib.Simulation
import Tmet.Proofs.Tproxy.Status
import Tmet.Proofs.Tproxy.Process
import Tmet.Lib.Links
import Tmet.Proofs.FifoNetwork.Reliable
import Tmet.Proofs.FifoNetwork.Labels
import Tmet.Proofs.PySyncObj.Network
import Tmet.Proofs.PySyncObj.Electable
import Tmet.Proofs.Tproxy.Drain
import Tmet.Mysyscall.Common
import Tmet.Proofs.Mysyscall.Registry
