import PortNet.EdgeIndex
import PortNet.Main
import PortNet.Proofs.Accounting
import PortNet.Proofs.Ancestry
import PortNet.Proofs.Atomicity
import PortNet.Proofs.Bridging
import PortNet.Proofs.Cli.Output
import PortNet.Proofs.Collision
import PortNet.Proofs.Draining
import PortNet.Proofs.Drawing.Hierarchy
import PortNet.Proofs.Fan.Balance
import PortNet.Proofs.Fan.Enumeration
import PortNet.Proofs.Fan.JoinOrder
import PortNet.Proofs.Fan.Locality
import PortNet.Proofs.Fan.Marking
import PortNet.Proofs.Fan.Queues
import PortNet.Proofs.Fan.Range
import PortNet.Proofs.Lossless
import PortNet.Proofs.Normalization.Exchange
import PortNet.Proofs.Normalization.Frame
import PortNet.Proofs.Normalization.Freshness
import PortNet.Proofs.Normalization.Idempotence
import PortNet.Proofs.Normalization.Reordering
import PortNet.Proofs.Parentage
