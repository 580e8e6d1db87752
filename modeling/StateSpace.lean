import StateSpace.Engine.Choice
import StateSpace.Main
import StateSpace.Proofs.Diagram.Closed
import StateSpace.Proofs.Diagram.Cube
import StateSpace.Proofs.Diagram.Reduced
import StateSpace.Proofs.Engine.Clients
import StateSpace.Proofs.Engine.Timed
import StateSpace.Proofs.Exploration.Bounded
import StateSpace.Proofs.Exploration.Dot
import StateSpace.Proofs.Exploration.Footprint
import StateSpace.Proofs.Exploration.Limited
import StateSpace.Proofs.Exploration.Truncated
import StateSpace.Proofs.Expr.Abstraction
import StateSpace.Proofs.Expr.RoundTrip
import StateSpace.Proofs.Kripke.Faithful
import StateSpace.Proofs.Network.Consistent
import StateSpace.Proofs.Network.Marks
import StateSpace.Proofs.OpCache.History
import StateSpace.Proofs.Proposition.Offered
import StateSpace.Proofs.Proposition.Rendered
import StateSpace.Proofs.Proposition.Scanner
import StateSpace.Proofs.Successors.Protocol
import StateSpace.Proofs.Table.Interning
import StateSpace.Proofs.Workspace.Conservation
import StateSpace.Proofs.Workspace.Teardown
import StateSpace.Proofs.Workspace.Uncached
