import Milp.Main
import Milp.Proofs.Command.Answers
import Milp.Proofs.Matrix.Lines
import Milp.Proofs.Matrix.Products
import Milp.Proofs.Problem.RoundTrip
import Milp.Proofs.Problem.Tightening
import Milp.Proofs.Simplex.BasicSolution
import Milp.Proofs.Simplex.Drift
import Milp.Proofs.Simplex.Redundancy
import Milp.Proofs.Simplex.Tolerance
import Milp.Proofs.Search.Account
import Milp.Proofs.Search.BestFirst
import Milp.Proofs.Search.Choice
import Milp.Proofs.Search.Nesting
import Milp.Proofs.Search.Partition
import Milp.Proofs.Search.Preorder
import Milp.Proofs.Search.Termination
import Milp.Proofs.Search.Truncation
import Milp.Proofs.Storage.Invariants
import Milp.Proofs.Storage.Visits
