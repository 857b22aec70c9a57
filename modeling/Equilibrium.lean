import Equilibrium.Run
import Equilibrium.Term.Builder
import Equilibrium.Validation
import Equilibrium.Proofs.Grounding
import Equilibrium.Proofs.Restoration
import Equilibrium.Proofs.WholeExpressions
import Equilibrium.Proofs.Polynomials
import Equilibrium.Proofs.DoubleRange
import Equilibrium.Proofs.PlacedEquations
import Equilibrium.Proofs.Refresh
import Equilibrium.Proofs.Effects
import Equilibrium.Proofs.Pass
import Equilibrium.Proofs.PointwisePass
import Equilibrium.Proofs.Growth
import Equilibrium.Proofs.ResumedPass
import Equilibrium.Proofs.Increments
import Equilibrium.Proofs.ExactValues
import Equilibrium.Proofs.Pairs
import Equilibrium.Proofs.Histories
import Equilibrium.Proofs.WellFormedTerms
import Equilibrium.Proofs.SingleObjective
import Equilibrium.Proofs.References
import Equilibrium.Proofs.Runs
import Equilibrium.Proofs.Snapshots
import Equilibrium.Proofs.Validations
import Equilibrium.Proofs.RefusedObjectives
import Equilibrium.Proofs.ResidualViews
import Equilibrium.Proofs.WarmStarts
import Equilibrium.Proofs.PairingFindings
import Equilibrium.Proofs.Exports
import Equilibrium.Proofs.ConstraintIds
import Equilibrium.Proofs.LastEntries
import Equilibrium.Proofs.ParameterLayouts
import Equilibrium.Proofs.Rankings
import Equilibrium.Proofs.BareTexts
import Equilibrium.Proofs.InstalledSolvers
import Equilibrium.Proofs.Spellings
import Equilibrium.Proofs.DistinctNames
import Equilibrium.Proofs.LoadedSettings
