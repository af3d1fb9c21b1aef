import Criteria.Field
import Criteria.Predicate
import Criteria.Event
import Criteria.Dispatch
import Criteria.Transformation
import Criteria.Pass
import Criteria.Proofs.Node
import Criteria.Cond.Digest
import Criteria.Proofs.Rewriting
import Criteria.Proofs.Reachable
import Criteria.Proofs.NormalForm
import Criteria.Proofs.Reading
import Criteria.Proofs.Congruence
import Criteria.Proofs.Membership
import Criteria.Proofs.Failure
import Criteria.Proofs.Refinement
import Criteria.Proofs.Merging
import Criteria.Proofs.Factoring
import Criteria.Proofs.Negation
import Criteria.Proofs.Optimisation
import Criteria.Proofs.Construction
import Criteria.Proofs.Obtainable
import Criteria.Proofs.Equivalence
import Criteria.Proofs.Leaves
import Criteria.Proofs.NegationNormalForm
import Criteria.Proofs.Unshared
import Criteria.Proofs.Settled
import Criteria.Proofs.Canonical
import Criteria.Proofs.Rearrangement
import Criteria.Proofs.Concordance
import Criteria.Proofs.Regrouping
import Criteria.Proofs.Replacement
import Criteria.Proofs.Exposure
import Criteria.Proofs.Legibility
import Criteria.Proofs.Rebuilding
import Criteria.Proofs.Polarity
import Criteria.Proofs.Compilation
import Criteria.Proofs.PassCongruence
import Criteria.Proofs.Pipeline
import Criteria.Proofs.Omission
import Criteria.Proofs.Acceptance
import Criteria.Proofs.KeyCheck
import Criteria.Proofs.Alternatives
import Criteria.Proofs.OrderLaws
import Criteria.Proofs.Extension
import Criteria.Proofs.Lookup
import Criteria.Proofs.Insertion
import Criteria.Proofs.Fallback
import Criteria.Proofs.Gathering
import Criteria.Proofs.Partition
import Criteria.Proofs.ValueOrder
import Criteria.Proofs.Handlers
