import ConcurrencyFaults.Draft
import ConcurrencyFaults.Listing
import ConcurrencyFaults.Operator
import ConcurrencyFaults.Proofs.Arena.Staleness
import ConcurrencyFaults.Proofs.Closed
import ConcurrencyFaults.Proofs.Locking.Addressing
import ConcurrencyFaults.Proofs.Locking.MissingArguments
import ConcurrencyFaults.Proofs.Locking.Renumbering
import ConcurrencyFaults.Proofs.Locking.Splitting
import ConcurrencyFaults.Proofs.Locking.StatusRemoval
import ConcurrencyFaults.Proofs.Locking.Exchange
import ConcurrencyFaults.Proofs.Operators
import ConcurrencyFaults.Proofs.PairMatching
import ConcurrencyFaults.WrittenForm
import ConcurrencyFaults.Proofs.Answers
import ConcurrencyFaults.Proofs.Amendment
import ConcurrencyFaults.Proofs.History
import ConcurrencyFaults.Proofs.Marking
import ConcurrencyFaults.Proofs.Locking.Marking
import ConcurrencyFaults.Proofs.SharedLedger
import ConcurrencyFaults.Proofs.Alteration
import ConcurrencyFaults.Proofs.Locking.ChangedFunctions
import ConcurrencyFaults.Proofs.ReportedPositions
import ConcurrencyFaults.Proofs.SelectedFunctions
import ConcurrencyFaults.Proofs.CommutingOperators
import ConcurrencyFaults.Proofs.Dependents
import ConcurrencyFaults.Proofs.Locking.SplitLayout
import ConcurrencyFaults.Proofs.Locking.MovedCalls
import ConcurrencyFaults.Proofs.Arena.Refusals
import ConcurrencyFaults.Proofs.Replacement
import ConcurrencyFaults.Proofs.Walks
import ConcurrencyFaults.Proofs.Enumeration
import ConcurrencyFaults.Proofs.ScopeToggling
import ConcurrencyFaults.Proofs.AttributeEffects
import ConcurrencyFaults.Proofs.CandidateRemoval
import ConcurrencyFaults.Proofs.AliasTables
import ConcurrencyFaults.Proofs.Snapshots
import ConcurrencyFaults.Proofs.Operators.Deadlines
import ConcurrencyFaults.Proofs.SignalExchange
import ConcurrencyFaults.Proofs.Tallies
import ConcurrencyFaults.Proofs.OperandRewriting
