import TaskFiring.Assembly
import TaskFiring.Proofs.Accounts
import TaskFiring.Proofs.Assignment
import TaskFiring.Proofs.Calendar
import TaskFiring.Proofs.Ceiling
import TaskFiring.Proofs.Contention
import TaskFiring.Proofs.Coverage
import TaskFiring.Proofs.Custody
import TaskFiring.Proofs.Deactivation
import TaskFiring.Proofs.Deference
import TaskFiring.Proofs.Exclusion
import TaskFiring.Proofs.FinalState
import TaskFiring.Proofs.Finality
import TaskFiring.Proofs.Identifiers
import TaskFiring.Proofs.Identity
import TaskFiring.Proofs.Independence
import TaskFiring.Proofs.Interference
import TaskFiring.Proofs.KnownRecord
import TaskFiring.Proofs.Ledger
import TaskFiring.Proofs.Leftover
import TaskFiring.Proofs.Leniency
import TaskFiring.Proofs.LettingGo
import TaskFiring.Proofs.Lineage
import TaskFiring.Proofs.Locking
import TaskFiring.Proofs.Numerals
import TaskFiring.Proofs.Postponement
import TaskFiring.Proofs.Printing
import TaskFiring.Proofs.Progress
import TaskFiring.Proofs.Recall
import TaskFiring.Proofs.Records
import TaskFiring.Proofs.Recovery
import TaskFiring.Proofs.Refusal
import TaskFiring.Proofs.RoundTrip
import TaskFiring.Proofs.Spelling
import TaskFiring.Proofs.Stamps
import TaskFiring.Proofs.Succession
import TaskFiring.Proofs.Suspension
import TaskFiring.Proofs.Telling
import TaskFiring.Proofs.Waiting
import TaskFiring.Proofs.Withdrawal
import TaskFiring.Scenario.Run
import TaskFiring.Task.Json
