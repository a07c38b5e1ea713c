import CommandLine.Argument.Inspect
import CommandLine.Market.Shell
import CommandLine.Proofs.Accounting
import CommandLine.Proofs.Choice
import CommandLine.Proofs.Coverage
import CommandLine.Proofs.Effort
import CommandLine.Proofs.Refusal
import CommandLine.Proofs.Suggesting
import CommandLine.Stock.Acceptance
import CommandLine.Stock.Computation
import CommandLine.Stock.Mapping
import CommandLine.Proofs.Protocol
import CommandLine.Proofs.Extending
import CommandLine.Proofs.Fitting
import CommandLine.Proofs.Modes
import CommandLine.Proofs.Omitting
import CommandLine.Proofs.Looping
import CommandLine.Proofs.Ordering
import CommandLine.Proofs.Replaying
import CommandLine.Proofs.Skipping
import CommandLine.Proofs.Truncating
import CommandLine.Proofs.Chaining
import CommandLine.Proofs.Leftover
import CommandLine.Proofs.Sight
import CommandLine.Proofs.Level
import CommandLine.Proofs.Likeness
import CommandLine.Proofs.Overlooking
import CommandLine.Proofs.Mirroring
import CommandLine.Proofs.Foresight
import CommandLine.Proofs.Grouping
import CommandLine.Proofs.Flattening
import CommandLine.Proofs.Commuting
import CommandLine.Proofs.Accepting
import CommandLine.Proofs.Numeral
import CommandLine.Proofs.Retyping
import CommandLine.Proofs.Bounds
import CommandLine.Proofs.Bytes
import CommandLine.Proofs.Overwriting
import CommandLine.Proofs.Tabbing
