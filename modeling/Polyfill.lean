import Polyfill.Disk.Changes
import Polyfill.Edit.Line
import Polyfill.Header
import Polyfill.Main
import Polyfill.Notice.Mention
import Polyfill.Proofs.Batch.Accounting
import Polyfill.Proofs.Batch.Survival
import Polyfill.Proofs.Edit.Splice
import Polyfill.Proofs.Header.Prologue
import Polyfill.Proofs.Mapping.Identity
import Polyfill.Proofs.Mapping.Moves
import Polyfill.Proofs.Mapping.Resolve
import Polyfill.Proofs.Mapping.Settle
import Polyfill.Proofs.Notice.Calls
import Polyfill.Proofs.Notice.Members
import Polyfill.Proofs.Notice.Spelling
import Polyfill.Proofs.Notice.Triggers
import Polyfill.Proofs.Notice.Wrappers
import Polyfill.Proofs.Prune.Aliases
import Polyfill.Proofs.Transform.Collapse
import Polyfill.Proofs.Transform.Guards
import Polyfill.Proofs.Transform.Imports
import Polyfill.Proofs.Transform.Outcome
import Polyfill.Proofs.Transform.Preview
import Polyfill.Proofs.Transform.Renamed
import Polyfill.Proofs.Transform.Selective
import Polyfill.Proofs.Transform.Settled
