import TwoPass.Expression.Tree
import TwoPass.Inspection
import TwoPass.Listing.Sink
import TwoPass.Main
import TwoPass.Proofs.Agreement
import TwoPass.Proofs.Allocation
import TwoPass.Proofs.Assembly
import TwoPass.Proofs.Deferral
import TwoPass.Proofs.Expression
import TwoPass.Proofs.Failure
import TwoPass.Proofs.FreeCell
import TwoPass.Proofs.Interleaving
import TwoPass.Storage.Series
import TwoPass.Proofs.Resumption
import TwoPass.Proofs.Aftermath
import TwoPass.Proofs.SymbolLifetime
import TwoPass.Proofs.Reading.MemoryMap
import TwoPass.Proofs.Reading.BlockRamInstances
import TwoPass.Proofs.Loading
import TwoPass.Proofs.Usage
import TwoPass.Proofs.Completion
import TwoPass.Proofs.Reading.HexDumpText
import TwoPass.Proofs.Reading.BlockRamRows
import TwoPass.Proofs.Reordering
import TwoPass.Proofs.Congruence
import TwoPass.Proofs.Power
import TwoPass.Proofs.Reading.VhdlEntries
import TwoPass.Proofs.RawCell
import TwoPass.Proofs.Termination
import TwoPass.Proofs.Request
import TwoPass.Proofs.Division
import TwoPass.Proofs.Shift
import TwoPass.Proofs.Journal
