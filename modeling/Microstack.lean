import Microstack.Assembly
import Microstack.Assembly.Listing
import Microstack.Json.Reader
import Microstack.Json.Writer
import Microstack.Run
import Microstack.Container
import Microstack.Display
import Microstack.CommandLine
import Microstack.CommandLine.Snapshot
import Microstack.Main
import Microstack.Proofs.Indirect
import Microstack.Proofs.Emission
import Microstack.Proofs.Reassembly
import Microstack.Proofs.Accounting
import Microstack.Proofs.Bounds
import Microstack.Proofs.Growth
import Microstack.Proofs.Limit
import Microstack.Proofs.Causality
import Microstack.Proofs.Agreement
import Microstack.Proofs.Observation
import Microstack.Proofs.Ending
import Microstack.Proofs.Meaning
import Microstack.Proofs.Jumps
import Microstack.Proofs.Word
import Microstack.Proofs.Arithmetic
import Microstack.Proofs.Location
import Microstack.Proofs.Faults
import Microstack.Proofs.Grammar
import Microstack.Proofs.Insertion
import Microstack.Proofs.Stack
import Microstack.Proofs.Store
import Microstack.Proofs.Diagnosis
import Microstack.Proofs.Copy
