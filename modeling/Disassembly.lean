import Disassembly.Instruction.Display
import Disassembly.Instruction.Run
import Disassembly.Text.Run
import Disassembly.Json.RoundTrip
import Disassembly.Stored.Values
import Disassembly.Proofs.Table
import Disassembly.Proofs.Text
import Disassembly.Proofs.Bounded
import Disassembly.Proofs.Step
import Disassembly.Proofs.Construction
import Disassembly.Proofs.Representation
import Disassembly.Proofs.Alike
import Disassembly.Proofs.Agreement
import Disassembly.Proofs.Copy
import Disassembly.Proofs.Reuse
import Disassembly.Proofs.History
import Disassembly.Proofs.Regime
import Disassembly.Proofs.Collection
import Disassembly.Proofs.Supply
import Disassembly.Proofs.Interchange
import Disassembly.Proofs.Joining
import Disassembly.Proofs.Cutting
import Disassembly.Proofs.Prefixes
import Disassembly.Proofs.Referring
import Disassembly.Proofs.FlagText
import Disassembly.Proofs.Restoring
import Disassembly.Proofs.RegisterNames
import Disassembly.Proofs.Renewal
import Disassembly.Proofs.Stale
import Disassembly.Proofs.Availability
import Disassembly.Proofs.Reservations
import Disassembly.Proofs.Shortage
import Disassembly.Proofs.TagNames
import Disassembly.Proofs.Line
import Disassembly.Proofs.Accumulation
import Disassembly.Proofs.Summaries
import Disassembly.Proofs.Stages
import Disassembly.Proofs.HighWater
import Disassembly.Proofs.RawText
import Disassembly.Proofs.Elements
import Disassembly.Proofs.Literals
import Disassembly.Proofs.Spelling
import Disassembly.Proofs.Configuration
import Disassembly.Proofs.Boundaries
