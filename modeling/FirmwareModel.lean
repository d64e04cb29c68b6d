import FirmwareModel.Document.File
import FirmwareModel.Document.Query
import FirmwareModel.Extraction
import FirmwareModel.Settings.File
import FirmwareModel.Proofs.Document.RoundTrip
import FirmwareModel.Proofs.Document.DepthFirst
import FirmwareModel.Proofs.Settings.PartialFiles
import FirmwareModel.Proofs.Grammar.Declarations
import FirmwareModel.Proofs.Grammar.Discovery
import FirmwareModel.Proofs.Grammar.LongestPath
import FirmwareModel.Proofs.Memory.Placements
import FirmwareModel.Proofs.Memory.Windows
import FirmwareModel.Proofs.Memory.Columns
import FirmwareModel.Proofs.Memory.Layouts
import FirmwareModel.Proofs.Value.IntegerTypes
import FirmwareModel.Proofs.Object.Targets
import FirmwareModel.Proofs.Object.Descriptions
import FirmwareModel.Proofs.Tree.Reachable
import FirmwareModel.Proofs.Tree.Pointers
import FirmwareModel.Proofs.Tree.Heirs
import FirmwareModel.Proofs.Tree.Growth
import FirmwareModel.Proofs.Extraction.Addresses
import FirmwareModel.Proofs.Extraction.Overlay
import FirmwareModel.Proofs.Extraction.Namesakes
import FirmwareModel.Proofs.Extraction.Callables
import FirmwareModel.Proofs.Extraction.Failures
import FirmwareModel.Proofs.Extraction.SymbolOrder
import FirmwareModel.Proofs.Extraction.UnreadSymbols
import FirmwareModel.Proofs.Extraction.Diagnostics
import FirmwareModel.Proofs.Extraction.Queries
import FirmwareModel.Proofs.Extraction.Statistics
import FirmwareModel.Proofs.Extraction.Literals
