import UnitAssembly.FileSystem.Tree
import UnitAssembly.Main
import UnitAssembly.Proofs.Command.ExitCodes
import UnitAssembly.Proofs.Command.ModuleListing
import UnitAssembly.Proofs.Emission.Bootstrap
import UnitAssembly.Proofs.Emission.Narrative
import UnitAssembly.Proofs.Layout.BlockTree
import UnitAssembly.Proofs.Layout.Content
import UnitAssembly.Proofs.Layout.Fragments
import UnitAssembly.Proofs.Layout.Idempotence
import UnitAssembly.Proofs.Layout.Levels
import UnitAssembly.Proofs.Library.Discovered
import UnitAssembly.Proofs.Library.Initializers
import UnitAssembly.Proofs.Library.ListingOrder
import UnitAssembly.Proofs.StringLiteral.Phases
import UnitAssembly.Proofs.Template.Diagnosis
import UnitAssembly.Proofs.Template.Seams
import UnitAssembly.Proofs.Symbols.Interning
import UnitAssembly.Proofs.Library.RequestOrder
import UnitAssembly.Proofs.Command.ModuleArguments
import UnitAssembly.Proofs.Text.Resumption
