import ReactWeave.Component.Same
import ReactWeave.Main
import ReactWeave.Proofs.Elements
import ReactWeave.Proofs.Loops
import ReactWeave.Proofs.StyledKinds
import ReactWeave.Proofs.PluginRuns
import ReactWeave.Proofs.Rereading
import ReactWeave.Proofs.Reports
import ReactWeave.Proofs.GetterPasses
import ReactWeave.Proofs.KeptLiterals
import ReactWeave.Proofs.MethodFunctions
import ReactWeave.Proofs.NamedTrees
import ReactWeave.Proofs.StripOrder
import ReactWeave.Proofs.DashedNames
import ReactWeave.Proofs.ImportGaps
import ReactWeave.Proofs.Wrapping
import ReactWeave.Proofs.BoundClasses
import ReactWeave.Proofs.TemplateLiterals
import ReactWeave.Proofs.IndentedLiterals
import ReactWeave.Proofs.ImportStatements
