import ThreeAddress.Command.Directory
import ThreeAddress.Main
import ThreeAddress.Proofs.AgreeingNames
import ThreeAddress.Proofs.Grammar
import ThreeAddress.Proofs.ParseTrees
import ThreeAddress.Proofs.ReadPhrases
import ThreeAddress.Proofs.ReadPrograms
import ThreeAddress.Proofs.ControlFlow
import ThreeAddress.Proofs.StructuredCode
import ThreeAddress.Proofs.Callees
import ThreeAddress.Proofs.ControlIntegrity
import ThreeAddress.Proofs.LinearBodies
import ThreeAddress.Proofs.NameLives
import ThreeAddress.Proofs.Assignments
import ThreeAddress.Proofs.StoredResults
import ThreeAddress.Proofs.GeneratedNames
import ThreeAddress.Proofs.LocalNames
import ThreeAddress.Proofs.Diagnostics
import ThreeAddress.Proofs.ReusedGenerator
import ThreeAddress.Proofs.LongestTokens
import ThreeAddress.Proofs.Layout
import ThreeAddress.Proofs.Unambiguous
import ThreeAddress.Proofs.WrittenText
import ThreeAddress.Proofs.ReadBack
import ThreeAddress.Proofs.Lifecycles
import ThreeAddress.Proofs.OrdinaryValues
import ThreeAddress.Proofs.UnassignedReads
import ThreeAddress.Proofs.CallProtocol
import ThreeAddress.Proofs.ConstantsInTime
import ThreeAddress.Proofs.OperandSites
import ThreeAddress.Proofs.Grouping
import ThreeAddress.Proofs.ProgramOutlines
import ThreeAddress.Proofs.Redeclarations
import ThreeAddress.Proofs.SeparatedTokens
import ThreeAddress.Proofs.ReadableCode
import ThreeAddress.Proofs.BoundedReading
import ThreeAddress.Proofs.ReportedPlaces
import ThreeAddress.Proofs.ScopesAsMaps
import ThreeAddress.Proofs.FileEffects
import ThreeAddress.Proofs.ReportOrder
import ThreeAddress.Proofs.UnknownYields
import ThreeAddress.Proofs.NamesInTurn
