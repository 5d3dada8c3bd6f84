import JavaSignatures.Main
import JavaSignatures.SharedSession
import JavaSignatures.Proofs.Decoding
import JavaSignatures.Proofs.Bodies.Sources
import JavaSignatures.Proofs.VariableScoping
import JavaSignatures.Proofs.WholeNames
import JavaSignatures.Proofs.NameAgreement
import JavaSignatures.Proofs.SettingsIsolation
import JavaSignatures.Proofs.Interleaving
import JavaSignatures.Proofs.StaleErrors
import JavaSignatures.Proofs.NestedPaths
import JavaSignatures.Proofs.Layout.Sources
import JavaSignatures.Proofs.BoundSubstitution
import JavaSignatures.Proofs.KeptVariables
import JavaSignatures.Proofs.LiteralArrays
import JavaSignatures.Proofs.BaseNames
import JavaSignatures.Proofs.BareVariables
import JavaSignatures.Proofs.ImplicitPackage
import JavaSignatures.Proofs.WrittenArguments
import JavaSignatures.Proofs.BoundNames
import JavaSignatures.Proofs.DescendantPaths
import JavaSignatures.Proofs.Replay
import JavaSignatures.Proofs.StaticNesting
import JavaSignatures.Proofs.ImportUse
import JavaSignatures.Proofs.ReportAgreement
import JavaSignatures.Proofs.RootChoice
import JavaSignatures.Proofs.MemberOrder
import JavaSignatures.Proofs.ArrayBrackets
import JavaSignatures.Proofs.SettingsWriting
import JavaSignatures.Proofs.BlockTags
import JavaSignatures.Proofs.ParameterDocs
import JavaSignatures.Proofs.SettledDescriptions
import JavaSignatures.Proofs.DecoratedLines
import JavaSignatures.Proofs.InlineTags
import JavaSignatures.Proofs.DescriptionEnds
import JavaSignatures.Proofs.Headlines
import JavaSignatures.Proofs.DashedNames
import JavaSignatures.Proofs.SettledNames
import JavaSignatures.Proofs.TextRuns
