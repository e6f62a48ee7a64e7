import ComponentTags.Diagnostic
import ComponentTags.Main
import ComponentTags.Proofs.Resolution
import ComponentTags.Proofs.Lexeme
import ComponentTags.Proofs.Nesting
import ComponentTags.Proofs.FlatExpansion
import ComponentTags.Proofs.AttributeReading
import ComponentTags.Proofs.ContentWindow
import ComponentTags.Proofs.AttributePrinting
import ComponentTags.Proofs.Markup
import ComponentTags.Proofs.AttributeGrammar
import ComponentTags.Proofs.TagInterior
import ComponentTags.Proofs.FaultPlaces
import ComponentTags.Proofs.MarkContext
import ComponentTags.Proofs.TagFreeOutput
import ComponentTags.Proofs.Composition
import ComponentTags.Proofs.DebugFlag
import ComponentTags.Proofs.MacroAgreement
import ComponentTags.Proofs.Tiling
import ComponentTags.Proofs.FileWriting
import ComponentTags.Proofs.ExitCodes
import ComponentTags.Proofs.Delivery
import ComponentTags.Proofs.AttributeSpread
import ComponentTags.Proofs.EditorSession
import ComponentTags.Proofs.LineEnds
import ComponentTags.Proofs.UntouchedCopy
import ComponentTags.Proofs.CallParentheses
import ComponentTags.Proofs.QuotedLine
import ComponentTags.Proofs.DeclarationRemoval
import ComponentTags.Proofs.WrongClosing
import ComponentTags.Proofs.Termination
