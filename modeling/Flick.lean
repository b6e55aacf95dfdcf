import Flick.Command.Options
import Flick.Command.Run
import Flick.Command.Store
import Flick.Compilation
import Flick.Diagnostic
import Flick.Diagnostic.Report
import Flick.Listener
import Flick.Main
import Flick.Node
import Flick.Node.Datum
import Flick.Parser
import Flick.Parser.Grammar
import Flick.Proofs.Arguments
import Flick.Proofs.Barrier
import Flick.Proofs.Blanks
import Flick.Proofs.Brackets
import Flick.Proofs.Branches
import Flick.Proofs.Calls
import Flick.Proofs.Calls.Adequacy
import Flick.Proofs.Closers
import Flick.Proofs.Comments
import Flick.Proofs.Completion
import Flick.Proofs.Dedents
import Flick.Proofs.Errors
import Flick.Proofs.FunctionForms
import Flick.Proofs.Indentation
import Flick.Proofs.Json.Trees
import Flick.Proofs.Keywords
import Flick.Proofs.LineBodies
import Flick.Proofs.Locality
import Flick.Proofs.NestingLimit
import Flick.Proofs.OpenLiterals
import Flick.Proofs.Origins
import Flick.Proofs.Outlines
import Flick.Proofs.Precedence
import Flick.Proofs.Printouts
import Flick.Proofs.Progress
import Flick.Proofs.Reading
import Flick.Proofs.Reading.Adequacy
import Flick.Proofs.Renaming
import Flick.Proofs.Restoration
import Flick.Proofs.Resumption
import Flick.Proofs.Scopes
import Flick.Proofs.Segments
import Flick.Proofs.Statements
import Flick.Proofs.Termination
import Flick.Proofs.Thinning
import Flick.Proofs.TokenLanguage
import Flick.Proofs.Whitespace
import Flick.Token
import Flick.Token.Lexer
import Flick.Token.Listing
import Flick.Vocabulary
