import MonkeyLanguage.Main
import MonkeyLanguage.Prompt.Completion
import MonkeyLanguage.Prompt.Highlight
import MonkeyLanguage.Prompt.Loop
import MonkeyLanguage.Proofs.Parser.Scan
import MonkeyLanguage.Proofs.Parser.Descent
import MonkeyLanguage.Proofs.Parser.Agreement
import MonkeyLanguage.Proofs.Parser.Outline
import MonkeyLanguage.Proofs.Token.Spelling
import MonkeyLanguage.Proofs.Parser.Completion
import MonkeyLanguage.Proofs.Parser.Viability
import MonkeyLanguage.Proofs.Parser.Printing
import MonkeyLanguage.Proofs.Parser.Grammar
import MonkeyLanguage.Proofs.Parser.Reading
import MonkeyLanguage.Proofs.Parser.Derivation
import MonkeyLanguage.Proofs.Parser.Language
import MonkeyLanguage.Proofs.Parser.RoundTrip
import MonkeyLanguage.Proofs.Token.Splitting
import MonkeyLanguage.Proofs.Parser.Relocation
import MonkeyLanguage.Proofs.Parser.Resumption
import MonkeyLanguage.Proofs.Eval.Absorption
import MonkeyLanguage.Proofs.Eval.Frame
import MonkeyLanguage.Proofs.Eval.Invariant
import MonkeyLanguage.Proofs.Session.Returns
import MonkeyLanguage.Proofs.Parser.WellFormed
import MonkeyLanguage.Proofs.Session.Soundness
import MonkeyLanguage.Proofs.Token.Words
import MonkeyLanguage.Proofs.Value.Literal
import MonkeyLanguage.Proofs.Session.Data
import MonkeyLanguage.Proofs.Value.Renaming
import MonkeyLanguage.Proofs.Eval.Renaming
import MonkeyLanguage.Proofs.Eval.Closed
import MonkeyLanguage.Proofs.Session.Calls
import MonkeyLanguage.Proofs.Parser.Concatenation
import MonkeyLanguage.Proofs.Session.Concatenation
import MonkeyLanguage.Proofs.Parser.Pretty
import MonkeyLanguage.Proofs.Text.Lines
import MonkeyLanguage.Proofs.Token.Layout
import MonkeyLanguage.Proofs.Prompt.Colours
import MonkeyLanguage.Proofs.Parser.Brackets
import MonkeyLanguage.Proofs.Token.Cutting
import MonkeyLanguage.Proofs.Prompt.Continuation
import MonkeyLanguage.Proofs.Eval.Bindings
import MonkeyLanguage.Proofs.Session.Bindings
import MonkeyLanguage.Proofs.Prompt.Conversation
import MonkeyLanguage.Proofs.Parser.Starts
import MonkeyLanguage.Proofs.Session.Layout
import MonkeyLanguage.Proofs.Eval.Simulation
import MonkeyLanguage.Proofs.Session.Body
import MonkeyLanguage.Proofs.Eval.Arithmetic
import MonkeyLanguage.Proofs.Eval.MachineWords
import MonkeyLanguage.Proofs.Value.Equality
import MonkeyLanguage.Proofs.Eval.HashLiterals
import MonkeyLanguage.Proofs.Session.Stored
import MonkeyLanguage.Proofs.Parser.Blame
import MonkeyLanguage.Proofs.Token.Munch
import MonkeyLanguage.Proofs.Parser.Identifiers
import MonkeyLanguage.Proofs.Session.Hidden
import MonkeyLanguage.Proofs.Eval.Unlimited
import MonkeyLanguage.Proofs.Session.ArrayLoops
import MonkeyLanguage.Proofs.Session.ArrayFunctions
import MonkeyLanguage.Proofs.Session.ArrayPrograms
import MonkeyLanguage.Proofs.Eval.Depth
import MonkeyLanguage.Proofs.Prompt.Quotes
import MonkeyLanguage.Proofs.Prompt.Strays
import MonkeyLanguage.Proofs.Parser.Recovered
import MonkeyLanguage.Proofs.Eval.Access
import MonkeyLanguage.Proofs.Eval.Safety
import MonkeyLanguage.Proofs.Session.Safety
import MonkeyLanguage.Proofs.Token.Separators
import MonkeyLanguage.Proofs.Session.Names
import MonkeyLanguage.Proofs.Prompt.Completion
import MonkeyLanguage.Proofs.Parser.OpenBrackets
import MonkeyLanguage.Proofs.Host.CommandLine
import MonkeyLanguage.Proofs.Eval.Scopes
