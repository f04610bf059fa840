import MailSieve.Action
import MailSieve.Action.Delivery
import MailSieve.Action.Json
import MailSieve.Check.Shape
import MailSieve.Check.Validation
import MailSieve.CommandLine.Files
import MailSieve.CommandLine.Options
import MailSieve.CommandLine.Session
import MailSieve.Error
import MailSieve.Json
import MailSieve.Json.Reader
import MailSieve.Json.Writer
import MailSieve.Mail
import MailSieve.Mail.Address
import MailSieve.Mail.Body
import MailSieve.Mail.EncodedWord
import MailSieve.Mail.Header
import MailSieve.Mail.Media
import MailSieve.Mail.Message
import MailSieve.Mail.Transfer
import MailSieve.Main
import MailSieve.Matching.Comparator
import MailSieve.Matching.Comparison
import MailSieve.Matching.Glob
import MailSieve.Position
import MailSieve.Registry.Basic
import MailSieve.Registry.Builtin
import MailSieve.Registry.Environment
import MailSieve.Registry.Settings
import MailSieve.Registry.Table
import MailSieve.Run.Context
import MailSieve.Run.Evaluation
import MailSieve.Run.Execution
import MailSieve.Script
import MailSieve.Script.Literal
import MailSieve.Script.OfTree
import MailSieve.Text.Ascii
import MailSieve.Text.Blank
import MailSieve.Text.CaseTable
import MailSieve.Text.Lowercase
import MailSieve.Text.Search
import MailSieve.Text.Utf8
import MailSieve.Text.Visible
import MailSieve.Text.VisibleTable
import MailSieve.Token
import MailSieve.Token.Lexer
import MailSieve.Tree
import MailSieve.Tree.Parser
import MailSieve.Proofs.Computation
import MailSieve.Proofs.Growth
import MailSieve.Proofs.Acceptance
import MailSieve.Proofs.StandardNames
import MailSieve.Proofs.Evaluation
import MailSieve.Proofs.Preorder
import MailSieve.Proofs.Soundness
import MailSieve.Proofs.Chains
import MailSieve.Proofs.Grammar
import MailSieve.Proofs.Parsing
import MailSieve.Proofs.Derivation
import MailSieve.Proofs.Provenance
import MailSieve.Proofs.Rules
import MailSieve.Proofs.CheckedNumbers
import MailSieve.Proofs.Lexemes
import MailSieve.Proofs.Reading
import MailSieve.Proofs.Placement
import MailSieve.Proofs.Printing
import MailSieve.Proofs.Replay
import MailSieve.Proofs.Offsets
import MailSieve.Proofs.Segments
import MailSieve.Proofs.Relocation
import MailSieve.Proofs.Layout
import MailSieve.Proofs.Concatenation
import MailSieve.Proofs.Configuration
import MailSieve.Proofs.Agreement
import MailSieve.Proofs.Strictness
import MailSieve.Proofs.Queries
import MailSieve.Proofs.Fringe
import MailSieve.Proofs.Overflow
import MailSieve.Proofs.Persistence
import MailSieve.Proofs.Renaming
import MailSieve.Proofs.Aliases
import MailSieve.Proofs.Wildcards
import MailSieve.Proofs.Spacing
import MailSieve.Proofs.Literals
import MailSieve.Proofs.Coherence
import MailSieve.Proofs.Combinators
import MailSieve.Proofs.Distribution
import MailSieve.Proofs.StraightLine
import MailSieve.Proofs.CaseFolding
import MailSieve.Proofs.TaggedArguments
import MailSieve.Proofs.Mailboxes
import MailSieve.Proofs.Collectors
import MailSieve.Proofs.TreeShapes
import MailSieve.Proofs.ByteOrder
import MailSieve.Proofs.HeaderNames
import MailSieve.Proofs.FoldedValues
import MailSieve.Proofs.Bindings
import MailSieve.Proofs.QuotedLocals
import MailSieve.Proofs.FaultPlaces
import MailSieve.Proofs.NamedComparators
import MailSieve.Proofs.LineColumns
import MailSieve.Proofs.NumberLiterals
import MailSieve.Proofs.ByteLexer
import MailSieve.Proofs.ByteLoops
import MailSieve.Proofs.Boundaries
