import ShaderParams.Error
import ShaderParams.Extract.Block
import ShaderParams.Extract.Pass
import ShaderParams.Grammar.Declaration
import ShaderParams.Grammar.Derivation
import ShaderParams.Grammar.Directive
import ShaderParams.Grammar.Expression
import ShaderParams.Grammar.Lexeme
import ShaderParams.Grammar.Rule
import ShaderParams.Grammar.Stack
import ShaderParams.Grammar.Statement
import ShaderParams.Grammar.Table
import ShaderParams.Grammar.Token
import ShaderParams.Number.Binary
import ShaderParams.Number.Cast
import ShaderParams.Number.Decimal
import ShaderParams.Number.Literal
import ShaderParams.Number.RoundDiv
import ShaderParams.Number.Spelling
import ShaderParams.Proofs.Agreement
import ShaderParams.Proofs.Block
import ShaderParams.Proofs.Buffer
import ShaderParams.Proofs.Choice
import ShaderParams.Proofs.Coercion
import ShaderParams.Proofs.Comment
import ShaderParams.Proofs.Complete
import ShaderParams.Proofs.Decimal
import ShaderParams.Proofs.Edit
import ShaderParams.Proofs.Editing
import ShaderParams.Proofs.Entries
import ShaderParams.Proofs.Failure
import ShaderParams.Proofs.FewestDigits
import ShaderParams.Proofs.FirstError
import ShaderParams.Proofs.Grafting
import ShaderParams.Proofs.Integer
import ShaderParams.Proofs.Lexing
import ShaderParams.Proofs.Literal
import ShaderParams.Proofs.Logged
import ShaderParams.Proofs.Members
import ShaderParams.Proofs.Midpoint
import ShaderParams.Proofs.Narrowing
import ShaderParams.Proofs.Nearest
import ShaderParams.Proofs.Numeral
import ShaderParams.Proofs.Outcome
import ShaderParams.Proofs.Outline
import ShaderParams.Proofs.Packing
import ShaderParams.Proofs.Panel
import ShaderParams.Proofs.Parsing
import ShaderParams.Proofs.Pass
import ShaderParams.Proofs.Place
import ShaderParams.Proofs.Planting
import ShaderParams.Proofs.Quoted
import ShaderParams.Proofs.Reading
import ShaderParams.Proofs.Recognition
import ShaderParams.Proofs.Remnant
import ShaderParams.Proofs.Rewriting
import ShaderParams.Proofs.RoundTrip
import ShaderParams.Proofs.Rounding
import ShaderParams.Proofs.Run
import ShaderParams.Proofs.Settings
import ShaderParams.Proofs.Shortest
import ShaderParams.Proofs.Skeleton
import ShaderParams.Proofs.Sparing
import ShaderParams.Proofs.Spelling
import ShaderParams.Proofs.Stability
import ShaderParams.Proofs.Stacks
import ShaderParams.Proofs.Std140
import ShaderParams.Proofs.StillImage
import ShaderParams.Proofs.Stripping
import ShaderParams.Proofs.Trivia
import ShaderParams.Proofs.Upload
import ShaderParams.Proofs.Walking
import ShaderParams.Slider.Basic
import ShaderParams.Slider.Buffer
import ShaderParams.Slider.Field
import ShaderParams.Slider.Panel
import ShaderParams.Syntax.Constant
import ShaderParams.Syntax.Forest
import ShaderParams.Syntax.Layout
import ShaderParams.Syntax.Node
import ShaderParams.Syntax.Point
import ShaderParams.Syntax.Qualifier
import ShaderParams.Syntax.Span
import ShaderParams.Text.Digit
import ShaderParams.Text.Letter
import ShaderParams.Text.Numeral
import ShaderParams.Text.Quoted
