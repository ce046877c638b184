import ChatMarkup.Converter
import ChatMarkup.Style.Load
import ChatMarkup.Proofs.Message.Limit
import ChatMarkup.Proofs.Message.Fewest
import ChatMarkup.Proofs.Dialect.Completes
import ChatMarkup.Proofs.Document.Everywhere
import ChatMarkup.Proofs.Render.Closure
import ChatMarkup.Proofs.Message.SelfContained
import ChatMarkup.Proofs.Document.NormalForm
import ChatMarkup.Proofs.Event.Written
import ChatMarkup.Proofs.Document.Assembled
import ChatMarkup.Proofs.Document.Written
import ChatMarkup.Proofs.Message.Kept
import ChatMarkup.Proofs.Render.Place
import ChatMarkup.Proofs.Message.OneText
import ChatMarkup.Proofs.Document.Shown
import ChatMarkup.Proofs.Dialect.Escaped
import ChatMarkup.Proofs.Dialect.Lexemes
import ChatMarkup.Proofs.Dialect.Faces
import ChatMarkup.Proofs.Render.Table
import ChatMarkup.Proofs.Render.Faces
import ChatMarkup.Proofs.Dialect.QuoteMarks
import ChatMarkup.Proofs.Render.QuoteMarks
import ChatMarkup.Proofs.Text.Slices
import ChatMarkup.Proofs.Message.Deliverable
import ChatMarkup.Proofs.Render.Form
import ChatMarkup.Proofs.Render.Override
import ChatMarkup.Proofs.Render.PlainText
import ChatMarkup.Proofs.Message.Continued
import ChatMarkup.Proofs.Dialect.Fence
import ChatMarkup.Proofs.Message.DividedCode
import ChatMarkup.Proofs.Text.Lines
import ChatMarkup.Proofs.Message.DividedQuote
import ChatMarkup.Proofs.Render.Outline
import ChatMarkup.Proofs.Event.Levels
import ChatMarkup.Proofs.Event.Hole
import ChatMarkup.Proofs.Document.Alike
import ChatMarkup.Proofs.Document.Loose
import ChatMarkup.Proofs.Document.Checks
import ChatMarkup.Proofs.Document.OneCheck
import ChatMarkup.Proofs.Message.Warnings
import ChatMarkup.Proofs.Text.FewestSlices
import ChatMarkup.Proofs.Render.OccurringKinds
import ChatMarkup.Proofs.Render.Wrappers
import ChatMarkup.Proofs.Converter.LastSetting
import ChatMarkup.Proofs.Dialect.Unescaped
import ChatMarkup.Proofs.Text.Edits
import ChatMarkup.Proofs.Text.Encoding
import ChatMarkup.Proofs.Toml.Word
import ChatMarkup.Proofs.Style.Load
