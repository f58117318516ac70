import Lexing.Diagnostic
import Lexing.Lexer
import Lexing.Number
import Lexing.Settings.Document
import Lexing.Source.Operation
import Lexing.Stream.Operation
import Lexing.Proofs.LongestMatch
import Lexing.Proofs.Cursor
import Lexing.Proofs.Delivery
import Lexing.Proofs.Account
import Lexing.Proofs.Decoding
import Lexing.Proofs.Recutting
import Lexing.Proofs.Budget
import Lexing.Proofs.ReaderFailure
import Lexing.Proofs.ErrorDisplay
import Lexing.Proofs.Relexing
import Lexing.Proofs.LineComposition
import Lexing.Proofs.Blanking
import Lexing.Proofs.ConsumerStates
import Lexing.Proofs.Schedules
import Lexing.Proofs.Breakdown
import Lexing.Proofs.OneCharacterAhead
import Lexing.Proofs.HexadecimalValues
import Lexing.Proofs.Disconnection
import Lexing.Proofs.SnippetLines
import Lexing.Proofs.FailedOperations
import Lexing.Proofs.RunLog
import Lexing.Proofs.Refusals
import Lexing.Proofs.Representation
import Lexing.Proofs.TokenText
import Lexing.Proofs.SettingsDocuments
