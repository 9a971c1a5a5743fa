import Searchbar.Example.Media
import Searchbar.Config.Json
import Searchbar.Json.Query
import Searchbar.Main
import Searchbar.Schema.Description
import Searchbar.Session
import Searchbar.Proofs.ScanStep
import Searchbar.Proofs.Tiling
import Searchbar.Proofs.Grammar
import Searchbar.Proofs.Language
import Searchbar.Proofs.NumberText
import Searchbar.Proofs.RoundTrip
import Searchbar.Proofs.OpenValue
import Searchbar.Proofs.Agreement
import Searchbar.Proofs.ValidResult
import Searchbar.Proofs.ErrorTokens
import Searchbar.Proofs.Progress
import Searchbar.Proofs.Separation
import Searchbar.Proofs.ValueHints
import Searchbar.Proofs.Presentation
import Searchbar.Proofs.Declaration
import Searchbar.Proofs.Defaults
import Searchbar.Proofs.Gaps
import Searchbar.Proofs.SessionHistory
import Searchbar.Proofs.Caret
import Searchbar.Proofs.Completing
import Searchbar.Proofs.TakenNames
import Searchbar.Proofs.TypedNames
import Searchbar.Proofs.JsonLexeme
import Searchbar.Proofs.JsonText
import Searchbar.Proofs.JsonNumber
import Searchbar.Proofs.JsonExact
import Searchbar.Proofs.JsonRecord
import Searchbar.Proofs.Accumulation
import Searchbar.Proofs.Attachment
import Searchbar.Proofs.ValueEnd
