import Worksheet.Name.Stock
import Worksheet.Formula.Json
import Worksheet.Sheet.File
import Worksheet.Proofs.Except
import Worksheet.Proofs.Links.Consistency
import Worksheet.Proofs.Links.Replacement
import Worksheet.Proofs.Links.Walk
import Worksheet.Proofs.Links.Circles
import Worksheet.Proofs.Cell.Mentions
import Worksheet.Proofs.Cell.Scratch
import Worksheet.Proofs.Sheet.Recomputation
import Worksheet.Proofs.Sheet.Soundness
import Worksheet.Proofs.Desk.History
import Worksheet.Proofs.Desk.Values
import Worksheet.Proofs.Desk.Tally
import Worksheet.Proofs.Desk.Refusal
import Worksheet.Proofs.Desk.Acceptance
import Worksheet.Proofs.Decimal.Text
import Worksheet.Proofs.Decimal.Rounding
import Worksheet.Proofs.Number.Text
import Worksheet.Proofs.Json.Quoted
import Worksheet.Proofs.Snapshot.Text
import Worksheet.Proofs.Formula.Categories
import Worksheet.Proofs.Formula.Expression
import Worksheet.Proofs.Formula.Derivation
import Worksheet.Proofs.Formula.Precedence
import Worksheet.Proofs.Formula.Reading
import Worksheet.Proofs.Formula.Pieces
import Worksheet.Proofs.Formula.Canonical
import Worksheet.Proofs.Cell.Literal
import Worksheet.Proofs.Desk.Rebuilding
import Worksheet.Proofs.Desk.Storage
import Worksheet.Proofs.Links.Changes
import Worksheet.Proofs.Links.Sweep
import Worksheet.Proofs.Links.Undo
import Worksheet.Proofs.Desk.Literals
import Worksheet.Proofs.Desk.Assignments
import Worksheet.Proofs.Links.Counts
import Worksheet.Proofs.Desk.AnyOrder
import Worksheet.Proofs.Links.Search
import Worksheet.Proofs.Desk.SavedVersion
import Worksheet.Proofs.Formula.Texts
import Worksheet.Proofs.Formula.Alternatives
import Worksheet.Proofs.Formula.LongestMatch
import Worksheet.Proofs.Links.Turned
import Worksheet.Proofs.Formula.Asked
import Worksheet.Proofs.Formula.Sameness
import Worksheet.Proofs.Desk.Untouched
import Worksheet.Proofs.Formula.Spacing
import Worksheet.Proofs.Formula.Numerals
import Worksheet.Proofs.Formula.Mentionable
import Worksheet.Proofs.Desk.Recollection
import Worksheet.Proofs.Text.ByteOrder
import Worksheet.Proofs.Cell.Changes
