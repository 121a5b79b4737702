import DottedNames.Operand.Sorting
import DottedNames.Operand.Distinct
import DottedNames.Token.Unchecked
import DottedNames.Script
import DottedNames.Script.Loop
import DottedNames.Interface
import DottedNames.Main
import DottedNames.Proofs.Pattern.Preference
import DottedNames.Proofs.Grammar.Language
import DottedNames.Proofs.Grammar.Recognition
import DottedNames.Proofs.QualName.Reading
import DottedNames.Proofs.QualName.Underscore
import DottedNames.Proofs.Token.Scan
import DottedNames.Proofs.Token.Run
import DottedNames.Proofs.Token.Locality
import DottedNames.Proofs.Token.Names
import DottedNames.Proofs.Token.Written
import DottedNames.Proofs.Command.ScanReport
import DottedNames.Proofs.Script.Store
import DottedNames.Proofs.Script.Evaluation
import DottedNames.Proofs.Script.Meaning
import DottedNames.Proofs.Script.Run
import DottedNames.Proofs.Script.Held
import DottedNames.Proofs.Script.Aliasing
import DottedNames.Proofs.Script.Refusal
import DottedNames.Proofs.Script.Construction
import DottedNames.Proofs.Designator.Equality
import DottedNames.Proofs.Designator.Order
import DottedNames.Proofs.Log.Session
import DottedNames.Proofs.Log.Output
import DottedNames.Proofs.Datum.JsonReading
import DottedNames.Proofs.Log.Mode
import DottedNames.Proofs.Text.Quoting
import DottedNames.Proofs.Command.CheckReport
import DottedNames.Proofs.Text.Utf8
import DottedNames.Proofs.Command.LogMode
import DottedNames.Proofs.Text.Newline
import DottedNames.Proofs.Command.ScanArguments
import DottedNames.Proofs.Command.EarlierParser
import DottedNames.Proofs.Command.ScanOutcome
import DottedNames.Proofs.Command.ScanSource
import DottedNames.Proofs.Log.Line
import DottedNames.Proofs.Pattern.Finding
import DottedNames.Proofs.Grammar.Finding
import DottedNames.Proofs.Grammar.Pieces
import DottedNames.Proofs.Token.Guards
import DottedNames.Proofs.Operand.Sorting
import DottedNames.Proofs.QualName.TextOrder
import DottedNames.Proofs.QualName.Scope
import DottedNames.Proofs.Operand.Distinct
import DottedNames.Proofs.Command.ScanUnique
import DottedNames.Proofs.Command.ScanReading
import DottedNames.Proofs.QualName.Message
import DottedNames.Proofs.Command.CheckLines
import DottedNames.Proofs.Command.CheckLog
import DottedNames.Proofs.Log.Origin
import DottedNames.Proofs.Log.Preparation
import DottedNames.Proofs.Designator.Sorting
import DottedNames.Proofs.Command.ScanAgain
import DottedNames.Proofs.Script.Ascent
import DottedNames.Proofs.Script.Loop
import DottedNames.Proofs.Location.Offsets
