import ModalScript.Command.Descriptor
import ModalScript.Command.Run
import ModalScript.Command.Set
import ModalScript.Decimal.Layout
import ModalScript.Decimal.Numeral
import ModalScript.Decimal.Reading
import ModalScript.Decimal.Shortest
import ModalScript.Dict
import ModalScript.Editor.Basic
import ModalScript.Editor.Buffer
import ModalScript.Editor.Id
import ModalScript.Editor.PerEditor
import ModalScript.Json.Basic
import ModalScript.Json.Codec
import ModalScript.Json.Reader
import ModalScript.Json.Writer
import ModalScript.Keyword.Classifier
import ModalScript.Keyword.Token
import ModalScript.Proofs.Decimal.Numeral
import ModalScript.Proofs.Editor.Bounds
import ModalScript.Proofs.Editor.Lines
import ModalScript.Proofs.Editor.Pieces
import ModalScript.Proofs.Fallible
import ModalScript.Proofs.Json.Grammar
import ModalScript.Proofs.Json.RoundTrip
import ModalScript.Proofs.Keyword.Grammar
import ModalScript.Proofs.Keyword.Text
import ModalScript.Proofs.Lists
import ModalScript.Proofs.Script.Arguments
import ModalScript.Proofs.Script.Bodies
import ModalScript.Proofs.Script.Confined
import ModalScript.Proofs.Script.Congruence
import ModalScript.Proofs.Script.Course
import ModalScript.Proofs.Script.Cursor
import ModalScript.Proofs.Script.Detour
import ModalScript.Proofs.Script.Effect
import ModalScript.Proofs.Script.Elements
import ModalScript.Proofs.Script.Errors
import ModalScript.Proofs.Script.ExtraArguments
import ModalScript.Proofs.Script.Frames
import ModalScript.Proofs.Script.Jumps
import ModalScript.Proofs.Script.Lasting
import ModalScript.Proofs.Script.Lines
import ModalScript.Proofs.Script.Locals
import ModalScript.Proofs.Script.Parts
import ModalScript.Proofs.Script.Points
import ModalScript.Proofs.Script.Policies
import ModalScript.Proofs.Script.Preparing
import ModalScript.Proofs.Script.Quiet
import ModalScript.Proofs.Script.ReadBack
import ModalScript.Proofs.Script.ReadOnly
import ModalScript.Proofs.Script.Registry
import ModalScript.Proofs.Script.Removal
import ModalScript.Proofs.Script.Resolution
import ModalScript.Proofs.Script.Termination
import ModalScript.Proofs.Script.Variables
import ModalScript.Proofs.Session.AllOrNothing
import ModalScript.Proofs.Session.Defaults
import ModalScript.Proofs.Session.Isolation
import ModalScript.Proofs.Session.Keywords
import ModalScript.Proofs.Setting.Command
import ModalScript.Proofs.Setting.Ending
import ModalScript.Proofs.Setting.Isolation
import ModalScript.Proofs.Setting.Items
import ModalScript.Proofs.Setting.Keywords
import ModalScript.Proofs.Setting.Number
import ModalScript.Proofs.Setting.Operations
import ModalScript.Proofs.Setting.ReadBack
import ModalScript.Proofs.Setting.Separators
import ModalScript.Proofs.Setting.Tokens
import ModalScript.Proofs.Setting.Types
import ModalScript.Proofs.Setting.WellFormed
import ModalScript.Proofs.Setting.Write
import ModalScript.Proofs.Text.Cut
import ModalScript.Proofs.Value.Comparison
import ModalScript.Proofs.Value.DeepCopy
import ModalScript.Proofs.Value.Equality
import ModalScript.Proofs.Value.Growth
import ModalScript.Proofs.Value.Json
import ModalScript.Proofs.Value.Number
import ModalScript.Proofs.Value.Path
import ModalScript.Proofs.Value.Split
import ModalScript.Proofs.Value.Written
import ModalScript.Script.Builtin
import ModalScript.Script.Call
import ModalScript.Script.Error
import ModalScript.Script.Evaluate
import ModalScript.Script.Execute
import ModalScript.Script.Functions
import ModalScript.Script.Interp
import ModalScript.Script.Name
import ModalScript.Script.Run
import ModalScript.Script.Source
import ModalScript.Script.Syntax
import ModalScript.Script.Variables
import ModalScript.Setting.Basic
import ModalScript.Setting.Catalogue
import ModalScript.Setting.Declaration
import ModalScript.Setting.Edit
import ModalScript.Setting.InitScript
import ModalScript.Setting.Number
import ModalScript.Setting.Script
import ModalScript.Setting.Store
import ModalScript.Text.Blank
import ModalScript.Text.Cut
import ModalScript.Text.Quoted
import ModalScript.Text.Uppercase
import ModalScript.Value.Basic
import ModalScript.Value.Conversion
import ModalScript.Value.Copy
import ModalScript.Value.Display
import ModalScript.Value.Equality
import ModalScript.Value.Heap
import ModalScript.Value.Json
import ModalScript.Value.Operator
