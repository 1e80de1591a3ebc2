import SceneSelect.Arena.Basic
import SceneSelect.Arena.Ref
import SceneSelect.Decimal.Shortest
import SceneSelect.Fault
import SceneSelect.Host
import SceneSelect.Json.Decode
import SceneSelect.Json.Printer
import SceneSelect.Json.Reader
import SceneSelect.Json.Value
import SceneSelect.Node.Basic
import SceneSelect.Node.Element
import SceneSelect.Path.Basic
import SceneSelect.Path.Cut
import SceneSelect.Path.Fault
import SceneSelect.Path.Key
import SceneSelect.Path.Parser
import SceneSelect.Path.Printer
import SceneSelect.Scene.Basic
import SceneSelect.Scene.Edit
import SceneSelect.Scene.Snapshot
import SceneSelect.Scene.Values
import SceneSelect.Scene.Walk
import SceneSelect.Search.Filter
import SceneSelect.Search.Match
import SceneSelect.Search.Rules
import SceneSelect.Search.Run
import SceneSelect.Text.Alphanumeric
import SceneSelect.Text.Blank
import SceneSelect.Text.Numeral
import SceneSelect.Text.Search
import SceneSelect.Text.Span
import SceneSelect.Wait.Basic
import SceneSelect.Wait.Loop
import SceneSelect.Wait.Settings
import SceneSelect.Proofs.Distinct
import SceneSelect.Proofs.Path.Position
import SceneSelect.Proofs.Path.Depth
import SceneSelect.Proofs.Path.Joins
import SceneSelect.Proofs.Path.Selector
import SceneSelect.Proofs.Path.Filter
import SceneSelect.Proofs.Path.Segment
import SceneSelect.Proofs.Path.Recognition
import SceneSelect.Proofs.Path.Parsed
import SceneSelect.Proofs.Path.RoundTrip
import SceneSelect.Proofs.Arena.FreeList
import SceneSelect.Proofs.Arena.Map
import SceneSelect.Proofs.Scene.Forest
import SceneSelect.Proofs.Scene.Edits
import SceneSelect.Proofs.Scene.Order
import SceneSelect.Proofs.Scene.Levels
import SceneSelect.Proofs.Scene.Nearest
import SceneSelect.Proofs.Scene.Twin
import SceneSelect.Proofs.Scene.Leaves
import SceneSelect.Proofs.Scene.Texts
import SceneSelect.Proofs.Search.Finds
import SceneSelect.Proofs.Search.Faults
import SceneSelect.Proofs.Search.Confinement
import SceneSelect.Proofs.Search.Order
import SceneSelect.Proofs.Search.Roots
import SceneSelect.Proofs.Search.Elements
import SceneSelect.Proofs.Search.Twin
import SceneSelect.Proofs.Search.Acceptance
import SceneSelect.Proofs.Search.Alike
import SceneSelect.Proofs.Search.Descent
import SceneSelect.Proofs.Search.ChildIndex
import SceneSelect.Proofs.Search.BareIndex
import SceneSelect.Proofs.Search.Strict
import SceneSelect.Proofs.Search.Conjunction
import SceneSelect.Proofs.Search.AttributeSearch
import SceneSelect.Proofs.Search.Inner
import SceneSelect.Proofs.Search.TextSearch
import SceneSelect.Proofs.Wait.ClosedForm
import SceneSelect.Proofs.Wait.Interleaving
import SceneSelect.Proofs.Scene.Removal
import SceneSelect.Proofs.Scene.Grafting
import SceneSelect.Proofs.Scene.Import
import SceneSelect.Proofs.Path.Append
import SceneSelect.Proofs.Search.Siblings
import SceneSelect.Proofs.Path.Wildcard
import SceneSelect.Proofs.Path.Writable
import SceneSelect.Proofs.Path.Bracketed
import SceneSelect.Proofs.Scene.BareLeaves
import SceneSelect.Proofs.Scene.LevelOrder
import SceneSelect.Proofs.Checked
import SceneSelect.Proofs.Path.Resolve
import SceneSelect.Proofs.Text.Slice
import SceneSelect.Proofs.Path.Indexed
import SceneSelect.Proofs.Path.IndexedCuts
import SceneSelect.Proofs.Path.Boundary
import SceneSelect.Proofs.Path.IndexedRead
import SceneSelect.Proofs.Arena.Peak
import SceneSelect.Proofs.Scene.Gathering
import SceneSelect.Proofs.Scene.Growth
import SceneSelect.Proofs.Scene.RoundTrip
import SceneSelect.Proofs.Wait.Bound
import SceneSelect.Proofs.Scene.Context
import SceneSelect.Proofs.Path.Spans
