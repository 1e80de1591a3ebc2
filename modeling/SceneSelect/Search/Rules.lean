import SceneSelect.Json.Decode
import SceneSelect.Json.Printer

/-!
# `Search/Rules.lean` — how a search treats its finds

The element rule says what becomes of finds without an element, and `strictIndex` whether an
index that names no find is a fault. Both are read from and written to JSON.
-/

set_option autoImplicit false

namespace SceneSelect

/-- What becomes of a find without an element. -/
inductive ElementRule where
  /-- it is kept -/
  | logical
  /-- it is a fault -/
  | requireElement
  /-- it gives way to the nearest element below it; one with none below is dropped where that is
  tolerated, and a fault otherwise -/
  | nearestDescendant (tolerateMissing : Bool)
deriving DecidableEq, Repr, Inhabited

/-- How a search treats its finds. -/
structure FindRules where
  element : ElementRule := .logical
  strictIndex : Bool := false
deriving DecidableEq, Repr, Inhabited

namespace ElementRule

/-- The rule of a name, with what else it needs from its fields. -/
def ofName? (field : String → Option Json.Value) : String → Option ElementRule
  | "logical" => some .logical
  | "require_element" => some .requireElement
  | "nearest_descendant" =>
    ((field "tolerate_missing").bind Json.Value.bool?).map .nearestDescendant
  | _ => none

/-- Reads a rule: an object with the name under `policy`, whose other members are ignored, or an
array that begins with the name and goes on with exactly the fields that it needs. -/
def ofJson? : Json.Value → Option ElementRule
  | .obj members => do
    let name ← (Json.Members.get? members "policy").bind Json.Value.string?
    ofName? (Json.Members.get? members) name
  | .arr [.str "nearest_descendant", tolerateMissing] =>
    tolerateMissing.bool?.map .nearestDescendant
  | .arr [.str name] => ofName? (fun _ => none) name
  | _ => none

/-- A rule is written as an object with its name first. -/
def toJson : ElementRule → Json.Value
  | .logical => .obj [("policy", .str "logical")]
  | .requireElement => .obj [("policy", .str "require_element")]
  | .nearestDescendant tolerateMissing =>
    .obj [("policy", .str "nearest_descendant"), ("tolerate_missing", .bool tolerateMissing)]

end ElementRule

namespace FindRules

/-- Reads the rules; a field that is missing has its default, and others are ignored. -/
def ofJson? (v : Json.Value) : Option FindRules := do
  let field ← Json.record? ["element", "strict_index"] .ignored v
  let element ← Json.orDefault .logical ElementRule.ofJson? (field "element")
  let strictIndex ← Json.orDefault false Json.Value.bool? (field "strict_index")
  pure { element, strictIndex }

/-- The rules are written with both fields. -/
def toJson (o : FindRules) : Json.Value :=
  .obj [("element", o.element.toJson), ("strict_index", .bool o.strictIndex)]

end FindRules

end SceneSelect
