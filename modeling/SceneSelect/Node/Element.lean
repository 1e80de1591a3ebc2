import SceneSelect.Json.Decode
import SceneSelect.Json.Printer

/-!
# `Node/Element.lean` — the element behind a node

An element has the number by which its host knows it, declared attributes and further properties.
Attributes are texts kept in the order of their names; that order is part of their type, so two
collections with the same attributes are the same collection. Properties are JSON values and keep
the order in which they were given.
-/

set_option autoImplicit false

namespace SceneSelect

/-- Are the names of these attributes in strictly ascending order? -/
abbrev AscendingNames (entries : List (String × String)) : Prop :=
  entries.Pairwise fun a b => a.1 < b.1

/-- Texts under distinct names, in the order of the names. -/
structure Attributes where
  entries : List (String × String) := []
  ascending : AscendingNames entries := by exact List.Pairwise.nil

namespace Attributes

instance : Inhabited Attributes := ⟨{}⟩

/-- Puts a text under a name into a list in the order of names. -/
def putEntry (name text : String) : List (String × String) → List (String × String)
  | [] => [(name, text)]
  | e :: rest =>
    if name < e.1 then (name, text) :: e :: rest
    else if name = e.1 then (name, text) :: rest
    else e :: putEntry name text rest

theorem mem_putEntry {name text : String} {entries : List (String × String)}
    {e : String × String} (h : e ∈ putEntry name text entries) : e = (name, text) ∨ e ∈ entries := by
  induction entries with
  | nil => simpa [putEntry] using h
  | cons first rest ih =>
    simp only [putEntry] at h
    split at h
    · simpa using h
    · split at h
      · rcases List.mem_cons.mp h with h | h
        · exact Or.inl h
        · exact Or.inr (List.mem_cons_of_mem _ h)
      · rcases List.mem_cons.mp h with h | h
        · exact Or.inr (by simp [h])
        · exact (ih h).imp_right (List.mem_cons_of_mem _)

theorem ascendingNames_putEntry (name text : String) {entries : List (String × String)}
    (h : AscendingNames entries) : AscendingNames (putEntry name text entries) := by
  induction entries with
  | nil => simp [putEntry]
  | cons first rest ih =>
    obtain ⟨hfirst, hrest⟩ := List.pairwise_cons.mp h
    simp only [putEntry]
    split
    case isTrue hlt =>
      refine List.pairwise_cons.mpr ⟨fun e he => ?_, h⟩
      rcases List.mem_cons.mp he with rfl | he
      · exact hlt
      · exact String.lt_trans hlt (hfirst e he)
    case isFalse hnlt =>
      split
      case isTrue heq =>
        exact List.pairwise_cons.mpr ⟨fun e he => heq ▸ hfirst e he, hrest⟩
      case isFalse hne =>
        refine List.pairwise_cons.mpr ⟨fun e he => ?_, ih hrest⟩
        rcases mem_putEntry he with rfl | he
        · have hle := String.not_lt.mp hnlt
          exact Decidable.byContradiction fun hn =>
            hne (String.le_antisymm (String.not_lt.mp hn) hle)
        · exact hfirst e he

/-- Puts a text under a name, in the place of the one that stands there. -/
def put (a : Attributes) (name text : String) : Attributes :=
  ⟨putEntry name text a.entries, ascendingNames_putEntry name text a.ascending⟩

/-- The text under a name. -/
def get? (a : Attributes) (name : String) : Option String := a.entries.lookup name

/-- The attributes given by a list of names and texts; of two with one name the later counts. -/
def ofList (entries : List (String × String)) : Attributes :=
  entries.foldl (fun a e => a.put e.1 e.2) {}

/-- Reads attributes from the members of an object, all of which must be strings. -/
def ofJson? (v : Json.Value) : Option Attributes := do
  let members ← v.members?
  let entries ← members.mapM fun m => m.2.string?.map fun text => (m.1, text)
  pure (ofList entries)

/-- Attributes are written as an object of strings in the order of the names. -/
def toJson (a : Attributes) : Json.Value := .obj (a.entries.map fun e => (e.1, .str e.2))

end Attributes

/-- What a node stands for at its host. -/
structure Element where
  handle : UInt64 := 0
  attributes : Attributes := {}
  properties : Json.Members := []
deriving Inhabited

namespace Element

/-- An attribute as a value, or else the property of that name. -/
def read (e : Element) (name : String) : Option Json.Value :=
  match e.attributes.get? name with
  | some text => some (.str text)
  | none => e.properties.get? name

/-- The fields of an element in the order declared. -/
def fieldNames : List String := ["handle", "attributes", "properties"]

/-- Reads an element. Its handle must be there; members it does not know are ignored. -/
def ofJson? (v : Json.Value) : Option Element := do
  let field ← Json.record? fieldNames .ignored v
  let handle ← (field "handle").bind Json.Value.uint64?
  let attributes ← Json.orDefault {} Attributes.ofJson? (field "attributes")
  let properties ← Json.orDefault [] Json.Value.members? (field "properties")
  pure { handle, attributes, properties }

/-- An element is written with all its fields. -/
def toJson (e : Element) : Json.Value :=
  .obj [("handle", Json.Value.ofNat e.handle.toNat), ("attributes", e.attributes.toJson),
    ("properties", .obj e.properties)]

end Element

end SceneSelect
