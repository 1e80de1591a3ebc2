import Mathlib.Data.List.Nodup
import SceneSelect.Proofs.Outcome
import SceneSelect.Scene.Snapshot

/-!
# `Proofs/Scene/RoundTrip.lean` — snapshots as JSON, there and back

What is written of a snapshot and what may be read as one are two things. A field with nothing in it is not
written, and a field that is not written reads as nothing: no text, no element, no members, no children. So
reading undoes writing field by field, in an element and in a label (`Element.ofJson?_toJson`,
`readLabel_members`), and by induction at every depth: **a snapshot that is written and read again is the
same snapshot** (`Snapshot.json_round_trip`).

There are more ways to say the same. A text may be `null`, a record may be an array of its fields, an
element may have members that nobody reads, attributes may be out of order or be there twice. Read and
written again, all of these become what is written of the snapshot, and that stays as it is.

The names in what is written are distinct at every level if those in the values of the snapshot are. This is
what makes it a JSON object at all (`Json.Value.Distinct`).
-/

set_option autoImplicit false

namespace SceneSelect

/-! ## Fields -/

namespace Json

theorem Members.get?_append (ms others : Members) (name : String) :
    get? (ms ++ others) name = (ms.get? name).or (others.get? name) :=
  List.lookup_append

/-- Items that are read as they were written, one by one. -/
theorem mapM_map_eq_pure {m : Type → Type} [Monad m] [LawfulMonad m] {α β : Type} {read : β → m α}
    {write : α → β} (hread : ∀ a, read (write a) = pure a) (items : List α) :
    (items.map write).mapM read = pure items := by
  have hcomp : read ∘ write = fun a => pure (id a) := funext hread
  rw [List.mapM_map, hcomp, List.mapM_pure, List.map_id]

variable {α : Type} {read : Value → Option α} {write : α → Value}

/-- What is left out if it is absent is read as it was, unless `null` is written of something. -/
theorem optional?_map (hread : ∀ a, read (write a) = some a) (hnull : ∀ a, write a ≠ .null)
    (x : Option α) : optional? read (x.map write) = some x := by
  cases x with
  | none => rfl
  | some a =>
    rw [Option.map_some, optional?, hread]
    · rfl
    · exact fun h => hnull a h

end Json

namespace Snapshot

theorem get?_memberIf (name other : String) (value : Option Json.Value) :
    (memberIf name value).get? other = if other = name then value else none := by
  cases value with
  | none => simp [memberIf, Json.Members.get?]
  | some v => exact Json.Members.get?_cons name other v []

theorem orDefault_nonEmpty? (members : Json.Members) :
    Json.orDefault [] Json.Value.members? (nonEmpty? members) = some members := by
  cases members with
  | nil => rfl
  | cons m rest => rfl

end Snapshot

/-! ## Elements -/

namespace Attributes

theorem putEntry_last {name text : String} {entries : List (String × String)}
    (h : ∀ e ∈ entries, e.1 < name) : putEntry name text entries = entries ++ [(name, text)] := by
  induction entries with
  | nil => rfl
  | cons e rest ih =>
    obtain ⟨hfirst, hrest⟩ := List.forall_mem_cons.mp h
    have hne : name ≠ e.1 := fun heq => String.lt_irrefl name (heq ▸ hfirst)
    rw [putEntry, if_neg (String.lt_asymm hfirst), if_neg hne, ih hrest, List.cons_append]

/-- Attributes that come in the order of their names are put one behind the other. -/
theorem entries_foldl_put (a : Attributes) (more : List (String × String))
    (h : AscendingNames (a.entries ++ more)) :
    (more.foldl (fun a e => a.put e.1 e.2) a).entries = a.entries ++ more := by
  induction more generalizing a with
  | nil => simp
  | cons e rest ih =>
    have hput : (a.put e.1 e.2).entries = a.entries ++ [e] :=
      putEntry_last fun e' he' => (List.pairwise_append.mp h).2.2 e' he' e List.mem_cons_self
    have hassoc : (a.put e.1 e.2).entries ++ rest = a.entries ++ e :: rest := by
      rw [hput, List.append_assoc, List.singleton_append]
    rw [List.foldl_cons, ih (a.put e.1 e.2) (hassoc ▸ h), hassoc]

theorem eq_of_entries {a b : Attributes} (h : a.entries = b.entries) : a = b := by
  cases a
  cases b
  cases h
  rfl

theorem ofList_entries (a : Attributes) : ofList a.entries = a :=
  eq_of_entries (entries_foldl_put {} a.entries a.ascending)

theorem ofJson?_toJson (a : Attributes) : ofJson? a.toJson = some a := by
  have hentries : (a.entries.map fun e => (e.1, Json.Value.str e.2)).mapM
      (fun m => m.2.string?.map fun text => (m.1, text)) = some a.entries := by
    refine Json.mapM_map_eq_pure (m := Option) (fun e => ?_) a.entries
    rfl
  simp [ofJson?, toJson, Json.Value.members?, hentries, ofList_entries]

end Attributes

theorem Json.Value.uint64?_ofNat (n : UInt64) : uint64? (ofNat n.toNat) = some n := by
  have hbound : n.toNat < Text.Numeral.unsigned64 := n.toNat_lt
  simp only [uint64?, natBelow?, ofNat, Int.natCast_nonneg, Int.ofNat_lt, hbound, and_self, if_true,
    Int.toNat_natCast, Option.map_some, UInt64.ofNat_toNat]

namespace Element

/-- Reading an element is reading its fields. -/
theorem ofJson?_of_fields {v : Json.Value} {field : String → Option Json.Value} {e : Element}
    (hrecord : Json.record? fieldNames .ignored v = some field)
    (hhandle : (field "handle").bind Json.Value.uint64? = some e.handle)
    (hattributes : Json.orDefault {} Attributes.ofJson? (field "attributes") = some e.attributes)
    (hproperties : Json.orDefault [] Json.Value.members? (field "properties") = some e.properties) :
    ofJson? v = some e := by
  simp [ofJson?, hrecord, hhandle, hattributes, hproperties]

/-- All fields of an element are written, and each is found under its name. -/
theorem ofJson?_toJson (e : Element) : ofJson? e.toJson = some e := by
  let fields : Json.Members :=
    [("handle", .ofNat e.handle.toNat), ("attributes", e.attributes.toJson),
      ("properties", .obj e.properties)]
  have hrecord : Json.record? fieldNames .ignored e.toJson = some fields.get? := by
    simp [Json.record?, toJson, fields]
  have hhandle : fields.get? "handle" = some (.ofNat e.handle.toNat) := rfl
  refine ofJson?_of_fields hrecord ?_ (Attributes.ofJson?_toJson e.attributes) rfl
  rw [hhandle, Option.bind_some, Json.Value.uint64?_ofNat]

end Element

/-! ## Labels -/

namespace Snapshot

/-- The members of a snapshot with this label, and with this written of its children. -/
def members (l : Label) (children : Option Json.Value) : Json.Members :=
  labelMembers l ++ memberIf "children" children

theorem toJson_node (l : Label) (children : List Snapshot) :
    (node l children).toJson =
      .obj (members l (if children.isEmpty then none else some (.arr (toJsonAll children)))) := by
  rw [toJson, members]

section

variable (l : Label) (children : Option Json.Value)

/-- Whatever is written of the children, the label is read as it was written. -/
theorem readLabel_members : readLabel (members l children).get? = some l := by
  have htext (x : Option String) : Json.optional? Json.Value.string? (x.map .str) = some x :=
    Json.optional?_map (fun s => (rfl : Json.Value.string? (.str s) = some s)) (fun _ => nofun) x
  have helement : Json.optional? Element.ofJson? (l.element.map Element.toJson) = some l.element :=
    Json.optional?_map Element.ofJson?_toJson (fun _ => nofun) l.element
  simp [readLabel, members, labelMembers, Json.Members.get?_append, get?_memberIf, htext, helement,
    orDefault_nonEmpty?]

theorem get?_members_children : (members l children).get? "children" = children := by
  simp [members, labelMembers, Json.Members.get?_append, get?_memberIf]

/-- Only names of fields are written, in the order declared. -/
theorem names_members_sublist : ((members l children).map Prod.fst).Sublist fieldNames := by
  have hname (name : String) (value : Option Json.Value) :
      ((memberIf name value).map Prod.fst).Sublist [name] := by
    cases value with
    | none => exact List.nil_sublist _
    | some v => exact List.Sublist.refl _
  simp only [members, labelMembers, List.map_append]
  exact (((((((hname "tag" _).append (hname "identity" _)).append (hname "key" _)).append
    (hname "element" _)).append (hname "data" _)).append (hname "context" _)).append
    (hname "text" _)).append (hname "children" children)

theorem record?_members :
    Json.record? fieldNames .refused (.obj (members l children)) = some (members l children).get? := by
  refine if_neg fun ⟨_, hany⟩ => ?_
  obtain ⟨m, hm, hundeclared⟩ := List.any_eq_true.mp hany
  have hdeclared : m.1 ∈ fieldNames :=
    (names_members_sublist l children).subset (List.mem_map_of_mem hm)
  simp [hdeclared] at hundeclared

end

/-! ## Snapshots -/

mutual

/-- A snapshot is read as it was written, at every depth. -/
theorem ofJson?_toJson : ∀ s : Snapshot, ofJson? s.toJson = some s
  | .node label children => by
    rw [toJson_node, ofJson?_eq, record?_members, Option.bind_some, readLabel_members,
      Option.bind_some, get?_members_children]
    cases children with
    | nil => rfl
    | cons first rest =>
      rw [List.isEmpty_cons, if_neg Bool.false_ne_true]
      simp only [mapM_ofJson?_toJsonAll (first :: rest), Option.map_some]

theorem mapM_ofJson?_toJsonAll : ∀ ss : List Snapshot, (toJsonAll ss).mapM ofJson? = some ss
  | [] => rfl
  | s :: rest => by
    simp [toJsonAll, ofJson?_toJson s, mapM_ofJson?_toJsonAll rest]

end

end Snapshot

/-! ## Distinct names -/

/-- The names in every object are distinct, at every level. -/
inductive Json.Value.Distinct : Json.Value → Prop
  | null : Distinct .null
  | bool (b : Bool) : Distinct (.bool b)
  | num (n : Json.Number) : Distinct (.num n)
  | str (s : String) : Distinct (.str s)
  | arr {items : List Json.Value} (hitems : ∀ v ∈ items, v.Distinct) : Distinct (.arr items)
  | obj {members : Json.Members} (hnames : (members.map Prod.fst).Nodup)
      (hvalues : ∀ m ∈ members, m.2.Distinct) : Distinct (.obj members)

/-- The names in the values of a label are distinct. -/
structure Label.Distinct (l : Label) : Prop where
  data : (Json.Value.obj l.data).Distinct
  context : (Json.Value.obj l.context).Distinct
  properties : ∀ e ∈ l.element, (Json.Value.obj e.properties).Distinct

/-- The names in the values of a snapshot are distinct, at every depth. -/
inductive Snapshot.Distinct : Snapshot → Prop
  | node {label : Label} {children : List Snapshot} (hlabel : label.Distinct)
      (hchildren : ∀ s ∈ children, s.Distinct) : Distinct (.node label children)

theorem Attributes.distinct_toJson (a : Attributes) : a.toJson.Distinct := by
  refine .obj ?_ fun m hm => ?_
  · rw [List.map_map]
    refine List.pairwise_map.mpr (a.ascending.imp fun {e e'} hlt hsame => ?_)
    exact absurd (show e.1 = e'.1 from hsame) (String.ne_of_lt hlt)
  · obtain ⟨e, -, rfl⟩ := List.mem_map.mp hm
    exact .str e.2

theorem Element.distinct_toJson {e : Element} (h : (Json.Value.obj e.properties).Distinct) :
    e.toJson.Distinct := by
  refine .obj (by simp) ?_
  simp only [List.forall_mem_cons]
  exact ⟨.num _, e.attributes.distinct_toJson, h, nofun⟩

namespace Snapshot

theorem distinct_nonEmpty? {members : Json.Members} (h : (Json.Value.obj members).Distinct) :
    ∀ v ∈ nonEmpty? members, v.Distinct := by
  cases members with
  | nil => nofun
  | cons m rest =>
    rintro v ⟨⟩
    exact h

theorem distinct_members {l : Label} {children : Option Json.Value} (hl : l.Distinct)
    (hchildren : ∀ v ∈ children, v.Distinct) :
    (Json.Value.obj (members l children)).Distinct := by
  refine .obj ((names_members_sublist l children).nodup (by simp [fieldNames])) ?_
  have hmember (name : String) {value : Option Json.Value} (h : ∀ v ∈ value, v.Distinct) :
      ∀ m ∈ memberIf name value, m.2.Distinct := by
    intro m hm
    obtain ⟨v, hv, rfl⟩ : ∃ v ∈ value, (name, v) = m := by simpa [memberIf] using hm
    exact h v hv
  have htext (x : Option String) : ∀ v ∈ x.map Json.Value.str, v.Distinct := by
    intro v hv
    obtain ⟨s, -, rfl⟩ := Option.map_eq_some_iff.mp hv
    exact .str s
  have helement : ∀ v ∈ l.element.map Element.toJson, v.Distinct := by
    intro v hv
    obtain ⟨e, he, rfl⟩ := Option.map_eq_some_iff.mp hv
    exact Element.distinct_toJson (hl.properties e he)
  simp only [members, labelMembers, List.forall_mem_append]
  exact ⟨⟨⟨⟨⟨⟨⟨hmember "tag" (htext _), hmember "identity" (htext _)⟩, hmember "key" (htext _)⟩,
    hmember "element" helement⟩, hmember "data" (distinct_nonEmpty? hl.data)⟩,
    hmember "context" (distinct_nonEmpty? hl.context)⟩, hmember "text" (htext _)⟩,
    hmember "children" hchildren⟩

mutual

theorem Distinct.toJson : ∀ {s : Snapshot}, s.Distinct → s.toJson.Distinct
  | .node label children, .node hlabel hchildren => by
    rw [toJson_node]
    refine distinct_members hlabel fun v hv => ?_
    split at hv
    · cases hv
    · cases hv
      exact .arr (distinct_toJsonAll hchildren)

theorem distinct_toJsonAll : ∀ {ss : List Snapshot}, (∀ s ∈ ss, s.Distinct) →
    ∀ v ∈ toJsonAll ss, v.Distinct
  | [], _ => nofun
  | s :: rest, h => by
    obtain ⟨hfirst, hrest⟩ := List.forall_mem_cons.mp h
    rw [toJsonAll]
    exact List.forall_mem_cons.mpr ⟨hfirst.toJson, distinct_toJsonAll hrest⟩

end

end Snapshot

/-! ## There and back -/

/-- The scene of an object of written snapshots is that of the snapshots, or there is none for the same
reason. -/
theorem Scene.ofJson_toJson (roots : List (String × Snapshot)) :
    Scene.ofJson (.obj (roots.map fun root => (root.1, root.2.toJson))) = Scene.ofSnapshots roots := by
  rw [Scene.ofJson, Json.mapM_map_eq_pure (m := Except InputCause) _ roots]
  · rfl
  · intro root
    simp only [Snapshot.ofJson?_toJson]
    rfl

namespace Snapshot

/-- **Snapshots go to JSON and back unharmed.** A snapshot that is written is read as it was; what is
written has distinct names in every object if the values of the snapshot have; whatever is read as a
snapshot is, once written again, read as the same snapshot and written in the same way; and a scene can be
made of the written snapshots if and only if it can be made of the snapshots, and then it is the same. -/
theorem json_round_trip :
    (∀ s : Snapshot, ofJson? s.toJson = some s ∧ (s.Distinct → s.toJson.Distinct)) ∧
      (∀ v s, ofJson? v = some s →
        ofJson? s.toJson = ofJson? v ∧ (ofJson? s.toJson).map toJson = some s.toJson) ∧
      ∀ roots : List (String × Snapshot),
        Scene.ofJson (.obj (roots.map fun root => (root.1, root.2.toJson))) =
          Scene.ofSnapshots roots := by
  refine ⟨fun s => ⟨ofJson?_toJson s, Distinct.toJson⟩, fun v s hread => ⟨?_, ?_⟩,
    Scene.ofJson_toJson⟩
  · rw [ofJson?_toJson, hread]
  · rw [ofJson?_toJson, Option.map_some]

/-- A snapshot in the form of an array, with empty fields and attributes out of order, and what is written
of it. -/
theorem json_round_trip_array :
    let v : Json.Value := .arr [.null, .str "list/items", .null,
      .obj [("attributes", .obj [("name", .str "b"), ("class", .str "c")]), ("handle", .ofNat 7)],
      .obj [], .obj [("n", .null)], .null, .arr [.obj [("tag", .str "p"), ("key", .null)]]]
    let element : Element := { handle := 7, attributes := .ofList [("class", "c"), ("name", "b")] }
    let s : Snapshot :=
      .node { identity := some "list/items", element := some element, context := [("n", .null)] }
        [.node { tag := some "p" } []]
    ofJson? v = some s ∧ s.Distinct ∧ s.toJson.Distinct ∧ ofJson? s.toJson = ofJson? v ∧
      s.toJson = .obj [("identity", .str "list/items"),
        ("element", .obj [("handle", .ofNat 7),
          ("attributes", .obj [("class", .str "c"), ("name", .str "b")]), ("properties", .obj [])]),
        ("context", .obj [("n", .null)]), ("children", .arr [.obj [("tag", .str "p")]])] := by
  intro v element s
  have hchild : ofJson? (.obj [("tag", .str "p"), ("key", .null)]) =
      some (.node { tag := some "p" } []) := by
    rw [ofJson?_eq]
    rfl
  have hread : ofJson? v = some s := by
    have hunfold : ofJson? v =
        ([Json.Value.obj [("tag", .str "p"), ("key", .null)]].mapM ofJson?).map (.node s.label) := by
      rw [ofJson?_eq]
      rfl
    rw [hunfold, List.mapM_cons, hchild]
    rfl
  have hnone : (Json.Value.obj []).Distinct := .obj List.nodup_nil nofun
  have hdistinct : s.Distinct := by
    refine .node ⟨hnone, .obj (by simp) (by simpa using .null), ?_⟩ ?_
    · rintro e ⟨⟩
      exact hnone
    · simp only [List.forall_mem_singleton]
      exact .node ⟨hnone, hnone, nofun⟩ nofun
  exact ⟨hread, hdistinct, (json_round_trip.1 s).2 hdistinct, (json_round_trip.2.1 v s hread).1, rfl⟩

end Snapshot

end SceneSelect
