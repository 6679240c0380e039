import NameRoles.Proofs.NodeObjects

/-! What does not matter to loading. Of a serialized node only the type, the offsets, the name, the
`computed` flag and the children are looked at, and the object around the name of a type parameter
only for the name. Without everything else, at all levels at once, a document has the same outcome
and the same reports. -/

namespace NameRoles

namespace Json

/-- Whether a value is an unsigned 64-bit integer. -/
def isOffset (value : Json) : Bool :=
  value.natural?.any (· < UInt64.size)

/-- Whether a member of a serialized node matters, apart from the wrapped name of a type parameter.
Among the metadata only the type and the offsets do; of the other members, the name if it is a
string, the flag if it is a boolean, and what is a serialized node or a list of serialized nodes and
nulls. -/
def matters (key : String) (value : Json) : Bool :=
  if key ∈ metadataKeys then
    key = "type" || (key = "start" || key = "end") && value.isOffset
  else
    match value with
    | string _ => key = "name"
    | bool _ => key = "computed"
    | array items => items.all fun item => item.isNull || item.isNode
    | object members => (object members).isNode
    | _ => false

/-- What is left of a member of `node`, where `below` is what is left of the value itself. The name
of a type parameter is taken out of the object around it. -/
def remains? (node : Json) (key : String) (value below : Json) : Option Json :=
  match value with
  | object members =>
      if key = "name" && node.nodeType.isTypeParameter then
        (((object members).member? "name").bind text?).map string
      else if matters key (object members) then some below
      else none
  | value => if matters key value then some below else none

mutual

/-- What is left of a serialized node, or of the items of a list. -/
def pruned : Json → Json
  | object members => object (prunedMembers (object members) members)
  | array items => array (prunedItems items)
  | value => value

def prunedItems : List Json → List Json
  | [] => []
  | item :: items => item.pruned :: prunedItems items

/-- What is left of the given members of `node`. -/
def prunedMembers (node : Json) : List (String × Json) → List (String × Json)
  | [] => []
  | (key, value) :: members =>
      ((remains? node key value value.pruned).map (key, ·)).toList ++ prunedMembers node members

end

/-- A document without all that does not matter to loading. A document that is no serialized node is
left as it is. -/
def strip (document : Json) : Json :=
  if document.isNode then document.pruned else document

theorem remains?_wrappedName {node below : Json} {members : List (String × Json)}
    (htype : node.nodeType.isTypeParameter = true) :
    remains? node "name" (object members) below =
      (((object members).member? "name").bind text?).map string := by
  rw [remains?, if_pos (by simpa using htype)]

theorem remains?_object {node below : Json} {key : String} {members : List (String × Json)}
    (hname : ¬(key = "name" ∧ node.nodeType.isTypeParameter = true)) :
    remains? node key (object members) below =
      if matters key (object members) then some below else none := by
  rw [remains?, if_neg (by simpa using hname)]

theorem remains?_of_ne_object {value : Json} (node below : Json) (key : String)
    (hvalue : ∀ members, value ≠ .object members) :
    remains? node key value below = if matters key value then some below else none := by
  cases value with
  | object members => exact (hvalue members rfl).elim
  | _ => rfl

theorem prunedItems_eq (items : List Json) : prunedItems items = items.map pruned := by
  induction items with
  | nil => rfl
  | cons item items ih => rw [prunedItems, ih, List.map_cons]

theorem prunedMembers_eq (node : Json) (members : List (String × Json)) :
    prunedMembers node members =
      members.filterMap fun member =>
        (remains? node member.1 member.2 member.2.pruned).map (member.1, ·) := by
  induction members with
  | nil => rfl
  | cons member members ih =>
      obtain ⟨key, value⟩ := member
      rw [prunedMembers, ih]
      cases hremains : remains? node key value value.pruned with
      | none => rw [List.filterMap_cons_none (by rw [hremains]; rfl)]; rfl
      | some below => rw [List.filterMap_cons_some (by rw [hremains]; rfl)]; rfl

theorem isNull_pruned (value : Json) : value.pruned.isNull = value.isNull := by
  cases value <;> rfl

theorem text?_pruned (value : Json) : value.pruned.text? = value.text? := by
  cases value <;> rfl

/-- Where keys are distinct, a member is found among those that are left if it is left itself. -/
theorem lookup_filterMap {members : List (String × Json)} (change : String → Json → Option Json)
    (hkeys : (members.map Prod.fst).Nodup) (key : String) :
    (members.filterMap fun member => (change member.1 member.2).map (member.1, ·)).lookup key =
      (members.lookup key).bind (change key) := by
  induction members with
  | nil => rfl
  | cons member members ih =>
      obtain ⟨first, value⟩ := member
      rw [List.map_cons, List.nodup_cons] at hkeys
      obtain ⟨hfirst, hkeys⟩ := hkeys
      have htail := ih hkeys
      by_cases hkey : key = first
      · subst hkey
        have hnone : members.lookup key = none := by
          rw [List.lookup_eq_none_iff]
          intro member hmember
          rw [bne_iff_ne]
          intro heq
          exact hfirst (List.mem_map.mpr ⟨member, hmember, heq.symm⟩)
        rw [List.lookup_cons_self, Option.bind_some]
        cases hchange : change key value with
        | none =>
            rw [List.filterMap_cons_none (by rw [hchange]; rfl), htail, hnone, Option.bind_none]
        | some below =>
            rw [List.filterMap_cons_some (by rw [hchange]; rfl), List.lookup_cons_self]
      · have hbeq : (key == first) = false := by simpa using hkey
        rw [List.lookup_cons, hbeq]
        cases hchange : change first value with
        | none => rw [List.filterMap_cons_none (by rw [hchange]; rfl), htail]
        | some below =>
            rw [List.filterMap_cons_some (by rw [hchange]; rfl), List.lookup_cons, hbeq, htail]

theorem member?_pruned {node : Json} (hkeyed : node.WellKeyed) (key : String) :
    node.pruned.member? key =
      (node.member? key).bind fun value => remains? node key value value.pruned := by
  cases node with
  | object members =>
      obtain ⟨hkeys, -⟩ := wellKeyed_object_iff.mp hkeyed
      rw [member?, member?, pruned, Json.members, Json.members, prunedMembers_eq]
      exact lookup_filterMap (fun key value => remains? (object members) key value value.pruned)
        hkeys key
  | _ => rfl

/-- The type is left. -/
theorem typeText?_pruned {node : Json} (hkeyed : node.WellKeyed) :
    node.pruned.typeText? = node.typeText? := by
  have hremains : ∀ value below : Json, remains? node "type" value below = some below := by
    intro value below
    cases value <;> rfl
  rw [typeText?, typeText?, member?_pruned hkeyed]
  cases node.member? "type" with
  | none => rfl
  | some value => simp only [Option.bind_some, hremains, text?_pruned]

theorem isNode_pruned {node : Json} (hkeyed : node.WellKeyed) :
    node.pruned.isNode = node.isNode := by
  rw [isNode, isNode, typeText?_pruned hkeyed]

theorem nodeType_pruned {node : Json} (hkeyed : node.WellKeyed) :
    node.pruned.nodeType = node.nodeType := by
  rw [nodeType, nodeType, typeText?_pruned hkeyed]

/-- The offsets are left. -/
theorem offset?_pruned {node : Json} {key : String} (hkeyed : node.WellKeyed)
    (hkey : key = "start" ∨ key = "end") : node.pruned.offset? key = node.offset? key := by
  have hremains : ∀ value below : Json,
      remains? node key value below = if value.isOffset then some below else none := by
    intro value below
    rcases hkey with rfl | rfl <;> cases value <;> rfl
  rw [offset?, offset?, member?_pruned hkeyed]
  cases node.member? key with
  | none => rfl
  | some value =>
      simp only [Option.bind_some, hremains]
      by_cases hoffset : value.isOffset = true
      · have hsame : value.pruned = value := by
          cases value with
          | number number => rfl
          | _ => cases hoffset
        rw [if_pos hoffset, hsame, Option.bind_some]
      · have hnone : value.natural?.filter (· < UInt64.size) = none := by
          rw [isOffset] at hoffset
          cases hnatural : value.natural? with
          | none => rfl
          | some offset =>
              rw [hnatural] at hoffset
              simpa using hoffset
        rw [if_neg hoffset, hnone]
        rfl

theorem span_pruned {node : Json} (hkeyed : node.WellKeyed) : node.pruned.span = node.span := by
  rw [span, span, offset?_pruned hkeyed (.inl rfl), offset?_pruned hkeyed (.inr rfl)]

/-- The flag is left. -/
theorem computedFlag_pruned {node : Json} (hkeyed : node.WellKeyed) :
    node.pruned.computedFlag = node.computedFlag := by
  rw [computedFlag, computedFlag, member?_pruned hkeyed]
  cases node.member? "computed" with
  | none => rfl
  | some value =>
      cases value with
      | object members =>
          rw [Option.bind_some, remains?_object (by simp)]
          cases matters "computed" (object members) <;> rfl
      | array items =>
          rw [Option.bind_some, remains?_of_ne_object _ _ _ (by simp)]
          cases matters "computed" (array items) <;> rfl
      | _ => rfl

/-- The name is left, without the object around it. -/
theorem nameText?_pruned {node : Json} (hkeyed : node.WellKeyed) :
    node.pruned.nameText? node.nodeType = node.nameText? node.nodeType := by
  rw [nameText?, nameText?, member?_pruned hkeyed]
  cases node.member? "name" with
  | none => rfl
  | some value =>
      cases value with
      | object members =>
          by_cases htype : node.nodeType.isTypeParameter = true
          · simp only [Option.bind_some, remains?_wrappedName htype, if_pos htype]
            cases ((Json.object members).member? "name").bind text? <;> rfl
          · simp only [Option.bind_some, remains?_object fun hname => htype hname.2, if_neg htype]
            cases matters "name" (object members) <;> rfl
      | array items =>
          rw [Option.bind_some, remains?_of_ne_object _ _ _ (by simp)]
          cases matters "name" (array items) <;> rfl
      | _ => rfl

/-- What is left of the serialized children in a member. -/
def Held.pruned : Held → Held
  | .single child => .single child.pruned
  | .list items => .list (items.map Json.pruned)

theorem Held.opening_pruned (field : Field) (held : Held) :
    held.pruned.opening field = held.opening field := by
  cases held with
  | single child => rfl
  | list items => simp [Held.pruned, opening, isNull_pruned]

theorem Held.children_pruned (held : Held) :
    held.pruned.children = held.children.map Json.pruned := by
  cases held with
  | single child => rfl
  | list items =>
      rw [Held.pruned, children, children, List.filter_map]
      simp only [Function.comp_def, isNull_pruned]

theorem all_pruned {items : List Json} (hkeyed : ∀ item ∈ items, item.WellKeyed) :
    ((items.map pruned).all fun item => item.isNull || item.isNode) =
      items.all fun item => item.isNull || item.isNode := by
  induction items with
  | nil => rfl
  | cons item items ih =>
      obtain ⟨hitem, hitems⟩ := List.forall_mem_cons.mp hkeyed
      rw [List.map_cons, List.all_cons, List.all_cons, ih hitems, isNull_pruned,
        isNode_pruned hitem]

/-- A member that holds children is left, with what is left of them. -/
theorem held?_remains {node value : Json} (key : String) (hkeyed : value.WellKeyed) :
    (remains? node key value value.pruned).bind (held? node.nodeType key) =
      (held? node.nodeType key value).map Held.pruned := by
  by_cases hkey : key ∈ metadataKeys
  · have hnone : ∀ found, held? node.nodeType key found = none := by
      intro found
      unfold held?
      rw [if_pos (by simpa using hkey)]
    cases remains? node key value value.pruned <;> simp [hnone]
  · cases value with
    | object members =>
        by_cases hname : key = "name" ∧ node.nodeType.isTypeParameter = true
        · obtain ⟨rfl, htype⟩ := hname
          rw [remains?_wrappedName htype]
          cases ((Json.object members).member? "name").bind text? <;> simp [held?, htype]
        · have hnode := isNode_pruned hkeyed
          rw [remains?_object hname]
          rw [pruned] at hnode ⊢
          by_cases htype : (object members).isNode = true
          · simp [matters, held?, hkey, hname, htype, hnode, Held.pruned, pruned]
          · simp [matters, held?, hkey, hname, htype]
    | array items =>
        have hall := all_pruned (wellKeyed_array_iff.mp hkeyed)
        rw [remains?_of_ne_object _ _ _ (by simp), pruned, prunedItems_eq]
        by_cases hitems : (items.all fun item => item.isNull || item.isNode) = true
        · rw [hitems] at hall
          simp only [matters, if_neg hkey, hitems, if_true, Option.bind_some]
          simp [held?, hkey, hitems, hall, Held.pruned]
        · simp only [matters, if_neg hkey, hitems]
          simp [held?, hkey, hitems]
    | _ => simp [remains?, matters, held?, hkey, pruned]

theorem heldMember?_remains {node : Json} {member : String × Json}
    (hkeyed : member.2.WellKeyed) :
    ((remains? node member.1 member.2 member.2.pruned).map (member.1, ·)).bind
        (heldMember? node.nodeType) =
      (heldMember? node.nodeType member).map fun found => (found.1, found.2.pruned) := by
  have hheld : (remains? node member.1 member.2 member.2.pruned).bind
      (held? node.nodeType member.1) = (held? node.nodeType member.1 member.2).map Held.pruned :=
    held?_remains member.1 hkeyed
  calc
    _ = ((remains? node member.1 member.2 member.2.pruned).bind
          (held? node.nodeType member.1)).map (Field.ofText member.1, ·) := by
      rw [Option.bind_map, Option.map_bind]
      rfl
    _ = _ := by
      rw [hheld, Option.map_map, heldMember?, Option.map_map]
      rfl

/-- The children stand in the same members, with what is left of them. -/
theorem heldMembers_pruned {node : Json} (hkeyed : node.WellKeyed) :
    node.pruned.heldMembers node.nodeType =
      (node.heldMembers node.nodeType).map fun member => (member.1, member.2.pruned) := by
  cases node with
  | object members =>
      rw [heldMembers, heldMembers, pruned, Json.members, Json.members, prunedMembers_eq,
        List.filterMap_filterMap, List.map_filterMap]
      apply List.filterMap_congr
      intro member hmember
      exact heldMember?_remains (hkeyed.of_mem_members hmember)
  | _ => rfl

theorem nodeHeader_pruned {node : Json} (hkeyed : node.WellKeyed) :
    node.pruned.nodeHeader = node.nodeHeader := by
  rw [nodeHeader, nodeHeader, nodeType_pruned hkeyed, header, header, span_pruned hkeyed,
    nameText?_pruned hkeyed, computedFlag_pruned hkeyed, heldMembers_pruned hkeyed, List.map_map]
  congr 1
  apply List.map_congr_left
  intro member _
  exact Held.opening_pruned member.1 member.2

theorem nodeChildren_pruned {node : Json} (hkeyed : node.WellKeyed) :
    node.pruned.nodeChildren node.pruned.nodeType =
      (node.nodeChildren node.nodeType).map pruned := by
  rw [nodeType_pruned hkeyed, nodeChildren, nodeChildren, heldMembers_pruned hkeyed,
    List.flatMap_map, List.map_flatMap]
  simp only [Held.children_pruned]

/-- What is left of a document has what is left of its serialized nodes. -/
theorem serialized_pruned {node : Json} (depth : Nat) (hkeyed : node.WellKeyed) :
    node.pruned.serialized depth =
      (node.serialized depth).map fun item => (item.1.pruned, item.2) := by
  induction node using induction_nodeChildren generalizing depth with
  | node node ih =>
      rw [serialized_eq, serialized_eq, nodeChildren_pruned hkeyed, List.map_cons,
        List.flatMap_map, List.map_flatMap, List.flatMap_def, List.flatMap_def]
      congr 2
      apply List.map_congr_left
      intro child hchild
      exact ih child hchild (depth + 1) (hkeyed.of_mem_nodeChildren hchild)

end Json

namespace Load

variable {options : LoadOptions}

/-- A serialized node is read alike from what is left of it. -/
theorem readHeader_pruned {value : Json} (depth : Nat) (hkeyed : value.WellKeyed) :
    readHeader options depth value.pruned = readHeader options depth value := by
  have hheader := Json.nodeHeader_pruned hkeyed
  have hspan := Json.span_pruned hkeyed
  have htype := Json.typeText?_pruned hkeyed
  cases value with
  | object members =>
      rw [Json.pruned] at hheader hspan htype ⊢
      rw [readHeader, readHeader, hspan, htype]
      cases htext : (Json.object members).typeText? with
      | none => rfl
      | some text =>
          rw [Json.nodeHeader, Json.nodeHeader, Json.nodeType, Json.nodeType, htype, htext,
            Option.getD_some] at hheader
          dsimp only
          generalize NodeType.ofText text = type at hheader ⊢
          cases type <;> cases options.unknownTypes <;> simp only [hheader]
  | _ => rfl

theorem readEach_pruned (events : Array Event) (headers : Array Header)
    {nodes : List (Json × Nat)} (hkeyed : ∀ item ∈ nodes, item.1.WellKeyed) :
    readEach options events headers (nodes.map fun item => (item.1.pruned, item.2)) =
      readEach options events headers nodes := by
  induction nodes generalizing events headers with
  | nil => rfl
  | cons item nodes ih =>
      obtain ⟨hitem, hnodes⟩ := List.forall_mem_cons.mp hkeyed
      rw [List.map_cons, readEach, readEach, readHeader_pruned _ hitem]
      cases readHeader options item.2 item.1 with
      | error error => rfl
      | ok header => exact ih _ _ hnodes

end Load

theorem Node.load_pruned {document : Json} (options : LoadOptions) (hkeyed : document.WellKeyed) :
    Node.load options document.pruned = Node.load options document := by
  have hitems : ∀ item ∈ document.serialized 0, item.1.WellKeyed := by
    intro item hitem
    exact hkeyed.of_mem_serialized hitem
  rw [load, load, Load.readHeaders_eq_readEach, Load.readHeaders_eq_readEach,
    List.flatMap_singleton, List.flatMap_singleton, Json.serialized_pruned 0 hkeyed,
    Load.readEach_pruned _ _ hitems]

namespace Json

/-- Whether a member matters can be told from what is left of its value. -/
theorem matters_pruned {value : Json} (key : String) (hkeyed : value.WellKeyed) :
    matters key value.pruned = matters key value := by
  cases value with
  | object members =>
      have hnode := isNode_pruned hkeyed
      rw [pruned] at hnode ⊢
      rw [matters, matters, hnode]
      rfl
  | array items =>
      have hall := all_pruned (wellKeyed_array_iff.mp hkeyed)
      rw [pruned, prunedItems_eq, matters, matters, hall]
      rfl
  | _ => rfl

theorem matters_of_remains? {node value below : Json} {key : String} (hkeyed : value.WellKeyed)
    (hremains : remains? node key value value.pruned = some below) : matters key below = true := by
  have hkept : matters key value = true → matters key value.pruned = true := by
    intro hmatters
    rw [matters_pruned key hkeyed, hmatters]
  cases value with
  | object members =>
      by_cases hname : key = "name" ∧ node.nodeType.isTypeParameter = true
      · obtain ⟨rfl, htype⟩ := hname
        rw [remains?_wrappedName htype] at hremains
        obtain ⟨text, -, rfl⟩ := Option.map_eq_some_iff.mp hremains
        rfl
      · rw [remains?_object hname, Option.ite_none_right_eq_some] at hremains
        obtain ⟨hmatters, hbelow⟩ := hremains
        rw [← Option.some.inj hbelow]
        exact hkept hmatters
  | _ =>
      rw [remains?_of_ne_object _ _ _ (by simp), Option.ite_none_right_eq_some] at hremains
      obtain ⟨hmatters, hbelow⟩ := hremains
      rw [← Option.some.inj hbelow]
      exact hkept hmatters

/-- The name of a type parameter is not left in an object around it. -/
theorem ne_object_of_remains? {node value below : Json}
    (htype : node.nodeType.isTypeParameter = true)
    (hremains : remains? node "name" value value.pruned = some below) :
    ∀ members, below ≠ .object members := by
  cases value with
  | object members =>
      rw [remains?_wrappedName htype] at hremains
      obtain ⟨text, -, rfl⟩ := Option.map_eq_some_iff.mp hremains
      simp
  | _ =>
      rw [remains?_of_ne_object _ _ _ (by simp), Option.ite_none_right_eq_some] at hremains
      obtain ⟨-, hbelow⟩ := hremains
      rw [← Option.some.inj hbelow]
      simp [pruned]

theorem exists_of_mem_members_pruned {node : Json} {member : String × Json}
    (hmember : member ∈ node.pruned.members) :
    ∃ value, (member.1, value) ∈ node.members ∧
      remains? node member.1 value value.pruned = some member.2 := by
  cases node with
  | object members =>
      rw [pruned, Json.members, prunedMembers_eq, List.mem_filterMap] at hmember
      obtain ⟨found, hfound, hremains⟩ := hmember
      obtain ⟨below, hbelow, rfl⟩ := Option.map_eq_some_iff.mp hremains
      exact ⟨found.2, hfound, hbelow⟩
  | _ => cases hmember

end Json

/-- What does not matter has no influence on loading: a document and what is left of it yield the
same outcome and the same reports, whatever the options. In the node objects of what is left, all
members matter, and no type parameter has an object around its name. -/
theorem Node.load_strip {document : Json} (hkeyed : document.WellKeyed) :
    (∀ options, Node.load options document.strip = Node.load options document) ∧
      (document.HasType → ∀ item ∈ document.strip.nodeObjects 0, ∀ member ∈ item.1.members,
        Json.matters member.1 member.2 = true ∧
          (member.1 = "name" → item.1.IsTypeParameter →
            ∀ members, member.2 ≠ .object members)) := by
  constructor
  · intro options
    rw [Json.strip]
    split
    · exact load_pruned options hkeyed
    · rfl
  · intro htype item hitem member hmember
    have hnode : document.pruned.HasType := by
      rw [← Json.isNode_iff, Json.isNode_pruned hkeyed]
      exact Json.isNode_iff.mpr htype
    rw [Json.strip, if_pos (Json.isNode_iff.mpr htype), Json.nodeObjects_eq_serialized 0 hnode,
      Json.serialized_pruned 0 hkeyed, List.mem_map] at hitem
    obtain ⟨found, hfound, rfl⟩ := hitem
    have hnodeKeyed := hkeyed.of_mem_serialized hfound
    obtain ⟨value, hvalue, hremains⟩ := Json.exists_of_mem_members_pruned hmember
    refine ⟨Json.matters_of_remains? (hnodeKeyed.of_mem_members hvalue) hremains, ?_⟩
    intro hname hparameter
    rw [hname] at hremains
    rw [← Json.isTypeParameter_iff, Json.nodeType_pruned hnodeKeyed] at hparameter
    exact Json.ne_object_of_remains? hparameter hremains

def commentDocument : Json :=
  .object [("type", .string "CommentLine"), ("value", .string "c")]

/-- All metadata but the type and the offsets, each with a value that would hold children anywhere
else. -/
def annotations : List (String × Json) :=
  [("loc", .object [("type", .string "SourceLocation")]), ("range", .array []),
    ("extra", commentDocument), ("comments", .array [commentDocument]),
    ("leadingComments", .array [commentDocument, commentDocument]),
    ("trailingComments", .array [commentDocument]),
    ("innerComments", .array [.null, commentDocument]),
    ("tokens", .array [.object [("type", .string "CommentBlock")]])]

/-- A list of type parameters with metadata and comments, with a member that is a list of nodes but
for one item, and with a parameter that has metadata and comments of its own and whose name is
wrapped. -/
def annotatedParameter : Json :=
  .object (("type", .string "TSTypeParameterDeclaration") :: ("start", .number (Number.ofNat 4)) ::
    ("end", .string "7") :: annotations ++
    [("notes", .array [.object [("type", .string "Identifier")], .bool true]),
      ("params", .array [.null, .object (("type", .string "TSTypeParameter") ::
        ("name", .object [("type", .string "Identifier"), ("name", .string "T")]) ::
        ("const", .bool true) :: annotations)])])

def plainParameter : Json :=
  .object [("type", .string "TSTypeParameterDeclaration"), ("start", .number (Number.ofNat 4)),
    ("params", .array [.null, .object [("type", .string "TSTypeParameter"),
      ("name", .string "T")]])]

theorem wellKeyed_annotatedParameter : annotatedParameter.WellKeyed := by
  simp [annotatedParameter, annotations, commentDocument, Json.wellKeyed_array_iff,
    Json.wellKeyed_object_iff, Json.WellKeyed.null, Json.WellKeyed.number, Json.WellKeyed.string,
    Json.WellKeyed.bool]

theorem strip_annotatedParameter : annotatedParameter.strip = plainParameter := by
  rfl

/-- Nothing but the type, the one offset that is a number and the name of the parameter is left. -/
theorem Node.load_strip_annotatedParameter :
    annotatedParameter.WellKeyed ∧
      Json.metadataKeys ⊆ annotatedParameter.members.map Prod.fst ∧
      (∀ options, Node.load options plainParameter = Node.load options annotatedParameter) ∧
      ∀ item ∈ plainParameter.nodeObjects 0, ∀ member ∈ item.1.members,
        Json.matters member.1 member.2 = true := by
  obtain ⟨hload, hmatters⟩ := Node.load_strip wellKeyed_annotatedParameter
  rw [strip_annotatedParameter] at hload hmatters
  refine ⟨wellKeyed_annotatedParameter, by decide, hload, ?_⟩
  intro item hitem member hmember
  exact (hmatters ⟨_, rfl⟩ item hitem member hmember).1

end NameRoles
