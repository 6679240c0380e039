import NameRoles.Json.Basic
import NameRoles.Tree.Header

/-! Serialized nodes. A node is serialized as an object that names its type. Its children stand in
those members that hold a serialized node or a list of serialized nodes and holes; all other members
are looked at for the name, the `computed` flag and the offsets of the node, or not at all. -/

namespace NameRoles

/-- Type parameters carry their name themselves; where the name is wrapped in an object, that object
is no child. -/
def NodeType.isTypeParameter (type : NodeType) : Bool :=
  type = .known .typeParameter || type = .known .tsTypeParameter

namespace Json

def typeText? (value : Json) : Option String :=
  (value.member? "type").bind text?

def isNode (value : Json) : Bool :=
  value.typeText?.isSome

def isNull : Json → Bool
  | null => true
  | _ => false

/-- The value of a member that is an unsigned 64-bit integer. -/
def offset? (key : String) (value : Json) : Option Nat :=
  ((value.member? key).bind natural?).filter (· < UInt64.size)

/-- The span of a serialized node. A missing end is the start, a missing start is zero. -/
def span (value : Json) : Span :=
  let start := (value.offset? "start").getD 0
  ⟨start, (value.offset? "end").getD start⟩

def computedFlag (value : Json) : Bool :=
  match value.member? "computed" with
  | some (bool computed) => computed
  | _ => false

def nameText? (type : NodeType) (value : Json) : Option String :=
  match value.member? "name" with
  | some (string name) => some name
  | some (object members) =>
    if type.isTypeParameter then ((object members).member? "name").bind text? else none
  | _ => none

/-- Members that describe where a node stands or what a parser noted about it. Comments are
serialized like nodes, but they are no children. -/
def metadataKeys : List String :=
  ["type", "start", "end", "loc", "range", "extra", "comments", "leadingComments",
   "trailingComments", "innerComments", "tokens"]

/-- The serialized children in a member. -/
inductive Held where
  | single (child : Json)
  | list (items : List Json)

/-- The serialized children in a member of a node, unless the member holds something else. -/
def held? (type : NodeType) (key : String) (value : Json) : Option Held :=
  if metadataKeys.contains key then none
  else
    match value with
    | object members =>
      if key = "name" && type.isTypeParameter then none
      else if (object members).isNode then some (.single (object members))
      else none
    | array items =>
      if items.all fun item => item.isNull || item.isNode then some (.list items) else none
    | _ => none

namespace Held

/-- The slot that a member stands for. -/
def opening (field : Field) : Held → Opening
  | single _ => .single field
  | list items => .list field (items.map fun item => !item.isNull)

/-- The serialized children, without holes. -/
def children : Held → List Json
  | single child => [child]
  | list items => items.filter fun item => !item.isNull

end Held

/-- The slot name and the serialized children of a member of a node of the given type. -/
def heldMember? (type : NodeType) (member : String × Json) : Option (Field × Held) :=
  (held? type member.1 member.2).map (Field.ofText member.1, ·)

/-- The members of a node of the given type that hold its children. -/
def heldMembers (type : NodeType) (value : Json) : List (Field × Held) :=
  value.members.filterMap (heldMember? type)

def header (type : NodeType) (value : Json) : Header :=
  ⟨value.span, type, value.nameText? type, value.computedFlag,
   (value.heldMembers type).map fun (field, held) => held.opening field⟩

/-- The serialized children of a serialized node of the given type, in the order of the members. -/
def nodeChildren (type : NodeType) (value : Json) : List Json :=
  (value.heldMembers type).flatMap (·.2.children)

/-- The number of values in a list of values and below them. -/
def totalSize : List Json → Nat
  | [] => 0
  | value :: values => value.size + totalSize values

theorem totalSize_cons (value : Json) (values : List Json) :
    totalSize (value :: values) = value.size + totalSize values :=
  rfl

theorem totalSize_append (first second : List Json) :
    totalSize (first ++ second) = totalSize first + totalSize second := by
  induction first with
  | nil => exact (Nat.zero_add _).symm
  | cons value values ih =>
    rw [List.cons_append, totalSize_cons, totalSize_cons, ih, Nat.add_assoc]

theorem sizeItems_eq_totalSize (items : List Json) : sizeItems items = totalSize items := by
  induction items with
  | nil => rfl
  | cons item items ih => rw [sizeItems, totalSize_cons, ih]

theorem totalSize_filter_le (keep : Json → Bool) (items : List Json) :
    totalSize (items.filter keep) ≤ totalSize items := by
  induction items with
  | nil => exact Nat.le_refl _
  | cons item items ih =>
    rw [List.filter_cons, totalSize_cons]
    split
    · rw [totalSize_cons]
      omega
    · omega

theorem totalSize_held_le {type : NodeType} {key : String} {value : Json} {held : Held}
    (h : held? type key value = some held) : totalSize held.children ≤ value.size := by
  unfold held? at h
  split at h
  · cases h
  · split at h
    · split at h
      · cases h
      · split at h
        · cases h
          simp [Held.children, totalSize]
        · cases h
    · next items =>
      split at h
      · cases h
        have := totalSize_filter_le (fun item => !item.isNull) items
        simp only [Held.children, size, sizeItems_eq_totalSize]
        omega
      · cases h
    · cases h

theorem totalSize_heldMembers_le (type : NodeType) (members : List (String × Json)) :
    totalSize ((members.filterMap (heldMember? type)).flatMap (·.2.children)) ≤
      sizeMembers members := by
  induction members with
  | nil => exact Nat.le_refl _
  | cons member members ih =>
    obtain ⟨key, value⟩ := member
    cases h : held? type key value with
    | none =>
      have : heldMember? type (key, value) = none := by simp [heldMember?, h]
      simp only [List.filterMap_cons, this, sizeMembers]
      omega
    | some held =>
      have : heldMember? type (key, value) = some (Field.ofText key, held) := by
        simp [heldMember?, h]
      have := totalSize_held_le h
      simp only [List.filterMap_cons, *, sizeMembers, List.flatMap_cons, totalSize_append]
      omega

/-- The serialized children of a node are smaller than the node, all together. -/
theorem totalSize_nodeChildren_lt (type : NodeType) (value : Json) :
    totalSize (value.nodeChildren type) < value.size := by
  cases value with
  | object members =>
    have := totalSize_heldMembers_le type members
    simp only [nodeChildren, heldMembers, Json.members, size]
    omega
  | _ => simp [nodeChildren, heldMembers, Json.members, totalSize, size]

end Json

end NameRoles
