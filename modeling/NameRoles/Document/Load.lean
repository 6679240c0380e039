import NameRoles.Diagnostic
import NameRoles.Document.NodeObject
import NameRoles.Json.Reader

/-! Loading documents as trees. Serialized nodes are read a node before its children and children in
the order of the members, each to its header; the tree is put together from the headers. So neither
the depth of a document nor that of a tree is limited by anything but the options. -/

namespace NameRoles

/-- What becomes of a type that has no construct. -/
inductive UnknownTypes where
  | keep
  | reject
deriving DecidableEq

/-- How a document is loaded. A tree may have at most `maxDepth` nodes on a branch. -/
structure LoadOptions where
  unknownTypes : UnknownTypes := .keep
  maxDepth : Nat := 2048

namespace Load

/-- Reads a serialized node that has `depth` ancestors, apart from its children. -/
def readHeader (options : LoadOptions) (depth : Nat) (value : Json) :
    Except (Located LoadFault) Header :=
  match value with
  | .object _ =>
    if options.maxDepth ≤ depth then .error ⟨.tooDeep options.maxDepth, value.span⟩
    else
      match value.typeText? with
      | none => .error ⟨.missingType, value.span⟩
      | some text =>
        match NodeType.ofText text, options.unknownTypes with
        | .other name, .reject => .error ⟨.unknownType name, value.span⟩
        | type, _ => .ok (value.header type)
  | _ => .error ⟨.expectedNode, Span.none⟩

/-- What is reported about a node once its header has been read. -/
def headerEvents (header : Header) : List Event :=
  match header.type with
  | .known _ => []
  | .other name => [.keptUnknownType name]

/-- Reads the given serialized nodes, each with the number of its ancestors, and all nodes below
them. -/
def readHeaders (options : LoadOptions) (events : Array Event) (headers : Array Header) :
    List (Json × Nat) → Array Event × Except (Located LoadFault) (Array Header)
  | [] => (events, .ok headers)
  | (value, depth) :: work =>
    match readHeader options depth value with
    | .error error => (events, .error error)
    | .ok header =>
      readHeaders options (events ++ headerEvents header) (headers.push header)
        ((value.nodeChildren header.type).map (·, depth + 1) ++ work)
termination_by work => Json.totalSize (work.map Prod.fst)
decreasing_by
  have := Json.totalSize_nodeChildren_lt header.type value
  simp only [List.map_append, List.map_map, Function.comp_def, List.map_id_fun', id_eq,
    Json.totalSize_append, List.map_cons, Json.totalSize_cons]
  omega

/-- Orders slots for visiting: first those that are visited first, then all others as they are. -/
def orderSlots (order : List Field) (slots : List Slot) : List Slot :=
  order.flatMap (fun field => slots.filter (·.field = field)) ++
    slots.filter fun slot => !order.contains slot.field

/-- Brings the slots of a loaded node into the order in which they are visited. -/
def arrange (node : Node) : Node :=
  { node with slots := orderSlots (node.type.visitOrder.map Field.known) node.slots }

/-- Puts the tree together whose root has the first header. -/
def assembleTree (headers : Array Header) : Except (Located LoadFault) Node :=
  match Header.assemble arrange headers.toList with
  | tree :: _ => .ok tree
  | [] => .error ⟨.expectedNode, Span.none⟩

end Load

def Node.load (options : LoadOptions) (document : Json) : Logged LoadFault Node :=
  let (events, headers) := Load.readHeaders options #[] #[] [(document, 0)]
  ⟨events.toList, headers.bind Load.assembleTree⟩

def Node.loadText (options : LoadOptions) (text : String) : Logged LoadFault Node :=
  match Json.parse text with
  | .ok document => Node.load options document
  | .error error => ⟨[], .error ⟨.malformedJson error.message, Span.none⟩⟩

end NameRoles
