import ImemReplay.Document.Node
import ImemReplay.Document.TaggedScalar

/-!
# Reading a document

A text is cut into tokens, the tokens are put together to a node, and the scalars of the node are
typed: a quoted scalar is a text, a plain one is what its spelling says, and a tagged one what its
tag says. Only scalars can be keys. A plain equals sign is a key and never a value, and the merging
key is neither. Of several faults in the scalars and keys of a document, the one nearest to its root
is reported, and of those the first. A text with bytes, sets, ordered fields or lists of pairs, or
with a node inside itself, is refused, although it spells a document: there are no such values here.

Main results:

- Definition `Node.faults`: the faults of the scalars and keys of a node, level by level.
- Definition `Value.ofText`: the document that a text spells.
- Theorem `Node.document_eq_ok_iff`: a node without faults is a document.
-/

namespace ImemReplay
namespace Document

/-- The sign that can only be a key. -/
def equalsSign : String := "="

namespace Node

/-- The scalar of a spelling that is no key. -/
def scalarOf (text : String) (style : Style) : Except Fault Scalar :=
  match style with
  | .plain =>
    if text = equalsSign ∨ text = mergeSign then .error .malformed else Scalar.ofPlain text
  | .quoted => .ok (.text text)
  | .tagged tag => Scalar.ofTagged tag text

/-- Whether a scalar is a key that stands for the value itself. -/
def isEquals (text : String) (style : Style) : Bool :=
  (style = .plain && text = equalsSign) || style = .tagged .equals

/-- The key that a node stands for. -/
def keyOf : Node → Except Fault Scalar
  | .scalar text style => if isEquals text style then .ok (.text text) else scalarOf text style
  | _ => .error .malformed

/-- The fault of a reading, if there is one. -/
def faultOf {α : Type} : Except Fault α → List Fault
  | .ok _ => []
  | .error fault => [fault]

/-- Puts two sequences of levels beside each other. -/
def beside (front back : List (List Fault)) : List (List Fault) :=
  match front, back with
  | [], back => back
  | front, [] => front
  | level :: front, other :: back => (level ++ other) :: beside front back

mutual

/-- The faults of the scalars and keys of a node, level by level. -/
def faults : Node → List (List Fault)
  | .scalar text style => [faultOf (scalarOf text style)]
  | .list items => [] :: faultsOfItems items
  | .fields entries => [] :: faultsOfEntries entries
  | .unfilled => [[], [.malformed]]
termination_by structural node => node

/-- The faults of nodes. -/
def faultsOfItems : List Node → List (List Fault)
  | [] => []
  | node :: nodes => beside node.faults (faultsOfItems nodes)
termination_by structural nodes => nodes

/-- The faults of entries. -/
def faultsOfEntries : List (Node × Node) → List (List Fault)
  | [] => []
  | entry :: entries => beside (faultsOfEntry entry) (faultsOfEntries entries)
termination_by structural entries => entries

/-- The faults of an entry, those of its key first. -/
def faultsOfEntry : Node × Node → List (List Fault)
  | (key, value) => beside [faultOf (keyOf key)] value.faults
termination_by structural entry => entry

end

mutual

/-- The document of a node; what is faulty in it counts as nothing. -/
def toValue : Node → Value
  | .scalar text style => .scalar ((scalarOf text style).toOption.getD .null)
  | .list items => .list (toValues items)
  | .fields entries => .fields (toFields entries [])
  | .unfilled => .null
termination_by structural node => node

/-- The documents of nodes. -/
def toValues : List Node → List Value
  | [] => []
  | node :: nodes => node.toValue :: toValues nodes
termination_by structural nodes => nodes

/-- The fields of entries, added to the fields of the entries in front of them. -/
def toFields : List (Node × Node) → Fields → Fields
  | [], done => done
  | entry :: entries, done =>
    toFields entries (done.insertField (toField entry).1 (toField entry).2)
termination_by structural entries => entries

/-- The field of an entry. -/
def toField : Node × Node → Scalar × Value
  | (key, value) => ((keyOf key).toOption.getD .null, value.toValue)
termination_by structural entry => entry

end

/-- The document of a node without faults. -/
def document (node : Node) : Except Fault Value :=
  match node.faults.flatten with
  | [] => .ok node.toValue
  | fault :: _ => .error fault

theorem document_eq_ok_iff {node : Node} {value : Value} :
    node.document = .ok value ↔ node.faults.flatten = [] ∧ node.toValue = value := by
  simp only [document]
  split
  · next h => simp [h]
  · next h => simp [h]

end Node

end Document

/-- Line ends of every kind are line feeds. -/
def unixLines : List Char → List Char
  | '\r' :: '\n' :: cs => '\n' :: unixLines cs
  | '\r' :: cs => '\n' :: unixLines cs
  | c :: cs => c :: unixLines cs
  | [] => []

/-- The document that a text spells; a text without a document is nothing. -/
def Value.ofText (text : String) : Except Fault Value := do
  match ← Document.Node.ofTokens? (Document.Token.ofText (unixLines text.toList)) with
  | some node => node.document
  | none => return .null

end ImemReplay
