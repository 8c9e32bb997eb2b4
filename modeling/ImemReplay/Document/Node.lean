import ImemReplay.Document.Lexer

/-!
# Nodes of a document

The tokens of a text are put together to a node: a scalar with its spelling, a list, or fields.
Keys are nodes too at this stage, and fields may repeat a key. A node may get a name, under which it
stands again wherever the name does, and a tag that says how it is to be read. No token is looked at
before it is needed, so of a fault in the grammar and a fault of the text the first to be met is
reported.

Fields may take in others: what stands under the merging key is replaced by its own fields, which
come in front of all others and give way to them.

Main results:

- Definition `Node.ofEntries`: the fields of entries, of which some may take in others.
- Theorem `Node.ofEntries_of_none`: entries without a merging key are the fields themselves.
- Definition `Supply.faultAt`: the fault where the tokens do not go on as they should.
- Definition `Node.ofTokens?`: the node of a document, if there is one.
-/

namespace ImemReplay
namespace Document

/-- How the spelling of a scalar is to be read. -/
inductive Style where
  /-- By what the spelling looks like. -/
  | plain
  /-- As the text that it is. -/
  | quoted
  /-- As a tag says. -/
  | tagged (tag : Tag)
deriving DecidableEq, Repr, Inhabited

/-- A document whose scalars are not typed yet. -/
inductive Node where
  | scalar (text : String) (style : Style)
  | list (items : List Node)
  | fields (entries : List (Node × Node))
  /-- A list or fields with parts that cannot be put into it. -/
  | unfilled
deriving Repr, Inhabited

namespace Node

/-- What stands where nothing is written. -/
def empty : Node := scalar "" .plain

/-- The key under which fields are taken in. -/
def mergeSign : String := "<<"

/-- Whether a key takes in fields. -/
def isMerge : Node → Bool
  | scalar text .plain => text = mergeSign
  | scalar _ (.tagged .merge) => true
  | _ => false

/-- The entries of fields. -/
def entries? : Node → Option (List (Node × Node))
  | fields entries => some entries
  | _ => none

/-- The entries that a node gives to the fields that take it in. Of a list of fields the last come
first, so that they give way to those in front of them. -/
def givenEntries? : Node → Option (List (Node × Node))
  | list items => (items.reverse.mapM entries?).map List.flatten
  | node => node.entries?

/-- The fields of entries. -/
def ofEntries (entries : List (Node × Node)) : Node :=
  match (entries.filter fun entry => entry.1.isMerge).mapM fun entry => entry.2.givenEntries? with
  | some given => fields (given.flatten ++ entries.filter fun entry => !entry.1.isMerge)
  | none => unfilled

theorem ofEntries_of_none {entries : List (Node × Node)}
    (h : ∀ entry ∈ entries, entry.1.isMerge = false) : ofEntries entries = fields entries := by
  have hmerge : (entries.filter fun entry => entry.1.isMerge) = [] :=
    List.filter_eq_nil_iff.2 fun entry hentry => by simp [h entry hentry]
  have hother : (entries.filter fun entry => !entry.1.isMerge) = entries :=
    List.filter_eq_self.2 fun entry hentry => by simp [h entry hentry]
  simp [ofEntries, hmerge, hother]

/-- The node of a scalar with a tag, or with none. No scalar is read as a list or as fields. -/
def ofScalar (tag? : Option String) (text : String) (plain : Bool) : Node :=
  match tag? with
  | none => scalar text (if plain then .plain else .quoted)
  | some name =>
    if name = TagMark.alone then scalar text .plain
    else if (Tag.ofName name).isCollection then unfilled
    else scalar text (.tagged (.ofName name))

/-- The node of a list or of fields with a tag, or with none. No list is read as fields, no fields
as a list, and neither as a scalar. -/
def ofCollection (kind : Tag) (tag? : Option String) (node : Node) : Node :=
  match tag? with
  | none => node
  | some name =>
    if name = TagMark.alone ∨ Tag.ofName name = kind then node
    else if (Tag.ofName name).isCollection then unfilled
    else scalar "" (.tagged .other)

end Node

/-- What a node is read from. -/
structure Supply where
  tokens : List Token
  /-- The handles of tags, with what they stand for. -/
  handles : List (String × String) := TagMark.commonHandles
  /-- The names of nodes so far; a node that has not been read to its end is missing. -/
  names : List (String × Option Node) := []
deriving Repr

namespace Supply

/-- The fault where tokens do not go on as the grammar needs. -/
def faultAt : List Token → Fault
  | .fault cause :: _ => cause
  | _ => .malformed

end Supply

/-- A step of reading a node. -/
abbrev Assembly := StateT Supply (Except Fault)

namespace Assembly

/-- The tokens that have not been read. -/
def tokens : Assembly (List Token) := return (← get).tokens

/-- Goes on with the tokens behind the first one. -/
def skip : Assembly Unit :=
  modify fun supply => { supply with tokens := supply.tokens.drop 1 }

/-- The tokens do not go on as the grammar needs. -/
def refuse {α : Type} : Assembly α := do throw (Supply.faultAt (← tokens))

/-- Takes a name for the node that follows. No two nodes have one name. -/
def announce (name? : Option String) : Assembly Unit :=
  match name? with
  | none => return
  | some name => do
    let supply ← get
    if (supply.names.lookup name).isSome then throw .malformed
    set { supply with names := (name, none) :: supply.names }

/-- Gives a node that has been read its name. -/
def settle (name? : Option String) (node : Node) : Assembly Node := do
  match name? with
  | none => return node
  | some name =>
    modify fun supply => { supply with names := (name, some node) :: supply.names }
    return node

/-- The node of a name. A node cannot stand inside itself. -/
def named (name : String) : Assembly Node := do
  match (← get).names.lookup name with
  | some (some node) => return node
  | _ => throw .malformed

/-- The name in front of a node, if there is one. -/
def anchor? : Assembly (Option String) := do
  match ← tokens with
  | .anchor name :: _ =>
    skip
    return some name
  | _ => return none

/-- The mark of a tag in front of a node, if there is one. -/
def tagMark? : Assembly (Option TagMark) := do
  match ← tokens with
  | .tag mark :: _ =>
    skip
    return some mark
  | _ => return none

/-- The name and the tag in front of a node, in any order. -/
def properties : Assembly (Option String × Option String) := do
  let (name?, mark?) ←
    match ← anchor? with
    | some name => pure (some name, ← tagMark?)
    | none =>
      match ← tagMark? with
      | some mark => pure (← anchor?, some mark)
      | none => pure (none, none)
  match mark? with
  | none => return (name?, none)
  | some mark =>
    match mark.fullName? (← get).handles with
    | some tag => return (name?, some tag)
    | none => throw .malformed

end Assembly

namespace Node

open Assembly

/-- Whether a token ends a list item without a node. -/
def endsItem : List Token → Bool
  | .itemMark :: _ => true
  | .blockEnd :: _ => true
  | _ => false

/-- Whether a token ends an item of a list that stands at the column of its key. -/
def endsPlainItem : List Token → Bool
  | .itemMark :: _ => true
  | .key :: _ => true
  | .value :: _ => true
  | .blockEnd :: _ => true
  | _ => false

/-- Whether a token ends a key or a value outside brackets. -/
def endsField : List Token → Bool
  | .key :: _ => true
  | .value :: _ => true
  | .blockEnd :: _ => true
  | _ => false

/-- Whether a token ends the key of a pair inside a bracketed list. -/
def endsPairKey : List Token → Bool
  | .value :: _ => true
  | .comma :: _ => true
  | .flowListEnd :: _ => true
  | _ => false

/-- Whether a token ends the value of a pair inside a bracketed list. -/
def endsPairValue : List Token → Bool
  | .comma :: _ => true
  | .flowListEnd :: _ => true
  | _ => false

/-- Whether a token ends a key inside bracketed fields. -/
def endsFlowKey : List Token → Bool
  | .value :: _ => true
  | .comma :: _ => true
  | .flowFieldsEnd :: _ => true
  | _ => false

/-- Whether a token ends a value inside bracketed fields. -/
def endsFlowValue : List Token → Bool
  | .comma :: _ => true
  | .flowFieldsEnd :: _ => true
  | _ => false

/-- Whether a token ends a document where it starts. -/
def endsDocument : List Token → Bool
  | .directive _ :: _ => true
  | .documentStart :: _ => true
  | .documentEnd :: _ => true
  | [] => true
  | _ => false

/-- The comma in front of every bracketed item but the first. -/
def parted (first : Bool) : Assembly Unit := do
  if !first then
    match ← tokens with
    | .comma :: _ => skip
    | _ => refuse

mutual

/-- The node at the beginning of the tokens. Outside brackets, `block` admits lists and fields laid
out by columns, and `atKey` a list at the column of its key. The levels from this node on are at
most `levels`. -/
def read (fuel levels : Nat) (block atKey : Bool) : Assembly Node :=
  match fuel, levels with
  | 0, _ => throw .malformed
  | _, 0 => throw .nesting
  | fuel + 1, levels + 1 => do
    match ← tokens with
    | .alias name :: _ =>
      skip
      named name
    | _ =>
      let (name?, tag?) ← properties
      match ← tokens with
      | .scalar text plain :: _ =>
        skip
        announce name?
        settle name? (ofScalar tag? text plain)
      | .flowListStart :: _ =>
        skip
        announce name?
        settle name? (ofCollection .list tag? (list (← readFlowItems fuel levels true)))
      | .flowFieldsStart :: _ =>
        skip
        announce name?
        settle name? (ofCollection .fields tag? (ofEntries (← readFlowFields fuel levels true)))
      | .itemMark :: _ =>
        if atKey then
          announce name?
          settle name? (ofCollection .list tag? (list (← readItemsAtKey fuel levels)))
        else blank name? tag?
      | .blockListStart :: _ =>
        if block then
          skip
          announce name?
          settle name? (ofCollection .list tag? (list (← readItems fuel levels)))
        else blank name? tag?
      | .blockFieldsStart :: _ =>
        if block then
          skip
          announce name?
          settle name? (ofCollection .fields tag? (ofEntries (← readFields fuel levels)))
        else blank name? tag?
      | _ => blank name? tag?
where
  /-- A name or a tag without a node behind it belongs to an empty scalar. -/
  blank (name? tag? : Option String) : Assembly Node := do
    if name?.isNone && tag?.isNone then refuse
    else
      announce name?
      settle name? (ofScalar tag? "" true)

/-- The node at the beginning of the tokens, or the empty one where nothing is written. -/
def readUnless (fuel levels : Nat) (ends : List Token → Bool) (block atKey : Bool) :
    Assembly Node :=
  match fuel with
  | 0 => throw .malformed
  | fuel + 1 => do if ends (← tokens) then return empty else read fuel levels block atKey

/-- The items of a list up to its end. -/
def readItems (fuel levels : Nat) : Assembly (List Node) :=
  match fuel with
  | 0 => throw .malformed
  | fuel + 1 => do
    match ← tokens with
    | .itemMark :: _ =>
      skip
      let item ← readUnless fuel levels endsItem true false
      return item :: (← readItems fuel levels)
    | .blockEnd :: _ =>
      skip
      return []
    | _ => refuse

/-- The items of a list at the column of its key. -/
def readItemsAtKey (fuel levels : Nat) : Assembly (List Node) :=
  match fuel with
  | 0 => throw .malformed
  | fuel + 1 => do
    match ← tokens with
    | .itemMark :: _ =>
      skip
      let item ← readUnless fuel levels endsPlainItem true false
      return item :: (← readItemsAtKey fuel levels)
    | _ => return []

/-- The value of a key; without a mark of a value it is empty. -/
def readValue (fuel levels : Nat) (ends : List Token → Bool) (block : Bool) : Assembly Node :=
  match fuel with
  | 0 => throw .malformed
  | fuel + 1 => do
    match ← tokens with
    | .value :: _ =>
      skip
      readUnless fuel levels ends block block
    | _ => return empty

/-- The fields up to their end. -/
def readFields (fuel levels : Nat) : Assembly (List (Node × Node)) :=
  match fuel with
  | 0 => throw .malformed
  | fuel + 1 => do
    match ← tokens with
    | .key :: _ =>
      skip
      let key ← readUnless fuel levels endsField true true
      let value ← readValue fuel levels endsField true
      return (key, value) :: (← readFields fuel levels)
    | .blockEnd :: _ =>
      skip
      return []
    | _ => refuse

/-- The items of a bracketed list up to its bracket; `first` is set in front of the first. -/
def readFlowItems (fuel levels : Nat) (first : Bool) : Assembly (List Node) :=
  match fuel with
  | 0 => throw .malformed
  | fuel + 1 => do
    match ← tokens with
    | .flowListEnd :: _ =>
      skip
      return []
    | _ =>
      parted first
      match ← tokens with
      | .key :: _ =>
        -- A pair inside a list stands for fields with one entry, which are a level of their own.
        skip
        let key ← readUnless fuel (levels - 1) endsPairKey false false
        let value ← readValue fuel (levels - 1) endsPairValue false
        return ofEntries [(key, value)] :: (← readFlowItems fuel levels false)
      | .flowListEnd :: _ =>
        skip
        return []
      | _ =>
        let item ← read fuel levels false false
        return item :: (← readFlowItems fuel levels false)

/-- The fields of bracketed fields up to their bracket; `first` is set in front of the first. -/
def readFlowFields (fuel levels : Nat) (first : Bool) : Assembly (List (Node × Node)) :=
  match fuel with
  | 0 => throw .malformed
  | fuel + 1 => do
    match ← tokens with
    | .flowFieldsEnd :: _ =>
      skip
      return []
    | _ =>
      parted first
      match ← tokens with
      | .key :: _ =>
        skip
        let key ← readUnless fuel levels endsFlowKey false false
        let value ← readValue fuel levels endsFlowValue false
        return (key, value) :: (← readFlowFields fuel levels false)
      | .flowFieldsEnd :: _ =>
        skip
        return []
      | _ =>
        let key ← read fuel levels false false
        return (key, empty) :: (← readFlowFields fuel levels false)

end

/-- The levels of a document that are followed. -/
def levelLimit : Nat := 489

/-- Reads the directives in front of a document; `said` is what is known in front of them. -/
def readDirectives (fuel : Nat) (said : Preamble) : Assembly Preamble :=
  match fuel with
  | 0 => throw .malformed
  | fuel + 1 => do
    match ← tokens with
    | .directive directive :: _ =>
      skip
      readDirectives fuel (← said.add directive)
    | _ => return said

/-- Reads up to the mark of a document, with the directives in front of it. -/
def readStart (fuel : Nat) : Assembly Unit := do
  let said ← readDirectives fuel {}
  match ← tokens with
  | .documentStart :: _ =>
    skip
    modify fun supply => { supply with handles := said.allHandles }
  | _ => refuse

/-- Reads up to the end of the text, where nothing but ends of documents may stand. Directives are
read before the document that they announce is refused. -/
def readEnd (fuel : Nat) : Assembly Unit := do
  modify fun supply =>
    { supply with tokens := supply.tokens.dropWhile (· = Token.documentEnd) }
  if !(← tokens).isEmpty then
    readStart fuel
    throw .malformed

/-- Reads the only document, or nothing if there is none. -/
def readDocument? (fuel : Nat) : Assembly (Option Node) := do
  let node ←
    match ← tokens with
    | [] => return none
    | .directive _ :: _ | .documentStart :: _ =>
      readStart fuel
      readUnless fuel levelLimit endsDocument true false
    | _ => read fuel levelLimit true false
  readEnd fuel
  return some node

/-- The node of the only document in some tokens, or nothing if there is no document. -/
def ofTokens? (tokens : List Token) : Except Fault (Option Node) :=
  (readDocument? (5 * tokens.length + 5)).run' { tokens }

end Node
end Document
end ImemReplay
