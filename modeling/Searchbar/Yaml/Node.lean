import Searchbar.Yaml.Outline

/-!
# Documents of YAML

A **node** is a scalar, a sequence, a mapping, or an alias for another node. The nodes of a document
are read from its tokens. A text that has no document stands for an empty plain scalar, as a document
without content does.

An alias is kept by number and looked up when the whole document is known. The number of an anchor is
how many names were in use as anchors when it was met, and of the anchors with one number the last
one counts. As long as no name is used twice, every anchor has a number of its own.

* `Document.ofText?` is the document of a text that has at most one.
* `Document.follow?` is the node that a node of the document stands for.
-/

namespace Searchbar.Yaml

/-- **A node.** A scalar has its text, its style and its tag. -/
inductive Node where
  | scalar (text : String) (style : Style) (tag : Option TagBytes)
  | sequence (items : List Node)
  | mapping (entries : List (Node × Node))
  | aliasOf (number : Nat)

/-- The node where the text has none. -/
def Node.blank : Node := .scalar "" .plain none

/-- **The anchors of a document**: the number of each name, the place of each number among all
anchors, and the nodes at those places. -/
structure Anchors where
  names : List (String × Nat) := []
  places : List (Nat × Nat) := []
  nodes : List (Nat × Node) := []

namespace Anchors

/-- One more anchor. Its place is how many anchors came before it. -/
def add (a : Anchors) (name : String) : Anchors :=
  let number := a.names.length
  { a with
    names := (name, number) :: a.names.filter fun e => e.1 ≠ name
    places := (number, a.places.length) :: a.places }

/-- The node at a place. -/
def put (a : Anchors) (place : Nat) (n : Node) : Anchors :=
  { a with nodes := (place, n) :: a.nodes }

/-- The node that a number stands for. -/
def get? (a : Anchors) (number : Nat) : Option Node :=
  (a.places.lookup number).bind fun place => a.nodes.lookup place

end Anchors

/-- What is needed to read a node: the tokens ahead, and the anchors behind. -/
structure Reading where
  tokens : List Token
  anchors : Anchors := {}
  /-- What the handles of tags stand for. -/
  handles : List (String × TagBytes)

/-- A reader, which may fail. -/
abbrev Reader (α : Type) := StateT Reading Option α

namespace Reader

/-- The next token, which stays. -/
def peek : Reader (Option Token) := return (← get).tokens.head?

/-- Whether the next token is one of those given. The end of the text counts as none of them. -/
def sees (ts : List Token) : Reader Bool := return (← peek).any ts.contains

/-- Past the next token. -/
def skip : Reader Unit := modify fun r => { r with tokens := r.tokens.drop 1 }

/-- Past the given token if it is next. -/
def accept (t : Token) : Reader Bool := do
  if ← sees [t] then skip; return true
  else return false

/-- Past the given token, which has to be next. -/
def expect (t : Token) : Reader Unit := do
  if !(← accept t) then failure

/-! ### Properties -/

/-- The full form of a tag. -/
def resolveTag (handle : String) (suffix : TagBytes) : Reader TagBytes := do
  if handle.isEmpty then return suffix
  else
    match (← get).handles.lookup handle with
    | some start => return start ++ suffix
    | none => failure

/-- The anchor before a node, if there is one. -/
def anchor : Reader (Option String) := do
  match ← peek with
  | some (.anchor name) => skip; return some name
  | _ => return none

/-- The tag before a node, if there is one. -/
def tag : Reader (Option TagBytes) := do
  match ← peek with
  | some (.tag handle suffix) => skip; return some (← resolveTag handle suffix)
  | _ => return none

/-- The anchor and the tag before a node, in either order. -/
def properties : Reader (Option String × Option TagBytes) := do
  match ← anchor with
  | some a => return (some a, ← tag)
  | none =>
    let t ← tag
    if t.isSome then return (← anchor, t) else return (none, none)

/-- A node with an anchor in front of it, if there is one. The anchor is known inside the node. -/
def anchored (name : Option String) (read : Reader Node) : Reader Node :=
  match name with
  | none => read
  | some name => do
    let place := (← get).anchors.places.length
    modify fun r => { r with anchors := r.anchors.add name }
    let n ← read
    modify fun r => { r with anchors := r.anchors.put place n }
    return n

/-- An alias for an anchor that is known. -/
def aliasOf (name : String) : Reader Node := do
  match (← get).anchors.names.lookup name with
  | some number => return .aliasOf number
  | none => failure

/-! ### Nodes -/

mutual

/-- **A node.** A block may be one only if `block` is set, and a sequence without indentation of its
own only if `indentless` is. -/
def node : (fuel : Nat) → (block indentless : Bool) → Reader Node
  | 0, _, _ => failure
  | fuel + 1, block, indentless => do
    if let some (.aliasOf name) ← peek then
      skip
      aliasOf name
    else
      let (a, t) ← properties
      anchored a do
        match ← peek with
        | some (.scalar text style) =>
          skip
          return .scalar text style t
        | next =>
          if indentless && next = some .blockEntry then .sequence <$> indentlessItems fuel
          else if next = some .openSequence then do skip; .sequence <$> flowItems fuel true
          else if next = some .openMapping then do skip; .mapping <$> flowEntries fuel true
          else if block && next = some .blockSequence then do skip; .sequence <$> blockItems fuel
          else if block && next = some .blockMapping then do skip; .mapping <$> blockEntries fuel
          else if a.isSome || t.isSome then return .scalar "" .plain t
          else failure

/-- A node, or a blank one if a token comes first that cannot start it. -/
def nodeUnless : (fuel : Nat) → (ends : List Token) → (block indentless : Bool) → Reader Node
  | 0, _, _, _ => failure
  | fuel + 1, ends, block, indentless => do
    if ← sees ends then return .blank else node fuel block indentless

/-- The items of a block sequence. -/
def blockItems : (fuel : Nat) → Reader (List Node)
  | 0 => failure
  | fuel + 1 => do
    if ← accept .blockEntry then
      let item ← nodeUnless fuel [.blockEntry, .blockEnd] true false
      return item :: (← blockItems fuel)
    else
      expect .blockEnd
      return []

/-- The items of a sequence that is not indented further than the mapping it stands in. -/
def indentlessItems : (fuel : Nat) → Reader (List Node)
  | 0 => failure
  | fuel + 1 => do
    if ← accept .blockEntry then
      let item ← nodeUnless fuel [.blockEntry, .key, .value, .blockEnd] true false
      return item :: (← indentlessItems fuel)
    else return []

/-- The value behind a key in a block, blank if there is none. -/
def blockValue : (fuel : Nat) → Reader Node
  | 0 => failure
  | fuel + 1 => do
    if ← accept .value then nodeUnless fuel [.key, .value, .blockEnd] true true
    else return .blank

/-- The entries of a block mapping. -/
def blockEntries : (fuel : Nat) → Reader (List (Node × Node))
  | 0 => failure
  | fuel + 1 => do
    if ← accept .key then
      let k ← nodeUnless fuel [.key, .value, .blockEnd] true true
      let v ← blockValue fuel
      return (k, v) :: (← blockEntries fuel)
    else
      expect .blockEnd
      return []

/-- The items of a sequence in brackets. An item may be a single entry of a mapping. -/
def flowItems : (fuel : Nat) → (first : Bool) → Reader (List Node)
  | 0, _ => failure
  | fuel + 1, first => do
    if ← accept .closeSequence then return []
    else
      if !first then expect .flowEntry
      if ← accept .closeSequence then return []
      else if ← accept .key then
        let k ← nodeUnless fuel [.value, .flowEntry, .closeSequence] false false
        let v ←
          if ← accept .value then nodeUnless fuel [.flowEntry, .closeSequence] false false
          else pure .blank
        return .mapping [(k, v)] :: (← flowItems fuel false)
      else
        let item ← node fuel false false
        return item :: (← flowItems fuel false)

/-- The entries of a mapping in brackets. -/
def flowEntries : (fuel : Nat) → (first : Bool) → Reader (List (Node × Node))
  | 0, _ => failure
  | fuel + 1, first => do
    if ← accept .closeMapping then return []
    else
      if !first then expect .flowEntry
      if ← accept .closeMapping then return []
      else if ← accept .key then
        let k ← nodeUnless fuel [.value, .flowEntry, .closeMapping] false false
        let v ←
          if ← accept .value then nodeUnless fuel [.flowEntry, .closeMapping] false false
          else pure .blank
        return (k, v) :: (← flowEntries fuel false)
      else
        let k ← node fuel false false
        return (k, .blank) :: (← flowEntries fuel false)

end

/-! ### Documents -/

/-- The directives before a document: at most one version, which has to be 1.1 or 1.2, and handles,
each at most once. -/
def directives : (fuel : Nat) → (version : Bool) → (handles : List (String × TagBytes)) →
    Reader (List (String × TagBytes))
  | 0, _, _ => failure
  | fuel + 1, version, handles => do
    match ← peek with
    | some (.version major minor) =>
      if version || major ≠ 1 || (minor ≠ 1 && minor ≠ 2) then failure
      else
        skip
        directives fuel true handles
    | some (.tagHandle handle start) =>
      if (handles.lookup handle).isSome then failure
      else
        skip
        directives fuel version ((handle, start) :: handles)
    | _ => return handles

/-- Whether the next token starts a document with a mark. -/
def seesExplicit : Reader Bool := do
  match ← peek with
  | some (.version _ _) => return true
  | some (.tagHandle _ _) => return true
  | some .documentStart => return true
  | _ => return false

/-- Whether the document ends here. -/
def seesDocumentEnd : Reader Bool := do
  match ← peek with
  | none => return true
  | some .documentEnd => return true
  | _ => seesExplicit

/-- The root of the document. -/
def root (fuel : Nat) : Reader Node := do
  if ← seesExplicit then
    let handles ← directives fuel false []
    modify fun r => { r with handles := handles ++ r.handles }
    expect .documentStart
    if ← seesDocumentEnd then return .blank else node fuel true false
  else if (← peek).isNone then return .blank
  else node fuel true false

end Reader

/-- What the handles of tags stand for unless a directive says otherwise. -/
def defaultHandles : List (String × TagBytes) :=
  [("!", .ofText "!"), ("!!", .ofText "tag:yaml.org,2002:")]

/-- **A document**: its root, and the nodes that aliases stand for. -/
structure Document where
  root : Node
  anchors : Anchors

namespace Node

mutual

/-- **How many marks a node takes up** where it is written: one for a scalar or an alias, and two
around a sequence or a mapping. -/
def marks : Node → Nat
  | scalar _ _ _ => 1
  | sequence items => 2 + marksOfItems items
  | mapping entries => 2 + marksOfEntries entries
  | aliasOf _ => 1

def marksOfItems : List Node → Nat
  | [] => 0
  | item :: rest => item.marks + marksOfItems rest

def marksOfEntries : List (Node × Node) → Nat
  | [] => 0
  | (key, value) :: rest => key.marks + value.marks + marksOfEntries rest

end

end Node

namespace Document

/-- The node that a node stands for. No alias has an anchor, so an alias stands for no alias. -/
def follow? (d : Document) : Node → Option Node
  | .aliasOf number => d.anchors.get? number
  | n => some n

/-- How many aliases are followed when everything in a node is read, down to the given depth. -/
def jumps (d : Document) : (depth : Nat) → Node → Nat
  | 0, _ => 0
  | depth + 1, n =>
    let inside : Node → Nat
      | .sequence items => (items.map (d.jumps depth)).sum
      | .mapping entries => (entries.map fun e => d.jumps depth e.1 + d.jumps depth e.2).sum
      | _ => 0
    match n with
    | .aliasOf number => 1 + ((d.anchors.get? number).map inside).getD 0
    | n => inside n

/-- Whether a document that is nested at most to the given depth, aliases included, can be read
without following aliases more than a hundred times as often as there are marks in it. -/
def isModest (d : Document) (depth : Nat) : Bool := d.jumps depth d.root ≤ 100 * d.root.marks

/-- **The document of a list of tokens** that has at most one. A node takes at most three calls per
token, which bounds the fuel. -/
def ofTokens? (ts : List Token) : Option Document := do
  let (n, r) ← (Reader.root (3 * ts.length + 3)).run { tokens := ts, handles := defaultHandles }
  if (r.tokens.dropWhile (· == .documentEnd)).isEmpty then return ⟨n, r.anchors⟩ else none

/-- **The document of a text** that has at most one. -/
def ofText? (text : String) : Option Document := (tokens? text).bind ofTokens?

end Document

end Searchbar.Yaml
