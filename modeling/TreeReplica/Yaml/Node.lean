/-
A document as a graph of nodes. A node has a tag and is a text, a list of
nodes, or a list of pairs of nodes. Nodes are numbered in the order in
which they begin, and an alias is the number of the node that its anchor
names, so a node can stand in several places and even inside itself.

`Node.ofTokens` reads the graph of the one document of a text. It takes
tokens only as far as it needs them: a fault in the tokens counts when
the structure asks for a token beyond it.
-/
import TreeReplica.Yaml.Tag
import TreeReplica.Yaml.Token

namespace TreeReplica.Yaml

-- =============================================================== nodes

/-- What a node holds. -/
inductive Content
  | scalar (text : String)
  | sequence (items : List Nat)
  | mapping (items : List (Nat × Nat))
  deriving DecidableEq, Repr, Inhabited

/-- The kind of a content. -/
def Content.shape : Content → Shape
  | .scalar _ => .scalar
  | .sequence _ => .sequence
  | .mapping _ => .mapping

/-- A node. -/
structure Node where
  tag : Tag
  content : Content
  deriving DecidableEq, Repr, Inhabited

/-- The empty node. -/
def Node.empty : Node := ⟨.null, .scalar ""⟩

/-- Nodes by their numbers. -/
abbrev Graph := Array Node

/-- The node with a number. -/
def Graph.node (g : Graph) (n : Nat) : Node := g[n]?.getD .empty

-- ========================================================= composition

/-- What is known while a document is read: the tokens that are left and
the fault after them, the handles of tags, the named nodes and all nodes
so far. -/
structure Composition where
  tokens : List Token
  fault : Option Fault
  handles : List (String × String) := []
  anchors : List (String × Nat) := []
  graph : Graph := #[]
  deriving Inhabited

/-- A step of reading a document. -/
abbrev Composer (α : Type) : Type := StateT Composition (Except Fault) α

namespace Composer

/-- Refuse the structure. -/
def refuse {α : Type} (e : GrammarFault) : Composer α :=
  throw (.grammar e)

/-- The next token. -/
def next : Composer Token := do
  let s ← get
  match s.tokens, s.fault with
  | t :: _, _ => return t
  | [], some e => throw e
  | [], none => return .streamEnd

/-- Pass over the next token. -/
def drop : Composer Unit :=
  modify fun s => { s with tokens := s.tokens.drop 1 }

/-- Is the next token one of these? -/
def nextIsIn (ts : List Token) : Composer Bool :=
  return ts.contains (← next)

/-- Add a node, and give it a name. A name is given once. -/
def add (anchor : Option String) (node : Node) : Composer Nat := do
  let s ← get
  let n := s.graph.size
  match anchor with
  | some name =>
      if (s.anchors.lookup name).isSome then
        throw (.anchor (.repeated name))
      set { s with
        graph := s.graph.push node, anchors := (name, n) :: s.anchors }
  | none => set { s with graph := s.graph.push node }
  return n

/-- Add an empty node. -/
def addEmpty : Composer Nat := add none .empty

/-- Say what a node holds. -/
def fill (n : Nat) (content : Content) : Composer Unit :=
  modify fun s =>
    { s with graph := s.graph.modify n fun node => { node with content } }

-- ========================================================== properties

/-- The text of a tag, its handle replaced. -/
def tagText (handle : Option String) (suffix : String) :
    Composer String := do
  match handle with
  | none => return suffix
  | some handle =>
      match (← get).handles.lookup handle with
      | some start => return start ++ suffix
      | none => refuse .unknownHandle

/-- The anchor and the tag of a node, in either order. -/
def properties : Composer (Option String × Option String) := do
  match ← next with
  | .anchor name =>
      drop
      match ← next with
      | .tag handle suffix =>
          drop
          return (some name, some (← tagText handle suffix))
      | _ => return (some name, none)
  | .tag handle suffix =>
      drop
      let anchor ← match ← next with
        | .anchor name =>
            drop
            pure (some name)
        | _ => pure none
      return (anchor, some (← tagText handle suffix))
  | _ => return (none, none)

/-- The tag of a node with an optional tag text. A lone exclamation mark
is no tag. -/
def tagOr (default : Tag) : Option String → Tag
  | none => default
  | some "!" => default
  | some text => .ofText text

/-- The tag of a scalar. Only a plain one, or one with a lone exclamation
mark, has a tag that its text decides. -/
def scalarTag (tag : Option String) (text : String) (plain : Bool) : Tag :=
  if plain || tag = some "!" then tagOr (.ofPlain text) tag
  else tagOr .text tag

-- =============================================================== nodes

/-- Where a node stands. -/
inductive Position
  | flow
  | block
  /-- In a block mapping, where a sequence needs no indentation. -/
  | entry
  deriving DecidableEq, Repr, Inhabited

mutual

/-- Read a node. The first argument of this and the following bounds the
depth of the reading; each level of it takes a token. -/
def node : Nat → Position → Composer Nat
  | 0, _ => addEmpty
  | bound + 1, position => do
      if let .alias name ← next then
        drop
        match (← get).anchors.lookup name with
        | some n => return n
        | none => throw (.anchor (.unknown name))
      let (anchor, tag) ← properties
      let inBlock := position ≠ .flow
      match ← next with
      | .scalar text plain =>
          drop
          add anchor ⟨scalarTag tag text plain, .scalar text⟩
      | .flowSequenceStart =>
          let n ← add anchor ⟨tagOr .sequence tag, .sequence []⟩
          drop
          fill n (.sequence (← flowItems bound true))
          return n
      | .flowMappingStart =>
          let n ← add anchor ⟨tagOr .mapping tag, .mapping []⟩
          drop
          fill n (.mapping (← flowPairs bound true))
          return n
      | t =>
          if t = .blockEntry && position = .entry then
            let n ← add anchor ⟨tagOr .sequence tag, .sequence []⟩
            fill n (.sequence (← looseItems bound))
            return n
          else if t = .blockSequenceStart && inBlock then
            let n ← add anchor ⟨tagOr .sequence tag, .sequence []⟩
            drop
            fill n (.sequence (← blockItems bound))
            return n
          else if t = .blockMappingStart && inBlock then
            let n ← add anchor ⟨tagOr .mapping tag, .mapping []⟩
            drop
            fill n (.mapping (← blockPairs bound))
            return n
          else if anchor.isSome || tag.isSome then
            add anchor ⟨tagOr .null tag, .scalar ""⟩
          else refuse (if inBlock then .blockNode else .flowNode)

/-- A node, or an empty one before one of some tokens. -/
def nodeUnless : Nat → Position → List Token → Composer Nat
  | 0, _, _ => addEmpty
  | bound + 1, position, ends => do
      if ← nextIsIn ends then addEmpty else node bound position

/-- The value after a colon, or an empty one. -/
def valueUnless : Nat → Position → List Token → Composer Nat
  | 0, _, _ => addEmpty
  | bound + 1, position, ends => do
      if (← next) = .value then
        drop
        nodeUnless bound position ends
      else addEmpty

/-- The entries of a block sequence. -/
def blockItems : Nat → Composer (List Nat)
  | 0 => return []
  | bound + 1 => do
      match ← next with
      | .blockEntry =>
          drop
          let n ← nodeUnless bound .block [.blockEntry, .blockEnd]
          return n :: (← blockItems bound)
      | .blockEnd =>
          drop
          return []
      | _ => refuse .blockSequence

/-- The entries of a block sequence that is not indented in its
mapping. -/
def looseItems : Nat → Composer (List Nat)
  | 0 => return []
  | bound + 1 => do
      if (← next) = .blockEntry then
        drop
        let n ← nodeUnless bound .block
          [.blockEntry, .key, .value, .blockEnd]
        return n :: (← looseItems bound)
      else return []

/-- The entries of a block mapping. -/
def blockPairs : Nat → Composer (List (Nat × Nat))
  | 0 => return []
  | bound + 1 => do
      let ends : List Token := [.key, .value, .blockEnd]
      match ← next with
      | .key =>
          drop
          let k ← nodeUnless bound .entry ends
          let v ← valueUnless bound .entry ends
          return (k, v) :: (← blockPairs bound)
      | .blockEnd =>
          drop
          return []
      | _ => refuse .blockMapping

/-- The entries of a flow sequence. One with a colon is a mapping of its
own. -/
def flowItems : Nat → Bool → Composer (List Nat)
  | 0, _ => return []
  | bound + 1, first => do
      if (← next) = .flowSequenceEnd then
        drop
        return []
      if !first then
        if (← next) = .flowEntry then drop else refuse .flowSequence
      match ← next with
      | .key =>
          let n ← add none ⟨.mapping, .mapping []⟩
          drop
          let k ← nodeUnless bound .flow
            [.value, .flowEntry, .flowSequenceEnd]
          let v ← valueUnless bound .flow [.flowEntry, .flowSequenceEnd]
          fill n (.mapping [(k, v)])
          return n :: (← flowItems bound false)
      | .flowSequenceEnd =>
          drop
          return []
      | _ =>
          let n ← node bound .flow
          return n :: (← flowItems bound false)

/-- The entries of a flow mapping. -/
def flowPairs : Nat → Bool → Composer (List (Nat × Nat))
  | 0, _ => return []
  | bound + 1, first => do
      if (← next) = .flowMappingEnd then
        drop
        return []
      if !first then
        if (← next) = .flowEntry then drop else refuse .flowMapping
      match ← next with
      | .key =>
          drop
          let k ← nodeUnless bound .flow
            [.value, .flowEntry, .flowMappingEnd]
          let v ← valueUnless bound .flow [.flowEntry, .flowMappingEnd]
          return (k, v) :: (← flowPairs bound false)
      | .flowMappingEnd =>
          drop
          return []
      | _ =>
          let k ← node bound .flow
          let v ← addEmpty
          return (k, v) :: (← flowPairs bound false)

end

-- =========================================================== documents

/-- The handles that every document has. -/
def commonHandles : List (String × String) :=
  [("!", "!"), ("!!", tagStart)]

/-- Read directives, with the handles and whether a version was given. -/
def directives : Nat → Bool → Composer Unit
  | 0, _ => return ()
  | bound + 1, versioned => do
      match ← next with
      | .directive (.version major) =>
          drop
          if versioned then refuse .repeatedVersion
          if major ≠ 1 then refuse .otherVersion
          directives bound true
      | .directive (.handle handle start) =>
          drop
          if ((← get).handles.lookup handle).isSome then
            refuse (.repeatedHandle handle)
          modify fun s => { s with handles := s.handles ++ [(handle, start)] }
          directives bound versioned
      | .directive .reserved =>
          drop
          directives bound versioned
      | _ => return ()

/-- Pass over marks of the end of a document. -/
def dropEnds : Nat → Composer Unit
  | 0 => return ()
  | bound + 1 => do
      if (← next) = .documentEnd then
        drop
        dropEnds bound

/-- Read what stands before an explicit document, and say whether there
is one. -/
def startsDocument (bound : Nat) : Composer Bool := do
  dropEnds bound
  if (← next) = .streamEnd then return false
  modify fun s => { s with handles := [] }
  directives bound false
  modify fun s => { s with handles := s.handles ++ commonHandles }
  let t ← next
  if t = .documentStart then
    drop
    return true
  else refuse (.documentStart t.word)

/-- Does the content of an explicit document start with this token? -/
def startsContent : Token → Bool
  | .directive _ => false
  | .documentStart => false
  | .documentEnd => false
  | .streamEnd => false
  | _ => true

/-- Read the content of an explicit document. -/
def explicitContent (bound : Nat) : Composer Nat := do
  let t ← next
  if startsContent t then node bound .block else addEmpty

/-- Read the root of the first document, if there is one. A document
without directives needs no mark of its start. -/
def firstDocument (bound : Nat) : Composer (Option Nat) := do
  let t ← next
  if startsContent t || t = .documentEnd then
    modify fun s => { s with handles := commonHandles }
    return some (← node bound .block)
  else
    let starts ← startsDocument bound
    if starts then return some (← explicitContent bound)
    else return none

/-- Read the root of the one document, if there is a document. -/
def document (bound : Nat) : Composer (Option Nat) := do
  let root ← firstDocument bound
  if root.isSome then
    let starts ← startsDocument bound
    if starts then throw (.anchor .furtherDocument)
  return root

end Composer

/-- Read the graph of the one document of a text, and its root. A text
may have no document. -/
def Node.ofTokens (tokens : List Token) (fault : Option Fault) :
    Except Fault (Graph × Option Nat) := do
  let bound := 4 * tokens.length + 8
  let (root, s) ← (Composer.document bound).run { tokens, fault }
  return (s.graph, root)

end TreeReplica.Yaml
