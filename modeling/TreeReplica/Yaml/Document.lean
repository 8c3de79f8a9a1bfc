/-
The values of a document. `Document.read` reads a text, and refuses it if
any node has no value; then `Document.value` gives the value of each.

The nodes are checked level by level: those that a collection holds are
looked at when the collection's turn comes, and the collections among
them wait for theirs. So of several faults the one that is nearest to the
root counts.

This is the reader of documents that the programs are run with. What they
make of a document does not depend on it: `Config.Reader` takes the place
of whatever library reads documents.
-/
import TreeReplica.Yaml.Node
import TreeReplica.Yaml.Scalar.Value
import TreeReplica.Yaml.Token.Stream

namespace TreeReplica.Yaml

-- ============================================================= merging

namespace Graph

/-- The pairs of several mappings, of which the first count most and so
stand last. -/
def mergeAll (pairs : Nat → Except Fault (List (Nat × Nat)))
    (g : Graph) : List Nat → Except Fault (List (Nat × Nat))
  | [] => .ok []
  | n :: rest => do
      let .mapping _ := (g.node n).content | throw (.value .mapping)
      let first ← pairs n
      return (← mergeAll pairs g rest) ++ first

/-- The pairs that a merge key brings in from its value. -/
def merged (pairs : Nat → Except Fault (List (Nat × Nat))) (g : Graph)
    (n : Nat) : Except Fault (List (Nat × Nat)) :=
  match (g.node n).content with
  | .mapping _ => pairs n
  | .sequence items => mergeAll pairs g items
  | .scalar _ => .error (.value .mapping)

/-- The pairs of a mapping, with those in front that its merge keys bring
in. A mapping that is merged into itself, and so is met again below
`around`, brings in what it has without merge keys. -/
def pairsFrom (g : Graph) : Nat → List Nat → Nat →
    Except Fault (List (Nat × Nat))
  | 0, _, _ => .ok []
  | bound + 1, around, n => do
      let .mapping items := (g.node n).content | return []
      let isMerge (pair : Nat × Nat) : Bool := (g.node pair.1).tag = .merge
      let own := items.filter (!isMerge ·)
      if around.contains n then return own
      let brought ← (items.filter isMerge).mapM fun (_, v) =>
        merged (pairsFrom g bound (n :: around)) g v
      return brought.flatten ++ own

/-- The pairs of a mapping, merge keys replaced. -/
def pairs (g : Graph) (n : Nat) : Except Fault (List (Nat × Nat)) :=
  g.pairsFrom (g.size + 1) [] n

-- ============================================================= scalars

/-- The text of a scalar. A mapping with a key `=` stands for the value
of that key. -/
def scalarText (g : Graph) : Nat → Nat → Except Fault String
  | 0, _ => .error (.value (.wrongShape .scalar .mapping))
  | bound + 1, n =>
      match (g.node n).content with
      | .scalar text => .ok text
      | .mapping items =>
          match items.find? fun (k, _) => (g.node k).tag = .value with
          | some (_, v) => g.scalarText bound v
          | none => .error (.value (.wrongShape .scalar .mapping))
      | .sequence _ => .error (.value (.wrongShape .scalar .sequence))

/-- Is this the tag of a collection? -/
def isCollection : Tag → Bool
  | .sequence => true
  | .mapping => true
  | .set => true
  | .orderedMap => true
  | .pairs => true
  | _ => false

/-- The value of a node whose tag is not that of a collection. -/
def scalar (g : Graph) (n : Nat) : Except Fault Value := do
  let node := g.node n
  match node.tag with
  | .other _ => throw (.value (.unknownTag node.tag.spelling))
  | .merge => throw (.value (.unknownTag node.tag.spelling))
  | .value => throw (.value (.unknownTag node.tag.spelling))
  | tag =>
      let text ← g.scalarText (g.size + 1) n
      if tag = .timestamp && node.content.shape ≠ .scalar then
        throw (.text .collection)
      scalarValue tag text

/-- The value of a key, in which `=` has no meaning of its own. -/
def key (g : Graph) (n : Nat) : Except Fault Value :=
  if (g.node n).tag = .value then
    (g.scalarText (g.size + 1) n).map .text
  else g.scalar n

end Graph

-- ============================================================ checking

/-- The nodes that were looked at, and the collections among them that
wait for their turn. -/
structure Check where
  seen : Array Bool
  waiting : List Nat := []
  deriving Inhabited

namespace Check

/-- Look at a node. -/
def visit (g : Graph) (c : Check) (n : Nat) : Except Fault Check :=
  if c.seen[n]?.getD true then .ok c
  else
    let c := { c with seen := c.seen.setIfInBounds n true }
    if Graph.isCollection (g.node n).tag then
      .ok { c with waiting := c.waiting ++ [n] }
    else (g.scalar n).map fun _ => c

/-- Look at a key. A collection is none. -/
def visitKey (g : Graph) (c : Check) (n : Nat) : Except Fault Check :=
  let tag := (g.node n).tag
  if tag = .value then .ok c
  else if Graph.isCollection tag then .error (.value .mapping)
  else c.visit g n

/-- Look at a pair that is a list entry of its own. -/
def visitPair (e : ValueFault) (g : Graph) (c : Check) (n : Nat) :
    Except Fault Check :=
  match (g.node n).content with
  | .mapping [(k, v)] => do (← c.visit g k).visit g v
  | _ => .error (.value e)

/-- Look at what a collection holds. -/
def visitAll (g : Graph) (c : Check) (n : Nat) : Except Fault Check :=
  let node := g.node n
  match node.tag, node.content with
  | .sequence, .sequence items => items.foldlM (visit g) c
  | .sequence, content =>
      .error (.value (.wrongShape .sequence content.shape))
  | .orderedMap, .sequence items =>
      items.foldlM (visitPair .orderedMap g) c
  | .orderedMap, _ => .error (.value .orderedMap)
  | .pairs, .sequence items => items.foldlM (visitPair .pairs g) c
  | .pairs, _ => .error (.value .pairs)
  | _, .mapping _ => do
      let pairs ← g.pairs n
      pairs.foldlM (fun c (k, v) => do (← visitKey g c k).visit g v) c
  | _, content => .error (.value (.wrongShape .mapping content.shape))

/-- Look at the collections that wait, in turn. -/
def run (g : Graph) : Nat → Check → Except Fault Unit
  | 0, _ => .ok ()
  | bound + 1, c =>
      match c.waiting with
      | [] => .ok ()
      | n :: rest => do run g bound (← visitAll g { c with waiting := rest } n)

end Check

/-- Check that the nodes that are reached from a root have values. -/
def Graph.check (g : Graph) (root : Nat) : Except Fault Unit := do
  let c : Check := { seen := Array.replicate g.size false }
  Check.run g (g.size + 1) (← c.visit g root)

-- ============================================================== values

namespace Graph

/-- The entries of a mapping. A key that comes again replaces the value
and keeps its place. -/
def entries (g : Graph) (n : Nat) : List (Value × Nat) :=
  match g.pairs n with
  | .ok pairs =>
      pairs.foldl
        (fun entries (k, v) =>
          match g.key k with
          | .ok key => Value.putEntry key v entries
          | .error _ => entries) []
  | .error _ => []

/-- The value of a node inside of the collections `around`. -/
def valueFrom (g : Graph) : Nat → List Nat → Nat → Value
  | 0, _, _ => .null
  | bound + 1, around, n =>
      let node := g.node n
      let below := g.valueFrom bound (n :: around)
      let pairOf (m : Nat) : Option (Value × Value) :=
        match (g.node m).content with
        | .mapping [(k, v)] => some (below k, below v)
        | _ => none
      if !isCollection node.tag then
        match g.scalar n with
        | .ok v => v
        | .error _ => .null
      else if around.contains n then
        .again (node.tag = .mapping)
      else match node.tag, node.content with
        | .sequence, .sequence items => .list (items.map below)
        | .mapping, .mapping _ =>
            .mapping ((g.entries n).map fun (k, v) => (k, below v))
        | .set, .mapping _ => .set ((g.entries n).map Prod.fst)
        | _, .sequence items => .pairs (items.filterMap pairOf)
        | _, _ => .null

/-- The value of a node. -/
def value (g : Graph) (n : Nat) : Value := g.valueFrom (g.size + 1) [] n

end Graph

-- =========================================================== documents

/-- A document all of whose nodes have values. -/
structure Document where
  graph : Graph
  root : Option Nat
  deriving Inhabited

namespace Document

/-- Read a document. -/
def read (text : List Char) : Except Fault Document := do
  if let some c := text.find? (!isAllowed ·) then
    throw (.character c.toNat)
  let (ts, fault) := tokens text
  let (graph, root) ← Node.ofTokens ts fault
  if let some n := root then graph.check n
  return { graph, root }

/-- The value under a key, if the document is a mapping. -/
def get? (d : Document) (key : String) : Option Value := do
  let root ← d.root
  let (_, n) ← (d.graph.entries root).find? fun (k, _) =>
    k.sameKey (.text key)
  return d.graph.value n

end Document

-- ============================================================= loading

/-- What a document is to those who look for keys in it: a mapping, or any
other value. -/
inductive Loaded
  | mapping (get? : String → Option Value)
  | other (value : Value)
  deriving Inhabited

/-- Load a document. A text without a document has the empty value. What
is under the keys of a mapping is not looked at before it is asked for. -/
def load (text : List Char) : Except Fault Loaded := do
  let d ← Document.read text
  match d.root with
  | none => return .other .null
  | some n =>
      match d.graph.valueFrom 1 [] n with
      | .mapping _ => return .mapping d.get?
      | value => return .other value

end TreeReplica.Yaml
