/-
Layouts: what a directory tree holds, as a map from relative path texts
to directories and file contents. A layout keeps its paths in the order
in which they first came; giving a path a new item keeps its place.

`Layout.get?` is the view, and `Layout.put` the only way to build one.
-/
import TreeReplica.Disk.Entry

namespace TreeReplica

/-- What stands at a path of a layout. -/
inductive Item
  | directory
  | file (content : Bytes)
  deriving DecidableEq, Repr, Inhabited

/-- Is the item a directory? -/
def Item.isDirectory : Item → Bool
  | .directory => true
  | .file _ => false

/-- The word for the kind of an item. -/
def Item.word : Item → String
  | .directory => "directory"
  | .file _ => "file"

/-- A map from relative paths to items, in the order of first entry. -/
structure Layout where
  entries : List (String × Item) := []
  deriving DecidableEq, Repr, Inhabited

namespace Layout

/-- The entries after `path` is given the item `item`. -/
def putIn : List (String × Item) → String → Item → List (String × Item)
  | [], path, item => [(path, item)]
  | (p, old) :: rest, path, item =>
      if p = path then (p, item) :: rest
      else (p, old) :: putIn rest path item

/-- The item at `path` among the entries. -/
def getIn : List (String × Item) → String → Option Item
  | [], _ => none
  | (p, item) :: rest, path => if p = path then some item else getIn rest path

/-- Give `path` the item `item`. -/
def put (l : Layout) (path : String) (item : Item) : Layout :=
  ⟨putIn l.entries path item⟩

/-- The item at `path`. -/
def get? (l : Layout) (path : String) : Option Item :=
  getIn l.entries path

/-- The paths of a layout, in order of first entry. -/
def paths (l : Layout) : List String := l.entries.map (·.1)

/-- The number of paths. -/
def size (l : Layout) : Nat := l.entries.length

/-- The layout that a list of entries describes; of two entries for one
path the later counts. -/
def ofList (entries : List (String × Item)) : Layout :=
  entries.foldl (fun l (path, item) => l.put path item) {}

-- ========================================================= small facts

theorem getIn_putIn (es : List (String × Item)) (path q : String)
    (item : Item) :
    getIn (putIn es path item) q
      = if path = q then some item else getIn es q := by
  induction es with
  | nil => simp [putIn, getIn]
  | cons e rest ih =>
      obtain ⟨p, old⟩ := e
      by_cases hp : p = path
      · subst hp
        by_cases hq : p = q <;> simp [putIn, getIn, hq]
      · by_cases hq : p = q
        · subst hq
          have : ¬ path = p := fun h => hp h.symm
          simp [putIn, getIn, hp, this]
        · simp [putIn, getIn, hp, hq, ih]

theorem get?_put (l : Layout) (path q : String) (item : Item) :
    (l.put path item).get? q
      = if path = q then some item else l.get? q :=
  getIn_putIn l.entries path q item

@[simp] theorem get?_empty (q : String) : ({} : Layout).get? q = none := rfl

end Layout

end TreeReplica
