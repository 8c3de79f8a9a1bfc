/-
Local paths in their normal form. A path is a list of parts under an
anchor: empty parts and `.` vanish when a text is read, `..` stays, since
where it leads depends on links. Exactly two leading slashes are an
anchor of their own; three or more count as one.

Main definitions: `Path.ofString` reads a text, `Path.text` writes it,
`Path.join` reads a second text below a first path, `Path.relativeTo?`
takes one path off the front of another.
-/
namespace TreeReplica

-- ============================================================ segments

/-- Cut a text at every slash. There is always one piece more than there
are slashes, so the pieces, joined by slashes, give the text back. -/
def splitSlashes : List Char → List (List Char)
  | [] => [[]]
  | c :: rest =>
      if c = '/' then [] :: splitSlashes rest
      else match splitSlashes rest with
        | [] => [[c]]
        | piece :: pieces => (c :: piece) :: pieces

/-- The pieces of a text between its slashes. -/
def segments (s : String) : List String :=
  (splitSlashes s.toList).map String.ofList

theorem splitSlashes_ne_nil (cs : List Char) : splitSlashes cs ≠ [] := by
  cases cs with
  | nil => simp [splitSlashes]
  | cons c rest =>
      unfold splitSlashes
      split
      · simp
      · split <;> simp

/-- A text without a slash is one piece. -/
theorem splitSlashes_eq_singleton {cs : List Char} (h : '/' ∉ cs) :
    splitSlashes cs = [cs] := by
  induction cs with
  | nil => rfl
  | cons c rest ih =>
      have hc : c ≠ '/' := fun e => h (e ▸ List.mem_cons_self ..)
      have hr : '/' ∉ rest := fun e => h (List.mem_cons_of_mem _ e)
      simp [splitSlashes, hc, ih hr]

-- =============================================================== paths

/-- Where a path starts: at the working directory, or at the top, which
may be written with one slash or with exactly two. -/
inductive Anchor
  | here
  | top
  | doubleTop
  deriving DecidableEq, Repr, Inhabited

/-- How an anchor is written. -/
def Anchor.text : Anchor → String
  | .here => ""
  | .top => "/"
  | .doubleTop => "//"

/-- A local path: its anchor and the parts below it. -/
structure Path where
  anchor : Anchor
  parts : List String
  deriving DecidableEq, Repr, Inhabited

namespace Path

/-- The anchor that a text opens with: its leading slashes decide. -/
def anchorOf : List Char → Anchor
  | ['/', '/'] => .doubleTop
  | '/' :: '/' :: c :: _ => if c = '/' then .top else .doubleTop
  | '/' :: _ => .top
  | _ => .here

/-- A piece of a path text that stands for itself: neither empty nor the
dot. -/
def isPart (s : String) : Bool := s ≠ "" && s ≠ "."

/-- Read a text as a path. -/
def ofString (s : String) : Path :=
  ⟨anchorOf s.toList, (segments s).filter isPart⟩

/-- The text of a path: the anchor, then the parts with a slash between
them. The path without anchor and parts is written as a dot. -/
def text (p : Path) : String :=
  let body := p.anchor.text ++ "/".intercalate p.parts
  if body = "" then "." else body

instance : ToString Path := ⟨text⟩

/-- The path of the entry `name` directly below `p`. -/
def child (p : Path) (name : String) : Path :=
  { p with parts := p.parts ++ [name] }

/-- The path some parts below `p`. -/
def descend (p : Path) (parts : List String) : Path :=
  { p with parts := p.parts ++ parts }

/-- Read `s` below `p`. A text that starts at the top forgets `p`. -/
def join (p : Path) (s : String) : Path :=
  let q := ofString s
  if q.anchor = .here then p.descend q.parts else q

/-- The path without its last part; a path without parts is its own
parent. -/
def parent (p : Path) : Path := { p with parts := p.parts.dropLast }

/-- The last part, empty when there is none. -/
def name (p : Path) : String := p.parts.getLast?.getD ""

/-- The parts of `p` below `root`: `p` must have the anchor of `root` and
begin with its parts. -/
def relativeTo? (p root : Path) : Option (List String) :=
  if p.anchor = root.anchor && root.parts.isPrefixOf p.parts then
    some (p.parts.drop root.parts.length)
  else none

-- ========================================================= small facts

@[simp] theorem descend_nil (p : Path) : p.descend [] = p := by
  simp [descend]

@[simp] theorem descend_descend (p : Path) (xs ys : List String) :
    (p.descend xs).descend ys = p.descend (xs ++ ys) := by
  simp [descend]

theorem descend_cons (p : Path) (x : String) (xs : List String) :
    p.descend (x :: xs) = (p.child x).descend xs := by
  simp [descend, child]

@[simp] theorem parent_child (p : Path) (n : String) :
    (p.child n).parent = p := by
  simp [parent, child]

@[simp] theorem name_child (p : Path) (n : String) :
    (p.child n).name = n := by
  simp [name, child]

/-- What lies below a root is found again relative to it. -/
@[simp] theorem relativeTo?_descend (p : Path) (xs : List String) :
    (p.descend xs).relativeTo? p = some xs := by
  simp [relativeTo?, descend]

end Path

end TreeReplica
