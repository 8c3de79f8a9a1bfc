/-
The entries of a disk as a tree, seen through one view: `Entry.get?`
looks a location up, and every change says what it does to that view.

A location is the list of names from the top of the disk down, with no
links in it. `insert` puts an entry at a location whose parent is a
directory and `erase` takes one away; both leave a tree alone where the
parent is missing.

An entry is a directory, a regular file or a symbolic link. There are no
pipes, sockets or devices, no file has a second name, nothing belongs to
anyone or is closed to anyone, and only files have a time: that of a
directory, which the system changes by itself, is not kept.
-/
namespace TreeReplica

/-- The content of a file. -/
abbrev Bytes := List UInt8

/-- When a file was last changed: a set time in milliseconds since the
epoch, or, for a file that was written and not dated since, the moment of
writing, which no rule depends on. -/
inductive Stamp
  | written
  | dated (millis : Int)
  deriving DecidableEq, Repr, Inhabited

/-- An entry of a directory. -/
inductive Entry where
  | directory (children : List (String × Entry))
  | file (content : Bytes) (stamp : Stamp)
  | link (target : String)
  deriving Inhabited

/-- The names from the top of the disk to an entry. -/
abbrev Location := List String

-- ==================================================== named children

namespace Children

/-- Give `name` the entry `e`: in its old place if it had one, at the end
otherwise. -/
def set : List (String × Entry) → String → Entry → List (String × Entry)
  | [], name, e => [(name, e)]
  | (n, old) :: rest, name, e =>
      if n = name then (n, e) :: rest else (n, old) :: set rest name e

/-- Drop `name`. -/
def erase : List (String × Entry) → String → List (String × Entry)
  | [], _ => []
  | (n, old) :: rest, name =>
      if n = name then erase rest name else (n, old) :: erase rest name

/-- Look `name` up. -/
def get? : List (String × Entry) → String → Option Entry
  | [], _ => none
  | (n, e) :: rest, name => if n = name then some e else get? rest name

theorem get?_set (cs : List (String × Entry)) (name m : String)
    (e : Entry) :
    get? (set cs name e) m = if name = m then some e else get? cs m := by
  induction cs with
  | nil => simp [set, get?]
  | cons c rest ih =>
      obtain ⟨n, old⟩ := c
      by_cases hn : n = name
      · subst hn
        by_cases hm : n = m <;> simp [set, get?, hm]
      · by_cases hm : n = m
        · subst hm
          have : ¬ name = n := fun h => hn h.symm
          simp [set, get?, hn, this]
        · simp [set, get?, hn, hm, ih]

theorem get?_erase (cs : List (String × Entry)) (name m : String) :
    get? (erase cs name) m = if name = m then none else get? cs m := by
  induction cs with
  | nil => simp [erase, get?]
  | cons c rest ih =>
      obtain ⟨n, old⟩ := c
      by_cases hn : n = name
      · subst hn
        by_cases hm : n = m
        · subst hm; simpa [erase] using ih
        · simp [erase, get?, hm, ih]
      · by_cases hm : n = m
        · subst hm
          have : ¬ name = n := fun h => hn h.symm
          simp [erase, get?, hn, this]
        · simp [erase, get?, hn, hm, ih]

end Children

namespace Entry

-- ============================================================ the view

/-- Is this a directory? -/
def isDirectory : Entry → Bool
  | directory _ => true
  | _ => false

/-- Is this a regular file? -/
def isFile : Entry → Bool
  | file _ _ => true
  | _ => false

/-- Is this a link? -/
def isLink : Entry → Bool
  | link _ => true
  | _ => false

/-- The entry directly below a directory; nothing is below anything
else. -/
def child? : Entry → String → Option Entry
  | directory cs, name => Children.get? cs name
  | _, _ => none

/-- The entry at a location below this one. Links are not followed. -/
def get? : Entry → Location → Option Entry
  | e, [] => some e
  | e, name :: below =>
      match e.child? name with
      | none => none
      | some c => c.get? below

-- ============================================================= changes

/-- Put `e` at a location, over what was there. -/
def insert : Entry → Location → Entry → Entry
  | _, [], e => e
  | directory cs, [name], e => directory (Children.set cs name e)
  | directory cs, name :: below, e =>
      match Children.get? cs name with
      | none => directory cs
      | some c => directory (Children.set cs name (c.insert below e))
  | other, _, _ => other

/-- Take the entry at a location away, with all below it. The tree itself
cannot be taken away. -/
def erase : Entry → Location → Entry
  | e, [] => e
  | directory cs, [name] => directory (Children.erase cs name)
  | directory cs, name :: below =>
      match Children.get? cs name with
      | none => directory cs
      | some c => directory (Children.set cs name (c.erase below))
  | other, _ => other

-- ======================================================== the contents

mutual

/-- Every entry of the tree but the tree itself, with its location; a
directory comes before what it holds. -/
def contents : Entry → List (Location × Entry)
  | directory cs => contentsOf cs
  | file _ _ => []
  | link _ => []

/-- The contents of a list of children, each child first. -/
def contentsOf : List (String × Entry) → List (Location × Entry)
  | [] => []
  | (name, e) :: rest =>
      ([name], e)
        :: (e.contents.map fun (l, x) => (name :: l, x)) ++ contentsOf rest

end

end Entry

end TreeReplica
