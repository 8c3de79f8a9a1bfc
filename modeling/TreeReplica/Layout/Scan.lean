/-
The layout that a directory on disk holds. Links are taken for what they
lead to, but the scan does not go below them; a link that leads nowhere
is a fault, as it is for any reader.

The scan goes as deep as paths can be long. An interpreter that runs it
with one call inside another, and allows a thousand of them, gives up in
about as many directories, one in the other; that is not part of this.
-/
import TreeReplica.Disk.Work
import TreeReplica.Layout.Basic

namespace TreeReplica

/-- Component by component, code point by code point: the order of paths
in a scan. -/
def componentsLE : List String → List String → Bool
  | [], _ => true
  | _ :: _, [] => false
  | a :: as, b :: bs =>
      if a = b then componentsLE as bs else decide (a < b)

namespace Entry

mutual

/-- The locations of every entry below the directory that is reached by
the path `p`. A directory whose own path is too long cannot be opened and
is given back instead. -/
def reachable (p : Path) : Entry → Except Path (List Location)
  | directory cs =>
      if pathLimit ≤ p.text.utf8ByteSize then .error p
      else reachableIn p cs
  | file _ _ => .ok []
  | link _ => .ok []

/-- The same for a list of children of the directory at `p`. -/
def reachableIn (p : Path) :
    List (String × Entry) → Except Path (List Location)
  | [] => .ok []
  | (name, e) :: rest =>
      match reachable (p.child name) e with
      | .error stuck => .error stuck
      | .ok found =>
          match reachableIn p rest with
          | .error stuck => .error stuck
          | .ok others => .ok ([name] :: found.map (name :: ·) ++ others)

end

end Entry

namespace Disk

/-- The locations of all entries below the directory at `root`, relative
to it and in order. Where no directory stands there are none. -/
def below (d : Disk) (root : Path) : Except Fault (List Location) := do
  if !(← d.isDirectory root) then return []
  let e ← d.status root
  match e.reachable root with
  | .error stuck => refuse stuck .nameTooLong
  | .ok found => return found.mergeSort componentsLE

/-- What the scan finds at one path. -/
def itemAt (d : Disk) (p : Path) : Except Fault Item := do
  if ← d.isDirectory p then return .directory
  return .file (← d.read p)

/-- The layout below the directory at `root`. -/
def scan (d : Disk) (root : Path) : Except Fault Layout := do
  let found ← d.below root
  found.foldlM (fun l parts => do
    return l.put (Path.text ⟨.here, parts⟩)
      (← d.itemAt (root.descend parts))) {}

end Disk

end TreeReplica
