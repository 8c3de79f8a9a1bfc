/-
Paths of the remote tree, and where each of them is kept locally.

`validate` accepts the root `/` and every sequence of proper segments,
each behind a slash. `toLocal` takes a remote path below a base path to
the matching path below a local root; the base itself goes to the root.
A remote path with a segment equal to the payload name has no place of
its own, because that name is where a container's own data is kept.
-/
import TreeReplica.Disk.Path
import TreeReplica.Text.Quoted

namespace TreeReplica.Remote

-- ========================================================== rejections

/-- Why a remote path is not accepted. -/
inductive Rejection
  | empty
  | unrooted (path : String)
  | endsInSlash (path : String)
  | badSegment (segment path : String)
  | badCharacter (c : Char) (path : String)
  | notRemote (path : String)
  | outside (path base : String)
  | malformed (path : String)
  | reserved (path name : String)
  deriving DecidableEq, Repr, Inhabited

/-- The wording of a rejection. -/
def Rejection.message : Rejection → String
  | .empty => "path must not be empty"
  | .unrooted path => "path must start with '/': " ++ Text.quoted path
  | .endsInSlash path =>
      "path must not end with '/': " ++ Text.quoted path
  | .badSegment segment path =>
      "invalid path segment " ++ Text.quoted segment ++ " in "
        ++ Text.quoted path
  | .badCharacter c path =>
      "invalid character " ++ Text.quoted (String.singleton c) ++ " in "
        ++ Text.quoted path
  | .notRemote path =>
      "remote path must start with '/': " ++ Text.quoted path
  | .outside path base =>
      Text.quoted path ++ " is outside the mirrored subtree "
        ++ Text.quoted base
  | .malformed path => "malformed remote path: " ++ Text.quoted path
  | .reserved path name =>
      Text.quoted path ++ " uses the reserved payload name "
        ++ Text.quoted name

/-- Does the rejection say that the payload name was used? -/
def Rejection.isReserved : Rejection → Bool
  | .reserved _ _ => true
  | _ => false

-- ========================================================== validation

/-- Segments that name no node: nothing, the dot and two dots. -/
def isImproper (segment : String) : Bool :=
  segment = "" || segment = "." || segment = ".."

/-- The characters that no remote path may hold: the controls, the
private use area with the surrogates before it, and the last sixteen
code points of the basic plane. -/
def isForbidden (c : Char) : Bool :=
  let n := c.toNat
  n ≤ 0x1f || (0x7f ≤ n && n ≤ 0x9f) || (0xd800 ≤ n && n ≤ 0xf8ff)
    || (0xfff0 ≤ n && n ≤ 0xffff)

/-- Check a remote path. The order of the checks decides which rejection
is reported when several apply. -/
def validate (path : String) : Except Rejection String :=
  let cs := path.toList
  match cs with
  | [] => .error .empty
  | first :: rest =>
      if first ≠ '/' then .error (.unrooted path)
      else if rest.isEmpty then .ok path
      else if rest.getLast? = some '/' then .error (.endsInSlash path)
      else match (splitSlashes rest).map String.ofList |>.find? isImproper with
        | some segment => .error (.badSegment segment path)
        | none =>
            match cs.find? isForbidden with
            | some c => .error (.badCharacter c path)
            | none => .ok path

-- ============================================================= mapping

/-- A base path without the slashes at its end. -/
def trimSlashes (base : List Char) : List Char :=
  (base.reverse.dropWhile (· = '/')).reverse

/-- What every remote path below `base` starts with. -/
def stem (base : String) : List Char := trimSlashes base.toList ++ ['/']

/-- The local path at which a remote path is kept. -/
def toLocal (path : String) (root : Path) (base payload : String) :
    Except Rejection Path :=
  if path.toList.head? ≠ some '/' then .error (.notRemote path)
  else if path = base then .ok root
  else if !(stem base).isPrefixOf path.toList then
    .error (.outside path base)
  else
    let below := path.toList.drop (stem base).length
    let parts := (splitSlashes below).map String.ofList
    if parts.any isImproper then .error (.malformed path)
    else if parts.contains payload then .error (.reserved path payload)
    else .ok (root.descend parts)

/-- Where a container kept at `place` keeps its own data. -/
def payloadSlot (place : Path) (payload : String) : Path :=
  place.join payload

end TreeReplica.Remote
