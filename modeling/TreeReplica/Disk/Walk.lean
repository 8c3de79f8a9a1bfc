/-
Where a path leads. A walk goes down the tree part by part from a
starting directory, follows the links it meets, and ends at a place: a
name inside a directory that exists, whether or not the name does, or,
after a last part that names no entry of its own, a directory itself.

`trace` walks until the first link it must follow, structurally on the
parts; `walk` restarts it behind each link, and the number of links that
one path may pass, forty, is what makes it end.
-/
import TreeReplica.Disk.Entry
import TreeReplica.Disk.Fault

namespace TreeReplica

/-- The longest name of one entry, in bytes of its written form. -/
def nameLimit : Nat := 255

/-- A path whose text has this many bytes, or more, is refused. -/
def pathLimit : Nat := 4096

/-- The number of links that one path may pass. -/
def linkLimit : Nat := 40

/-- Where a walk ends. -/
inductive Place
  | inside (directory : Location) (name : String)
  | itself (location : Location)
  deriving DecidableEq, Repr, Inhabited

/-- The location that a place stands for. -/
def Place.location : Place → Location
  | .inside directory name => directory ++ [name]
  | .itself location => location

/-- How far a walk gets without following a link. -/
inductive Trace
  | arrived (place : Place)
  | stopped (reason : Errno)
  | atLink (start : Location) (target : String) (rest : List String)

/-- The parts of a link's target. A target that ends in a slash or in a
dot of its own leads to a directory, which a last `.` asks for. -/
def targetParts (target : String) : List String :=
  let pieces := segments target
  let parts := pieces.filter Path.isPart
  match pieces.getLast? with
  | some last => if Path.isPart last then parts else parts ++ ["."]
  | none => parts

/-- Walk down from the directory at `here`. A link at the end is followed
only if `follow` says so. -/
def trace (root : Entry) (follow : Bool) :
    Location → List String → Trace
  | here, [] => .arrived (.itself here)
  | here, name :: rest =>
      match root.get? here with
      | none => .stopped .noEntry
      | some (.directory children) =>
          if name = "." then trace root follow here rest
          else if name = ".." then trace root follow here.dropLast rest
          else if nameLimit < name.utf8ByteSize then .stopped .nameTooLong
          else match Children.get? children name with
            | none =>
                if rest.isEmpty then .arrived (.inside here name)
                else .stopped .noEntry
            | some (.link target) =>
                if rest.isEmpty && !follow then .arrived (.inside here name)
                else .atLink here target rest
            | some _ =>
                if rest.isEmpty then .arrived (.inside here name)
                else trace root follow (here ++ [name]) rest
      | some _ => .stopped .notDirectory

/-- Walk down from `start`, behind at most `links` links. -/
def walk (root : Entry) (follow : Bool) (links : Nat) (start : Location)
    (parts : List String) : Except Errno Place :=
  match trace root follow start parts with
  | .arrived place => .ok place
  | .stopped reason => .error reason
  | .atLink here target rest =>
      match links with
      | 0 => .error .tooManyLinks
      | links + 1 =>
          walk root follow links
            (if target.startsWith "/" then [] else here)
            (targetParts target ++ rest)

end TreeReplica
