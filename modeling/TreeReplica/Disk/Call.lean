/-
The calls that a disk answers. A disk is a tree of entries and the
location of the working directory; every call is a function from a disk
to its answer or to a fault, and a call that changes the disk answers
with the whole disk after it. A failed call changes nothing.

A path reaches the system only if its text holds no null character and
is shorter than `pathLimit`. A text is made of characters, so half of a
surrogate pair, with which a path cannot be written for the system, is in
no text; the null character is the one thing left that cannot be passed.

What a call is refused for are names, paths and the entries in the way.
It is not refused for a lack of rights, room or memory, and no tree is too
deep: what the programs do by recursion over a tree has here no limit of
depth but the length of paths.
-/
import TreeReplica.Disk.Walk

namespace TreeReplica

/-- A disk: the tree of its entries, and where relative paths start. -/
structure Disk where
  root : Entry
  workingDirectory : Location
  deriving Inhabited

namespace Disk

-- ============================================================ reaching

/-- The directory in which a path with this anchor starts. -/
def start (d : Disk) (a : Anchor) : Location :=
  if a = .here then d.workingDirectory else []

/-- Does a text hold the null character, which no path can carry? -/
def hasNull (s : String) : Bool := s.toList.contains '\x00'

/-- Where a path leads, a last link followed or not. -/
def reach (d : Disk) (follow : Bool) (p : Path) (subject : Subject) :
    Except Fault Place :=
  if hasNull p.text then .error (.argument .nullCharacter)
  else if pathLimit ≤ p.text.utf8ByteSize then
    .error (.system (.refused .nameTooLong subject))
  else match walk d.root follow linkLimit (d.start p.anchor) p.parts with
    | .ok place => .ok place
    | .error reason => .error (.system (.refused reason subject))

/-- The fault of a call about `p` that the system refuses. -/
def refuse {α : Type} (p : Path) (reason : Errno) : Except Fault α :=
  .error (.system (.refused reason (.path p)))

-- ============================================================ questions

/-- The entry at a path, and where it is. -/
def find (d : Disk) (follow : Bool) (p : Path) :
    Except Fault (Location × Entry) := do
  let place ← d.reach follow p (.path p)
  match d.root.get? place.location with
  | none => refuse p .noEntry
  | some e => return (place.location, e)

/-- The entry at a path, links followed. -/
def status (d : Disk) (p : Path) : Except Fault Entry :=
  (d.find true p).map (·.2)

/-- The entry at a path, a last link not followed. -/
def linkStatus (d : Disk) (p : Path) : Except Fault Entry :=
  (d.find false p).map (·.2)

/-- The refusals that answer a question about a path with no: nothing is
there, or nothing can be reached through it. -/
def saysAbsent (reason : Errno) : Bool :=
  reason = .noEntry || reason = .notDirectory || reason = .tooManyLinks

/-- Ask whether an entry is of some kind. A path that leads nowhere, or
that cannot be a path, has no entry; other refusals are faults. -/
def holds (kind : Entry → Bool) (found : Except Fault Entry) :
    Except Fault Bool :=
  match found with
  | .ok e => .ok (kind e)
  | .error (.argument _) => .ok false
  | .error (.system (.refused reason subject)) =>
      if saysAbsent reason then .ok false
      else .error (.system (.refused reason subject))
  | .error other => .error other

/-- Does a directory stand at `p`, links followed? -/
def isDirectory (d : Disk) (p : Path) : Except Fault Bool :=
  holds Entry.isDirectory (d.status p)

/-- Does a regular file stand at `p`, links followed? -/
def isFile (d : Disk) (p : Path) : Except Fault Bool :=
  holds Entry.isFile (d.status p)

/-- Does anything stand at `p`, links followed? -/
def reaches (d : Disk) (p : Path) : Except Fault Bool :=
  holds (fun _ => true) (d.status p)

/-- Is `p` itself a link? -/
def isLink (d : Disk) (p : Path) : Except Fault Bool :=
  holds Entry.isLink (d.linkStatus p)

/-- Is there any entry at `p`, a link that leads nowhere included? Every
failure counts as no. -/
def occupied (d : Disk) (p : Path) : Bool :=
  match d.linkStatus p with
  | .ok _ => true
  | .error _ => false

/-- The number of bytes at `p`, links followed; only a file has any. -/
def size (d : Disk) (p : Path) : Except Fault Nat :=
  (d.status p).map fun e =>
    match e with
    | .file content _ => content.length
    | _ => 0

/-- The bytes of the file at `p`. -/
def read (d : Disk) (p : Path) : Except Fault Bytes := do
  match ← d.status p with
  | .file content _ => return content
  | _ => refuse p .isDirectory

/-- The names in the directory at `p`. -/
def list (d : Disk) (p : Path) : Except Fault (List String) := do
  match ← d.status p with
  | .directory children => return children.map (·.1)
  | _ => refuse p .notDirectory

-- ============================================================== changes

/-- The disk with `e` at a location. -/
def put (d : Disk) (l : Location) (e : Entry) : Disk :=
  { d with root := d.root.insert l e }

/-- The disk without the entry at a location. -/
def drop (d : Disk) (l : Location) : Disk :=
  { d with root := d.root.erase l }

/-- Make an empty directory. -/
def makeDirectory (d : Disk) (p : Path) : Except Fault Disk := do
  match ← d.reach false p (.path p) with
  | .itself _ => refuse p .alreadyExists
  | .inside directory name =>
      match d.root.get? (directory ++ [name]) with
      | some _ => refuse p .alreadyExists
      | none => return d.put (directory ++ [name]) (.directory [])

/-- Take away an empty directory. -/
def removeDirectory (d : Disk) (p : Path) : Except Fault Disk := do
  match ← d.reach false p (.path p) with
  | .itself _ =>
      if p.parts.getLast? = some ".." then refuse p .notEmpty
      else if p.anchor = .here then refuse p .invalid
      else refuse p .busy
  | .inside directory name =>
      match d.root.get? (directory ++ [name]) with
      | none => refuse p .noEntry
      | some (.directory []) => return d.drop (directory ++ [name])
      | some (.directory _) => refuse p .notEmpty
      | some _ => refuse p .notDirectory

/-- Take away a file or a link. -/
def removeFile (d : Disk) (p : Path) : Except Fault Disk := do
  match ← d.reach false p (.path p) with
  | .itself _ => refuse p .isDirectory
  | .inside directory name =>
      match d.root.get? (directory ++ [name]) with
      | none => refuse p .noEntry
      | some (.directory _) => refuse p .isDirectory
      | some _ => return d.drop (directory ++ [name])

/-- Take away all that a directory holds. A link to a directory is not a
directory. -/
def emptyTree (d : Disk) (p : Path) : Except Fault Disk := do
  match ← d.linkStatus p with
  | .link _ =>
      let _ ← d.status p
      .error (.system .linkedTree)
  | .file _ _ => refuse p .notDirectory
  | .directory _ =>
      match ← d.reach false p (.path p) with
      | .itself _ => refuse p .notEmpty
      | .inside directory name =>
          return d.put (directory ++ [name]) (.directory [])

/-- May the entry `moved` take the place of what stands at its target? -/
def displace (moved : Entry) : Option Entry → Option Errno
  | none => none
  | some (.directory []) =>
      if moved.isDirectory then none else some .isDirectory
  | some (.directory _) =>
      if moved.isDirectory then some .notEmpty else some .isDirectory
  | some _ => if moved.isDirectory then some .notDirectory else none

/-- Move an entry. What it displaces at the target is gone; a directory
cannot go below itself, and nothing displaces a directory above it. -/
def move (d : Disk) (source target : Path) : Except Fault Disk := do
  let fail (reason : Errno) : Except Fault Disk :=
    .error (.system (.refused reason (.move source target)))
  if hasNull target.text then throw (.argument .nullCharacter)
  let fromPlace ← d.reach false source (.move source target)
  let toPlace ← d.reach false target (.move source target)
  match fromPlace, toPlace with
  | .itself _, _ => fail .busy
  | _, .itself _ => fail .busy
  | .inside _ _, .inside _ _ =>
      let a := fromPlace.location
      let b := toPlace.location
      match d.root.get? a with
      | none => fail .noEntry
      | some e =>
          if a = b then return d
          else if a.isPrefixOf b then fail .invalid
          else if b.isPrefixOf a then fail .notEmpty
          else match displace e (d.root.get? b) with
            | some reason => fail reason
            | none => return (d.drop a).put b e

/-- Write a file, over its old bytes if there are any. A link at the end
is followed, and makes its target if that is missing. -/
def write (d : Disk) (p : Path) (content : Bytes) : Except Fault Disk := do
  match ← d.reach true p (.path p) with
  | .itself _ => refuse p .isDirectory
  | .inside directory name =>
      match d.root.get? (directory ++ [name]) with
      | some (.directory _) => refuse p .isDirectory
      | _ => return d.put (directory ++ [name]) (.file content .written)

/-- The seconds of a time in milliseconds, rounded down, fit 64 bits. -/
def representable (millis : Int) : Bool :=
  let seconds := Int.fdiv millis 1000
  decide (-0x8000000000000000 ≤ seconds)
    && decide (seconds < 0x8000000000000000)

/-- Set the time at which the file at `p` was last changed. A refusal
names no path, since the time may be what is refused. -/
def setTime (d : Disk) (p : Path) (millis : Int) : Except Fault Disk := do
  if !representable millis then throw (.argument .timeOutOfRange)
  let place ← d.reach true p .unnamed
  match d.root.get? place.location with
  | none => .error (.system (.refused .noEntry .unnamed))
  | some (.file content _) =>
      return d.put place.location (.file content (.dated millis))
  | some _ => return d

/-- Make a link. -/
def makeLink (d : Disk) (p : Path) (target : String) :
    Except Fault Disk := do
  match ← d.reach false p (.path p) with
  | .itself _ => refuse p .alreadyExists
  | .inside directory name =>
      match d.root.get? (directory ++ [name]) with
      | some _ => refuse p .alreadyExists
      | none => return d.put (directory ++ [name]) (.link target)

-- ========================================================== staging

/-- The start of the name of a staging directory. -/
def stagingStart : String := ".treefs-"

/-- The characters of a staging name after its start. -/
def stagingAlphabet : List Char :=
  "abcdefghijklmnopqrstuvwxyz0123456789_".toList

/-- A number in the letters of `stagingAlphabet`, its last `width` digits.
What does not fit stands in front, in decimal digits. -/
def stagingLetters : Nat → Nat → List Char
  | 0, n => if n = 0 then [] else Nat.toDigits 10 n
  | width + 1, n =>
      stagingLetters width (n / 37) ++ [stagingAlphabet.getD (n % 37) 'a']

/-- How many names of eight letters there are. -/
def stagingCount : Nat := Nat.pow 37 8

/-- The staging names: the first `stagingCount` of them have eight letters
after the common start. The longer ones behind them only spare a case for
a directory that holds all of these. -/
def stagingName (n : Nat) : String :=
  stagingStart ++ String.ofList (stagingLetters 8 n)

/-- Make a directory of a new name below `parent`. Which free name it gets
is not fixed: it is the one that is drawn, so any of them may be, and
some other one if that is taken. -/
def makeStaging (d : Disk) (parent : Path) (draw : Nat) :
    Except Fault (Path × Disk) := do
  let taken := match d.list parent with
    | .ok names => names
    | .error _ => []
  let tried := draw % stagingCount :: List.range (taken.length + 1)
  let n := (tried.find? fun n => !taken.contains (stagingName n)).getD 0
  let staging := parent.child (stagingName n)
  let d' ← d.makeDirectory staging
  return (staging, d')

-- ======================================================= canonical form

/-- The location that a path names when links are resolved part by part
and parts that do not exist are kept as they stand. `links` bounds the
links that are passed. -/
def resolveFrom (d : Disk) : Nat → Location → List String → Location
  | _, here, [] => here
  | links, here, name :: rest =>
      if name = "." then resolveFrom d links here rest
      else if name = ".." then resolveFrom d links here.dropLast rest
      else match d.root.get? (here ++ [name]) with
        | some (.link target) =>
            match links with
            | 0 => here ++ name :: rest
            | links + 1 =>
                resolveFrom d links
                  (if target.startsWith "/" then [] else here)
                  (targetParts target ++ rest)
        | _ => resolveFrom d links (here ++ [name]) rest
termination_by links _ parts => (links, parts.length)

/-- The location that a path names. -/
def resolve (d : Disk) (p : Path) : Location :=
  d.resolveFrom linkLimit (d.start p.anchor) p.parts

end Disk

end TreeReplica
