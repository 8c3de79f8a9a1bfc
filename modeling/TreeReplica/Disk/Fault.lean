/-
What can go wrong on a disk. A fault is either the system's refusal of a
call, with the paths that the call was about, or an argument that never
reached the system. The wording is in one place, `SystemError.message`
and `ArgumentError.message`.
-/
import TreeReplica.Disk.Path
import TreeReplica.Text.Quoted

namespace TreeReplica

/-- The reasons for which the system refuses a call. -/
inductive Errno
  | noEntry
  | busy
  | alreadyExists
  | notDirectory
  | isDirectory
  | invalid
  | nameTooLong
  | notEmpty
  | tooManyLinks
  deriving DecidableEq, Repr, Inhabited

/-- The number of a reason. -/
def Errno.number : Errno → Nat
  | .noEntry => 2
  | .busy => 16
  | .alreadyExists => 17
  | .notDirectory => 20
  | .isDirectory => 21
  | .invalid => 22
  | .nameTooLong => 36
  | .notEmpty => 39
  | .tooManyLinks => 40

/-- The text of a reason. -/
def Errno.text : Errno → String
  | .noEntry => "No such file or directory"
  | .busy => "Device or resource busy"
  | .alreadyExists => "File exists"
  | .notDirectory => "Not a directory"
  | .isDirectory => "Is a directory"
  | .invalid => "Invalid argument"
  | .nameTooLong => "File name too long"
  | .notEmpty => "Directory not empty"
  | .tooManyLinks => "Too many levels of symbolic links"

/-- What a refused call was about: nothing named, one path, or the two
ends of a move. -/
inductive Subject
  | unnamed
  | path (p : Path)
  | move (source target : Path)
  deriving DecidableEq, Repr, Inhabited

/-- A call that the system refused. Removing a whole tree has a refusal
of its own: it does not start at a link. -/
inductive SystemError
  | refused (reason : Errno) (subject : Subject)
  | linkedTree
  deriving DecidableEq, Repr, Inhabited

/-- The wording of a refused call. -/
def SystemError.message : SystemError → String
  | .refused e .unnamed => s!"[Errno {e.number}] {e.text}"
  | .refused e (.path p) =>
      s!"[Errno {e.number}] {e.text}: " ++ Text.quoted p.text
  | .refused e (.move a b) =>
      s!"[Errno {e.number}] {e.text}: " ++ Text.quoted a.text ++ " -> "
        ++ Text.quoted b.text
  | .linkedTree => "Cannot call rmtree on a symbolic link"

/-- An argument that cannot be passed to the system: a path with a null
character, or a time beyond 64-bit seconds. -/
inductive ArgumentError
  | nullCharacter
  | timeOutOfRange
  deriving DecidableEq, Repr, Inhabited

/-- The wording of a bad argument. -/
def ArgumentError.message : ArgumentError → String
  | .nullCharacter => "embedded null byte"
  | .timeOutOfRange => "timestamp out of range for platform time_t"

/-- A disk operation that failed. -/
inductive Fault
  | system (e : SystemError)
  | argument (e : ArgumentError)
  deriving DecidableEq, Repr, Inhabited

/-- The wording of a fault. -/
def Fault.message : Fault → String
  | .system e => e.message
  | .argument e => e.message

end TreeReplica
