/-
The output directory before and after a run.

`prepare` makes it an empty directory or refuses to start; what is in the
way is removed only if the run was told to. `remove` takes it away again,
reporting failures; the working directory is emptied but stays. Links are
removed as links: nothing behind them is touched.
-/
import TreeReplica.Disk.Work

namespace TreeReplica.Output

open Work

-- ============================================================ refusals

/-- Why a run does not start. -/
inductive Refusal
  | fileObstructs (out : Path)
  | cannotRemoveFile (out : Path)
  | cannotCreate (out : Path)
  | notEmpty (out : Path)
  | cannotClean (out : Path) (reason : SystemError)
  deriving DecidableEq, Repr, Inhabited

/-- The wording of a refusal. -/
def Refusal.message : Refusal → String
  | .fileObstructs out => s!"File obstructing (use -f to delete?): {out}"
  | .cannotRemoveFile out => s!"Could not remove file obstructing: {out}"
  | .cannotCreate out => s!"Could not create out directory: {out}"
  | .notEmpty out => s!"Directory not empty (use -f to delete?): {out}"
  | .cannotClean out reason =>
      s!"Could not clean out directory {out}: {reason.message}"

/-- How work on the output directory stops: with a refusal, or with a
fault of the disk. -/
inductive Failure
  | refused (r : Refusal)
  | disk (f : Fault)
  deriving DecidableEq, Repr, Inhabited

/-- Call the system's own refusals by `r`. -/
def refusing {α : Type} (r : SystemError → Refusal) (work : Work Fault α) :
    Work Failure α :=
  recast
    (fun fault => match fault with
      | .system e => .refused (r e)
      | .argument e => .disk (.argument e))
    work

-- ============================================================ contents

/-- Take away one entry of the output directory. -/
def deleteEntry (entry : Path) : Work Fault Unit := do
  if ← ask (·.isDirectory entry) then
    if ← ask (·.isLink entry) then act (·.removeFile entry)
    else removeTree entry
  else
    act (·.removeFile entry)

/-- Empty a directory. -/
def deleteContents (out : Path) : Work Fault Unit := do
  let names ← ask (·.list out)
  names.forM fun name => deleteEntry (out.child name)

/-- Make the directory at an anchor and the reversed parts, and the
directories above it that are missing. -/
def makeDirectories (anchor : Anchor) : List String → Work Fault Unit
  | [] => act (·.ensureDirectory ⟨anchor, []⟩)
  | last :: above =>
      let p : Path := ⟨anchor, (last :: above).reverse⟩
      rescue (act (·.makeDirectory p)) fun fault => do
        match fault with
        | .system (.refused .noEntry _) =>
            makeDirectories anchor above
            act (·.ensureDirectory p)
        | _ => act (·.ensureDirectory p)

-- =============================================================== steps

/-- Make `out` an empty directory or refuse. -/
def prepare (out : Path) (force : Bool) : Work Failure Unit := do
  if ← recast .disk (ask (·.isFile out)) then
    if !force then throw (.refused (.fileObstructs out))
    refusing (fun _ => .cannotRemoveFile out) (act (·.removeFile out))
  refusing (fun _ => .cannotCreate out)
    (makeDirectories out.anchor out.parts.reverse)
  if (← recast .disk (ask (·.list out))).isEmpty then return
  if !force then throw (.refused (.notEmpty out))
  refusing (.cannotClean out) (deleteContents out)

/-- Is `out` another directory than the working directory? There is no
answer while the working directory is gone. -/
def isElsewhere (out : Path) (d : Disk) : Except Fault Bool :=
  match d.root.get? d.workingDirectory with
  | none => .error (.system (.refused .noEntry .unnamed))
  | some _ => .ok (d.resolve out ≠ d.workingDirectory)

/-- Take the output directory away. The working directory stays, empty.
What the system refuses is only reported. -/
def remove (out : Path) : Work Fault Unit := do
  if !(← ask (·.isDirectory out)) then return
  let work : Work Fault Unit := do
    deleteContents out
    if ← ask (isElsewhere out) then act (·.removeDirectory out)
  rescue work fun fault => do
    match fault with
    | .system e => say .error s!"Failed to remove {out}: {e.message}"
    | .argument e => throw (.argument e)

end TreeReplica.Output
