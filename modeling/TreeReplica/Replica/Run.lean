/-
A whole run: prepare the output directory, go round the loop until it is
over, and report.

`run` is the run in which nothing arrives as long as the loop has something
to do. The loop ends after as many steps as it weighs: every step makes it
lighter.
-/
import TreeReplica.Replica.Loop

namespace TreeReplica.Run

-- ============================================================== sources

/-- What the source of events does: it fails, it blocks until it is given
up while a stop is asked for, or it delivers events and a stop is asked
for once they are all applied. -/
inductive Source
  | fails (fault : Remote.Fault)
  | hangs
  | delivers (events : List Event)
  deriving DecidableEq, Repr, Inhabited

/-- What arrives from a source. -/
def Source.script : Source → List Arrival
  | .fails fault => [.subscribed (some fault)]
  | .hangs => [.stop]
  | .delivers events => events.map .event ++ [.subscribed none, .stop]

-- ============================================================= the loop

namespace Loop

/-- How many steps a turn can lead to, with itself. -/
def turnWeight : Turn → Nat
  | .arrival _ => 4
  | .consumer => 3
  | .stopper => 3
  | .finished _ => 2
  | .gathered => 2
  | .main => 1

/-- How many steps a line of turns can lead to. -/
def lineWeight : List Turn → Nat
  | [] => 0
  | t :: rest => turnWeight t + lineWeight rest

/-- How many steps the main task still needs, beside its turns in the
line. -/
def phaseWeight : Phase → Nat
  | .waiting => 10
  | .woken => 10
  | .gathering _ _ => 2
  | .gathered _ => 2
  | .leaving _ => 2
  | .left _ => 0
  | .over _ => 0

/-- How many steps are left, at most. -/
def weight (x : Loop) : Nat :=
  5 * x.pending.length + lineWeight x.line + phaseWeight x.phase

/-- The next step when nothing arrives before all turns are taken and the
source, if that is being done, has been given up. -/
def next (s : Settings) (x : Loop) : Option Loop :=
  match x.phase, x.line, x.pending with
  | .over _, _, _ => none
  | _, t :: rest, _ => some (x.take s t rest)
  | .leaving ending, [], _ => some (x.release ending)
  | _, [], a :: rest => some (x.receive a rest)
  | _, [], [] => none

/-- Go on for as many steps. -/
def play (s : Settings) : Nat → Loop → Loop
  | 0, x => x
  | steps + 1, x =>
      match x.next s with
      | some y => y.play s steps
      | none => x

/-- What is reported of a run; the result is its own if it is over. -/
def report (x : Loop) : Report :=
  { result := match x.phase with
      | .over result => result
      | _ => .ok 0
    account := x.account, host := x.host }

end Loop

-- ============================================================= the run

/-- Run from an output directory that is not prepared yet. A refusal
leaves it untouched, and nothing is subscribed then. -/
def run (s : Settings) (source : Source) (h : Host) : Report :=
  match Output.prepare s.outPath s.force h with
  | .error f h' => ⟨.error (.output f), {}, h'⟩
  | .ok _ h' =>
      let x := Loop.start s source.script h'
      (x.play s x.weight).report

end TreeReplica.Run
