/-
A run whose main task has left the loop.

Nothing is applied any more; what is left is to gather the tasks that were
cancelled, to give the source up, and to take the output directory away.
`Leaving` says what the run still owes: every task that is not gathered
yet has a turn, or its word is in the line. How the run ends is settled
when the main task leaves (`Going.leave`): by then the consumer has ended,
or has taken all that it had to take.
-/
import TreeReplica.Proofs.Replica.Going

namespace TreeReplica.Run

variable {s : Settings} {h : Host} {script past : List Arrival}
  {taken used : List Event} {ending : Ending} {c : Option Conclusion}
  {note : Log}

-- ================================================================ endings

/-- The result of a run that a failure ended: a broken contract is exit
code one, an argument that cannot be passed to the system is passed on. -/
def haltResult : Halt → Except Failure Nat
  | .violation _ => .ok 1
  | .argument e => .error (.argument e)

/-- What is reported about the failure that ended a run. -/
def haltNote : Halt → Log
  | .violation v => [⟨.error, broken v.message⟩]
  | .argument _ => []

/-- The result of a run whose subscription failed: exit code one if the
contract was broken or the tree could not be watched, else the failure is
passed on. -/
def faultResult (fault : Remote.Fault) : Except Failure Nat :=
  if fault.kind = .protocol ∨ fault.kind = .watcher then .ok 1
  else .error (.remote fault)

/-- What is reported about a failed subscription. -/
def faultNote (fault : Remote.Fault) : Log :=
  match fault.kind with
  | .protocol => [⟨.error, broken fault.message⟩]
  | .watcher => [⟨.error, fault.message⟩]
  | _ => []

/-- Why a run ends, with what it comes to and what is reported at the end,
if the application of events came to the conclusion `c`. -/
inductive Cause (s : Settings) (script : List Arrival) :
    Option Conclusion → Ending → Log → Prop
  | fault {fault : Remote.Fault} {c : Option Conclusion}
      (failed : settlement script = some (some fault)) :
      Cause s script c { result := faultResult fault } (faultNote fault)
  | synced : Cause s script (some .synced)
      { result := .ok 0, keep := s.exitAfterSync } []
  | halted {halt : Halt} : Cause s script (some (.halted halt))
      { result := haltResult halt } (haltNote halt)
  | stopped (asked : .stop ∈ script) : Cause s script none
      { result := .ok 0 } [⟨.info, "Stop requested"⟩]

theorem subscriptionFailed_eq (fault : Remote.Fault) (h : Host) :
    subscriptionFailed fault h
      = ({ result := faultResult fault },
          { h with log := h.log ++ faultNote fault }) := by
  unfold subscriptionFailed faultResult faultNote reported
  cases fault.kind <;> simp

theorem concluded_eq (s : Settings) (script : List Arrival)
    (conclusion : Conclusion) (h : Host) :
    ∃ ending note, concluded s conclusion h
        = (ending, { h with log := h.log ++ note })
      ∧ Cause s script (some conclusion) ending note := by
  cases conclusion with
  | synced => exact ⟨_, [], by simp [concluded], .synced⟩
  | halted halt =>
      cases halt with
      | violation v => exact ⟨_, _, rfl, .halted⟩
      | argument e =>
          exact ⟨{ result := haltResult (.argument e) }, [],
            by simp [concluded, haltResult], .halted⟩

/-- How a run ends that started on the host `h`: the events that were
applied are the first of those that arrived, and all that were to be taken
unless one of them ended the run. -/
structure Outcome (s : Settings) (script : List Arrival) (h : Host)
    (used : List Event) (c : Option Conclusion) (ending : Ending)
    (note : Log) : Prop where
  given : used <+: events script
  due : c = none → Takes script used
  applied : ∃ host, Applied s h used c host
  cause : Cause s script c ending note

/-- A run ends so, and leaves the host. -/
def Ended (s : Settings) (script : List Arrival) (h : Host)
    (ending : Ending) (host : Host) : Prop :=
  ∃ used c note, Outcome s script h used c ending note
    ∧ host.disk = (s.replica.after used h).disk
    ∧ host.log = (s.replica.after used h).log
      ++ (Conclusion.note c ++ note)

-- ================================================================== tasks

namespace Task

variable {α : Type} {own : Turn} {line line' : List Turn} {task : Task α}

/-- A task that was cancelled if it had not ended. Until it knows its turn
is in the line. -/
def Dropped (own : Turn) (line : List Turn) : Task α → Prop
  | .cancelling => own ∈ line
  | .waiting => False
  | .ready => False
  | _ => True

/-- How many tasks are still to learn that they were cancelled. -/
def owed : Task α → Nat
  | .cancelling => 1
  | _ => 0

theorem Dropped.mono (hd : task.Dropped own line)
    (hline : own ∈ line → own ∈ line') : task.Dropped own line' := by
  cases task <;> first | exact hline hd | exact hd

theorem Dropped.tail {t : Turn} (hd : task.Dropped own (t :: line))
    (hne : own ≠ t) : task.Dropped own line :=
  hd.mono fun hmem => (List.mem_cons.mp hmem).resolve_left hne

theorem Dropped.ne_waiting (hd : task.Dropped own line) :
    task ≠ .waiting := by
  rintro rfl
  exact hd

theorem Dropped.cancelling_or_ended_or_cancelled
    (hd : task.Dropped own line) :
    task = .cancelling ∨ (∃ result, task = .ended result)
      ∨ task = .cancelled := by
  cases task with
  | waiting => exact hd.elim
  | ready => exact hd.elim
  | cancelling => exact Or.inl rfl
  | ended result => exact Or.inr (Or.inl ⟨result, rfl⟩)
  | cancelled => exact Or.inr (Or.inr rfl)

/-- Without a turn nothing is owed. -/
theorem Dropped.owed_eq_zero (hd : task.Dropped own []) :
    task.owed = 0 := by
  cases task with
  | cancelling => cases hd
  | waiting => rfl
  | ready => rfl
  | ended result => rfl
  | cancelled => rfl

theorem Alive.cancel (ha : task.Alive own line)
    (hline : own ∈ line → own ∈ line')
    (hturn : ∀ t ∈ task.cancelTurn own, t ∈ line') :
    task.cancel.Dropped own line' := by
  cases task with
  | waiting => exact hturn own (by simp [cancelTurn])
  | ready => exact hline ha
  | ended result => trivial
  | cancelling => exact ha.elim
  | cancelled => exact ha.elim

/-- The word that it is gathered is in the line, or will be. -/
theorem Alive.gathers (ha : task.Alive own line) :
    task.gatherTurn.count .gathered + task.cancel.owed = 1 := by
  cases task with
  | waiting => rfl
  | ready => rfl
  | ended result => rfl
  | cancelling => exact ha.elim
  | cancelled => exact ha.elim

end Task

namespace Loop

variable {x y : Loop} {rest : List Turn} {t : Turn}

-- ================================================================ leaving

/-- The main task gathers, with enough to come, or has its turn, or waits
for the source to be given up, which is done once. -/
inductive Retreats (s : Settings) (ending : Ending) (x : Loop) : Prop
  | gathering {left : Nat} (phase : x.phase = .gathering ending (left + 1))
      (owed : left + 1 ≤ x.line.count .gathered + x.consumer.owed
        + x.stopper.owed)
      (requests : x.account.requests = [.subscribe s.base])
  | gathered (phase : x.phase = .gathered ending) (turn : .main ∈ x.line)
      (requests : x.account.requests = [.subscribe s.base])
  | leaving (phase : x.phase = .leaving ending)
      (requests : x.account.requests = [.subscribe s.base])
  | left (phase : x.phase = .left ending) (turn : .main ∈ x.line)
      (requests : x.account.requests = [.subscribe s.base, .unsubscribe])

/-- How a run stands whose main task has left the loop. -/
structure Leaving (s : Settings) (script : List Arrival) (h : Host)
    (ending : Ending) (x : Loop) : Prop where
  ended : Ended s script h ending x.host
  subscription : x.subscription ≠ .pending
  consumer : x.consumer.Dropped .consumer x.line
  stopper : x.stopper.Dropped .stopper x.line
  retreats : x.Retreats s ending

/-- The main task goes on to retreat while others do something. -/
theorem Retreats.keep (hr : x.Retreats s ending)
    (hphase : y.phase = x.phase)
    (hrequests : y.account.requests = x.account.requests)
    (hmain : .main ∈ x.line → .main ∈ y.line)
    (howed : x.line.count .gathered + x.consumer.owed + x.stopper.owed
      ≤ y.line.count .gathered + y.consumer.owed + y.stopper.owed) :
    y.Retreats s ending := by
  cases hr with
  | gathering phase owed requests =>
      exact .gathering (hphase.trans phase) (Nat.le_trans owed howed)
        (hrequests.trans requests)
  | gathered phase turn requests =>
      exact .gathered (hphase.trans phase) (hmain turn)
        (hrequests.trans requests)
  | leaving phase requests =>
      exact .leaving (hphase.trans phase) (hrequests.trans requests)
  | left phase turn requests =>
      exact .left (hphase.trans phase) (hmain turn)
        (hrequests.trans requests)

/-- A word that something is gathered in the place of another turn. -/
theorem count_gathered {line : List Turn} (hline : line = t :: rest)
    (ht : t ≠ .gathered) :
    (rest ++ [Turn.gathered]).count .gathered
      = line.count .gathered + 1 := by
  rw [hline, List.count_cons_of_ne ht, List.count_append]
  rfl

namespace Leaving

variable (l : x.Leaving s script h ending)

include l in
/-- Something arrives. -/
theorem receive {a : Arrival} {more : List Arrival} :
    (x.receive a more).Leaving s script h ending :=
  { l with
    consumer := l.consumer.mono (List.mem_append_left _)
    stopper := l.stopper.mono (List.mem_append_left _)
    retreats := l.retreats.keep rfl rfl (List.mem_append_left _)
      (by simp [Loop.receive]) }

include l in
/-- A turn is taken that is neither the main task's nor a word to it. -/
theorem tail (hline : x.line = t :: rest) (hmain : .main ≠ t)
    (hgathered : t ≠ .gathered)
    (hconsumer : x.consumer.Dropped .consumer rest)
    (hstopper : x.stopper.Dropped .stopper rest) :
    ({ x with line := rest } : Loop).Leaving s script h ending :=
  { l with
    consumer := hconsumer
    stopper := hstopper
    retreats := by
      refine l.retreats.keep rfl rfl (fun hmem => ?_) ?_
      · rw [hline] at hmem
        exact (List.mem_cons.mp hmem).resolve_left hmain
      · exact Nat.le_of_eq (by rw [hline, List.count_cons_of_ne hgathered]) }

include l in
theorem consumer_tail (hline : x.line = t :: rest) (hne : .consumer ≠ t) :
    x.consumer.Dropped .consumer rest :=
  (hline ▸ l.consumer).tail hne

include l in
theorem stopper_tail (hline : x.line = t :: rest) (hne : .stopper ≠ t) :
    x.stopper.Dropped .stopper rest :=
  (hline ▸ l.stopper).tail hne

include l in
/-- What arrives now is put where nobody looks. -/
theorem arrive {a : Arrival} (hline : x.line = .arrival a :: rest) :
    (x.take s (.arrival a) rest).Leaving s script h ending := by
  have l' := l.tail hline (by simp) (by simp)
    (l.consumer_tail hline (by simp)) (l.stopper_tail hline (by simp))
  cases a with
  | event e =>
      have hc := l.consumer.ne_waiting
      have hy : x.take s (.arrival (.event e)) rest
          = { x with queue := x.queue ++ [e], line := rest } := by
        simp only [take, turn, Loop.arrive, put]
      rw [hy]
      exact
        { l' with retreats := l'.retreats.keep rfl rfl id (Nat.le_refl _) }
  | subscribed failure =>
      have hs := l.subscription
      have hy : x.take s (.arrival (.subscribed failure)) rest
          = { x with line := rest } := by
        simp only [take, turn, Loop.arrive, settle]
      rw [hy]
      exact l'
  | stop =>
      have hc := l.stopper.ne_waiting
      have hy : x.take s (.arrival .stop) rest
          = { x with
              account := ({ x with line := rest } : Loop).noteStop
              line := rest } := by
        simp only [take, turn, Loop.arrive, stop]
      have hrequests : ({ x with line := rest } : Loop).noteStop.requests
          = x.account.requests := by
        unfold noteStop
        split <;> rfl
      rw [hy]
      exact
        { l' with
          retreats := l'.retreats.keep rfl hrequests id (Nat.le_refl _) }

include l in
/-- The consumer learns that it was cancelled. -/
theorem consume (hline : x.line = .consumer :: rest) :
    (x.take s .consumer rest).Leaving s script h ending := by
  have hstopper := l.stopper_tail hline (by simp)
  have hpass (hsame : x.take s .consumer rest = { x with line := rest })
      (hd : x.consumer.Dropped .consumer rest) :
      (x.take s .consumer rest).Leaving s script h ending :=
    hsame ▸ l.tail hline (by simp) (by simp) hd hstopper
  rcases l.consumer.cancelling_or_ended_or_cancelled
    with hc | ⟨result, hc⟩ | hc
  · have hy : x.take s .consumer rest
        = { x with
            consumer := .cancelled, line := rest ++ [.gathered] } := by
      simp only [take, turn, Loop.consume, hc]
    rw [hy]
    exact
      { l with
        consumer := trivial
        stopper := hstopper.mono (List.mem_append_left _)
        retreats := l.retreats.keep rfl rfl (by simp [hline]) (by
          rw [hc, count_gathered hline (by simp)]
          simp only [Task.owed]
          omega) }
  · exact hpass (by simp only [take, turn, Loop.consume, hc])
      (by rw [hc]; trivial)
  · exact hpass (by simp only [take, turn, Loop.consume, hc])
      (by rw [hc]; trivial)

include l in
/-- The stopper learns that it was cancelled. -/
theorem endStopper (hline : x.line = .stopper :: rest) :
    (x.take s .stopper rest).Leaving s script h ending := by
  have hconsumer := l.consumer_tail hline (by simp)
  have hpass (hsame : x.take s .stopper rest = { x with line := rest })
      (hd : x.stopper.Dropped .stopper rest) :
      (x.take s .stopper rest).Leaving s script h ending :=
    hsame ▸ l.tail hline (by simp) (by simp) hconsumer hd
  rcases l.stopper.cancelling_or_ended_or_cancelled
    with hc | ⟨result, hc⟩ | hc
  · have hy : x.take s .stopper rest
        = { x with
            stopper := .cancelled, line := rest ++ [.gathered] } := by
      simp only [take, turn, Loop.endStopper, hc]
    rw [hy]
    exact
      { l with
        consumer := hconsumer.mono (List.mem_append_left _)
        stopper := trivial
        retreats := l.retreats.keep rfl rfl (by simp [hline]) (by
          rw [hc, count_gathered hline (by simp)]
          simp only [Task.owed]
          omega) }
  · exact hpass (by simp only [take, turn, Loop.endStopper, hc])
      (by rw [hc]; trivial)
  · exact hpass (by simp only [take, turn, Loop.endStopper, hc])
      (by rw [hc]; trivial)

include l in
/-- The main task does not wait for an end any more. -/
theorem wake {what : Awaited} (hline : x.line = .finished what :: rest) :
    (x.take s (.finished what) rest).Leaving s script h ending := by
  have hy : x.take s (.finished what) rest = { x with line := rest } := by
    cases l.retreats <;> simp only [take, turn, Loop.wake, *]
  rw [hy]
  exact l.tail hline (by simp) (by simp) (l.consumer_tail hline (by simp))
    (l.stopper_tail hline (by simp))

include l in
/-- One more is gathered. -/
theorem gather (hline : x.line = .gathered :: rest) :
    (x.take s .gathered rest).Leaving s script h ending := by
  have hconsumer := l.consumer_tail hline (by simp)
  have hstopper := l.stopper_tail hline (by simp)
  have hpass (hsame : x.take s .gathered rest = { x with line := rest })
      (hr : ({ x with line := rest } : Loop).Retreats s ending) :
      (x.take s .gathered rest).Leaving s script h ending := by
    rw [hsame]
    exact
      { l with consumer := hconsumer, stopper := hstopper, retreats := hr }
  cases l.retreats with
  | @gathering left phase owed requests =>
      rw [hline, List.count_cons_self] at owed
      cases left with
      | zero =>
          have hy : x.take s .gathered rest
              = { x with
                  phase := .gathered ending, line := rest ++ [.main] } := by
            simp only [take, turn, Loop.gather, phase]
          rw [hy]
          exact
            { l with
              consumer := hconsumer.mono (List.mem_append_left _)
              stopper := hstopper.mono (List.mem_append_left _)
              retreats := .gathered rfl (by simp) requests }
      | succ left =>
          have hy : x.take s .gathered rest
              = { x with
                  phase := .gathering ending (left + 1), line := rest } := by
            simp only [take, turn, Loop.gather, phase]
          rw [hy]
          exact
            { l with
              consumer := hconsumer
              stopper := hstopper
              retreats := .gathering rfl (by dsimp only; omega) requests }
  | gathered phase turn requests =>
      rw [hline] at turn
      exact hpass (by simp only [take, Loop.turn, Loop.gather, phase])
        (.gathered phase (by simpa using turn) requests)
  | leaving phase requests =>
      exact hpass (by simp only [take, turn, Loop.gather, phase])
        (.leaving phase requests)
  | left phase turn requests =>
      rw [hline] at turn
      exact hpass (by simp only [take, Loop.turn, Loop.gather, phase])
        (.left phase (by simpa using turn) requests)

include l in
/-- The main task has its turn: it goes on to give the source up, or closes
the run. -/
theorem goOn (hline : x.line = .main :: rest) :
    (x.take s .main rest).Leaving s script h ending
      ∨ ∃ y : Loop, Ended s script h ending y.host
        ∧ y.account.requests = [.subscribe s.base, .unsubscribe]
        ∧ x.take s .main rest = y.close s ending := by
  have hconsumer := l.consumer_tail hline (by simp)
  have hstopper := l.stopper_tail hline (by simp)
  cases l.retreats with
  | gathering phase owed requests =>
      have hy : x.take s .main rest = { x with line := rest } := by
        simp only [take, turn, Loop.goOn, phase]
      rw [hy]
      rw [hline, List.count_cons_of_ne (by simp)] at owed
      exact Or.inl
        { l with
          consumer := hconsumer, stopper := hstopper
          retreats := .gathering phase owed requests }
  | gathered phase turn requests =>
      have hy : x.take s .main rest
          = { x with phase := .leaving ending, line := rest } := by
        simp only [take, Loop.turn, Loop.goOn, phase]
      rw [hy]
      exact Or.inl
        { l with
          consumer := hconsumer, stopper := hstopper
          retreats := .leaving rfl requests }
  | leaving phase requests =>
      have hy : x.take s .main rest = { x with line := rest } := by
        simp only [take, turn, Loop.goOn, phase]
      rw [hy]
      exact Or.inl
        { l with
          consumer := hconsumer, stopper := hstopper
          retreats := .leaving phase requests }
  | left phase turn requests =>
      refine Or.inr ⟨{ x with line := rest }, l.ended, requests, ?_⟩
      simp only [take, Loop.turn, Loop.goOn, phase]

include l in
/-- The source has been given up. -/
theorem release {leaving : Ending} (hphase : x.phase = .leaving leaving) :
    (x.release leaving).Leaving s script h ending := by
  cases l.retreats with
  | gathering phase => cases hphase.symm.trans phase
  | gathered phase => cases hphase.symm.trans phase
  | left phase => cases hphase.symm.trans phase
  | leaving phase requests =>
      cases hphase.symm.trans phase
      exact
        { l with
          consumer := l.consumer.mono (List.mem_append_left _)
          stopper := l.stopper.mono (List.mem_append_left _)
          retreats := .left rfl (by simp [Loop.release])
            (by simp [Loop.release, requests]) }

end Leaving

-- ========================================================= leaving the loop

namespace Going

variable (g : x.Going s script h past taken)

include g in
/-- The main task leaves the loop when the consumer has caught up. -/
theorem leave (hline : x.line = .main :: rest)
    (hcaught : x.CaughtUp script taken)
    {say : Host → Ending × Host}
    (hsay : say x.host
      = (ending, { x.host with log := x.host.log ++ note }))
    (hcause : Cause s script x.consumer.result? ending note) :
    (({ x with line := rest } : Loop).leave say).Leaving s script h
      ending := by
  obtain ⟨hdisk, hlog⟩ := g.applied.host
  have hgiven : taken <+: events script := by
    rw [g.history, events_append, g.received, List.append_assoc]
    exact List.prefix_append _ _
  have hconsumer := g.consumer_tail hline (by simp)
  have hstopper := g.stopper_tail hline (by simp)
  exact
    { ended := by
        refine ⟨taken, _, note, ⟨hgiven, fun hno => hcaught.resolve_left
          (absurd hno), ⟨_, g.applied⟩, hcause⟩, ?_⟩
        simp only [Loop.leave, hsay]
        exact ⟨hdisk, by rw [hlog, List.append_assoc]⟩
      subscription := by
        simp only [Loop.leave]
        split
        · simp
        · next hno => exact hno
      consumer := hconsumer.cancel (by simp +contextual [Loop.leave])
        (by simp +contextual [Loop.leave])
      stopper := hstopper.cancel (by simp +contextual [Loop.leave])
        (by simp +contextual [Loop.leave])
      retreats := by
        have hc := hconsumer.gathers
        have hs := hstopper.gathers
        have hphase : (({ x with line := rest } : Loop).leave say).phase
            = .gathering ending (2 + 1) := by simp only [Loop.leave, hsay]
        refine .gathering hphase ?_ g.requests
        simp [Loop.leave]
        omega }

/-- Something that arrived shows in the whole script. -/
theorem stop_mem (g : x.Going s script h past taken)
    (hs : x.stopper ≠ .waiting) : .stop ∈ script := by
  rw [g.history]
  refine List.mem_append_left _ ?_
  by_contra hno
  exact hs (g.stopper.mpr hno)

include g in
theorem settlement_eq {failure : Option Remote.Fault}
    (hs : x.subscription = .settled failure) :
    settlement past = some failure
      ∧ settlement script = some failure := by
  have hpast : settlement past = some failure := by
    have hsub := g.subscription
    rw [hs] at hsub
    cases hsettled : settlement past with
    | none =>
        rw [hsettled] at hsub
        cases hsub
    | some first =>
        rw [hsettled] at hsub
        cases hsub
        rfl
  exact ⟨hpast, by rw [g.history, settlement_append, hpast]; rfl⟩

include g in
/-- The main task, which was told of something, has its turn. -/
theorem look (hline : x.line = .main :: rest) (hphase : x.phase = .woken)
    (hdone : x.Done) :
    ∃ ending, (({ x with line := rest } : Loop).look s).Leaving s script h
      ending := by
  have hheard : settlement past = some none ∨ x.CaughtUp script taken := by
    cases g.attends with
    | waiting phase => cases hphase.symm.trans phase
    | woken _ _ heard => exact heard
  unfold Loop.look
  dsimp only
  split
  · next fault hfault =>
      obtain ⟨hpast, hscript⟩ := g.settlement_eq hfault
      have hcaught := hheard.resolve_left (by simp [hpast])
      exact ⟨_, g.leave hline hcaught (subscriptionFailed_eq fault x.host)
        (.fault hscript)⟩
  · next hfine =>
      split
      · next c hc =>
          have hcaught : x.CaughtUp script taken :=
            Or.inl (by simp [hc, Task.result?])
          obtain ⟨ending, note, heq, hcause⟩ :=
            concluded_eq s script c x.host
          exact ⟨ending, g.leave hline hcaught heq (by rw [hc]; exact hcause)⟩
      · next hgoes =>
          have hnone : x.consumer.result? = none := by
            unfold Task.result?
            split
            · next c hc => exact absurd hc (hgoes c)
            · rfl
          split
          · next hs =>
              have hcaught := g.halted (by simp [hs, Task.result?])
              have hstop := g.stop_mem (by simp [hs])
              exact ⟨_, g.leave hline hcaught rfl
                (by rw [hnone]; exact .stopped hstop)⟩
          · next hno =>
              rcases hdone with hc | hs | ⟨fault, hfault⟩
              · exact absurd hnone hc
              · refine absurd ?_ hs
                unfold Task.result?
                split
                · next hs => exact absurd hs (hno _)
                · rfl
              · exact absurd hfault (hfine fault)

include g in
/-- The main task has its turn. -/
theorem goOn_or_leave (hline : x.line = .main :: rest) :
    (x.take s .main rest).Going s script h past taken
      ∨ ∃ ending, (x.take s .main rest).Leaving s script h ending := by
  by_cases hstays : x.phase = .waiting ∨ ¬ x.Done
  · exact Or.inl (g.goOn hline hstays)
  obtain ⟨hphase, hdone⟩ := not_or.mp hstays
  cases g.attends with
  | waiting phase => exact absurd phase hphase
  | woken phase =>
      refine Or.inr ?_
      have hy : x.take s .main rest
          = ({ x with line := rest } : Loop).look s := by
        simp only [take, turn, Loop.goOn, phase]
      rw [hy]
      exact g.look hline phase (not_not.mp hdone)

end Going

end Loop

end TreeReplica.Run
