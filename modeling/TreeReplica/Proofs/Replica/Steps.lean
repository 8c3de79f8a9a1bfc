/-
What every step of a run keeps, and that a run comes to its end.

A run goes on, or its main task has left the loop, or it is over; every
step leads from one of these to one of these (`Sound.step`). It does not
stop before it is over if the script or the events end it
(`Sound.over_or_step`), and every step makes it lighter, so it comes to
its end whatever happens next (`Sound.finishes`).
-/
import Mathlib.Logic.Relation
import TreeReplica.Proofs.Replica.Leaving
import TreeReplica.Proofs.Replica.Weight

namespace TreeReplica.Run

namespace Loop

variable {s : Settings} {h : Host} {script past : List Arrival}
  {taken : List Event} {ending : Ending} {x y : Loop} {rest : List Turn}
  {t : Turn}

-- ================================================================== steps

/-- How a run stands: it goes on, or its main task has left the loop, or it
is over. -/
inductive Sound (s : Settings) (script : List Arrival) (h : Host)
    (x : Loop) : Prop
  | going {past : List Arrival} {taken : List Event}
      (going : x.Going s script h past taken)
  | leaving {ending : Ending} (leaving : x.Leaving s script h ending)
  | closed {ending : Ending} {y : Loop} (ended : Ended s script h ending y.host)
      (requests : y.account.requests = [.subscribe s.base, .unsubscribe])
      (closed : x = y.close s ending)

theorem isOver_close (s : Settings) (ending : Ending) (x : Loop) :
    (x.close s ending).isOver = true := by
  unfold close
  split
  · rfl
  · split <;> rfl

theorem Going.sound (g : x.Going s script h past taken) :
    x.Sound s script h :=
  .going g

theorem Leaving.sound (l : x.Leaving s script h ending) :
    x.Sound s script h :=
  .leaving l

theorem Going.take (g : x.Going s script h past taken)
    (hline : x.line = t :: rest) : (x.take s t rest).Sound s script h := by
  cases t with
  | arrival a =>
      cases a with
      | event e => exact (g.put hline).sound
      | subscribed failure => exact (g.settle hline).sound
      | stop => exact (g.stop hline).sound
  | consumer =>
      obtain ⟨taken', g'⟩ := g.consume hline
      exact g'.sound
  | stopper => exact (g.endStopper hline).sound
  | finished what => exact (g.wake hline).sound
  | gathered => exact (g.gather hline).sound
  | main =>
      rcases g.goOn_or_leave hline with g' | ⟨ending, l⟩
      · exact g'.sound
      · exact l.sound

theorem Leaving.take (l : x.Leaving s script h ending)
    (hline : x.line = t :: rest) : (x.take s t rest).Sound s script h := by
  cases t with
  | arrival a => exact (l.arrive hline).sound
  | consumer => exact (l.consume hline).sound
  | stopper => exact (l.endStopper hline).sound
  | finished what => exact (l.wake hline).sound
  | gathered => exact (l.gather hline).sound
  | main =>
      rcases l.goOn hline with l' | ⟨y, hended, hrequests, hclosed⟩
      · exact l'.sound
      · exact .closed hended hrequests hclosed

/-- Every step keeps how the run stands. -/
theorem Sound.step (hx : x.Sound s script h) (hs : Step s x y) :
    y.Sound s script h := by
  cases hx with
  | going g =>
      cases hs with
      | arrives going pending => exact (g.receive pending).sound
      | turns going line => exact g.take line
      | released phase =>
          cases g.attends with
          | waiting phase' => cases phase.symm.trans phase'
          | woken phase' => cases phase.symm.trans phase'
  | leaving l =>
      cases hs with
      | arrives going pending => exact l.receive.sound
      | turns going line => exact l.take line
      | released phase => exact (l.release phase).sound
  | @closed ending y ended requests closed =>
      have hover := isOver_close s ending y
      rw [← closed] at hover
      cases hs with
      | arrives going pending => cases hover.symm.trans going
      | turns going line => cases hover.symm.trans going
      | released phase => simp [isOver, phase] at hover

/-- Every run keeps how it stands. -/
theorem Sound.steps (hx : x.Sound s script h)
    (hs : Relation.ReflTransGen (Step s) x y) : y.Sound s script h := by
  induction hs with
  | refl => exact hx
  | tail _ last ih => exact ih.step last

-- =============================================================== progress

/-- A run can only stop in the loop if nothing ends it. -/
theorem Going.open_of_stuck (g : x.Going s script h past taken)
    (hline : x.line = []) (hpending : x.pending = []) :
    ¬ Closed script ∧ Passes s (events script) h := by
  have hscript : script = past := by
    rw [g.history, coming, hline, hpending]
    simp
  have hdone : ¬ x.Done := by
    intro hdone
    cases g.attends with
    | waiting _ word =>
        obtain ⟨what, hword⟩ := word hdone
        rw [hline] at hword
        cases hword
    | woken _ turn =>
        rw [hline] at turn
        cases turn
  obtain ⟨hconsumer, hrest⟩ := not_or.mp hdone
  obtain ⟨hstopper, hfailed⟩ := not_or.mp hrest
  have hconsumer : x.consumer = .waiting := by
    rcases g.consumerTurn.waits_or_ready_or_ended
      with hc | ⟨-, hturn⟩ | ⟨c, hc⟩
    · exact hc
    · rw [hline] at hturn
      cases hturn
    · exact absurd (by simp [hc, Task.result?]) hconsumer
  have hstopper : x.stopper = .waiting := by
    rcases g.stopperTurn.waits_or_ready_or_ended
      with hs | ⟨-, hturn⟩ | ⟨result, hs⟩
    · exact hs
    · rw [hline] at hturn
      cases hturn
    · exact absurd (by simp [hs, Task.result?]) hstopper
  constructor
  · rintro (hstop | ⟨fault, hfault⟩)
    · exact g.stopper.mp hstopper (hscript ▸ hstop)
    · refine hfailed ⟨fault, ?_⟩
      rw [g.subscription, ← hscript, hfault]
      rfl
  · have htaken : events script = taken := by
      rw [hscript, g.received, g.idle hconsumer, List.append_nil]
    have happlied := g.applied
    rw [hconsumer] at happlied
    exact htaken ▸ happlied.passes

/-- Once its main task has left the loop, a run can only stop while the
source is being given up. -/
theorem Leaving.leaving_of_stuck (l : x.Leaving s script h ending)
    (hline : x.line = []) : x.phase = .leaving ending := by
  have hconsumer := l.consumer
  have hstopper := l.stopper
  rw [hline] at hconsumer hstopper
  cases l.retreats with
  | gathering phase owed =>
      rw [hline, hconsumer.owed_eq_zero, hstopper.owed_eq_zero] at owed
      cases owed
  | leaving phase => exact phase
  | gathered phase turn =>
      rw [hline] at turn
      cases turn
  | left phase turn =>
      rw [hline] at turn
      cases turn

/-- A run that the script or the events end is over, or goes on. -/
theorem Sound.over_or_step (hx : x.Sound s script h)
    (hends : Closed script ∨ ¬ Passes s (events script) h) :
    x.isOver = true ∨ ∃ y, Step s x y := by
  cases hover : x.isOver with
  | true => exact Or.inl rfl
  | false =>
  refine Or.inr ?_
  cases hline : x.line with
  | cons t rest => exact ⟨_, .turns hover hline⟩
  | nil =>
  cases hpending : x.pending with
  | cons a rest => exact ⟨_, .arrives hover hpending⟩
  | nil =>
  cases hx with
  | going g =>
      obtain ⟨hopen, hpasses⟩ := g.open_of_stuck hline hpending
      rcases hends with hclosed | hno
      · exact absurd hclosed hopen
      · exact absurd hpasses hno
  | leaving l => exact ⟨_, .released (l.leaving_of_stuck hline)⟩
  | closed ended requests closed =>
      rw [closed, isOver_close] at hover
      cases hover

/-- Whatever happens next, the run comes to its end. -/
inductive Finishes (s : Settings) : Loop → Prop
  | ended {x : Loop} (ended : x.isOver = true) : Finishes s x
  | goes {x : Loop} (goes : ∃ y, Step s x y)
      (all : ∀ y, Step s x y → Finishes s y) : Finishes s x

/-- Every run that the script or the events end comes to its end. The
induction is on the weight. -/
theorem Sound.finishes (hx : x.Sound s script h)
    (hends : Closed script ∨ ¬ Passes s (events script) h) :
    Finishes s x := by
  induction hw : x.weight using Nat.strongRecOn generalizing x with
  | ind n ih =>
      rcases hx.over_or_step hends with hover | hstep
      · exact .ended hover
      · exact .goes hstep fun y hy =>
          ih y.weight (hw ▸ hy.lighter) (hx.step hy) rfl

-- ========================================================== the run itself

theorem isOver_eq_false (hx : ∀ result, x.phase ≠ .over result) :
    x.isOver = false := by
  unfold isOver
  split
  · next result hphase => exact absurd hphase (hx result)
  · rfl

theorem step_of_next (hn : x.next s = some y) : Step s x y := by
  unfold next at hn
  split at hn
  · cases hn
  · next hline hgoing =>
      cases hn
      exact .turns (isOver_eq_false hgoing) hline
  · next hphase _ =>
      cases hn
      exact .released hphase
  · next hline hpending hgoing _ =>
      cases hn
      exact .arrives (isOver_eq_false hgoing) hpending
  · cases hn

/-- As long as something can happen `next` does something. -/
theorem isSome_next (hs : Step s x y) : (x.next s).isSome = true := by
  unfold next
  split
  · next hphase =>
      cases hs with
      | arrives going => simp [isOver, hphase] at going
      | turns going => simp [isOver, hphase] at going
      | released phase => cases hphase.symm.trans phase
  · rfl
  · rfl
  · rfl
  · next hline hpending hgoing hleaving =>
      cases hs with
      | arrives going pending => cases hpending.symm.trans pending
      | turns going line => cases hline.symm.trans line
      | released phase => exact absurd phase (hleaving _)

/-- So many steps as the run weighs lead to its end. The induction is on
the steps. -/
theorem Sound.play_over (hx : x.Sound s script h)
    (hends : Closed script ∨ ¬ Passes s (events script) h) (steps : Nat)
    (hsteps : x.weight ≤ steps) :
    Relation.ReflTransGen (Step s) x (x.play s steps)
      ∧ (x.play s steps).isOver = true := by
  induction steps generalizing x with
  | zero =>
      rcases hx.over_or_step hends with hover | ⟨y, hy⟩
      · exact ⟨.refl, hover⟩
      · exact absurd (Nat.lt_of_lt_of_le hy.lighter hsteps)
          (Nat.not_lt_zero _)
  | succ steps ih =>
      unfold play
      split
      · next y hnext =>
          have hy := step_of_next hnext
          obtain ⟨hsteps', hover⟩ := ih (hx.step hy)
            (Nat.le_of_lt_succ (Nat.lt_of_lt_of_le hy.lighter hsteps))
          exact ⟨.head hy hsteps', hover⟩
      · next hnone =>
          rcases hx.over_or_step hends with hover | ⟨y, hy⟩
          · exact ⟨.refl, hover⟩
          · have := isSome_next hy
            rw [hnone] at this
            cases this

end Loop

end TreeReplica.Run
