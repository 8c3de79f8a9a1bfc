/-
Every step makes a run lighter (`Step.lighter`), so none goes on for ever.

A turn weighs more than all that it puts into the line: what arrives weighs
more than the turn that it asks for, that turn more than the word that
something has ended, and that word more than the main task's turn. When
the main task has seen enough it cancels and gathers, which takes at most
eight; so much is set aside for that as long as it waits.
-/
import TreeReplica.Replica.Run

namespace TreeReplica.Run

namespace Loop

variable {s : Settings} {x y : Loop}

theorem lineWeight_append (line more : List Turn) :
    lineWeight (line ++ more) = lineWeight line + lineWeight more := by
  induction line with
  | nil => exact (Nat.zero_add _).symm
  | cons t line ih =>
      rw [List.cons_append, lineWeight, lineWeight, ih, Nat.add_assoc]

/-- A turn that is asked for. -/
@[simp] theorem lineWeight_ask (line : List Turn) (t : Turn) :
    lineWeight (line ++ [t]) = lineWeight line + turnWeight t :=
  lineWeight_append line [t]

-- ================================================================ arrivals

theorem weight_put (e : Event) (x : Loop) :
    (x.put e).weight ≤ x.weight + 3 := by
  unfold put
  split <;> simp [weight, turnWeight] <;> omega

theorem weight_settle (failure : Option Remote.Fault) (x : Loop) :
    (x.settle failure).weight ≤ x.weight + 2 := by
  unfold settle
  split <;> simp [weight, turnWeight] <;> omega

theorem weight_stop (x : Loop) : x.stop.weight ≤ x.weight + 3 := by
  unfold stop
  split <;> simp [weight, turnWeight] <;> omega

theorem weight_arrive (a : Arrival) (x : Loop) :
    (x.arrive a).weight ≤ x.weight + 3 := by
  cases a with
  | event e => exact x.weight_put e
  | subscribed failure => exact Nat.le_succ_of_le (x.weight_settle failure)
  | stop => exact x.weight_stop

-- =================================================================== tasks

theorem weight_consume (s : Settings) (x : Loop) :
    (x.consume s).weight ≤ x.weight + 2 := by
  unfold consume
  split
  · unfold round
    split <;> simp [weight, turnWeight] <;> omega
  · simp [weight, turnWeight]
    omega
  · omega

theorem weight_endStopper (x : Loop) :
    x.endStopper.weight ≤ x.weight + 2 := by
  unfold endStopper
  split <;> simp [weight, turnWeight] <;> omega

-- =========================================================== the main task

theorem weight_wake (x : Loop) : x.wake.weight ≤ x.weight + 1 := by
  unfold wake
  split
  · next hphase => simp [weight, turnWeight, phaseWeight, hphase]; omega
  · omega

theorem weight_gather (x : Loop) : x.gather.weight ≤ x.weight + 1 := by
  unfold gather
  split
  · next hphase => simp [weight, phaseWeight, hphase]
  · next hphase => simp [weight, turnWeight, phaseWeight, hphase]; omega
  · omega

/-- What a task needs to be cancelled and gathered. -/
theorem weight_turns {α : Type} (own : Turn) (hown : turnWeight own = 3)
    (task : Task α) :
    lineWeight (task.cancelTurn own) + lineWeight task.gatherTurn ≤ 3 := by
  cases task <;>
    simp [Task.cancelTurn, Task.gatherTurn, lineWeight, hown] <;> decide

theorem weight_leave (ending : Host → Ending × Host)
    (hphase : x.phase = .woken) : (x.leave ending).weight ≤ x.weight := by
  have hconsumer := weight_turns .consumer rfl x.consumer
  have hstopper := weight_turns .stopper rfl x.stopper
  simp only [leave, weight, phaseWeight, hphase, lineWeight_append,
    lineWeight, turnWeight]
  omega

theorem weight_look (s : Settings) (hphase : x.phase = .woken) :
    (x.look s).weight ≤ x.weight := by
  unfold look
  split
  · exact weight_leave _ hphase
  · split
    · exact weight_leave _ hphase
    · split
      · exact weight_leave _ hphase
      · simp [weight, phaseWeight, hphase]

theorem weight_close (s : Settings) (ending : Ending) (x : Loop) :
    (x.close s ending).weight ≤ x.weight := by
  unfold close
  split
  · simp [weight, phaseWeight]
  · split <;> simp [weight, phaseWeight]

theorem weight_goOn (s : Settings) (x : Loop) :
    (x.goOn s).weight ≤ x.weight := by
  unfold goOn
  split
  · next hphase => exact weight_look s hphase
  · next hphase => simp [weight, phaseWeight, hphase]
  · exact x.weight_close s _
  · exact Nat.le_refl _

-- =================================================================== steps

/-- A turn weighs more than what it leads to. -/
theorem weight_turn (s : Settings) (t : Turn) (x : Loop) :
    (x.turn s t).weight < x.weight + turnWeight t := by
  cases t with
  | arrival a => exact Nat.lt_succ_of_le (x.weight_arrive a)
  | consumer => exact Nat.lt_succ_of_le (x.weight_consume s)
  | stopper => exact Nat.lt_succ_of_le x.weight_endStopper
  | finished what => exact Nat.lt_succ_of_le x.weight_wake
  | gathered => exact Nat.lt_succ_of_le x.weight_gather
  | main => exact Nat.lt_succ_of_le (x.weight_goOn s)

/-- Every step makes a run lighter. -/
theorem Step.lighter (h : Step s x y) : y.weight < x.weight := by
  cases h with
  | arrives going pending =>
      simp [receive, weight, turnWeight, pending]
      omega
  | @turns t rest going line =>
      have hturn := weight_turn s t { x with line := rest }
      refine Nat.lt_of_lt_of_le hturn (Nat.le_of_eq ?_)
      simp only [weight, line, lineWeight]
      omega
  | released phase =>
      simp [release, weight, turnWeight, phaseWeight, phase]
      omega

end Loop

end TreeReplica.Run
