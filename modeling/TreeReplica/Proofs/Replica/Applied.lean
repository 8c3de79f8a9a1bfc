/-
Events that a run applies one after the other. An event ends a run if its
application stops, or if it completes the initial events and the run was
told to exit then. `Applied` says what the consumer has done so far: it
has applied some events none of which ends the run, and it goes on, or one
more event, which did. Each round of the consumer goes on from there
(`Applied.extend`).
-/
import TreeReplica.Proofs.Replica.Guard
import TreeReplica.Replica.Run

namespace TreeReplica

namespace Replica

/-- The host after an event, whether or not its application stopped. -/
def leave (r : Replica) (h : Host) (e : Event) : Host :=
  match r.apply e h with
  | .ok _ h' => h'
  | .error _ h' => h'

/-- The host after events that were applied one after the other. -/
def after (r : Replica) (events : List Event) (h : Host) : Host :=
  events.foldl r.leave h

theorem after_concat (r : Replica) (events : List Event) (e : Event)
    (h : Host) :
    r.after (events ++ [e]) h = r.leave (r.after events h) e := by
  simp [after]

/-- However the events end, the disk keeps what calls below the root
keep. -/
theorem after_keeps {P : Disk → Prop} (r : Replica)
    (hg : Guards r.root P) (hp : IsSegment r.payload) (events : List Event)
    {h : Host} (hP : P h.disk) : P (r.after events h).disk := by
  induction events generalizing h with
  | nil => exact hP
  | cons e rest ih =>
      have hl := apply_respects hg hp e h hP
      refine ih ?_
      unfold leave
      cases ha : r.apply e h with
      | ok u h' =>
          rw [ha] at hl
          exact hl
      | error halt h' =>
          rw [ha] at hl
          exact hl

end Replica

namespace Run

variable {s : Settings} {h h' : Host} {e : Event} {used : List Event}
  {c : Option Conclusion}

-- ============================================================ what ends it

/-- The application of the event stops with a failure. -/
def Raises (s : Settings) (e : Event) (h : Host) : Prop :=
  ∃ halt h', s.replica.apply e h = .error halt h'

/-- The event ends a run: its application stops with a failure, or the
initial events are complete and the run was told to exit then. -/
def Ends (s : Settings) (e : Event) (h : Host) : Prop :=
  Raises s e h ∨ s.exitAfterSync = true ∧ e.kind = .initialized

/-- None of the events ends the run when they are applied in order. -/
def Passes (s : Settings) (events : List Event) (h : Host) : Prop :=
  ∀ before e rest, events = before ++ e :: rest →
    ¬ Ends s e (s.replica.after before h)

theorem passes_nil (h : Host) : Passes s [] h := by
  intro before e rest heq
  simp at heq

theorem Passes.concat (hp : Passes s used h)
    (he : ¬ Ends s e (s.replica.after used h)) :
    Passes s (used ++ [e]) h := by
  intro before x rest heq
  rcases List.eq_nil_or_concat rest with rfl | ⟨rest, y, rfl⟩
  · obtain ⟨rfl, hx⟩ := List.append_inj' heq rfl
    cases hx
    exact he
  · rw [List.concat_eq_append, ← List.cons_append, ← List.append_assoc]
      at heq
    exact hp before x rest (List.append_inj' heq rfl).1

theorem passes_cons (he : ¬ Ends s e h)
    (hp : Passes s used (s.replica.leave h e)) :
    Passes s (e :: used) h := by
  intro before x rest heq
  cases before with
  | nil =>
      cases heq
      exact he
  | cons y before =>
      cases heq
      exact hp before x rest rfl

/-- Only one event of a list is the first that ends the run. -/
theorem first_end_unique {a b all : List Event} {e' : Event}
    (ha : Passes s a h) (hea : Ends s e (s.replica.after a h))
    (hb : Passes s b h) (heb : Ends s e' (s.replica.after b h))
    (hea' : a ++ [e] <+: all) (heb' : b ++ [e'] <+: all) :
    a ++ [e] = b ++ [e'] := by
  rcases List.prefix_or_prefix_of_prefix hea' heb' with hle | hle
  · rcases List.prefix_concat_iff.mp hle with heq | ⟨rest, rfl⟩
    · exact heq
    · rw [List.append_assoc] at hb
      exact absurd hea (hb a e rest rfl)
  · rcases List.prefix_concat_iff.mp hle with heq | ⟨rest, rfl⟩
    · exact heq.symm
    · rw [List.append_assoc] at ha
      exact absurd heb (ha b e' rest rfl)

-- ============================================================= what is done

/-- What was applied from the host `h` on, whether that ended the run, and
the host that it left. -/
inductive Applied (s : Settings) (h : Host) :
    List Event → Option Conclusion → Host → Prop
  | all {used : List Event} (passes : Passes s used h) :
      Applied s h used none (s.replica.after used h)
  | halted {before : List Event} {e : Event} {halt : Halt} {h' : Host}
      (passes : Passes s before h)
      (raised : s.replica.apply e (s.replica.after before h)
        = .error halt h') :
      Applied s h (before ++ [e]) (some (.halted halt)) h'
  | synced {before : List Event} {e : Event} {h' : Host}
      (passes : Passes s before h)
      (applied : s.replica.apply e (s.replica.after before h) = .ok () h')
      (exits : s.exitAfterSync = true) (complete : e.kind = .initialized) :
      Applied s h (before ++ [e]) (some .synced)
        { h' with log := h'.log ++ [⟨.info, exiting⟩] }

/-- As long as the consumer goes on nothing has ended the run. -/
theorem Applied.passes (ha : Applied s h used none h') :
    Passes s used h := by
  cases ha with
  | all passes => exact passes

/-- Whatever ends the consumer is the first event that ends the run. -/
theorem Applied.ends {conclusion : Conclusion}
    (ha : Applied s h used (some conclusion) h') :
    ∃ before e, used = before ++ [e] ∧ Passes s before h
      ∧ Ends s e (s.replica.after before h) := by
  cases ha with
  | halted passes raised =>
      exact ⟨_, _, rfl, passes, Or.inl ⟨_, _, raised⟩⟩
  | synced passes applied exits complete =>
      exact ⟨_, _, rfl, passes, Or.inr ⟨exits, complete⟩⟩

/-- A halt is that of the last event. -/
theorem Applied.raised {halt : Halt} {before : List Event}
    (ha : Applied s h used (some (.halted halt)) h')
    (hused : used = before ++ [e]) :
    s.replica.apply e (s.replica.after before h) = .error halt h' := by
  cases ha with
  | halted passes raised =>
      obtain ⟨rfl, he⟩ := List.append_inj' hused rfl
      cases he
      exact raised

/-- What the consumer itself reports at its end. -/
def Conclusion.note : Option Conclusion → Log
  | some .synced => [⟨.info, exiting⟩]
  | _ => []

/-- What is left is the disk and the reports of the events. -/
theorem Applied.host (ha : Applied s h used c h') :
    h'.disk = (s.replica.after used h).disk
      ∧ h'.log = (s.replica.after used h).log ++ Conclusion.note c := by
  cases ha with
  | all passes => exact ⟨rfl, (List.append_nil _).symm⟩
  | @halted before e halt h' passes raised =>
      have hleave : s.replica.after (before ++ [e]) h = h' := by
        rw [Replica.after_concat, Replica.leave, raised]
      rw [hleave]
      exact ⟨rfl, (List.append_nil _).symm⟩
  | @synced before e h' passes applied exits complete =>
      have hleave : s.replica.after (before ++ [e]) h = h' := by
        rw [Replica.after_concat, Replica.leave, applied]
      rw [hleave]
      exact ⟨rfl, rfl⟩

/-- The consumer goes on with the events of its queue: it takes some of
them, and all if that does not end it. The induction is on the queue. -/
theorem Applied.extend (ha : Applied s h used none h') (queue : List Event)
    (synced : Bool) :
    ∃ more, queue = more ++ (applyAll s queue synced h').queue
      ∧ Applied s h (used ++ more) (applyAll s queue synced h').conclusion
        (applyAll s queue synced h').host
      ∧ ((applyAll s queue synced h').conclusion = none →
        (applyAll s queue synced h').queue = []) := by
  induction queue generalizing used synced h' with
  | nil => exact ⟨[], rfl, by rwa [List.append_nil], fun _ => rfl⟩
  | cons e rest ih =>
      cases ha with
      | all passes =>
      cases happly : s.replica.apply e (s.replica.after used h) with
      | error halt host =>
          rw [applyAll, happly]
          exact ⟨[e], rfl, .halted passes happly, fun hno => nomatch hno⟩
      | ok u host =>
          by_cases hstop : s.exitAfterSync = true ∧ e.kind = .initialized
          · rw [applyAll, happly]
            simp only [hstop, if_true]
            exact ⟨[e], rfl, .synced passes happly hstop.1 hstop.2,
              fun hno => nomatch hno⟩
          -- the event is passed over, from the host that it left
          have hpass : ¬ Ends s e (s.replica.after used h) := by
            rintro (⟨halt, host', hraise⟩ | hsync)
            · exact nomatch happly.symm.trans hraise
            · exact hstop hsync
          obtain ⟨synced', hmore⟩ : ∃ synced',
              applyAll s (e :: rest) synced (s.replica.after used h)
                = applyAll s rest synced' host := by
            rw [applyAll, happly]
            by_cases hkind : e.kind = .initialized
            · exact ⟨true, by simp_all⟩
            · exact ⟨synced, by simp only [hkind, if_false]⟩
          have hleave : s.replica.after (used ++ [e]) h = host := by
            rw [Replica.after_concat, Replica.leave, happly]
          have hnext : Applied s h (used ++ [e]) none host :=
            hleave ▸ .all (passes.concat hpass)
          obtain ⟨more, hqueue, hend, hall⟩ := ih hnext synced'
          rw [hmore]
          refine ⟨e :: more, by rw [List.cons_append, ← hqueue], ?_, hall⟩
          rwa [List.append_assoc, List.singleton_append] at hend

end Run

end TreeReplica
