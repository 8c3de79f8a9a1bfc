/-
A run while its main task still waits.

`Going` says how such a run stands: what has arrived so far, which of the
events the consumer has taken, and who has a turn in the line. Whoever has
something to do has a turn, and the main task does not hear of anything
that ends the run before the consumer has caught up. There is one lemma
for each turn.
-/
import TreeReplica.Proofs.Replica.Applied
import TreeReplica.Proofs.Replica.Script

namespace TreeReplica.Run

variable {s : Settings} {h : Host} {script past : List Arrival}
  {taken : List Event}

-- ================================================================= states

namespace Task

variable {α : Type} {own : Turn} {line line' : List Turn} {task : Task α}

/-- What a task ended with, if it did. -/
def result? : Task α → Option α
  | .ended result => some result
  | _ => none

@[simp] theorem result?_waiting : (waiting : Task α).result? = none := rfl

@[simp] theorem result?_ready : (ready : Task α).result? = none := rfl

/-- A task that nobody cancelled. When it is ready its turn is in the
line. -/
def Alive (own : Turn) (line : List Turn) : Task α → Prop
  | .ready => own ∈ line
  | .cancelling => False
  | .cancelled => False
  | _ => True

theorem Alive.mono (ha : task.Alive own line)
    (hline : own ∈ line → own ∈ line') : task.Alive own line' := by
  cases task <;> first | exact hline ha | exact ha

theorem Alive.tail {t : Turn} (ha : task.Alive own (t :: line))
    (hne : own ≠ t) : task.Alive own line :=
  ha.mono fun hmem => (List.mem_cons.mp hmem).resolve_left hne

/-- It waits, or is ready and has its turn, or has ended. -/
theorem Alive.waits_or_ready_or_ended (ha : task.Alive own line) :
    task = .waiting ∨ task = .ready ∧ own ∈ line
      ∨ ∃ result, task = .ended result := by
  cases task with
  | waiting => exact Or.inl rfl
  | ready => exact Or.inr (Or.inl ⟨rfl, ha⟩)
  | ended result => exact Or.inr (Or.inr ⟨result, rfl⟩)
  | cancelling => exact ha.elim
  | cancelled => exact ha.elim

end Task

/-- What has become of a subscription that ended so, if it did. -/
def Subscription.settledBy : Option (Option Remote.Fault) → Subscription
  | none => .pending
  | some failure => .settled failure

namespace Loop

variable {x y : Loop} {rest : List Turn} {e : Event} {C D : Prop}

/-- What is still to take effect, in the order in which it will. -/
def coming (x : Loop) : List Arrival :=
  x.line.filterMap Turn.arrival? ++ x.pending

/-- A turn that is asked for lets nothing arrive. -/
theorem arrivals_ask {t : Turn} (ht : t.arrival? = none) :
    (rest ++ [t]).filterMap Turn.arrival? = rest.filterMap Turn.arrival? := by
  simp [List.filterMap_append, ht]

/-- Something has ended that ends the run. -/
def Done (x : Loop) : Prop :=
  x.consumer.result? ≠ none ∨ x.stopper.result? ≠ none
    ∨ ∃ fault, x.subscription = .settled (some fault)

/-- The consumer is at its end, or has taken what it has to take. -/
def CaughtUp (script : List Arrival) (taken : List Event) (x : Loop) :
    Prop :=
  x.consumer.result? ≠ none ∨ Takes script taken

/-- Where nothing has ended the run the main task waits again. -/
theorem look_eq (s : Settings) (hdone : ¬ x.Done) :
    x.look s = { x with phase := .waiting } := by
  unfold look
  split
  · next fault hfault => exact absurd (Or.inr (Or.inr ⟨fault, hfault⟩)) hdone
  · split
    · next c hc => exact absurd (Or.inl (by simp [hc, Task.result?])) hdone
    · split
      · next hc =>
          exact absurd (Or.inr (Or.inl (by simp [hc, Task.result?]))) hdone
      · rfl

/-- The main task waits, and will be told if something ends the run; or it
was told of something, and will have its turn. -/
inductive Attends (past : List Arrival) (C : Prop) (x : Loop) : Prop
  | waiting (phase : x.phase = .waiting)
      (word : x.Done → ∃ what, .finished what ∈ x.line)
  | woken (phase : x.phase = .woken) (turn : .main ∈ x.line)
      (heard : settlement past = some none ∨ C)

/-- The main task goes on to attend while others do something. -/
theorem Attends.keep {later : List Arrival} (ha : x.Attends past C)
    (hphase : y.phase = x.phase) (hline : x.line <+: y.line)
    (hheard : settlement past = some none ∨ C →
      settlement later = some none ∨ D)
    (hdone : y.Done → x.Done ∨ ∃ what, .finished what ∈ y.line) :
    y.Attends later D := by
  cases ha with
  | waiting phase word =>
      refine .waiting (hphase.trans phase) fun hy => ?_
      rcases hdone hy with hx | hword
      · exact (word hx).imp fun _ hw => hline.subset hw
      · exact hword
  | woken phase turn heard =>
      exact .woken (hphase.trans phase) (hline.subset turn) (hheard heard)

/-- The main task goes on to attend when a turn is taken that is neither its
own nor a word to it. -/
theorem Attends.tail {t : Turn} (ha : x.Attends past C)
    (hline : x.line = t :: rest) (hmain : .main ≠ t)
    (hword : ∀ what, .finished what ≠ t) :
    ({ x with line := rest } : Loop).Attends past C := by
  cases ha with
  | waiting phase word =>
      refine .waiting phase fun hdone => (word hdone).imp fun what hw => ?_
      rw [hline] at hw
      exact (List.mem_cons.mp hw).resolve_left (hword what)
  | woken phase turn heard =>
      rw [hline] at turn
      exact .woken phase ((List.mem_cons.mp turn).resolve_left hmain) heard

/-- How a run stands that started on the host `h`, when the arrivals
`past` have taken effect, the consumer has taken the events `taken`, and
the main task has not left the loop. -/
structure Going (s : Settings) (script : List Arrival) (h : Host)
    (past : List Arrival) (taken : List Event) (x : Loop) : Prop where
  history : script = past ++ x.coming
  received : events past = taken ++ x.queue
  requests : x.account.requests = [.subscribe s.base]
  applied : Applied s h taken x.consumer.result? x.host
  idle : x.consumer = .waiting → x.queue = []
  subscription : x.subscription = .settledBy (settlement past)
  stopper : x.stopper = .waiting ↔ .stop ∉ past
  halted : x.stopper.result? ≠ none → x.CaughtUp script taken
  consumerTurn : x.consumer.Alive .consumer x.line
  stopperTurn : x.stopper.Alive .stopper x.line
  told : Told past (x.CaughtUp script taken) x.line
  attends : x.Attends past (x.CaughtUp script taken)

/-- At the start nothing has happened. -/
theorem going_start (s : Settings) (script : List Arrival) (h : Host) :
    (start s script h).Going s script h [] [] where
  history := rfl
  received := rfl
  requests := rfl
  applied := .all (passes_nil h)
  idle _ := rfl
  subscription := rfl
  stopper := by simp [start]
  halted hno := absurd rfl hno
  consumerTurn := trivial
  stopperTurn := trivial
  told := ⟨by simp [start], by simp [start, early], by simp [start]⟩
  attends := .waiting rfl fun hdone => by
    simp [Done, start, Task.result?] at hdone

namespace Going

variable (g : x.Going s script h past taken)

-- ========================================================= the rest of it

variable {t : Turn}

include g in
theorem consumer_tail (hline : x.line = t :: rest) (hne : .consumer ≠ t) :
    x.consumer.Alive .consumer rest :=
  (hline ▸ g.consumerTurn).tail hne

include g in
theorem stopper_tail (hline : x.line = t :: rest) (hne : .stopper ≠ t) :
    x.stopper.Alive .stopper rest :=
  (hline ▸ g.stopperTurn).tail hne

include g in
theorem told_tail (hline : x.line = t :: rest) (hne : t ≠ .consumer) :
    Told past (x.CaughtUp script taken) rest :=
  (hline ▸ g.told).tail hne

include g in
theorem history_rest (hline : x.line = t :: rest)
    (ht : t.arrival? = none) :
    script = past ++ (rest.filterMap Turn.arrival? ++ x.pending) := by
  rw [g.history, coming, hline, List.filterMap_cons_none ht]

include g in
/-- A turn is taken that changes nothing. -/
theorem pass (hline : x.line = t :: rest) (ht : t.arrival? = none)
    (hsame : x.take s t rest = { x with line := rest })
    (hconsumer : x.consumer.Alive .consumer rest)
    (hstopper : x.stopper.Alive .stopper rest)
    (htold : Told past (x.CaughtUp script taken) rest)
    (hattends : ({ x with line := rest } : Loop).Attends past
      (x.CaughtUp script taken)) :
    (x.take s t rest).Going s script h past taken := by
  rw [hsame]
  exact
    { g with
      history := g.history_rest hline ht
      consumerTurn := hconsumer
      stopperTurn := hstopper
      told := htold
      attends := hattends }

-- =============================================================== arrivals

include g in
/-- Something arrives. -/
theorem receive {a : Arrival} {more : List Arrival}
    (hpending : x.pending = a :: more) :
    (x.receive a more).Going s script h past taken where
  history := by
    rw [g.history]
    simp [coming, Loop.receive, hpending, Turn.arrival?]
  received := g.received
  requests := g.requests
  applied := g.applied
  idle := g.idle
  subscription := g.subscription
  stopper := g.stopper
  halted := g.halted
  consumerTurn := g.consumerTurn.mono (List.mem_append_left _)
  stopperTurn := g.stopperTurn.mono (List.mem_append_left _)
  told := g.told.ask (fun hs => hs.elim) (fun heq => nomatch heq)
  attends := by
    cases g.attends with
    | waiting phase word =>
        exact .waiting phase fun hdone =>
          (word hdone).imp fun _ => List.mem_append_left _
    | woken phase turn heard =>
        exact .woken phase (List.mem_append_left _ turn) heard

include g in
/-- Whatever closes the script comes after the consumer's turn, if there is
anything left to take. -/
theorem caughtUp_or_turn {a : Arrival} (hline : x.line = .arrival a :: rest)
    (hevent : a.event? = none) (hc : Closed (past ++ [a])) :
    x.CaughtUp script taken ∨ .consumer ∈ rest := by
  rcases g.consumerTurn.waits_or_ready_or_ended
    with hconsumer | ⟨-, hturn⟩ | ⟨c, hconsumer⟩
  · have htaken : events (past ++ [a]) = taken := by
      have hreceived := g.received
      rw [g.idle hconsumer, List.append_nil] at hreceived
      simp [events, hevent, ← hreceived]
    refine Or.inl (Or.inr (htaken ▸ takes_of_closed ?_ hc))
    rw [g.history, coming, hline]
    exact ⟨rest.filterMap Turn.arrival? ++ x.pending, by simp [Turn.arrival?]⟩
  · exact Or.inr (by simpa [hline] using hturn)
  · exact Or.inl (Or.inl (by simp [hconsumer, Task.result?]))

include g in
/-- The line that is left when something arrived. -/
theorem rest_of_arrival {a : Arrival}
    (hline : x.line = .arrival a :: rest) :
    script = (past ++ [a]) ++ (rest.filterMap Turn.arrival? ++ x.pending)
      ∧ x.consumer.Alive .consumer rest ∧ x.stopper.Alive .stopper rest
      ∧ Told past (x.CaughtUp script taken) rest
      ∧ ({ x with line := rest }).Attends past (x.CaughtUp script taken) := by
  refine ⟨?_, g.consumer_tail hline (by simp), g.stopper_tail hline (by simp),
    g.told_tail hline (by simp), g.attends.tail hline (by simp) (by simp)⟩
  rw [g.history, coming, hline]
  simp [Turn.arrival?]

include g in
/-- Something arrives that is only noted: nobody gets a turn by it. -/
theorem note {a : Arrival} (hline : x.line = .arrival a :: rest)
    (queue : List Event) (account : Account)
    (hreceived : events (past ++ [a]) = taken ++ queue)
    (hrequests : account.requests = [.subscribe s.base])
    (hidle : x.consumer = .waiting → queue = [])
    (hsettled : settlement (past ++ [a]) = settlement past)
    (hstop : a = .stop → x.stopper ≠ .waiting) :
    ({ x with queue := queue, account := account, line := rest } :
      Loop).Going s script h (past ++ [a]) taken := by
  obtain ⟨hhistory, hconsumer, hstopper, htold, hattends⟩ :=
    g.rest_of_arrival hline
  exact
    { g with
      history := hhistory
      received := hreceived
      requests := hrequests
      idle := hidle
      subscription := by rw [hsettled]; exact g.subscription
      stopper := by
        rw [List.mem_append, not_or, List.mem_singleton]
        exact ⟨fun hw => ⟨g.stopper.mp hw, fun ha => hstop ha.symm hw⟩,
          fun hno => g.stopper.mpr hno.1⟩
      consumerTurn := hconsumer
      stopperTurn := hstopper
      told := htold.arrive fun hf => by rwa [Failed, hsettled] at hf
      attends := hattends.keep rfl (List.prefix_refl _)
        (by rw [hsettled]; exact id) Or.inl }

include g in
/-- An event arrives. -/
theorem put (hline : x.line = .arrival (.event e) :: rest) :
    (x.take s (.arrival (.event e)) rest).Going s script h
      (past ++ [.event e]) taken := by
  obtain ⟨hhistory, hconsumer, hstopper, htold, hattends⟩ :=
    g.rest_of_arrival hline
  have hsettled : settlement (past ++ [.event e]) = settlement past := by
    simp [settlement, Arrival.settlement?]
  have hreceived : events (past ++ [.event e])
      = taken ++ (x.queue ++ [e]) := by
    rw [events_append, g.received, List.append_assoc]
    rfl
  have htold : Told (past ++ [.event e]) (x.CaughtUp script taken) rest :=
    htold.arrive fun hf => by rwa [Failed, hsettled] at hf
  by_cases hc : x.consumer = .waiting
  · have hy : x.take s (.arrival (.event e)) rest
        = { x with
            queue := x.queue ++ [e], consumer := .ready
            line := rest ++ [.consumer] } := by
      simp [take, turn, arrive, Loop.put, hc]
    have happlied := g.applied
    have hcaught : x.CaughtUp script taken → Takes script taken := by
      simp [CaughtUp, hc, Task.result?]
    rw [hc] at happlied
    rw [hy]
    exact
      { g with
        history := by rw [hhistory, coming, arrivals_ask rfl]
        received := hreceived
        applied := happlied
        idle := fun hno => nomatch hno
        subscription := by rw [hsettled]; exact g.subscription
        stopper := by simpa using g.stopper
        halted := fun hs => Or.inr (hcaught (g.halted hs))
        consumerTurn := by simp [Task.Alive]
        stopperTurn := hstopper.mono (List.mem_append_left _)
        told := (htold.imp fun h => Or.inr (hcaught h)).ask
          (fun hs => hs.elim) (fun hno => nomatch hno)
        attends := hattends.keep rfl (List.prefix_append _ _)
          (by rw [hsettled]; exact Or.imp_right fun h => Or.inr (hcaught h))
          fun hdone => Or.inl (by simpa [Done, hc] using hdone) }
  · have hy : x.take s (.arrival (.event e)) rest
        = { x with queue := x.queue ++ [e], line := rest } := by
      simp only [take, turn, arrive, Loop.put]
    rw [hy]
    exact g.note hline _ _ hreceived g.requests (fun hno => absurd hno hc)
      hsettled nofun

include g in
/-- The call that subscribes comes to its end. -/
theorem settle {failure : Option Remote.Fault}
    (hline : x.line = .arrival (.subscribed failure) :: rest) :
    (x.take s (.arrival (.subscribed failure)) rest).Going s script h
      (past ++ [.subscribed failure]) taken := by
  obtain ⟨hhistory, hconsumer, hstopper, htold, hattends⟩ :=
    g.rest_of_arrival hline
  have hreceived : events (past ++ [.subscribed failure])
      = taken ++ x.queue := by
    rw [events_append, g.received]
    exact List.append_nil _
  have hsubscription := g.subscription
  cases hsettled : settlement past with
  | none =>
      rw [hsettled] at hsubscription
      have hlater : settlement (past ++ [.subscribed failure])
          = some failure := by
        rw [settlement_append, hsettled]
        rfl
      have hy : x.take s (.arrival (.subscribed failure)) rest
          = { x with
              subscription := .settled failure
              line := rest ++ [.finished .subscription] } := by
        simp [take, turn, arrive, Loop.settle, hsubscription,
          Subscription.settledBy]
      have htold' : Told (past ++ [.subscribed failure])
          (x.CaughtUp script taken) (rest ++ [.finished .subscription]) := by
        cases failure with
        | none =>
            have hfine : ¬ Failed (past ++ [.subscribed none]) := by
              rintro ⟨fault, hfault⟩
              cases hlater.symm.trans hfault
            exact (htold.arrive fun hf => absurd hf hfine).ask
              (fun hs => absurd hs hfine) fun _ => by simp [hlater]
        | some fault =>
            have hclosed : Closed (past ++ [.subscribed (some fault)]) :=
              Or.inr ⟨fault, hlater⟩
            exact htold.close hclosed
              (g.caughtUp_or_turn hline rfl hclosed)
              (fun _ => Or.inr fun hword => htold.settled hword hsettled)
              fun _ => by simp [hlater]
      rw [hy]
      exact
        { g with
          history := by rw [hhistory, coming, arrivals_ask rfl]
          received := hreceived
          subscription := by rw [hlater]; rfl
          stopper := by simpa using g.stopper
          consumerTurn := hconsumer.mono (List.mem_append_left _)
          stopperTurn := hstopper.mono (List.mem_append_left _)
          told := htold'
          attends := hattends.keep rfl (List.prefix_append _ _)
            (fun heard => Or.inr (heard.resolve_left (by simp [hsettled])))
            fun _ => Or.inr ⟨.subscription, by simp⟩ }
  | some first =>
      rw [hsettled] at hsubscription
      have hlater : settlement (past ++ [.subscribed failure])
          = settlement past := by
        rw [settlement_append, hsettled]
        rfl
      have hy : x.take s (.arrival (.subscribed failure)) rest
          = { x with line := rest } := by
        simp [take, turn, arrive, Loop.settle, hsubscription,
          Subscription.settledBy]
      rw [hy]
      exact g.note hline _ _ hreceived g.requests g.idle hlater nofun

include g in
/-- A stop is asked for. -/
theorem stop (hline : x.line = .arrival .stop :: rest) :
    (x.take s (.arrival .stop) rest).Going s script h (past ++ [.stop])
      taken := by
  obtain ⟨hhistory, hconsumer, hstopper, htold, hattends⟩ :=
    g.rest_of_arrival hline
  have hreceived : events (past ++ [.stop]) = taken ++ x.queue := by
    rw [events_append, g.received]
    exact List.append_nil _
  have hlater : settlement (past ++ [.stop]) = settlement past := by
    rw [settlement_append]
    exact Option.or_none
  have hrequests : ({ x with line := rest } : Loop).noteStop.requests
      = [.subscribe s.base] := by
    unfold noteStop
    split <;> exact g.requests
  have hclosed : Closed (past ++ [.stop]) := Or.inl (by simp)
  by_cases hc : x.stopper = .waiting
  · have hy : x.take s (.arrival .stop) rest
        = { x with
            account := ({ x with line := rest } : Loop).noteStop
            stopper := .ready, line := rest ++ [.stopper] } := by
      simp [take, turn, arrive, Loop.stop, hc]
    rw [hy]
    exact
      { g with
        history := by rw [hhistory, coming, arrivals_ask rfl]
        received := hreceived
        requests := hrequests
        subscription := by rw [hlater]; exact g.subscription
        stopper := by simp
        halted := fun hno => absurd rfl hno
        consumerTurn := hconsumer.mono (List.mem_append_left _)
        stopperTurn := by simp [Task.Alive]
        told := htold.close hclosed (g.caughtUp_or_turn hline rfl hclosed)
          (fun hf => Or.inl (by rwa [Failed, hlater] at hf))
          fun hno => nomatch hno
        attends := hattends.keep rfl (List.prefix_append _ _)
          (by rw [hlater]; exact id)
          fun hdone => Or.inl (by simpa [Done, hc] using hdone) }
  · have hy : x.take s (.arrival .stop) rest
        = { x with
            account := ({ x with line := rest } : Loop).noteStop
            line := rest } := by
      simp only [take, turn, arrive, Loop.stop]
    rw [hy]
    exact g.note hline _ _ hreceived hrequests g.idle hlater fun _ => hc

-- ================================================================== tasks

include g in
/-- A consumer that has nothing left has caught up once the script is
closed. -/
theorem caughtUp_of_closed (hqueue : x.queue = []) (hc : Closed past) :
    Takes script taken := by
  have hreceived := g.received
  rw [hqueue, List.append_nil] at hreceived
  exact hreceived ▸ takes_of_closed ⟨_, g.history.symm⟩ hc

include g in
/-- The consumer has its turn. -/
theorem consume_ready (hline : x.line = .consumer :: rest)
    (hc : x.consumer = .ready) :
    ∃ taken', (x.take s .consumer rest).Going s script h past taken' := by
  have hhistory := g.history_rest hline rfl
  have hstopper := g.stopper_tail hline (by simp)
  have hattends := g.attends.tail hline (by simp) (by simp)
  have htold := g.told
  rw [hline] at htold
  have happlied := g.applied
  rw [hc] at happlied
  obtain ⟨more, hqueue, hmore, hall⟩ :=
    happlied.extend x.queue x.account.synced
  have hy : x.take s .consumer rest = ({ x with line := rest } : Loop).round
      (applyAll s x.queue x.account.synced x.host) := by
    simp only [take, turn, Loop.consume, hc]
  generalize applyAll s x.queue x.account.synced x.host = p
    at hqueue hmore hall hy
  have hreceived : events past = (taken ++ more) ++ p.queue := by
    rw [g.received, hqueue, List.append_assoc]
  have htakes : x.CaughtUp script taken → Takes script (taken ++ more) :=
    fun hcaught => (hcaught.resolve_left (by simp [hc])).append more
  refine ⟨taken ++ more, ?_⟩
  rw [hy]
  obtain ⟨conclusion, queue, synced, host⟩ := p
  cases conclusion with
  | none =>
      obtain rfl : queue = [] := hall rfl
      have hcaught : Closed past → Takes script (taken ++ more) :=
        fun hclosed => by
          rw [List.append_nil] at hreceived
          exact hreceived ▸ takes_of_closed ⟨_, g.history.symm⟩ hclosed
      exact
        { g with
          history := hhistory
          received := hreceived
          applied := hmore
          idle := fun _ => rfl
          halted := fun hs => Or.inr (htakes (g.halted hs))
          consumerTurn := trivial
          stopperTurn := hstopper
          told := htold.caught (fun hC => Or.inr (htakes hC))
            fun hclosed => Or.inr (hcaught hclosed)
          attends := hattends.keep rfl (List.prefix_refl _)
            (Or.imp_right fun hC => Or.inr (htakes hC))
            fun hdone => Or.inl (by simpa [Done, Loop.round, hc] using hdone) }
  | some c =>
      have hcaught : (({ x with line := rest } : Loop).round
          ⟨some c, queue, synced, host⟩).CaughtUp script (taken ++ more) :=
        Or.inl (by simp [Loop.round, Task.result?])
      exact
        { g with
          history := by rw [hhistory, coming, Loop.round, arrivals_ask rfl]
          received := hreceived
          applied := hmore
          idle := fun hno => nomatch hno
          halted := fun _ => hcaught
          consumerTurn := trivial
          stopperTurn := hstopper.mono (List.mem_append_left _)
          told := (htold.caught (fun _ => hcaught) fun _ => hcaught).ask
            (fun _ => hcaught) fun hno => nomatch hno
          attends := hattends.keep rfl (List.prefix_append _ _)
            (Or.imp_right fun _ => hcaught)
            fun _ => Or.inr ⟨.consumer, by simp [Loop.round]⟩ }

include g in
theorem consume (hline : x.line = .consumer :: rest) :
    ∃ taken', (x.take s .consumer rest).Going s script h past taken' := by
  have hpass (hcaught : Closed past → x.CaughtUp script taken)
      (hconsumer : x.consumer.Alive .consumer rest)
      (hsame : x.take s .consumer rest = { x with line := rest }) :
      ∃ taken', (x.take s .consumer rest).Going s script h past taken' :=
    ⟨taken, g.pass hline rfl hsame hconsumer
      (g.stopper_tail hline (by simp)) ((hline ▸ g.told).caught id hcaught)
      (g.attends.tail hline (by simp) (by simp))⟩
  rcases g.consumerTurn.waits_or_ready_or_ended
    with hc | ⟨hc, -⟩ | ⟨c, hc⟩
  · exact hpass (fun hclosed => Or.inr (g.caughtUp_of_closed (g.idle hc)
      hclosed)) (by rw [hc]; trivial)
      (by simp only [take, turn, Loop.consume, hc])
  · exact g.consume_ready hline hc
  · exact hpass (fun _ => Or.inl (by simp [hc, Task.result?]))
      (by rw [hc]; trivial) (by simp only [take, turn, Loop.consume, hc])

include g in
/-- What the next turn tells if it is a signal. -/
theorem caughtUp_of_signal {t : Turn} (hline : x.line = t :: rest)
    (hne : t ≠ .consumer) (hs : Signal past t) :
    x.CaughtUp script taken :=
  g.told.late t (by rw [hline, early_cons hne]; simp) hs

include g in
/-- The stopper has its turn, or had it. -/
theorem endStopper (hline : x.line = .stopper :: rest) :
    (x.take s .stopper rest).Going s script h past taken := by
  have hcaught : x.CaughtUp script taken :=
    g.caughtUp_of_signal hline (by simp) trivial
  have hconsumer := g.consumer_tail hline (by simp)
  have htold := g.told_tail hline (by simp)
  have hattends := g.attends.tail hline (by simp) (by simp)
  rcases g.stopperTurn.waits_or_ready_or_ended
    with hc | ⟨hc, -⟩ | ⟨result, hc⟩
  · exact g.pass hline rfl (by simp only [take, turn, Loop.endStopper, hc])
      hconsumer (by rw [hc]; trivial) htold hattends
  · have hy : x.take s .stopper rest
        = { x with
            stopper := .ended (), line := rest ++ [.finished .stopper] } := by
      simp only [take, turn, Loop.endStopper, hc]
    have hstop : .stop ∈ past := by
      by_contra hno
      exact nomatch hc.symm.trans (g.stopper.mpr hno)
    rw [hy]
    exact
      { g with
        history := by rw [g.history_rest hline rfl, coming, arrivals_ask rfl]
        stopper := by simpa using hstop
        halted := fun _ => hcaught
        consumerTurn := hconsumer.mono (List.mem_append_left _)
        stopperTurn := trivial
        told := htold.ask (fun _ => hcaught) fun hno => nomatch hno
        attends := hattends.keep rfl (List.prefix_append _ _) id
          fun _ => Or.inr ⟨.stopper, by simp⟩ }
  · exact g.pass hline rfl (by simp only [take, turn, Loop.endStopper, hc])
      hconsumer (by rw [hc]; trivial) htold hattends

-- ========================================================== the main task

include g in
/-- The main task is told that something has ended. -/
theorem wake {what : Awaited} (hline : x.line = .finished what :: rest) :
    (x.take s (.finished what) rest).Going s script h past taken := by
  have hheard : settlement past = some none ∨ x.CaughtUp script taken := by
    by_cases hs : Signal past (.finished what)
    · exact Or.inr (g.caughtUp_of_signal hline (by simp) hs)
    · exact Or.inl ((hline ▸ g.told).made hs)
  have hconsumer := g.consumer_tail hline (by simp)
  have hstopper := g.stopper_tail hline (by simp)
  have htold := g.told_tail hline (by simp)
  cases g.attends with
  | waiting phase word =>
      have hy : x.take s (.finished what) rest
          = { x with phase := .woken, line := rest ++ [.main] } := by
        simp only [take, turn, Loop.wake, phase]
      rw [hy]
      exact
        { g with
          history := by
            rw [g.history_rest hline rfl, coming, arrivals_ask rfl]
          consumerTurn := hconsumer.mono (List.mem_append_left _)
          stopperTurn := hstopper.mono (List.mem_append_left _)
          told := htold.ask (fun hs => hs.elim) fun hno => nomatch hno
          attends := .woken rfl (by simp) hheard }
  | woken phase hmain heard =>
      rw [hline] at hmain
      have hmain := (List.mem_cons.mp hmain).resolve_left (by simp)
      exact g.pass hline rfl (by simp only [take, turn, Loop.wake, phase])
        hconsumer hstopper htold (.woken phase hmain heard)

include g in
/-- Nothing is gathered yet. -/
theorem gather (hline : x.line = .gathered :: rest) :
    (x.take s .gathered rest).Going s script h past taken := by
  refine g.pass hline rfl ?_ (g.consumer_tail hline (by simp))
    (g.stopper_tail hline (by simp)) (g.told_tail hline (by simp))
    (g.attends.tail hline (by simp) (by simp))
  cases g.attends with
  | waiting phase => simp only [take, turn, Loop.gather, phase]
  | woken phase => simp only [take, turn, Loop.gather, phase]

include g in
/-- The main task has a turn although it still waits, or has one and nothing
has ended the run. -/
theorem goOn (hline : x.line = .main :: rest)
    (hstays : x.phase = .waiting ∨ ¬ x.Done) :
    (x.take s .main rest).Going s script h past taken := by
  have hconsumer := g.consumer_tail hline (by simp)
  have hstopper := g.stopper_tail hline (by simp)
  have htold := g.told_tail hline (by simp)
  cases g.attends with
  | waiting phase word =>
      refine g.pass hline rfl (by simp only [take, turn, Loop.goOn, phase])
        hconsumer hstopper htold (.waiting phase fun hdone => ?_)
      simpa [hline] using word hdone
  | woken phase =>
      have hdone := hstays.resolve_left (by simp [phase])
      have hy : x.take s .main rest
          = { x with phase := .waiting, line := rest } := by
        have hstays := look_eq s (x := { x with line := rest }) hdone
        simpa only [take, turn, Loop.goOn, phase] using hstays
      rw [hy]
      exact
        { g with
          history := g.history_rest hline rfl
          consumerTurn := hconsumer
          stopperTurn := hstopper
          told := htold
          attends := .waiting rfl fun h => absurd h hdone }

end Going

end Loop

end TreeReplica.Run
