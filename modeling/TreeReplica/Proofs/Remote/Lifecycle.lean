/-
A watch leaks nothing. Whatever the far side answers while a client or a
cache starts, and whenever the subscription is given up, each client that
was made is still held or was stopped and closed, and each cache that was
made is still held or was closed (`watch_leaks_nothing`).

# What a step does

Only four ends of a subscription tell on the state and the calls
(`Opened`), and an end of a subscription lets go of what is held and
closes just that (`unsubscribe_eq`). `Tight` is what a step keeps; it
reads nothing else of the steps.

# Order

A second subscription overwrites the client of the first. So a sequence
of steps is in order if an unsubscription lies between any two
subscriptions, be it one that arrives while the first of them connects.
-/
import Mathlib.Data.List.Chain
import Mathlib.Data.List.Induction
import Mathlib.Data.List.Nodup
import TreeReplica.Remote.Watch

namespace TreeReplica.Remote

-- ================================================================ steps

/-- What can be done to a watch, and how the far side answers. -/
inductive Step
  | subscribe (answers : Answers) (path : String)
  | unsubscribe (answers : Answers)

/-- The answers during a step. -/
def Step.answers : Step → Answers
  | .subscribe answers _ | .unsubscribe answers => answers

/-- The watch that an operation leaves, however it ends. -/
def Operation.left {ε α : Type} (work : Operation ε α) (s : Watching) :
    Watching :=
  match work s with
  | .ok _ s' | .error _ s' => s'

/-- A watch after a step. -/
def Watching.after (s : Watching) : Step → Watching
  | .subscribe answers path => (Watch.subscribe answers path).left s
  | .unsubscribe answers => (Watch.unsubscribe answers).left s

/-- A new watch after some steps. -/
def Watch.run (options : WatchOptions) (steps : List Step) : Watching :=
  steps.foldl Watching.after { watch := { options } }

/-- Does a step subscribe? -/
def Step.subscribes : Step → Bool
  | .subscribe .. => true
  | .unsubscribe _ => false

/-- Does a step end a subscription? One that is given up while it connects
ends within its own step. -/
def Step.ends : Step → Bool
  | .subscribe answers _ => answers.givenUp
  | .unsubscribe _ => true

/-- Steps in order: a subscription comes first, or right after the end of
the one before it. -/
def Ordered (steps : List Step) : Prop :=
  steps.IsChain fun step next => next.subscribes → step.ends

instance : DecidablePred Ordered := fun steps =>
  inferInstanceAs <| Decidable <|
    steps.IsChain fun step next => next.subscribes → step.ends

/-- Answers that let a watch close what it holds: a client stops and
closes, and if a cache fails to close then with a failure of the client's
own. -/
structure Answers.Mild (answers : Answers) : Prop where
  stop : answers.stop = none
  close : answers.close = none
  closeCache : ∀ fault ∈ answers.closeCache, fault.kind.isClient

instance : DecidablePred Answers.Mild := fun answers =>
  decidable_of_iff (answers.stop = none ∧ answers.close = none
      ∧ ∀ fault ∈ answers.closeCache, fault.kind.isClient)
    ⟨fun ⟨hstop, hclose, hcache⟩ => ⟨hstop, hclose, hcache⟩,
      fun h => ⟨h.stop, h.close, h.closeCache⟩⟩

theorem Watch.run_concat (options : WatchOptions) (steps : List Step)
    (step : Step) :
    run options (steps ++ [step]) = (run options steps).after step :=
  List.foldl_concat ..

-- ======================================================= unsubscription

namespace Watch

variable {answers : Answers} {path : String} {s s' : Watching}

/-- The calls that close what a watch holds. -/
def closing (w : Watch) : List Call :=
  (w.cache.toList.map fun client => @Call.closeCache client)
    ++ w.client.toList.flatMap fun client => [.stop client, .close client]

/-- A watch that holds nothing any more. -/
def released (w : Watch) : Watch := { w with client := none, cache := none }

/-- An operation that goes on from one that went well. -/
theorem bind_of_ok {ε α β : Type} {first : Operation ε α}
    {rest : α → Operation ε β} {a : α} (h : first s = .ok a s') :
    (first >>= rest) s = rest a s' := by
  change EStateM.bind first rest s = _
  rw [EStateM.bind, h]

/-- An operation that is cut short by the failure of its first part. -/
theorem bind_of_error {ε α β : Type} {first : Operation ε α}
    {rest : α → Operation ε β} {e : ε} (h : first s = .error e s') :
    (first >>= rest) s = .error e s' := by
  change EStateM.bind first rest s = _
  rw [EStateM.bind, h]

/-- A failure of the client's own is only reported. -/
private theorem reporting_call {c : Call} {fault : Option Fault}
    (text : String) (h : ∀ f ∈ fault, f.kind.isClient) :
    ∃ log, reporting text (call c fault) s
      = .ok () { s with calls := s.calls ++ [c], log } := by
  cases fault with
  | none => exact ⟨s.log, rfl⟩
  | some f =>
      refine ⟨s.log ++ [⟨.error, text ++ f.message⟩], ?_⟩
      change (if f.kind.isClient then _ else _ : Operation Fault Unit) _ = _
      rw [if_pos (h f rfl)]
      rfl

/-- A client that is let go of hangs up. -/
private theorem reporting_hangUp (hmild : answers.Mild) (text : String)
    (client : Nat) (s : Watching) :
    reporting text (hangUp answers client) s
      = .ok () { s with
          calls := s.calls ++ [Call.stop client, Call.close client] } := by
  rw [List.append_cons]
  simp only [hangUp, hmild.stop, hmild.close]
  rfl

/-- What is done about a client at the end of a subscription. -/
def letGo (answers : Answers) (hosts : String) :
    Option Nat → Operation Fault Unit
  | none => pure ()
  | some client =>
      reporting s!"Failed to close connection to {hosts}: "
        (hangUp answers client)

/-- The end of a subscription lets go of what is held and closes it. -/
theorem unsubscribe_eq (hmild : answers.Mild) (s : Watching) :
    ∃ log, unsubscribe answers s
      = .ok () ⟨s.watch.released, s.calls ++ s.watch.closing, log⟩ := by
  obtain ⟨⟨options, made, client, cache⟩, calls, log⟩ := s
  let freed : Watch := ⟨options, made, none, none⟩
  have hclient : ∀ (calls : List Call) (log : Log), ∃ log' : Log,
      letGo answers options.hosts client ⟨freed, calls, log⟩
      = EStateM.Result.ok () ⟨freed, calls
          ++ client.toList.flatMap fun c => [.stop c, .close c], log'⟩ := by
    intro calls log
    cases client with
    | none =>
        refine ⟨log, ?_⟩
        rw [Option.toList_none, List.flatMap_nil, List.append_nil]
        rfl
    | some c => exact ⟨log, reporting_hangUp hmild _ c _⟩
  cases cache with
  | none => exact hclient calls log
  | some c =>
      obtain ⟨log', hcache⟩ := reporting_call (s := ⟨freed, calls, log⟩)
        (c := @Call.closeCache c) "Failed to close tree cache: "
        hmild.closeCache
      obtain ⟨log'', h⟩ := hclient (calls ++ [@Call.closeCache c]) log'
      refine ⟨log'', (bind_of_ok hcache).trans (h.trans ?_)⟩
      rw [List.append_assoc]
      rfl

-- ========================================================= subscription

/-- The ends of a subscription on a watch that held nothing, by what it
leaves behind: a client that is held and has not started, a client with a
cache, or a client that was given up, before or after it had started. The
calls are those of the subscription alone. -/
inductive Opened (w : Watch) (answers : Answers) (path : String) :
    Watch → List Call → Prop
  | refused (hstart : answers.start ≠ none)
      (hkept : answers.givenUp = false) :
      Opened w answers path
        { w with made := w.made + 1, client := some (w.made + 1) }
        [.makeClient w.options.hosts w.options.maxRetries w.options.retryDelay,
          .start (w.made + 1) w.options.connectTimeout]
  | listening (hstart : answers.start = none)
      (hkept : answers.givenUp = false) :
      Opened w answers path
        { w with
          made := w.made + 1, client := some (w.made + 1)
          cache := some (w.made + 1) }
        [.makeClient w.options.hosts w.options.maxRetries w.options.retryDelay,
          .start (w.made + 1) w.options.connectTimeout,
          .makeCache (w.made + 1) path, .startCache]
  | dropped (hstart : answers.start ≠ none) (hgiven : answers.givenUp) :
      Opened w answers path
        { w with made := w.made + 1, client := none, cache := none }
        [.makeClient w.options.hosts w.options.maxRetries w.options.retryDelay,
          .start (w.made + 1) w.options.connectTimeout,
          .stop (w.made + 1), .close (w.made + 1)]
  | late (hstart : answers.start = none) (hgiven : answers.givenUp) :
      Opened w answers path
        { w with made := w.made + 1, client := none, cache := none }
        [.makeClient w.options.hosts w.options.maxRetries w.options.retryDelay,
          .start (w.made + 1) w.options.connectTimeout,
          .stop (w.made + 1), .close (w.made + 1),
          .stop (w.made + 1), .close (w.made + 1)]

/-- How far a client has come when it has started, or has failed to. -/
private theorem connect_eq (hmild : answers.Mild) (client : Nat)
    (s : Watching) :
    ∃ s₁ : Watching,
      connect answers client s
        = (match answers.start with
          | none => .ok () s₁
          | some fault => .error fault s₁)
      ∧ s₁.watch = (if answers.givenUp then s.watch.released else s.watch)
      ∧ s₁.calls = s.calls ++ [.start client s.watch.options.connectTimeout]
          ++ (if answers.givenUp then s.watch.closing else []) := by
  let started : Watching := { s with
    calls := s.calls ++ [.start client s.watch.options.connectTimeout] }
  have hstart : connect answers client s
      = (do
          if answers.givenUp then unsubscribe answers
          match answers.start with
          | none => pure ()
          | some fault => throw fault) started := rfl
  obtain ⟨log, hleave⟩ := unsubscribe_eq hmild started
  rw [hstart]
  cases hgiven : answers.givenUp with
  | false =>
      refine ⟨started, ?_, rfl, (List.append_nil _).symm⟩
      cases answers.start <;> rfl
  | true =>
      refine ⟨⟨started.watch.released,
        started.calls ++ started.watch.closing, log⟩, ?_, rfl, rfl⟩
      refine (bind_of_ok hleave).trans ?_
      cases answers.start <;> rfl

/-- A client that is no longer held hangs up once it has connected. -/
private theorem listen_lost (hmild : answers.Mild) (path : String)
    {client : Nat} (h : s.watch.client ≠ some client) :
    (listen answers client path).left s = { s with
      calls := s.calls ++ [Call.stop client, Call.close client] } := by
  have hlisten : listen answers client path s
      = (if s.watch.client ≠ some client then hangUp answers client
        else _ : Operation Fault Unit) s := rfl
  rw [Operation.left, hlisten, if_pos h, List.append_cons]
  simp only [hangUp, hmild.stop, hmild.close]
  rfl

/-- A client that is held gets a cache, which starts or fails to. -/
private theorem listen_held (answers : Answers) (path : String)
    {client : Nat} (h : s.watch.client = some client) :
    ∃ log, (listen answers client path).left s
      = ⟨{ s.watch with cache := some client },
        s.calls ++ [.makeCache client path, .startCache], log⟩ := by
  have hlisten : listen answers client path s
      = (if s.watch.client ≠ some client then hangUp answers client
        else _ : Operation Fault Unit) s := rfl
  rw [Operation.left, hlisten, if_neg (not_not.mpr h), List.append_cons]
  cases answers.startCache <;> exact ⟨_, rfl⟩

/-- A subscription makes a client and starts it, and then listens. -/
private theorem subscribe_left (hmild : answers.Mild) (path : String)
    (s : Watching) :
    ∃ s₁ : Watching, (subscribe answers path).left s
        = (match answers.start with
          | none => (listen answers (s.watch.made + 1) path).left s₁
          | some _ => s₁)
      ∧ s₁.watch = (if answers.givenUp
          then { s.watch with
            made := s.watch.made + 1, client := none, cache := none }
          else { s.watch with
            made := s.watch.made + 1, client := some (s.watch.made + 1) })
      ∧ s₁.calls = s.calls
          ++ [.makeClient s.watch.options.hosts s.watch.options.maxRetries
              s.watch.options.retryDelay,
            .start (s.watch.made + 1) s.watch.options.connectTimeout]
          ++ (if answers.givenUp then closing { s.watch with
              client := some (s.watch.made + 1) } else []) := by
  obtain ⟨s₁, hconnect, hwatch, hcalls⟩ := connect_eq hmild
    (s.watch.made + 1) { s with
      watch := { s.watch with
        made := s.watch.made + 1, client := some (s.watch.made + 1) }
      calls := s.calls ++ [.makeClient s.watch.options.hosts
        s.watch.options.maxRetries s.watch.options.retryDelay] }
  refine ⟨s₁, ?_, hwatch, ?_⟩
  · dsimp only [Operation.left, subscribe]
    rw [hconnect]
    cases answers.start with
    | some fault => rfl
    | none => dsimp only; cases listen answers _ path s₁ <;> rfl
  · rw [hcalls, List.append_assoc s.calls]
    rfl

/-- A subscription on a watch that holds nothing ends in one of the four
ways. -/
theorem subscribe_opened (hmild : answers.Mild) (path : String)
    (hcache : s.watch.cache = none) :
    ∃ calls, (s.after (.subscribe answers path)).calls = s.calls ++ calls
      ∧ Opened s.watch answers path
          (s.after (.subscribe answers path)).watch calls := by
  obtain ⟨s₁, hleft, hwatch, hcalls⟩ := subscribe_left hmild path s
  rw [Watching.after, hleft]
  rw [closing, hcache, List.append_assoc] at hcalls
  cases hgiven : answers.givenUp with
  | false =>
      rw [hgiven, if_neg Bool.false_ne_true] at hwatch hcalls
      cases hstart : answers.start with
      | some fault =>
          refine ⟨_, hcalls, hwatch ▸ .refused ?_ hgiven⟩
          exact hstart ▸ Option.some_ne_none fault
      | none =>
          obtain ⟨log, hlisten⟩ := listen_held (s := s₁) answers path
            (by rw [hwatch])
          rw [hlisten, hwatch, hcalls, List.append_assoc]
          exact ⟨_, rfl, .listening hstart hgiven⟩
  | true =>
      rw [hgiven, if_pos rfl] at hwatch hcalls
      cases hstart : answers.start with
      | some fault =>
          refine ⟨_, hcalls, hwatch ▸ .dropped ?_ hgiven⟩
          exact hstart ▸ Option.some_ne_none fault
      | none =>
          rw [listen_lost hmild path (by rw [hwatch]; nofun), hwatch,
            hcalls, List.append_assoc]
          exact ⟨_, rfl, .late hstart hgiven⟩

end Watch

-- ============================================================ no leaks

/-- Does a call make a client? -/
def Call.makesClient : Call → Bool
  | .makeClient .. => true
  | _ => false

/-- The client for which a call makes a cache. -/
def Call.cached? : Call → Option Nat
  | .makeCache client _ => some client
  | _ => none

/-- A watch that has leaked nothing. A client is known by its number, and
a cache by its client, which has no other. -/
structure Watching.Tight (s : Watching) : Prop where
  made : s.calls.countP Call.makesClient = s.watch.made
  clients : ∀ client, 0 < client → client ≤ s.watch.made →
    s.watch.client = some client
      ∨ .stop client ∈ s.calls ∧ .close client ∈ s.calls
  caches : ∀ client path, .makeCache client path ∈ s.calls →
    s.watch.cache = some client ∨ @Call.closeCache client ∈ s.calls
  single : (s.calls.filterMap Call.cached?).Nodup
  known : ∀ client, client ∈ s.calls.filterMap Call.cached? →
    client ≤ s.watch.made
  latest : ∀ client, s.watch.client = some client →
    0 < client ∧ client = s.watch.made
  paired : ∀ client, s.watch.cache = some client →
    s.watch.client = some client ∧ ∃ path, .makeCache client path ∈ s.calls

/-- What a step may do: a cache is made only after its client was made
and has started in the same step, and is held throughout; and the end of
a subscription leaves nothing that is held. -/
structure Step.Careful (step : Step) (before after : Watching) : Prop where
  opens : ∃ calls, after.calls = before.calls ++ calls
    ∧ ∀ client path, .makeCache client path ∈ calls →
      ∃ answers hosts tries delay timeout,
        step = .subscribe answers path
          ∧ answers.start = none ∧ answers.givenUp = false
          ∧ calls = [.makeClient hosts tries delay, .start client timeout,
            .makeCache client path, .startCache]
  ends : step.ends → after.watch.client = none ∧ after.watch.cache = none

variable {answers : Answers} {path : String} {s s' : Watching} {step : Step}

theorem Watching.tight_new (options : WatchOptions) :
    Watching.Tight { watch := { options } } where
  made := rfl
  clients := fun _ hpos hle => absurd hle (Nat.not_le.mpr hpos)
  caches := nofun
  single := List.nodup_nil
  known := nofun
  latest := nofun
  paired := nofun

theorem Call.mem_cached? {client : Nat} {calls : List Call} :
    client ∈ calls.filterMap Call.cached?
      ↔ ∃ path, .makeCache client path ∈ calls := by
  rw [List.mem_filterMap]
  constructor
  · rintro ⟨call, hmem, hcached⟩
    cases call with
    | makeCache c path =>
        cases hcached
        exact ⟨path, hmem⟩
    | _ => cases hcached
  · rintro ⟨path, hmem⟩
    exact ⟨_, hmem, rfl⟩

/-- What closes makes nothing. -/
theorem Watch.closing_makes (w : Watch) :
    w.closing.countP Call.makesClient = 0
      ∧ w.closing.filterMap Call.cached? = [] := by
  obtain ⟨options, made, client, cache⟩ := w
  cases client <;> cases cache <;> exact ⟨rfl, rfl⟩

/-- What is let go of is closed. -/
theorem Watching.Tight.released (hs : s.Tight) (log : Log) :
    Watching.Tight ⟨s.watch.released, s.calls ++ s.watch.closing, log⟩ := by
  obtain ⟨hclients, hcaches⟩ := s.watch.closing_makes
  have hcached : (s.calls ++ s.watch.closing).filterMap Call.cached?
      = s.calls.filterMap Call.cached? := by
    rw [List.filterMap_append, hcaches, List.append_nil]
  constructor
  case made =>
    rw [List.countP_append, hclients, hs.made]
    rfl
  case clients =>
    intro client hpos hle
    obtain hheld | ⟨hstop, hclose⟩ := hs.clients client hpos hle
    · -- a client that was held is stopped and closed now
      have hclosing : .stop client ∈ s.watch.closing
          ∧ .close client ∈ s.watch.closing := by
        simp [Watch.closing, hheld]
      exact .inr ⟨List.mem_append_right _ hclosing.1,
        List.mem_append_right _ hclosing.2⟩
    · exact .inr ⟨List.mem_append_left _ hstop, List.mem_append_left _ hclose⟩
  case caches =>
    intro client path hmem
    have hmade : client ∈ s.calls.filterMap Call.cached? :=
      hcached ▸ Call.mem_cached?.mpr ⟨path, hmem⟩
    obtain ⟨path', hmem'⟩ := Call.mem_cached?.mp hmade
    obtain hheld | hclosed := hs.caches client path' hmem'
    · -- and so is a cache
      have hclosing : @Call.closeCache client ∈ s.watch.closing := by
        simp [Watch.closing, hheld]
      exact .inr (List.mem_append_right _ hclosing)
    · exact .inr (List.mem_append_left _ hclosed)
  case single => exact hcached ▸ hs.single
  case known => exact hcached ▸ hs.known
  case latest => nofun
  case paired => nofun

/-- However a subscription ends, it has made one client, which is held or
was stopped and closed, and at most one cache, which is held with it. -/
theorem Watch.Opened.holds {w w' : Watch} {calls : List Call}
    (h : w.Opened answers path w' calls) (hcache : w.cache = none) :
    w'.made = w.made + 1
      ∧ calls.countP Call.makesClient = 1
      ∧ calls.filterMap Call.cached? = w'.cache.toList
      ∧ (w'.client = some (w.made + 1)
        ∨ w'.client = none ∧ .stop (w.made + 1) ∈ calls
          ∧ .close (w.made + 1) ∈ calls)
      ∧ (w'.cache = none ∨ w'.cache = some (w.made + 1)
        ∧ w'.client = some (w.made + 1)) := by
  cases h with
  | refused => exact ⟨rfl, rfl, by rw [hcache]; rfl, .inl rfl, .inl hcache⟩
  | listening => exact ⟨rfl, rfl, rfl, .inl rfl, .inr ⟨rfl, rfl⟩⟩
  | dropped => exact ⟨rfl, rfl, rfl, .inr ⟨rfl, by simp, by simp⟩, .inl rfl⟩
  | late => exact ⟨rfl, rfl, rfl, .inr ⟨rfl, by simp, by simp⟩, .inl rfl⟩

/-- A subscription on a watch that holds nothing leaks nothing. -/
theorem Watching.Tight.opened (hs : s.Tight) {w : Watch} {calls : List Call}
    (hclient : s.watch.client = none) (hcache : s.watch.cache = none)
    (h : s.watch.Opened answers path w calls) (log : Log) :
    Watching.Tight ⟨w, s.calls ++ calls, log⟩ := by
  obtain ⟨hmade, hone, hcached, hnew, hkept⟩ := h.holds hcache
  have hlist : (s.calls ++ calls).filterMap Call.cached?
      = s.calls.filterMap Call.cached? ++ w.cache.toList := by
    rw [List.filterMap_append, hcached]
  constructor
  case made => rw [List.countP_append, hs.made, hone, hmade]
  case clients =>
    intro client hpos hle
    dsimp only at hle ⊢
    rw [hmade] at hle
    obtain hlt | rfl := Nat.lt_or_eq_of_le hle
    · -- an older client is not held, so it was closed
      obtain hheld | ⟨hstop, hclose⟩ :=
        hs.clients client hpos (Nat.le_of_lt_succ hlt)
      · rw [hclient] at hheld
        cases hheld
      · exact .inr ⟨List.mem_append_left _ hstop,
          List.mem_append_left _ hclose⟩
    · obtain hheld | ⟨-, hstop, hclose⟩ := hnew
      · exact .inl hheld
      · exact .inr ⟨List.mem_append_right _ hstop,
          List.mem_append_right _ hclose⟩
  case caches =>
    intro client path' hmem
    have hmade' : client ∈ s.calls.filterMap Call.cached? ++ w.cache.toList :=
      hlist ▸ Call.mem_cached?.mpr ⟨path', hmem⟩
    obtain hold | hheld := List.mem_append.mp hmade'
    · obtain ⟨path'', hmem'⟩ := Call.mem_cached?.mp hold
      obtain hheld | hclosed := hs.caches client path'' hmem'
      · rw [hcache] at hheld
        cases hheld
      · exact .inr (List.mem_append_left _ hclosed)
    · exact .inl (Option.mem_toList.mp hheld)
  case single =>
    dsimp only
    rw [hlist]
    obtain hnone | ⟨hsome, -⟩ := hkept
    · rw [hnone, Option.toList_none, List.append_nil]
      exact hs.single
    · rw [hsome, Option.toList_some]
      refine List.nodup_append.mpr ⟨hs.single, List.nodup_singleton _, ?_⟩
      intro client hold client' hsame heq
      rw [List.mem_singleton] at hsame
      have hle := hs.known client hold
      omega
  case known =>
    intro client hmem
    dsimp only at hmem ⊢
    rw [hlist] at hmem
    obtain hold | hheld := List.mem_append.mp hmem
    · have hle := hs.known client hold
      omega
    · obtain hnone | ⟨hsome, -⟩ := hkept
      · rw [hnone] at hheld
        cases hheld
      · rw [hsome, Option.toList_some, List.mem_singleton] at hheld
        omega
  case latest =>
    intro client hheld
    obtain hnow | ⟨hnone, -⟩ := hnew
    · obtain rfl := Option.some.inj (hheld.symm.trans hnow)
      exact ⟨Nat.succ_pos _, hmade.symm⟩
    · cases hheld.symm.trans hnone
  case paired =>
    intro client hheld
    have hmem : client ∈ (s.calls ++ calls).filterMap Call.cached? :=
      hlist ▸ List.mem_append_right _ (Option.mem_toList.mpr hheld)
    refine ⟨?_, Call.mem_cached?.mp hmem⟩
    obtain hnone | ⟨hsome, hwith⟩ := hkept
    · cases hheld.symm.trans hnone
    · exact hwith.trans (hsome.symm.trans hheld)

-- =============================================================== the run

/-- One step leaks nothing, if it comes in order. -/
theorem Watching.Tight.after (hs : s.Tight) (hmild : step.answers.Mild)
    (hidle : step.subscribes →
      s.watch.client = none ∧ s.watch.cache = none) :
    (s.after step).Tight ∧ step.Careful s (s.after step) := by
  cases step with
  | unsubscribe answers =>
      have hmild : answers.Mild := hmild
      obtain ⟨log, hleave⟩ := Watch.unsubscribe_eq hmild s
      have hafter : s.after (.unsubscribe answers)
          = ⟨s.watch.released, s.calls ++ s.watch.closing, log⟩ := by
        rw [Watching.after, Operation.left, hleave]
      rw [hafter]
      refine ⟨hs.released log, ⟨_, rfl, ?_⟩, fun _ => ⟨rfl, rfl⟩⟩
      intro client path hmem
      have hmade := Call.mem_cached?.mpr ⟨path, hmem⟩
      rw [s.watch.closing_makes.2] at hmade
      cases hmade
  | subscribe answers path =>
      have hmild : answers.Mild := hmild
      obtain ⟨hclient, hcache⟩ := hidle rfl
      obtain ⟨calls, hcalls, hopened⟩ :=
        Watch.subscribe_opened hmild path hcache
      have htight := hs.opened hclient hcache hopened
        (s.after (.subscribe answers path)).log
      rw [← hcalls] at htight
      refine ⟨htight, ⟨calls, hcalls, ?_⟩, ?_⟩
      · intro client path' hmem
        generalize (s.after (.subscribe answers path)).watch = w at hopened
        cases hopened with
        | listening hstart hkept =>
            simp only [List.mem_cons, reduceCtorEq, Call.makeCache.injEq,
              List.not_mem_nil, or_false, false_or] at hmem
            obtain ⟨rfl, rfl⟩ := hmem
            exact ⟨answers, _, _, _, _, rfl, hstart, hkept, rfl⟩
        | _ => simp at hmem
      · intro hends
        have hends : answers.givenUp = true := hends
        generalize (s.after (.subscribe answers path)).watch = w at hopened
        cases hopened with
        | refused _ hkept | listening _ hkept => cases hends.symm.trans hkept
        | dropped | late => exact ⟨rfl, rfl⟩

theorem Ordered.of_concat {done : List Step}
    (h : Ordered (done ++ [step])) :
    Ordered done
      ∧ (step.subscribes → ∀ last ∈ done.getLast?, last.ends) := by
  obtain ⟨hdone, -, hlast⟩ := List.isChain_append.mp h
  exact ⟨hdone, fun hsub last hmem => hlast last hmem step rfl hsub⟩

/-- In order, steps leak nothing. The watch holds nothing if the last of
them ended a subscription, or if there was none. -/
theorem Watch.run_tight (options : WatchOptions) {steps : List Step}
    (horder : Ordered steps) (hmild : ∀ step ∈ steps, step.answers.Mild) :
    (run options steps).Tight
      ∧ ((∀ last ∈ steps.getLast?, last.ends) →
        (run options steps).watch.client = none
          ∧ (run options steps).watch.cache = none) := by
  induction steps using List.reverseRecOn with
  | nil => exact ⟨Watching.tight_new options, fun _ => ⟨rfl, rfl⟩⟩
  | append_singleton done step ih =>
      obtain ⟨hdone, hidle⟩ := horder.of_concat
      obtain ⟨htight, hempty⟩ :=
        ih hdone fun step hmem => hmild step (List.mem_append_left _ hmem)
      obtain ⟨hafter, hcareful⟩ := htight.after
        (hmild step List.mem_concat_self) fun hsub => hempty (hidle hsub)
      rw [run_concat]
      refine ⟨hafter, fun hends => hcareful.ends (hends step ?_)⟩
      rw [List.getLast?_concat]
      rfl

/-- In order, steps leak nothing at any point, each of them takes care,
and nothing is held after the end of a subscription. -/
theorem watch_leaks_nothing (options : WatchOptions) {steps : List Step}
    (horder : Ordered steps) (hmild : ∀ step ∈ steps, step.answers.Mild) :
    (∀ done, done <+: steps → (Watch.run options done).Tight)
      ∧ ∀ done step, done ++ [step] <+: steps →
        step.Careful (Watch.run options done)
          (Watch.run options (done ++ [step])) := by
  have hrun : ∀ done, done <+: steps → Ordered done
      ∧ ∀ step ∈ done, step.answers.Mild := by
    rintro done ⟨rest, rfl⟩
    exact ⟨(List.isChain_append.mp horder).1,
      fun step hmem => hmild step (List.mem_append_left rest hmem)⟩
  constructor
  · intro done hdone
    obtain ⟨hin, hall⟩ := hrun done hdone
    exact (Watch.run_tight options hin hall).1
  · intro done step hdone
    obtain ⟨hin, hall⟩ := hrun _ hdone
    obtain ⟨hbefore, hidle⟩ := hin.of_concat
    obtain ⟨htight, hempty⟩ := Watch.run_tight options hbefore
      fun step hmem => hall step (List.mem_append_left _ hmem)
    rw [Watch.run_concat]
    exact (htight.after (hall step List.mem_concat_self)
      fun hsub => hempty (hidle hsub)).2

/-- A subscription that is given up while it connects, one whose cache
fails to start and to close, and one whose client does not start. -/
theorem watch_leaks_nothing_faults :
    let lost : Fault := ⟨.connectionLoss, "lost"⟩
    let refused : Fault := ⟨.timeout, "late"⟩
    let steps : List Step := [
      .subscribe { givenUp := true } "/a",
      .subscribe { startCache := some lost } "/a",
      .unsubscribe { closeCache := some lost },
      .subscribe { start := some refused } "/a"]
    Ordered steps ∧ (∀ step ∈ steps, step.answers.Mild)
      ∧ (Watch.run { hosts := "zk" } steps).Tight := by
  intro lost refused steps
  have horder : Ordered steps := by decide
  have hmild : ∀ step ∈ steps, step.answers.Mild := by decide
  exact ⟨horder, hmild,
    (watch_leaks_nothing _ horder hmild).1 _ List.prefix_rfl⟩

end TreeReplica.Remote
