/-
What the end of a subscription comes to, whatever fails in it. The cache
is closed, and the client stopped and closed, by attempts in this order
(`Watch.attempts`). A failure of the client's own is reported, and any
other one ends the attempts and is passed on; a client that fails to stop
is not closed. The whole end can be read off the attempts
(`unsubscribe_eq_ended`).

So all that is held is closed, and nothing is passed on, exactly if none
of the attempts cuts another one short (`unsubscribe_closes_iff`). What is
cut short is lost for good, since the watch has let go of everything by
then (`stop_failure_leaves_open`).
-/
import TreeReplica.Proofs.Remote.Lifecycle

namespace TreeReplica.Remote

-- ============================================================ attempts

/-- A call with the fault that it meets, if it meets one. -/
structure Attempt where
  call : Call
  fault : Option Fault

namespace Attempt

/-- The fault that is passed on: one that is not the client's own. -/
def escape? (a : Attempt) : Option Fault :=
  a.fault.filter fun fault => !fault.kind.isClient

/-- What is said of a fault before its message. -/
def complaint (hosts : String) (a : Attempt) : String :=
  match a.call with
  | .closeCache => "Failed to close tree cache: "
  | _ => s!"Failed to close connection to {hosts}: "

/-- The report of a fault that is the client's own. -/
def report? (hosts : String) (a : Attempt) : Option Record :=
  (a.fault.filter fun fault => fault.kind.isClient).map fun fault =>
    ⟨.error, a.complaint hosts ++ fault.message⟩

/-- What attempts come to, made one after the other. -/
def run (hosts : String) (tried : List Attempt) (s : Watching) :
    EStateM.Result Fault Watching Unit :=
  let s' : Watching :=
    { s with
      calls := s.calls ++ tried.map (·.call)
      log := s.log ++ tried.filterMap (·.report? hosts) }
  match tried.findSome? escape? with
  | none => .ok () s'
  | some fault => .error fault s'

variable {hosts : String} {tried : List Attempt} {s : Watching}

/-- A fault that is reported is not passed on. -/
theorem escape?_eq_none {a : Attempt} :
    a.escape? = none ↔ ∀ fault ∈ a.fault, fault.kind.isClient := by
  simp [escape?, Option.filter_eq_none_iff]

theorem run_of_quiet (h : tried.findSome? escape? = none) :
    run hosts tried s = .ok () { s with
      calls := s.calls ++ tried.map (·.call)
      log := s.log ++ tried.filterMap (·.report? hosts) } := by
  rw [run, h]

theorem run_of_loud {fault : Fault}
    (h : tried.findSome? escape? = some fault) :
    run hosts tried s = .error fault { s with
      calls := s.calls ++ tried.map (·.call)
      log := s.log ++ tried.filterMap (·.report? hosts) } := by
  rw [run, h]

/-- Attempts that go through let the next ones be made. -/
theorem run_append (h : tried.findSome? escape? = none)
    (rest : List Attempt) :
    run hosts (tried ++ rest) s = run hosts rest { s with
      calls := s.calls ++ tried.map (·.call)
      log := s.log ++ tried.filterMap (·.report? hosts) } := by
  simp [run, h]

end Attempt

namespace Watch

variable {answers : Answers} {w : Watch} {s : Watching}

/-- The attempt to close the cache that is held. -/
def cacheAttempts (answers : Answers) (w : Watch) : List Attempt :=
  w.cache.toList.map fun client =>
    ⟨@Call.closeCache client, answers.closeCache⟩

/-- The attempts to stop and close the client that is held. -/
def clientAttempts (answers : Answers) (w : Watch) : List Attempt :=
  w.client.toList.flatMap fun client =>
    ⟨.stop client, answers.stop⟩
      :: if answers.stop = none then [⟨.close client, answers.close⟩] else []

/-- All attempts at the end of a subscription. -/
def attempts (answers : Answers) (w : Watch) : List Attempt :=
  let cache := w.cacheAttempts answers
  if cache.findSome? Attempt.escape? = none then
    cache ++ w.clientAttempts answers
  else cache

-- ======================================================= what they come to

/-- A call whose failure is reported is an attempt. -/
private theorem reporting_attempt (hosts : String) (a : Attempt)
    (s : Watching) :
    reporting (a.complaint hosts) (call a.call a.fault) s
      = Attempt.run hosts [a] s := by
  obtain ⟨c, fault⟩ := a
  cases fault with
  | none =>
      simp [Attempt.run, Attempt.escape?, Attempt.report?]
      rfl
  | some fault =>
      have hcaught : ∀ text, reporting text (call c (some fault)) s
          = (if fault.kind.isClient then say .error (text ++ fault.message)
            else throw fault : Operation Fault Unit)
              { s with calls := s.calls ++ [c] } := fun _ => rfl
      rw [hcaught]
      cases hclient : fault.kind.isClient with
      | true =>
          simp [Attempt.run, Attempt.escape?, Attempt.report?, hclient]
          rfl
      | false =>
          simp only [Attempt.run, Attempt.escape?, Attempt.report?,
            List.findSome?_cons, Option.filter_some, hclient]
          simp [hclient]
          rfl

/-- A client that fails to stop is not closed. -/
private theorem reporting_hangUp_attempts (answers : Answers)
    (hosts : String) (client : Nat) (s : Watching) :
    reporting s!"Failed to close connection to {hosts}: "
        (hangUp answers client) s
      = Attempt.run hosts
        (⟨.stop client, answers.stop⟩
          :: if answers.stop = none then [⟨.close client, answers.close⟩]
            else []) s := by
  cases hstop : answers.stop with
  | some fault =>
      rw [if_neg (Option.some_ne_none fault)]
      refine Eq.trans ?_ (reporting_attempt hosts ⟨.stop client, some fault⟩ s)
      simp only [hangUp, hstop]
      rfl
  | none =>
      rw [if_pos rfl, ← List.singleton_append, Attempt.run_append rfl]
      refine Eq.trans ?_ (reporting_attempt hosts
        ⟨.close client, answers.close⟩ _)
      simp only [hangUp, hstop]
      simp [Attempt.report?]
      rfl

/-- How a subscription ends, going by the attempts that are made. -/
def ended (answers : Answers) (s : Watching) :
    EStateM.Result Fault Watching Unit :=
  Attempt.run s.watch.options.hosts (s.watch.attempts answers)
    { s with watch := s.watch.released }

/-- Whatever fails, the end of a subscription makes its attempts, reports
what is to be reported and passes the rest on. -/
theorem unsubscribe_eq_ended (answers : Answers) (s : Watching) :
    unsubscribe answers s = ended answers s := by
  obtain ⟨⟨options, made, client, cache⟩, calls, log⟩ := s
  let w : Watch := ⟨options, made, client, cache⟩
  have hrest : ∀ s : Watching, letGo answers options.hosts client s
      = Attempt.run options.hosts (w.clientAttempts answers) s := by
    intro s
    cases client with
    | none => simp [w, letGo, clientAttempts, Attempt.run]; rfl
    | some c =>
        refine (reporting_hangUp_attempts ..).trans ?_
        simp [w, clientAttempts]
  cases cache with
  | none => exact hrest _
  | some c =>
      let a : Attempt := ⟨@Call.closeCache c, answers.closeCache⟩
      have hfirst : unsubscribe answers ⟨w, calls, log⟩
          = (reporting (a.complaint options.hosts) (call a.call a.fault)
            >>= fun _ => letGo answers options.hosts client)
              ⟨w.released, calls, log⟩ := rfl
      have hcache := reporting_attempt options.hosts a
        ⟨w.released, calls, log⟩
      have htried : (w.cacheAttempts answers).findSome? Attempt.escape?
          = a.escape? := by simp [w, cacheAttempts, a]
      rw [hfirst, ended, attempts, htried]
      cases hescape : a.escape? with
      | none =>
          rw [if_pos rfl, Attempt.run_append (htried.trans hescape)]
          rw [Attempt.run_of_quiet (by simp [hescape])] at hcache
          exact (bind_of_ok hcache).trans (hrest _)
      | some fault =>
          rw [if_neg (Option.some_ne_none fault),
            Attempt.run_of_loud (htried.trans hescape)]
          have hloud : [a].findSome? Attempt.escape? = some fault := by
            simp [hescape]
          rw [Attempt.run_of_loud hloud] at hcache
          exact bind_of_error hcache

/-- The attempt to close the cache is not cut short by a failure of the
client's own. -/
private theorem cacheAttempts_quiet_iff :
    (w.cacheAttempts answers).findSome? Attempt.escape? = none
      ↔ (w.cache ≠ none →
          ∀ fault ∈ answers.closeCache, fault.kind.isClient) := by
  cases hcache : w.cache with
  | none => simp [cacheAttempts, hcache]
  | some client => simp [cacheAttempts, hcache, Attempt.escape?_eq_none]

/-- A client that is held is stopped and closed exactly if it stops. -/
private theorem clientAttempts_whole_iff :
    (w.clientAttempts answers).findSome? Attempt.escape? = none
        ∧ (w.clientAttempts answers).map (·.call)
          = w.client.toList.flatMap (fun client =>
            [.stop client, .close client])
      ↔ (w.client ≠ none → answers.stop = none
        ∧ ∀ fault ∈ answers.close, fault.kind.isClient) := by
  cases hclient : w.client with
  | none => simp [clientAttempts, hclient]
  | some client =>
      cases hstop : answers.stop with
      | none =>
          simp [clientAttempts, hclient, hstop, Attempt.escape?_eq_none]
      | some fault => simp [clientAttempts, hclient, hstop]

/-- The attempts go through, and are for all that is held, exactly if the
one to close the cache and those for the client do. -/
private theorem attempts_whole_iff :
    (w.attempts answers).findSome? Attempt.escape? = none
        ∧ (w.attempts answers).map (·.call) = w.closing
      ↔ (w.cacheAttempts answers).findSome? Attempt.escape? = none
        ∧ (w.clientAttempts answers).findSome? Attempt.escape? = none
        ∧ (w.clientAttempts answers).map (·.call)
          = w.client.toList.flatMap (fun client =>
            [.stop client, .close client]) := by
  have hcalls : (w.cacheAttempts answers).map (·.call)
      = w.cache.toList.map fun client => @Call.closeCache client := by
    simp [cacheAttempts]
  rw [attempts]
  split
  case isTrue hcache =>
    rw [List.findSome?_append, hcache, Option.none_or, List.map_append,
      hcalls, closing, List.append_cancel_left_eq]
    exact ⟨fun h => ⟨rfl, h⟩, fun h => h.2⟩
  case isFalse hcache =>
    exact ⟨fun h => absurd h.1 hcache, fun h => absurd h.1 hcache⟩

/-- However a subscription ends, it is by its attempts, and it ends well
with everything closed that was held exactly if the cache closes or fails
with a failure of the client's own, the client stops, and it closes or
fails likewise. -/
theorem unsubscribe_closes_iff (answers : Answers) (s : Watching) :
    unsubscribe answers s = ended answers s
      ∧ ((∃ s', unsubscribe answers s = .ok () s'
          ∧ s'.calls = s.calls ++ s.watch.closing)
        ↔ (s.watch.cache ≠ none →
            ∀ fault ∈ answers.closeCache, fault.kind.isClient)
          ∧ (s.watch.client ≠ none → answers.stop = none
            ∧ ∀ fault ∈ answers.close, fault.kind.isClient)) := by
  refine ⟨unsubscribe_eq_ended answers s, ?_⟩
  rw [unsubscribe_eq_ended, ended, ← cacheAttempts_quiet_iff,
    ← clientAttempts_whole_iff, ← attempts_whole_iff]
  constructor
  · rintro ⟨s', hs', hcalls⟩
    cases hescape : (s.watch.attempts answers).findSome? Attempt.escape? with
    | some fault => cases (Attempt.run_of_loud hescape).symm.trans hs'
    | none =>
        rw [Attempt.run_of_quiet hescape] at hs'
        cases hs'
        exact ⟨rfl, List.append_cancel_left hcalls⟩
  · rintro ⟨hescape, hcalls⟩
    exact ⟨_, Attempt.run_of_quiet hescape, by rw [hcalls]⟩

/-- A client that fails to stop is never closed. Its watch has let go of it
by then, so that another end of the subscription finds nothing to close. -/
theorem stop_failure_leaves_open :
    let s := run { hosts := "zk" } [.subscribe {} "/p"]
    let fault : Fault := ⟨.client, "x"⟩
    s.watch.client = some 1 ∧ s.watch.cache = some 1
      ∧ ∃ s', unsubscribe { stop := some fault } s = .ok () s'
        ∧ Call.close 1 ∉ s'.calls
        ∧ ∀ answers, ∃ s'', unsubscribe answers s' = .ok () s''
          ∧ s''.calls = s'.calls := by
  intro s fault
  refine ⟨rfl, rfl, _, rfl, ?_, fun answers => ⟨_, rfl, rfl⟩⟩
  intro hmem
  -- the calls in order: none of them closes the client
  obtain _ | ⟨_, _ | ⟨_, _ | ⟨_, _ | ⟨_, _ | ⟨_, _ | ⟨_, hmem⟩⟩⟩⟩⟩⟩ := hmem
  cases hmem

end Watch

end TreeReplica.Remote
