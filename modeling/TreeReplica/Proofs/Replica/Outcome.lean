/-
How a whole run ends, for every script and in whatever order turns are
taken. `Runs` says what may be reported of a run. `run_outcome` shows that
every run that gets past its start comes to its end, in one of the ways
that `Outcome` lists, after it subscribed once and gave the subscription up
once. Unless the output directory is kept it is gone then, or empty if it
is the working directory, or, with force only, it stays empty where the
path to it went through what was cleaned away (`Cleared`).
-/
import TreeReplica.Proofs.Replica.Cleanup
import TreeReplica.Proofs.Replica.Steps

namespace TreeReplica.Run

open Work

variable {s : Settings} {h h' : Host} {script : List Arrival}
  {used : List Event} {c : Option Conclusion} {ending : Ending} {note : Log}
  {report : Report}

-- ============================================================= whole runs

/-- What may be reported of a run over a script that starts on a host: that
it was refused, or what it came to in one of the orders in which steps can
be taken. -/
inductive Runs (s : Settings) (script : List Arrival) (h : Host) :
    Report → Prop
  | refused {f : Output.Failure} {h' : Host}
      (refused : Output.prepare s.outPath s.force h = .error f h') :
      Runs s script h ⟨.error (.output f), {}, h'⟩
  | ended {h' : Host} {x : Loop}
      (prepared : Output.prepare s.outPath s.force h = .ok () h')
      (steps : Relation.ReflTransGen (Loop.Step s) (.start s script h') x)
      (ended : x.isOver = true) : Runs s script h x.report

/-- A run that was refused reports that, and does nothing else. -/
theorem Runs.eq_refused (hr : Runs s script h report) {f : Output.Failure}
    (hp : Output.prepare s.outPath s.force h = .error f h') :
    report = ⟨.error (.output f), {}, h'⟩ := by
  cases hr with
  | refused refused =>
      cases hp.symm.trans refused
      rfl
  | ended prepared => cases hp.symm.trans prepared

/-- A run that got past its start ends by closing. -/
theorem Runs.closed (hr : Runs s script h report)
    (hp : Output.prepare s.outPath s.force h = .ok () h') :
    ∃ (y : Loop) (ending : Ending), Ended s script h' ending y.host
      ∧ y.account.requests = [.subscribe s.base, .unsubscribe]
      ∧ report = (y.close s ending).report := by
  cases hr with
  | refused refused => cases hp.symm.trans refused
  | ended prepared steps hover =>
      cases hp.symm.trans prepared
      cases Loop.Sound.steps (Loop.going_start s script h').sound steps with
      | going g =>
          cases g.attends with
          | waiting phase => simp [Loop.isOver, phase] at hover
          | woken phase => simp [Loop.isOver, phase] at hover
      | leaving l =>
          cases l.retreats with
          | gathering phase => simp [Loop.isOver, phase] at hover
          | gathered phase => simp [Loop.isOver, phase] at hover
          | leaving phase => simp [Loop.isOver, phase] at hover
          | left phase => simp [Loop.isOver, phase] at hover
      | @closed ending y ended requests closed =>
          exact ⟨y, ending, ended, requests, congrArg Loop.report closed⟩

/-- A source always closes its script. -/
theorem Source.closed_script (source : Source) : Closed source.script := by
  cases source with
  | fails fault => exact Or.inr ⟨fault, rfl⟩
  | hangs => exact Or.inl (by simp [Source.script])
  | delivers events => exact Or.inl (by simp [Source.script])

theorem events_map_event (l : List Event) : events (l.map .event) = l := by
  simp [events, List.filterMap_map, Function.comp_def, Arrival.event?]

theorem settlement_map_event (l : List Event) :
    settlement (l.map .event) = none := by
  simp [settlement, Arrival.settlement?]

/-- Events alone close nothing. -/
theorem not_closed_map_event (l : List Event) :
    ¬ Closed (l.map .event) := by
  rintro (hstop | ⟨fault, hfault⟩)
  · simp at hstop
  · cases (settlement_map_event l).symm.trans hfault

/-- A source that delivers events makes the subscription. -/
theorem Source.not_failed_delivers (l : List Event) :
    ¬ Failed (Source.delivers l).script := by
  rintro ⟨fault, hfault⟩
  rw [Source.script, settlement_append, settlement_map_event] at hfault
  cases hfault

/-- The run in which nothing arrives as long as something is to do. -/
theorem runs_run (s : Settings) (source : Source) (h : Host) :
    Runs s source.script h (run s source h) := by
  unfold run
  cases hp : Output.prepare s.outPath s.force h with
  | error f h' => exact .refused hp
  | ok u h' =>
      obtain ⟨hsteps, hover⟩ := Loop.Sound.play_over
        (Loop.going_start s source.script h').sound
        (Or.inl source.closed_script) _ (Nat.le_refl _)
      exact .ended hp hsteps hover

-- ============================================================ the outcome

/-- A run that is not told to exit keeps nothing. -/
theorem Outcome.not_kept (ho : Outcome s script h used c ending note)
    (hs : s.exitAfterSync = false) : ending.keep = false := by
  cases ho.cause with
  | fault failed => rfl
  | synced => exact hs
  | halted => rfl
  | stopped asked => rfl

/-- What has become of the output directory: it is gone, or it is empty and
the working directory, or it was emptied with force and the path to it,
which went through what was in it, leads to nothing. -/
inductive Cleared (s : Settings) (before after : Disk) : Prop
  | gone (gone : after.root.view (before.resolve s.outPath) = none)
      (free : after.occupied s.outPath = false)
  | emptied (here : before.resolve s.outPath = before.workingDirectory)
      (empty : after.list s.outPath = .ok [])
  | lost (forced : s.force = true) (lost : after.Lost s.outPath)
      (empty : after.root.get? (before.resolve s.outPath)
        = some (.directory []))

/-- From an output directory that is ready, whatever events were applied,
the output directory is cleared at the end. -/
theorem remove_cleared {d : Disk} (hp : IsSegment s.payload)
    (ha : Output.Apart s.outPath d)
    (hready : Output.Ready s.outPath s.force (d.resolve s.outPath) h.disk)
    (hhere : h.disk.workingDirectory = d.workingDirectory)
    (hstands : h.disk.root.view d.workingDirectory = some .directory)
    (events : List Event)
    (hend : h'.disk = (s.replica.after events h).disk) :
    ∃ d', Output.remove s.outPath h' = .ok () { h' with disk := d' }
      ∧ Cleared s d d' := by
  have hdot := Path.dot_not_mem_ofString s.out
  cases hready with
  | lost forced lost empty =>
      have hsame : h'.disk = h.disk :=
        hend.trans (s.replica.after_keeps (P := fun x => x = h.disk)
          lost.guards hp events rfl)
      exact ⟨h'.disk, Output.remove_lost (hsame ▸ lost),
        .lost forced (hsame ▸ lost) (hsame ▸ empty)⟩
  | site st path location holds stays =>
      obtain ⟨m, hm, hplain⟩ := s.replica.after_keeps
        (path ▸ st.guards_site) hp events ⟨_, holds.symm, Site.plain_empty⟩
      have hwd : st.disk.workingDirectory = d.workingDirectory := by
        rw [← hhere, ← holds]
        rfl
      rw [← holds, ← path] at stays
      rw [← holds] at hstands
      have hbeside : st.location <+: st.disk.workingDirectory →
          st.location = st.disk.workingDirectory := by
        rw [location, hwd]
        exact ha.beside
      obtain ⟨d', hremove, hdone⟩ := Output.remove_site hplain
        (hend.trans hm) stays (path ▸ hdot) (hwd ▸ hstands) hbeside
      rw [path] at hremove hdone
      rw [location, hwd] at hdone
      refine ⟨d', hremove, ?_⟩
      rcases hdone with ⟨hgone, hfree⟩ | ⟨hhere', hempty⟩
      · exact .gone hgone hfree
      · exact .emptied hhere' hempty

/-- Every run that gets past its start comes to its end, as `Outcome` has
it; one that does not reports so and asks nothing of the source. -/
theorem run_outcome (hp : IsSegment s.payload)
    (ha : Output.Apart s.outPath h.disk) (script : List Arrival) :
    (∀ f h', Output.prepare s.outPath s.force h = .error f h' →
      ∀ report, Runs s script h report →
        report = ⟨.error (.output f), {}, h'⟩)
    ∧ ∀ h', Output.prepare s.outPath s.force h = .ok () h' →
      (Closed script ∨ ¬ Passes s (events script) h' →
        (Loop.start s script h').Finishes s)
      ∧ ∀ report, Runs s script h report →
        ∃ used c ending note, Outcome s script h' used c ending note
          ∧ report.result = ending.result
          ∧ report.account.requests = [.subscribe s.base, .unsubscribe]
          ∧ report.host.log = (s.replica.after used h').log
            ++ (Conclusion.note c ++ note)
          ∧ (if ending.keep then report.host.disk
              = (s.replica.after used h').disk
            else Cleared s h.disk report.host.disk) := by
  refine ⟨fun f h' hprepare report hr => hr.eq_refused hprepare,
    fun h' hprepare => ⟨(Loop.going_start s script h').sound.finishes,
      fun report hr => ?_⟩⟩
  obtain ⟨y, ending, ⟨used, c, note, houtcome, hdisk, hlog⟩, hrequests,
    rfl⟩ := hr.closed hprepare
  refine ⟨used, c, ending, note, houtcome, ?_⟩
  unfold Loop.close
  cases hkeep : ending.keep with
  | true => exact ⟨rfl, hrequests, hlog, hdisk⟩
  | false =>
      obtain ⟨hready, hhere, hstands⟩ := Output.prepare_ready ha hprepare
      obtain ⟨d, hremove, hcleared⟩ :=
        remove_cleared hp ha hready hhere hstands used hdisk
      simp only [Bool.false_eq_true, if_false, hremove]
      exact ⟨rfl, hrequests, hlog, hcleared⟩

/-- A run whose second event has no node, in a working directory that the
output directory is made in. -/
theorem run_outcome_broken :
    let s : Settings := { out := "m", payload := "data" }
    let leaf : Event := ⟨.added, some ⟨"/a", some [1], 0, 5⟩⟩
    let h : Host := { disk := ⟨.directory [("w", .directory [])], ["w"]⟩ }
    let report := run s (.delivers [leaf, ⟨.added, none⟩, leaf]) h
    report.account.requests = [.subscribe "/", .unsubscribe]
      ∧ Cleared s h.disk report.host.disk := by
  intro s leaf h report
  have hout : s.outPath = ⟨.here, ["m"]⟩ := by decide +kernel
  have hresolve : h.disk.resolve s.outPath = ["w", "m"] := by
    rw [hout]
    simp [Disk.resolve, Disk.resolveFrom, Disk.start, h, Entry.get?,
      Entry.child?, Children.get?]
  have hparent : h.disk.resolve s.outPath.parent = ["w"] := by
    rw [hout]
    simp [Disk.resolve, Disk.resolveFrom, Disk.start, h, Path.parent]
  have ha : Output.Apart s.outPath h.disk := by
    refine ⟨rfl, ?_, ?_⟩
    · rw [hresolve]
      decide
    · intro n hn t
      rw [hout, List.getLast?_singleton, Option.some.injEq] at hn
      subst hn
      rw [hparent]
      simp [h, Entry.view_cons, Children.get?]
  obtain ⟨h', hprepare⟩ : ∃ h', Output.prepare
      (Settings.outPath { out := "m", payload := "data" }) false
      { disk := ⟨.directory [("w", .directory [])], ["w"]⟩ }
        = .ok () h' := ⟨⟨_, [], _⟩, rfl⟩
  obtain ⟨used, c, ending, note, hend, -, hrequests, -, hdisk⟩ :=
    ((run_outcome (by decide) ha _).2 h' hprepare).2 report
      (runs_run s (.delivers [leaf, ⟨.added, none⟩, leaf]) h)
  rw [hend.not_kept rfl] at hdisk
  exact ⟨hrequests, hdisk⟩

/-- With force, and an output directory that is left again by the path to
it: a run without events that is stopped leaves the directory, emptied. -/
theorem run_leaves_emptied :
    let s : Settings := { out := "m/sub/..", payload := "data", force := true }
    let h : Host :=
      { disk := ⟨.directory [("m", .directory [("sub", .directory [])])], []⟩ }
    let report := run s (.delivers []) h
    report.result = .ok 0
      ∧ h.disk.root.view ["m"] = some .directory
      ∧ h.disk.isDirectory s.outPath = .ok true
      ∧ h.disk.resolve s.outPath = ["m"]
      ∧ ["m"] ≠ h.disk.workingDirectory
      ∧ report.host.disk.root.view ["m"] = some .directory := by
  intro s h report
  have hout : s.outPath = ⟨.here, ["m", "sub", ".."]⟩ := by decide +kernel
  have hcode : (match report.result with
      | .ok code => code == 0
      | .error _ => false) = true := by decide +kernel
  have hthere : report.host.disk.root.view ["m"] = some .directory := by
    decide +kernel
  have hdirectory : h.disk.isDirectory s.outPath = .ok true := by
    decide +kernel
  have hresolve : h.disk.resolve s.outPath = ["m"] := by
    rw [hout]
    simp [Disk.resolve, Disk.resolveFrom, Disk.start, h, Entry.get?,
      Entry.child?, Children.get?]
  refine ⟨?_, rfl, hdirectory, hresolve, by decide, hthere⟩
  cases hresult : report.result with
  | ok code =>
      rw [hresult] at hcode
      rw [of_decide_eq_true hcode]
  | error failure =>
      rw [hresult] at hcode
      cases hcode

end TreeReplica.Run
