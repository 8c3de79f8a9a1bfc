/-
The two programs agree. A run that is told to exit when it is in sync is
given what a watch of a remote tree reports: every node as added, in any
order and perhaps more than once, among changes of the connection, and
then that the initial events are complete. The run ends well and keeps
the output directory, and the verifying program, reading the same tree
from a server, finds nothing wrong with it (`verify_agrees`).

On the one side the run leaves a mirror of the tree, on the other the
snapshot has the nodes of the tree, and a mirror holds just the layout
that is expected of its nodes.
-/
import TreeReplica.Proofs.Program.Verdict
import TreeReplica.Proofs.Remote.Snapshot
import TreeReplica.Proofs.Replica.Listing
import TreeReplica.Proofs.Replica.Outcome

namespace TreeReplica

open Work

-- ================================================================ reports

namespace Remote

/-- The report of a node of a tree as added. -/
def Tree.report (t : Tree) (l : Location) (c : Content) : Report :=
  { kind := .event .added
    subject := some
      { path := pathOf l, data := c.data
        status := some
          { childCount := t.childCount l, modifiedAt := c.modifiedAt } } }

/-- The reports tell of nodes of a tree as added or of the connection, and
of every node. -/
structure Tree.Reported (t : Tree) (reports : List Report) : Prop where
  only : ∀ r ∈ reports, (∃ change, r.kind = .connection change)
    ∨ ∃ l c, (l, c) ∈ t.held ∧ r = t.report l c
  every : ∀ l c, (l, c) ∈ t.held → t.report l c ∈ reports

/-- The events that are made of reports. -/
def heard (reports : List Report) : List Event :=
  reports.filterMap fun r => (Watch.hear r).2

/-- After the reports the initial events are complete. -/
theorem heard_complete (reports : List Report) {last : Report}
    (h : last.kind = .event .initialized) :
    heard (reports ++ [last])
      = heard reports ++ [{ kind := .initialized }] := by
  unfold heard
  rw [List.filterMap_append, List.filterMap_cons, Watch.hear, h]
  simp [Report.event?, h]

/-- Where a tree is reported its nodes are listed. -/
theorem Tree.Reported.listed {t : Tree} {reports : List Report}
    (h : t.Reported reports) : t.Listed (heard reports) := by
  have hnode : ∀ l c, (Watch.hear (t.report l c)).2
      = some ⟨.added, some (t.node l c)⟩ := fun _ _ => rfl
  constructor
  · intro e he
    obtain ⟨r, hr, hheard⟩ := List.mem_filterMap.mp he
    rcases h.only r hr with ⟨change, hkind⟩ | ⟨l, c, hmem, rfl⟩
    · rw [Watch.hear, hkind] at hheard
      cases hheard
    · rw [hnode, Option.some.injEq] at hheard
      exact ⟨_, List.mem_map.mpr ⟨(l, c), hmem, rfl⟩, hheard.symm⟩
  · intro n hn
    obtain ⟨⟨l, c⟩, hmem, rfl⟩ := List.mem_map.mp hn
    exact List.mem_filterMap.mpr ⟨_, h.every l c hmem, hnode l c⟩

end Remote

-- ================================================================ the run

namespace Run

variable {s : Settings} {h h' h₁ : Host} {script before : List Arrival}
  {first used : List Event} {last : Event} {c : Option Conclusion}
  {ending : Ending} {note : Log}

/-- Events that are applied without a failure or an error report do not end
a run, unless the initial events are complete. -/
theorem passes_of_follow? (hf : s.replica.follow? first h = some h')
    (hkind : ∀ e ∈ first, e.kind ≠ .initialized) :
    Passes s first h ∧ s.replica.after first h = h' := by
  induction first generalizing h with
  | nil =>
      cases hf
      exact ⟨passes_nil _, rfl⟩
  | cons e first ih =>
      obtain ⟨h₁, hok, -, hf⟩ := Replica.follow?_cons.mp hf
      have hleave : s.replica.leave h e = h₁ := by
        rw [Replica.leave, hok]
      obtain ⟨hpasses, hafter⟩ :=
        ih hf fun e' he' => hkind e' (List.mem_cons_of_mem e he')
      refine ⟨passes_cons ?_ (hleave ▸ hpasses), ?_⟩
      · rintro (⟨halt, h₂, hraise⟩ | ⟨-, hcomplete⟩)
        · cases hok.symm.trans hraise
        · exact hkind e List.mem_cons_self hcomplete
      · rw [Replica.after, List.foldl_cons, hleave]
        exact hafter

/-- A run that exits once it is in sync, whose subscription does not fail
and whose initial events are complete before it is closed, ends with
them. -/
theorem Outcome.synced (ho : Outcome s script h used c ending note)
    (hexit : s.exitAfterSync = true) (hfine : ¬ Failed script)
    (hbefore : before <+: script) (hopen : ¬ Closed before)
    (hfirst : first ++ [last] <+: events before)
    (hpasses : Passes s first h) (hlast : last.kind = .initialized) :
    used = first ++ [last]
      ∧ ending = { result := .ok 0, keep := true } := by
  have hends : Ends s last (s.replica.after first h) :=
    Or.inr ⟨hexit, hlast⟩
  obtain ⟨host, happlied⟩ := ho.applied
  have hall : first ++ [last] <+: events script := by
    obtain ⟨more, rfl⟩ := hbefore
    exact hfirst.trans (by simp)
  cases c with
  | none =>
      obtain ⟨rest, rfl⟩ := hfirst.trans (ho.due rfl before hbefore hopen)
      refine absurd hends (happlied.passes first last rest ?_)
      simp
  | some conclusion =>
      obtain ⟨b, e, rfl, hb, he⟩ := happlied.ends
      have hsame := first_end_unique hb he hpasses hends ho.given hall
      refine ⟨hsame, ?_⟩
      obtain ⟨rfl, hlast'⟩ := List.append_inj' hsame rfl
      cases hlast'
      cases ho.cause with
      | fault failed => exact absurd ⟨_, failed⟩ hfine
      | synced => rw [hexit]
      | halted =>
          cases (Replica.apply_initialized hlast _ _).symm.trans
            (happlied.raised rfl)

end Run

-- =============================================================== the scan

namespace Disk

variable {d d' : Disk} {p : Path} {m : Entry}

/-- A scan depends on the answers about paths at and below the root. The
induction is on the locations, with the layout so far left general. -/
theorem Sees.scan_congr (hm : d.Sees p m) (ht : m.Tidy)
    (h : ∀ l, AllNames l →
      d'.status (p.descend l) = d.status (p.descend l)) :
    d'.scan p = d.scan p := by
  have hself := h [] allNames_nil
  rw [Path.descend_nil] at hself
  have hbelow : d'.below p = d.below p := by
    unfold below isDirectory
    rw [hself]
  have hitem : ∀ l, AllNames l →
      d'.itemAt (p.descend l) = d.itemAt (p.descend l) := by
    intro l hl
    unfold itemAt isDirectory read
    rw [h l hl]
  obtain ⟨found, hfound, hmem⟩ := hm.below_eq ht
  have hnames : ∀ l ∈ found, AllNames l := fun l hl =>
    hm.names l ((hmem l).mp hl).2
  unfold scan
  rw [hbelow, hfound]
  simp only [bind, Except.bind]
  clear hfound hmem
  generalize ({} : Layout) = before
  induction found generalizing before with
  | nil => rfl
  | cons l rest ih =>
      have ih := ih fun k hk => hnames k (List.mem_cons_of_mem _ hk)
      rw [List.foldlM_cons, List.foldlM_cons, hitem l (hnames l (by simp))]
      cases d.itemAt (p.descend l) with
      | error f => rfl
      | ok item => exact ih _

end Disk

-- ========================================================== the verification

namespace Program

open CommandLine (Command)

variable {s : Run.Settings} {t : Remote.Tree} {b : Location}
  {server : Remote.Server} {h h' : Host} {d : Disk} {config : Config}

/-- Nothing is wrong with a directory that holds the layout that is
expected of the nodes. -/
theorem verifyNodes_expected {out : Path} (base : String) {payload : String}
    {nodes : List Node} {actual : Layout}
    (hscan : d.scan out = .ok actual)
    (hsame : ∀ path, actual.get? path
      = (Layout.expected nodes base payload).1.get? path)
    (calls : List VerifyCall) :
    (verifyNodes d out base payload nodes calls).exit = .code 0
      ∧ "NG: 0" ∈ (verifyNodes d out base payload nodes calls).lines := by
  have hnone := (Layout.compare_eq_nil
    (Layout.distinct_expected nodes base payload)).mpr hsame
  unfold verifyNodes
  simp only [hscan, hnone]
  refine ⟨rfl, ?_⟩
  unfold verdict
  exact List.mem_cons_of_mem _ (List.mem_singleton.mpr rfl)

/-- A replica that was empty, once a tree is listed for it, holds the layout
that is expected of the nodes that a snapshot of the tree has. -/
theorem listed_layout {r : Replica} {listed : List Event}
    (hb : Remote.Tree.Legal b) (hbase : r.base = Remote.pathOf b)
    (ht : t.WellFormed b) (hp : IsSegment r.payload)
    (husable : h.disk.status r.root = .ok (.directory []))
    (hl : t.Listed listed) (hroom : r.roomy listed h = true)
    (hserver : server.Serves t b) :
    ∃ h₁ m actual, r.follow? listed h = some h₁
      ∧ h₁.disk.Sees r.root m ∧ m.Tidy
      ∧ h₁.disk.isDirectory r.root = .ok true
      ∧ h₁.disk.scan r.root = .ok actual
      ∧ ∀ path, actual.get? path
        = (Layout.expected (Remote.snapshot server r.base).nodes r.base
            r.payload).1.get? path := by
  have hvalid : Remote.validate r.base = .ok r.base := hbase ▸ hb.valid
  -- what the events leave mirrors the tree
  obtain ⟨site, hr, hs, hc⟩ := Site.exists_start hp husable
  have hroom' : r.roomy (listed ++ []) h = true := by
    rwa [List.append_nil]
  obtain ⟨h₁, v, hfollow, hs₁, hc₁, hmirrors, -⟩ :=
    Site.listed_mirrors ht hb.names hbase hr hc hs
      (fun m hm => Site.view_empty hm) hl hroom'
  -- and the snapshot has the nodes of the tree
  obtain ⟨-, hnodes, hdistinct⟩ :
      (Remote.snapshot server r.base).Covers t b :=
    hbase ▸ Remote.snapshot_reads hserver ht
  have hat := ht.nodeAt_eq (r := r) hb.names hbase hvalid hdistinct
    (fun n hn => ((hnodes n).mp hn).imp' (b ++ ·) fun _ hl => hl)
    fun n l hl => (hnodes n).mpr ⟨l, hl⟩
  obtain ⟨actual, hscan, hsame⟩ :=
    (hs₁.inSync hc₁ hr hvalid hdistinct (hat ▸ hmirrors)).layout
  obtain ⟨m, hm, hv, htidy⟩ := hs₁.tree
  refine ⟨h₁, m, actual, hfollow, ?_, htidy, ?_, hscan, hsame⟩
  · rw [hm, show r.root = site.path from hr.root]
    exact Site.Sound.sees (hv ▸ hs₁.sound)
  · rw [hm, show r.root = site.path from hr.root]
    exact Site.isDirectory_self (hv ▸ hs₁.sound.base)

/-- The run and the verification agree. Whatever else arrives, if the
initial events are complete before the run is closed and the subscription
does not fail, the run ends well; and while nobody changes what is at and
below the output directory, the verifying program finds there what it
expects of the tree that was reported to the run. -/
theorem verify_agrees (hb : Remote.Tree.Legal b)
    (hbase : s.base = Remote.pathOf b) (ht : t.WellFormed b)
    (hp : IsSegment s.payload) (hexit : s.exitAfterSync = true)
    {reports : List Remote.Report} {last : Remote.Report}
    (hreports : t.Reported reports) (hlast : last.kind = .event .initialized)
    {script before : List Run.Arrival} (hbefore : before <+: script)
    (hopen : ¬ Run.Closed before) (hfine : ¬ Run.Failed script)
    (hheard : Remote.heard (reports ++ [last]) <+: Run.events before)
    (hstart : Output.prepare s.outPath s.force h = .ok () h')
    (husable : h'.disk.status s.outPath = .ok (.directory []))
    (hroom : s.replica.roomy (Remote.heard reports) h' = true)
    (hserver : server.Serves t b) :
    (Run.Loop.start s script h').Finishes s
    ∧ ∀ report, Run.Runs s script h report →
      report.result = .ok 0
      ∧ report.host.disk.isDirectory s.outPath = .ok true
      ∧ ∀ (words : List String) (c : Command) (config : Config) (d : Disk)
        (reader : Config.Reader),
        Command.read verifyInterface words = .command c →
        verifySettings d c reader = .ok config → config.server ≠ "" →
        config.path = s.base → config.output = s.out →
        config.payload = s.payload →
        (∀ l, AllNames l → d.status (s.outPath.descend l)
          = report.host.disk.status (s.outPath.descend l)) →
        (verify words d server none reader).exit = .code 0
          ∧ "NG: 0" ∈ (verify words d server none reader).lines := by
  have hlisted := hreports.listed
  obtain ⟨h₁, m, actual, hfollow, hsees, htidy, hself, hscan, hsame⟩ :=
    listed_layout (r := s.replica) hb hbase ht hp husable hlisted hroom
      hserver
  have hkind : ∀ e ∈ Remote.heard reports, e.kind ≠ .initialized := by
    intro e he
    obtain ⟨n, -, rfl⟩ := hlisted.only e he
    simp
  obtain ⟨hpasses, hafter⟩ := Run.passes_of_follow? hfollow hkind
  rw [Remote.heard_complete reports hlast] at hheard
  refine ⟨(Run.Loop.going_start s script h').sound.finishes (Or.inr ?_),
    fun report hrun => ?_⟩
  · -- the event that ends the run is among those of the script
    obtain ⟨more, rfl⟩ := hbefore
    obtain ⟨rest, hrest⟩ := hheard
    intro hall
    refine hall (Remote.heard reports) { kind := .initialized }
      (rest ++ Run.events more) ?_ (Or.inr ⟨hexit, rfl⟩)
    rw [Run.events_append, ← hrest]
    simp
  obtain ⟨y, ending, ⟨used, c, note, houtcome, hdisk, -⟩, -, rfl⟩ :=
    hrun.closed hstart
  obtain ⟨rfl, rfl⟩ := houtcome.synced hexit hfine hbefore hopen hheard
    hpasses rfl
  have hleft : (s.replica.after (Remote.heard reports
      ++ [{ kind := .initialized }]) h').disk = h₁.disk := by
    rw [Replica.after_concat, hafter, Replica.leave,
      Replica.apply_initialized rfl]
    rfl
  rw [hleft] at hdisk
  refine ⟨rfl, by rw [← hself, ← hdisk]; rfl, ?_⟩
  intro words c config d reader hread hset hnamed hpath hout hpay hstays
  have hstays : ∀ l, AllNames l → d.status (s.outPath.descend l)
      = h₁.disk.status (s.outPath.descend l) := fun l hl =>
    (hstays l hl).trans (by rw [← hdisk]; rfl)
  have hpathout : Path.ofString config.output = s.outPath := by
    rw [hout]
    rfl
  have hthere : d.isDirectory (Path.ofString config.output) = .ok true := by
    have hstay := hstays [] allNames_nil
    rw [Path.descend_nil] at hstay
    rw [hpathout, Disk.isDirectory, hstay]
    exact hself
  have hfail : (Remote.snapshot server config.path).failure = none := by
    rw [hpath, hbase]
    exact (Remote.snapshot_reads hserver ht).1
  obtain ⟨calls, hverify⟩ := verify_eq hread hset hnamed hthere hfail
  rw [hverify, hpathout, hpath, hpay]
  exact verifyNodes_expected s.base
    ((hsees.scan_congr htidy hstays).trans hscan) hsame calls

/-- A container with data above a leaf, reported children first, twice,
and while the connection comes and goes; then verified. -/
theorem verify_agrees_interleaved :
    let s : Run.Settings := { out := "m", exitAfterSync := true }
    let t : Remote.Tree := ⟨[([], {}), (["a"], ⟨some [1], 5⟩),
      (["a", "b"], ⟨some [2], 7⟩)]⟩
    let reports : List Remote.Report :=
      [t.report ["a", "b"] ⟨some [2], 7⟩, ⟨.connection .suspended, none⟩,
        t.report ["a"] ⟨some [1], 5⟩, t.report [] {},
        t.report ["a"] ⟨some [1], 5⟩]
    let server : Remote.Server := [⟨"/", none, ["a"], 1, 0, none, none⟩,
      ⟨"/a", some [1], ["b"], 1, 5, none, none⟩,
      ⟨"/a/b", some [2], [], 0, 7, none, none⟩]
    let report := Run.run s (.delivers (Remote.heard
      (reports ++ [⟨.event .initialized, none⟩]))) { disk := ⟨.directory [], []⟩ }
    (verify ["--server", "zk", "--out", "m"] report.host.disk server none).exit
      = .code 0 := by
  intro s t reports server report
  have hlocations : ∀ l ∈ t.locations,
      l = [] ∨ l = ["a"] ∨ l = ["a", "b"] := by
    intro l hl
    simpa [t, Remote.Tree.locations] using hl
  have ht : t.WellFormed [] := by decide +kernel
  have hreports : t.Reported reports := by
    constructor
    · intro r hr
      simp only [reports, List.mem_cons, List.not_mem_nil, or_false] at hr
      rcases hr with rfl | rfl | rfl | rfl | rfl
      · exact Or.inr ⟨_, _, by simp [t], rfl⟩
      · exact Or.inl ⟨_, rfl⟩
      · exact Or.inr ⟨_, _, by simp [t], rfl⟩
      · exact Or.inr ⟨_, _, by simp [t], rfl⟩
      · exact Or.inr ⟨_, _, by simp [t], rfl⟩
    · intro l c hmem
      simp only [t, List.mem_cons, Prod.mk.injEq, List.not_mem_nil, or_false]
        at hmem
      rcases hmem with ⟨rfl, rfl⟩ | ⟨rfl, rfl⟩ | ⟨rfl, rfl⟩
      · simp [reports]
      · simp [reports]
      · simp [reports]
  have hserver : server.Serves t [] := by
    refine ⟨fun l n _ hn => ?_, fun hnone => by cases hnone⟩
    obtain ⟨c, hc, rfl⟩ := Remote.Tree.node?_eq_some.mp hn
    rcases hlocations l (Remote.Tree.mem_of_content? hc) with rfl | rfl | rfl
    · cases hc
      exact ⟨⟨"/", none, ["a"], 1, 0, none, none⟩, by decide +kernel,
        by decide +kernel, rfl, by decide, rfl, by decide,
        fun k => by simp [t, Remote.Tree.locations], rfl, rfl⟩
    · cases hc
      exact ⟨⟨"/a", some [1], ["b"], 1, 5, none, none⟩, by decide +kernel,
        by decide +kernel, rfl, by decide, rfl, by decide,
        fun k => by simp [t, Remote.Tree.locations], rfl, rfl⟩
    · cases hc
      exact ⟨⟨"/a/b", some [2], [], 0, 7, none, none⟩, by decide +kernel,
        by decide +kernel, rfl, by decide, rfl, by decide,
        fun k => by simp [t, Remote.Tree.locations], rfl, rfl⟩
  have hout : s.outPath = ⟨.here, ["m"]⟩ := by decide +kernel
  have hstart : Output.prepare s.outPath s.force
      { disk := ⟨.directory [], []⟩ }
      = .ok () ⟨⟨.directory [("m", .directory [])], []⟩, [], fun _ => 0⟩ := by
    rw [hout]
    rfl
  have husable : Disk.status ⟨.directory [("m", .directory [])], []⟩ s.outPath
      = .ok (.directory []) := by
    rw [hout]
    rfl
  let listed := Remote.heard (reports ++ [⟨.event .initialized, none⟩])
  have hagree := @verify_agrees s t [] server _ _ (by decide +kernel)
    (by decide +kernel) ht (by decide) rfl reports
    ⟨.event .initialized, none⟩ hreports rfl
    (Run.Source.delivers listed).script (listed.map .event)
    (List.prefix_append _ _) (Run.not_closed_map_event listed)
    (Run.Source.not_failed_delivers listed)
    ⟨[], (List.append_nil _).trans (Run.events_map_event listed).symm⟩ hstart
    husable
    (by decide +kernel) hserver
  obtain ⟨-, -, hverify⟩ := hagree.2 report (Run.runs_run s _ _)
  exact (hverify ["--server", "zk", "--out", "m"] _ _ _ .standard rfl rfl
    (by decide) rfl rfl rfl fun _ _ => rfl).1

end Program

end TreeReplica
