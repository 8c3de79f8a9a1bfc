/-
A run that is not told to force its way. It refuses to start where
anything is in the way, so all that it can do to a disk is to make
directories on the way to the output directory (`prepare_grown`), to keep
a replica in the output directory while that was empty, and to take that
replica and the output directory away again. Whatever the disk was, the
events and the end of the run, `run_spares` says that no entry is lost,
and where new ones can be.
-/
import TreeReplica.Proofs.Replica.Containment
import TreeReplica.Proofs.Replica.Outcome

namespace TreeReplica

namespace Output

open Work

variable {out : Path} {d d' : Disk} {h h' : Host}

-- =============================================================== the start

/-- What a start without force leaves, on a disk that has only grown: the
output directory, empty, if it went well. -/
theorem prepare_grown (out : Path) (h : Host) :
    match prepare out false h with
    | .ok _ h' => h.disk.Grown (OnTheWay out h.disk) h'.disk
        ∧ h'.disk.find true out
          = .ok (h.disk.resolve out, .directory [])
    | .error _ h' => h.disk.Grown (OnTheWay out h.disk) h'.disk := by
  have hstarts := prepare_starts out false h
  generalize prepare out false h = result at hstarts
  cases hstarts with
  | unknown => exact .refl _
  | obstructed => exact .refl _
  | fileStays => exact .refl _
  | replaced asked forced => cases forced
  | unmade asked grown => exact grown
  | empty asked made => exact ⟨made.grown, made.found⟩
  | full asked gentle made => exact made.grown
  | cleaned asked forced => cases forced
  | unclean asked forced => cases forced

-- ================================================================= the end

variable {s : Site} {m : Entry}

/-- What the end of a run leaves of a site: another plain tree in it, or
the disk without the empty site, which is then what the last name of the
path stands for. -/
inductive Closed (s : Site) : Disk → Prop
  | held {m : Entry} (plain : s.Plain m) : Closed s (s.holding m)
  | gone {a : Location} {n : String} {subject : Subject}
      (reached : (s.holding (.directory [])).reach false s.path subject
        = .ok (.inside a n)) (there : a ++ [n] = s.location) :
      Closed s ((s.holding (.directory [])).drop s.location)

/-- The directory that is taken away is the site. -/
theorem removeDirectory_closed
    (hr : (s.holding (.directory [])).removeDirectory s.path = .ok d) :
    Closed s d := by
  obtain ⟨a, n, hreach, -, hnamed, rfl⟩ := Disk.removeDirectory_ok hr
  have hloc : a ++ [n] = s.location := by
    rw [hnamed, ← s.place_location]
    exact Disk.resolveFrom_of_walk (s.leads_any [])
  rw [hloc]
  exact .gone hreach hloc

/-- However the removal of a site with a plain tree ends, it is closed. -/
theorem remove_closed (hp : s.Plain m) (hd : h.disk = s.holding m) :
    Leaves (Closed s) (remove s.path h) := by
  have hself : h.disk.isDirectory s.path = .ok true := by
    rw [hd, Site.isDirectory_self hp.base]
  have hlast : Leaves (Closed s) ((do
      if ← ask (isElsewhere s.path) then act (·.removeDirectory s.path)
        : Work Fault Unit) { h with disk := s.holding (.directory []) }) := by
    cases he : isElsewhere s.path (s.holding (.directory [])) with
    | error f =>
        simp only [Bind.bind, EStateM.bind, ask, he]
        exact .held Site.plain_empty
    | ok elsewhere =>
        rw [ask_bind_eq he]
        cases elsewhere with
        | false => exact .held Site.plain_empty
        | true =>
            rw [if_pos rfl]
            cases hr : (s.holding (.directory [])).removeDirectory s.path with
            | ok d =>
                rw [act_eq hr]
                exact removeDirectory_closed hr
            | error f =>
                simp only [act, hr]
                exact .held Site.plain_empty
  unfold remove
  rw [ask_bind_eq hself]
  simp only [Bool.not_true, Bool.false_eq_true, if_false]
  unfold rescue
  rw [bind_eq (deleteContents_plain hp hd)]
  split
  · next hr =>
      rw [hr] at hlast
      exact hlast
  · next fault host hr =>
      rw [hr] at hlast
      cases fault with
      | system e => exact hlast
      | argument e => exact hlast

end Output

namespace Run

open Work Output

variable {s : Settings} {h : Host} {script : List Arrival} {report : Report}

-- =============================================================== whole runs

/-- What a disk has of an earlier one after a run that was not told to
force its way. Every entry is still there, but perhaps the empty output
directory itself, if its path does not end at a link; and what is new is
the output directory, or below it, or a directory on the way to it. -/
structure Spared (out : Path) (d d' : Disk) : Prop where
  kept : ∀ l x, d.root.view l = some x → d'.root.view l = some x
    ∨ l = d.resolve out ∧ x = .directory ∧ d.Straight out
  fresh : ∀ l, d.root.view l = none → d'.root.view l ≠ none →
    d.resolve out <+: l
    ∨ d'.root.view l = some .directory ∧ OnTheWay out d l

/-- A disk that has grown on the way only has everything. -/
theorem spared_of_grown {out : Path} {d d' : Disk}
    (hg : d.Grown (OnTheWay out d) d') : Spared out d d' :=
  ⟨fun l x hx => Or.inl (hg.kept l x hx),
    fun l hnew hthere => Or.inr (hg.fresh l hnew hthere)⟩

/-- A path whose last name stands for what is no link does not end at
one. -/
theorem straight_of_reach {out : Path} {d : Disk} {a : Location}
    {n : String} {subject : Subject}
    (hr : d.reach false out subject = .ok (.inside a n))
    (hl : ∀ t, d.root.view (a ++ [n]) ≠ some (.link t)) :
    d.Straight out := by
  intro k hk t hlink
  obtain ⟨-, -, hw⟩ := Disk.reach_eq_ok.mp hr
  obtain ⟨above, hparts⟩ := List.getLast?_eq_some_iff.mp hk
  rw [hparts] at hw
  obtain ⟨before, left, habove, hdir, hlast⟩ := walk_concat hw
  have hparent : d.resolve out.parent = before.location := by
    rw [Disk.resolve, Path.parent, hparts, List.dropLast_concat]
    exact Disk.resolveFrom_of_walk habove
  rw [walk_single hdir] at hlast
  split at hlast
  · cases hlast
  split at hlast
  · cases hlast
  split at hlast
  · cases hlast
  cases hlast
  rw [hparent] at hlink
  exact hl t hlink

/-- What is left of a site at the end of a run, on a disk that has grown
into one with the empty site. -/
theorem spared_of_closed {st : Site} {d d' : Disk}
    (hg : d.Grown (OnTheWay st.path d) (st.holding (.directory [])))
    (hloc : st.location = d.resolve st.path) (hc : Output.Closed st d') :
    Spared st.path d d' := by
  have hempty : st.Plain (.directory []) := Site.plain_empty
  have hself := st.holding_view (.directory []) []
  rw [List.append_nil] at hself
  -- what was there before is not below the site, which was empty
  have hbeside : ∀ l x, d.root.view l = some x →
      st.location <+: l → l = st.location := by
    intro l x hx hbelow
    obtain ⟨b, rfl⟩ := hbelow
    have hthere := hg.kept _ x hx
    rw [st.holding_view] at hthere
    cases b with
    | nil => exact List.append_nil _
    | cons n b => cases hthere
  cases hc with
  | held plain =>
      refine ⟨fun l x hx => Or.inl ?_, fun l hnew hthere => ?_⟩
      · rw [hempty.outside plain fun h => h.2 (hbeside l x hx h.1)]
        exact hg.kept l x hx
      · by_cases hbelow : st.location <+: l
        · exact Or.inl (hloc ▸ hbelow)
        · rw [hempty.outside plain fun h => hbelow h.1] at hthere ⊢
          exact Or.inr (hg.fresh l hnew hthere)
  | gone reached there =>
      have hdrop := Entry.view_erase (st.holding (.directory [])).root
        (l := st.location) (by simp [← there])
      refine ⟨fun l x hx => ?_, fun l hnew hthere => ?_⟩
      · by_cases hbelow : st.location <+: l
        · refine Or.inr ⟨(hbeside l x hx hbelow).trans hloc, ?_, ?_⟩
          · have hsame := hg.kept l x hx
            rw [hbeside l x hx hbelow, hself] at hsame
            exact (Option.some.inj hsame).symm
          · have hstraight := straight_of_reach reached fun t ht => by
              rw [there, hself] at ht
              cases ht
            intro k hk t hl
            refine hstraight k hk t ?_
            rw [hg.sameWays.resolve_eq]
            exact (hg.sameWays.links _ t).mpr hl
        · refine Or.inl ?_
          rw [Disk.drop, hdrop, if_neg hbelow]
          exact hg.kept l x hx
      · rw [Disk.drop, hdrop] at hthere ⊢
        split at hthere
        · exact absurd rfl hthere
        · next hbelow =>
            rw [if_neg hbelow]
            exact Or.inr (hg.fresh l hnew hthere)

/-- No run that is not told to force its way takes anything of the user's
away, whatever arrives and however it ends. -/
theorem run_spares (hf : s.force = false) (hp : IsSegment s.payload)
    (hr : Runs s script h report) :
    Spared s.outPath h.disk report.host.disk := by
  have hstart := prepare_grown s.outPath h
  cases hprepare : prepare s.outPath s.force h with
  | error f h' =>
      rw [hr.eq_refused hprepare]
      rw [hf] at hprepare
      rw [hprepare] at hstart
      exact spared_of_grown hstart
  | ok u h' =>
      obtain ⟨y, ending, ⟨used, c, note, -, hdisk, -⟩, -, rfl⟩ :=
        hr.closed hprepare
      rw [hf] at hprepare
      rw [hprepare] at hstart
      obtain ⟨hgrown, hfound⟩ := hstart
      obtain ⟨st, -, hpath, hloc, hholds⟩ := Site.exists_of_find hfound
      obtain ⟨m, hm, hplain⟩ := s.replica.after_keeps
        (hpath ▸ st.guards_site) hp used ⟨_, hholds.symm, Site.plain_empty⟩
      have hend := hdisk.trans hm
      rw [← hholds, ← hpath] at hgrown
      rw [← hpath] at hloc
      have hclosed := remove_closed hplain hend
      rw [hpath] at hclosed
      have hspared : ∀ {d}, Output.Closed st d → Spared s.outPath h.disk d :=
        fun hc => hpath ▸ spared_of_closed hgrown hloc hc
      unfold Loop.close
      split
      · exact hspared (hend ▸ .held hplain)
      · split
        · next hremove =>
            rw [hremove] at hclosed
            exact hspared hclosed
        · next hremove =>
            rw [hremove] at hclosed
            exact hspared hclosed

/-- A run beside a file that stops in the middle: the file is still there. -/
theorem run_spares_beside :
    let s : Settings := { out := "m", payload := "data" }
    let h : Host := { disk := ⟨.directory
      [("x", .file [1] (.dated 5))], []⟩ }
    (run s (.delivers [⟨.added, some ⟨"/a", some [1], 0, 5⟩⟩,
      ⟨.added, none⟩]) h).host.disk.root.view ["x"]
        = some (.file [1] (.dated 5)) := by
  intro s h
  have hspared := run_spares (s := s) rfl (by decide)
    (runs_run s (.delivers [⟨.added, some ⟨"/a", some [1], 0, 5⟩⟩,
      ⟨.added, none⟩]) h)
  have hthere : h.disk.root.view ["x"] = some (.file [1] (.dated 5)) := rfl
  rcases hspared.kept _ _ hthere with hkept | ⟨-, hkind, -⟩
  · exact hkept
  · cases hkind

end Run

end TreeReplica
