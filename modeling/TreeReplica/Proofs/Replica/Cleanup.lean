/-
The output directory when a run ends. Whatever plain tree a site holds,
it is emptied and then taken away, unless it is the working directory,
which stays (`remove_site`). Where the path leads to nothing there is
nothing to do (`remove_lost`). In neither case is there a failure.
-/
import TreeReplica.Proofs.Replica.Prepare

namespace TreeReplica

-- ============================================================ the last name

namespace Site

variable {s : Site}

/-- The path to an empty site that is not the working directory, nor above
it, ends with the name of the site. -/
theorem place_inside
    (hw : walk (s.holding (.directory [])).root false linkLimit
      (s.disk.start s.path.anchor) s.path.parts = .ok s.place)
    (hdot : "." ∉ s.path.parts)
    (hout : ¬ s.location <+: s.disk.workingDirectory) :
    ∃ a n, s.place = .inside a n := by
  have hloc := s.place_location
  cases hplace : s.place with
  | inside a n => exact ⟨a, n, rfl⟩
  | itself l =>
      exfalso
      rw [hplace] at hw hloc
      rw [Place.location] at hloc
      subst hloc
      rcases List.eq_nil_or_concat s.path.parts with hp | ⟨above, n, hp⟩
      · rw [hp, walk, trace] at hw
        simp only [Except.ok.injEq, Place.itself.injEq] at hw
        refine hout (hw ▸ ?_)
        unfold Disk.start
        split
        · exact List.prefix_refl _
        · exact List.nil_prefix
      rw [List.concat_eq_append] at hp
      rw [hp] at hw
      obtain ⟨before, left, -, hdir, hlast⟩ := walk_concat hw
      rw [walk_single hdir] at hlast
      split at hlast
      · next hn => exact hdot (by simp [hp, hn])
      split at hlast
      · -- the site would hold the directory that it is above of
        simp only [Except.ok.injEq, Place.itself.injEq] at hlast
        rcases List.eq_nil_or_concat before.location with hb | ⟨a, k, hb⟩
        · rw [hb] at hlast
          exact hout (hlast ▸ List.nil_prefix)
        · rw [hb, List.concat_eq_append, List.dropLast_concat] at hlast
          rw [hb, List.concat_eq_append, hlast] at hdir
          obtain ⟨cs, hcs⟩ := Entry.view_eq_directory.mp hdir
          rw [s.holding_get?] at hcs
          cases hcs
      split at hlast
      · cases hlast
      · cases hlast

end Site

namespace Output

open Work

variable {s : Site} {m : Entry} {h : Host} {d : Disk} {out : Path}

-- ================================================================ cleaning

/-- Once an entry is dropped where a path leads, nothing is there. -/
theorem occupied_drop {a : Location} {n : String}
    (hw : walk d.root false linkLimit (d.start out.anchor) out.parts
      = .ok (.inside a n)) :
    (d.drop (a ++ [n])).occupied out = false := by
  have hview := Entry.view_erase d.root (l := a ++ [n]) (by simp)
  cases hf : (d.drop (a ++ [n])).find false out with
  | error f =>
      rw [Disk.occupied, Disk.linkStatus, hf]
      rfl
  | ok found =>
      exfalso
      obtain ⟨place, hreach, hloc, hget⟩ := Disk.find_eq_ok.mp hf
      obtain ⟨-, -, hw'⟩ := Disk.reach_eq_ok.mp hreach
      have hless : (d.drop (a ++ [n])).root.view.Within d.root.view :=
        Entry.view_erase_within d.root (by simp)
      have hstart : (d.drop (a ++ [n])).start out.anchor
          = d.start out.anchor := rfl
      rw [hstart] at hw'
      have hnone : (d.drop (a ++ [n])).root.view place.location = none := by
        rcases walk_within hless false linkLimit (d.start out.anchor)
            out.parts with hsame | hstuck
        · rw [hsame, hw] at hw'
          cases hw'
          rw [Place.location, Disk.drop, hview,
            if_pos (List.prefix_refl _)]
        · rw [hw'] at hstuck
          cases hstuck with
          | nowhere _ nothing => exact nothing
      rw [← hloc, Entry.view_eq_none.mp hnone] at hget
      cases hget

/-- A site with a plain tree is emptied and taken away, or emptied only if
it is the working directory. -/
theorem remove_site (hp : s.Plain m) (hd : h.disk = s.holding m)
    (hstays : walk (s.holding (.directory [])).root false linkLimit
      (s.disk.start s.path.anchor) s.path.parts = .ok s.place)
    (hdot : "." ∉ s.path.parts)
    (hwd : (s.holding (.directory [])).root.view s.disk.workingDirectory
      = some .directory)
    (hbeside : s.location <+: s.disk.workingDirectory →
      s.location = s.disk.workingDirectory) :
    ∃ d, remove s.path h = .ok () { h with disk := d }
      ∧ (d.root.view s.location = none ∧ d.occupied s.path = false
        ∨ s.location = s.disk.workingDirectory
          ∧ d.list s.path = .ok []) := by
  have hbase : (Entry.directory []).view [] = some .directory := rfl
  have hself : h.disk.isDirectory s.path = .ok true := by
    rw [hd, Site.isDirectory_self hp.base]
  have hresolve : (s.holding (.directory [])).resolve s.path
      = s.location := by
    rw [← s.place_location]
    exact Disk.resolveFrom_of_walk (s.leads_any [])
  have helse : isElsewhere s.path (s.holding (.directory []))
      = .ok (decide (s.location ≠ s.disk.workingDirectory)) := by
    obtain ⟨cs, hcs⟩ := Entry.view_eq_directory.mp hwd
    unfold isElsewhere
    rw [hresolve]
    have hhere : (s.holding (.directory [])).workingDirectory
        = s.disk.workingDirectory := rfl
    rw [hhere, hcs]
  have hcontents := deleteContents_plain hp hd
  by_cases hhere : s.location = s.disk.workingDirectory
  · refine ⟨s.holding (.directory []), ?_, Or.inr ⟨hhere, ?_⟩⟩
    · unfold remove
      rw [ask_bind_eq hself]
      refine rescue_eq ?_
      rw [bind_eq hcontents, ask_bind_eq helse]
      simp [hhere]
      rfl
    · rw [Disk.list, Disk.status, Site.find_self hbase]
      rfl
  · obtain ⟨a, n, hplace⟩ := Site.place_inside hstays hdot
      fun hp => hhere (hbeside hp)
    have hloc := s.place_location
    rw [hplace, Place.location] at hloc
    have hremove : (s.holding (.directory [])).removeDirectory s.path
        = .ok ((s.holding (.directory [])).drop (a ++ [n])) := by
      have hreach : (s.holding (.directory [])).reach false s.path
          (.path s.path) = .ok (.inside a n) :=
        Disk.reach_eq_ok.mpr ⟨s.clear, s.short, hplace ▸ hstays⟩
      have hget := s.holding_get? (.directory []) []
      rw [List.append_nil, Entry.get?_nil, ← hloc] at hget
      rw [Disk.removeDirectory, hreach]
      simp only [bind, Except.bind, hget]
      rfl
    have hgone : ((s.holding (.directory [])).drop (a ++ [n])).root.view
        s.location = none := by
      rw [Disk.drop, Entry.view_erase _ (by simp), hloc,
        if_pos (List.prefix_refl _)]
    refine ⟨(s.holding (.directory [])).drop (a ++ [n]), ?_,
      Or.inl ⟨hgone, occupied_drop (hplace ▸ hstays)⟩⟩
    unfold remove
    rw [ask_bind_eq hself]
    refine rescue_eq ?_
    rw [bind_eq hcontents, ask_bind_eq helse, if_pos (by simpa using hhere)]
    exact act_eq hremove

/-- Where the path leads to nothing there is nothing to take away. -/
theorem remove_lost (hl : h.disk.Lost out) : remove out h = .ok () h := by
  unfold remove
  rw [ask_bind_eq hl.isDirectory_eq]
  rfl

end Output

end TreeReplica
