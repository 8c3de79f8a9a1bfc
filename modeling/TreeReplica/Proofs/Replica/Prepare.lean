/-
The output directory when a run starts. A start that goes well makes it
an empty site or, if the path to it led through what was cleaned away,
leaves a path that leads to nothing (`prepare_ready`). Until the cleaning
every directory and every link stays where it was, so the path leads
where it would have led before.
-/
import TreeReplica.Proofs.Replica.Contents
import TreeReplica.Proofs.Replica.Start

namespace TreeReplica

namespace Output

open Work

variable {out : Path} {d d' : Disk} {h h' : Host} {force : Bool}

-- ============================================================ before work

/-- Taking away the file that is in the way keeps all ways. -/
theorem removeFile_sameWays (hs : d.Straight out)
    (hf : d.isFile out = .ok true) (hr : d.removeFile out = .ok d') :
    d.SameWays d' := by
  obtain ⟨_, x, hfound, hkind⟩ := Disk.find_of_holds hf
  obtain ⟨place, hreach, rfl, hget⟩ := Disk.find_eq_ok.mp hfound
  obtain ⟨-, -, hw⟩ := Disk.reach_eq_ok.mp hreach
  cases Disk.removeFile_dropped hr with
  | @inside l n reached =>
      obtain ⟨-, -, hw'⟩ := Disk.reach_eq_ok.mp reached
      rw [hs.walk_eq, hw] at hw'
      cases hw'
      cases x with
      | directory cs => cases hkind
      | link t => cases hkind
      | file c t =>
          have hview : ∀ m, (d.drop (l ++ [n])).root.view m
              = if l ++ [n] <+: m then none else d.root.view m :=
            Entry.view_erase d.root (by simp)
          -- the file is neither a link nor a directory, nor above one
          have hfile : ∀ m, l ++ [n] <+: m →
              d.root.view m = none ∨ d.root.view m = some (.file c t) := by
            intro m hp
            obtain ⟨b, rfl⟩ := hp
            rw [Place.location] at hget
            rw [Entry.view_append hget]
            cases b with
            | nil => exact Or.inr rfl
            | cons k b => exact Or.inl rfl
          refine ⟨rfl, fun m t => ?_, fun m hm => ?_⟩
          · rw [hview]
            split
            · next hp => rcases hfile m hp with hv | hv <;> simp [hv]
            · rfl
          · rw [hview, if_neg fun hp => by
              rcases hfile m hp with hv | hv <;> simp [hv] at hm]
            exact hm

-- =============================================================== the start

/-- What a start leaves of the output directory: an empty site, reached
in the same way whether or not a last link would be followed, or, only
with force, an empty directory and a path that leads to nothing. -/
inductive Ready (out : Path) (force : Bool) (l : Location) (d : Disk) :
    Prop
  | site (s : Site) (path : s.path = out) (location : s.location = l)
      (holds : s.holding (.directory []) = d)
      (stays : walk d.root false linkLimit (d.start out.anchor) out.parts
        = .ok s.place)
  | lost (forced : force = true) (lost : d.Lost out)
      (empty : d.root.get? l = some (.directory []))

variable {l : Location}

/-- An empty directory is ready that is found whether or not a last link
is followed. -/
theorem ready_of_find (hf : d.find true out = .ok (l, .directory []))
    (hw : walk d.root false linkLimit (d.start out.anchor) out.parts
      = walk d.root true linkLimit (d.start out.anchor) out.parts) :
    Ready out force l d := by
  obtain ⟨s, rfl, rfl, rfl, hholds⟩ := Site.exists_of_find hf
  refine .site s rfl rfl hholds (hw.trans ?_)
  have hleads : walk (s.holding (.directory [])).root true linkLimit
      (s.disk.start s.path.anchor) s.path.parts = .ok s.place := s.leads_any []
  rwa [hholds] at hleads

/-- A directory that was emptied is ready. -/
theorem ready_of_deleted {cs : List (String × Entry)}
    (hs : h.disk.Straight out)
    (hf : h.disk.find true out = .ok (l, .directory cs))
    (hr : deleteContents out h = .ok () h') :
    Ready out true l h'.disk := by
  obtain ⟨hdone, hless⟩ := deleteContents_ok hf hr
  obtain ⟨place, hreach, rfl, hget⟩ := Disk.find_eq_ok.mp hf
  obtain ⟨hclear, hshort, hw⟩ := Disk.reach_eq_ok.mp hreach
  have hstart : h'.disk.start out.anchor = h.disk.start out.anchor := by
    rw [hdone]
    rfl
  have hstay := walk_stay_within hless (hs.walk_eq.trans hw)
    (Entry.view_eq_directory.mpr ⟨cs, hget⟩)
  rw [← hstart] at hstay hw
  have hempty : h'.disk.root.get? place.location
      = some (.directory []) := by
    rw [hdone]
    exact Entry.get?_insert hget _
  rcases walk_within hless true linkLimit (h'.disk.start out.anchor)
      out.parts with hsame | hstuck
  · exact ready_of_find (Disk.find_eq_ok.mpr ⟨place,
      Disk.reach_eq_ok.mpr ⟨hclear, hshort, hsame.trans hw⟩, rfl, hempty⟩)
      hstay
  · refine .lost rfl ⟨hclear, hshort, fun follow => ?_⟩ hempty
    cases follow with
    | true => exact hstuck
    | false => exact hstay ▸ hstuck

/-- The working directory is there and is not below the place that the
path of the output directory names, and the path does not end at a
link. -/
structure Apart (out : Path) (d : Disk) : Prop where
  stands : d.root.view d.workingDirectory = some .directory
  beside : d.resolve out <+: d.workingDirectory →
    d.resolve out = d.workingDirectory
  straight : d.Straight out

/-- On a disk with the same ways an empty directory at the path is ready. -/
theorem ready_of_ways (ha : Apart out d) (hways : d.SameWays d')
    (hf : d'.find true out = .ok (l, .directory [])) :
    Ready out force (d.resolve out) d'
      ∧ d'.workingDirectory = d.workingDirectory
      ∧ d'.root.view d.workingDirectory = some .directory := by
  rw [← hways.resolve_eq, Disk.resolve_of_find hf]
  exact ⟨ready_of_find hf (hways.straight ha.straight).walk_eq, hways.here,
    hways.directories _ ha.stands⟩

/-- A start that goes well makes the output directory ready where its path
led before, and the working directory is still there. -/
theorem prepare_ready (ha : Apart out h.disk)
    (hr : prepare out force h = .ok () h') :
    Ready out force (h.disk.resolve out) h'.disk
      ∧ h'.disk.workingDirectory = h.disk.workingDirectory
      ∧ h'.disk.root.view h.disk.workingDirectory = some .directory := by
  have hstarts := prepare_starts out force h
  rw [hr] at hstarts
  cases hstarts with
  | @replaced a n asked forced reached other removed made found =>
      have hgrown : (h.disk.drop (a ++ [n])).Grown (fun _ => True) _ :=
        (Disk.Grown.refl _).makeDirectory trivial made
      exact ready_of_ways ha ((removeFile_sameWays ha.straight asked
        removed).trans hgrown.sameWays) found
  | empty asked made => exact ready_of_ways ha made.grown.sameWays made.found
  | @cleaned mid _ cs asked forced made emptied =>
      have hways := made.grown.sameWays
      have hstands := hways.directories _ ha.stands
      refine ⟨forced ▸ ready_of_deleted (hways.straight ha.straight)
        made.found emptied, ?_, ?_⟩
      · rw [(deleteContents_ok made.found emptied).1]
        exact hways.here
      · -- the working directory is the emptied one or not below it
        obtain ⟨place, -, hplace, hget⟩ := Disk.find_eq_ok.mp made.found
        have hdir : mid.disk.root.view (h.disk.resolve out) ≠ none := by
          rw [Entry.view_eq_directory.mpr ⟨cs, hget⟩]
          simp
        rw [(deleteContents_ok made.found emptied).1]
        simp only [Disk.put, Entry.view_insert_over hdir]
        split
        · next hp =>
            rw [← ha.beside hp]
            simp
            rfl
        · exact hstands

end Output

end TreeReplica
