/-
Disks over which paths lead alike. Two disks have the same ways if every
directory and every link of the one is on the other, which has no other
links (`SameWays`); so it is with a disk that has only grown by
directories (`Grown`). A straight path, one that does not end at a link,
leads to one place whether or not a last link is followed.
-/
import TreeReplica.Proofs.Disk.Change
import TreeReplica.Proofs.Disk.Route
import TreeReplica.Proofs.Disk.Touch
import TreeReplica.Disk.Work

namespace TreeReplica

namespace Disk

variable {d d' d'' : Disk} {p : Path} {allowed : Location → Prop}

/-- All links and directories of the one disk are on the other, and it
has no other links: the ways that lead over the one lead over the
other. -/
structure SameWays (d d' : Disk) : Prop where
  here : d'.workingDirectory = d.workingDirectory
  links : ∀ l t, d'.root.view l = some (.link t)
    ↔ d.root.view l = some (.link t)
  directories : ∀ l, d.root.view l = some .directory →
    d'.root.view l = some .directory

theorem SameWays.refl (d : Disk) : d.SameWays d :=
  ⟨rfl, fun _ _ => Iff.rfl, fun _ h => h⟩

theorem SameWays.trans (h : d.SameWays d') (h' : d'.SameWays d'') :
    d.SameWays d'' where
  here := h'.here.trans h.here
  links l t := (h'.links l t).trans (h.links l t)
  directories l hl := h'.directories l (h.directories l hl)

theorem SameWays.resolve_eq (h : d.SameWays d') (p : Path) :
    d'.resolve p = d.resolve p :=
  resolve_congr h.here h.links p

/-- The last name of the path is no link. -/
def Straight (d : Disk) (p : Path) : Prop :=
  ∀ n, p.parts.getLast? = some n → ∀ t,
    d.root.view (d.resolve p.parent ++ [n]) ≠ some (.link t)

theorem SameWays.straight (h : d.SameWays d') (hs : d.Straight p) :
    d'.Straight p := by
  intro n hn t hl
  rw [h.resolve_eq, h.links] at hl
  exact hs n hn t hl

/-- A straight path leads to the same place whether or not a last link
would be followed. -/
theorem Straight.walk_eq (hs : d.Straight p) :
    walk d.root false linkLimit (d.start p.anchor) p.parts
      = walk d.root true linkLimit (d.start p.anchor) p.parts := by
  rcases List.eq_nil_or_concat p.parts with hp | ⟨above, n, hp⟩
  · rw [hp, walk, walk, trace, trace]
  rw [List.concat_eq_append] at hp
  rcases walk_stay (e := d.root) linkLimit (d.start p.anchor) p.parts
    with hw | ⟨place, t, hw, hl⟩
  · exact hw
  exfalso
  rw [hp] at hw
  obtain ⟨before, left, habove, hdir, hlast⟩ := walk_concat hw
  rw [walk_single hdir] at hlast
  split at hlast
  · cases hlast
    rw [Place.location, hdir] at hl
    cases hl
  split at hlast
  · cases hlast
    rw [Place.location, directory_dropLast hdir] at hl
    cases hl
  split at hlast
  · cases hlast
  cases hlast
  have hparent : d.resolve p.parent = before.location := by
    have hparts : p.parent.parts = above := by simp [Path.parent, hp]
    rw [resolve, hparts]
    exact resolveFrom_of_walk habove
  refine hs n (by simp [hp]) t ?_
  rw [hparent]
  exact hl

-- ================================================================ growing

/-- The disk with everything that was on it, and beside that with new
directories at allowed locations. -/
structure Grown (d : Disk) (allowed : Location → Prop) (d' : Disk) :
    Prop where
  here : d'.workingDirectory = d.workingDirectory
  kept : ∀ l x, d.root.view l = some x → d'.root.view l = some x
  fresh : ∀ l, d.root.view l = none → d'.root.view l ≠ none →
    d'.root.view l = some .directory ∧ allowed l

theorem Grown.refl (d : Disk) : d.Grown allowed d :=
  ⟨rfl, fun _ _ h => h, fun _ h h' => absurd h h'⟩

/-- All ways stay as they are on a disk that only grows by directories. -/
theorem Grown.sameWays (h : d.Grown allowed d') : d.SameWays d' where
  here := h.here
  directories l := h.kept l .directory
  links l t := by
    refine ⟨fun hl => ?_, h.kept l (.link t)⟩
    cases hv : d.root.view l with
    | none =>
        have hnew := (h.fresh l hv (by simp [hl])).1
        rw [hl] at hnew
        cases hnew
    | some x =>
        rw [h.kept l x hv] at hl
        exact hl

/-- Where a path leads without a last link followed, unless a link stands
there, is the location that it names. -/
theorem resolve_of_reach {place : Place} {subject : Subject}
    (hr : d.reach false p subject = .ok place)
    (hl : ∀ t, d.root.view place.location ≠ some (.link t)) :
    place.location = d.resolve p := by
  obtain ⟨-, -, hw⟩ := reach_eq_ok.mp hr
  rcases walk_stay (e := d.root) linkLimit (d.start p.anchor) p.parts
    with hsame | ⟨place', t, hlink, hv⟩
  · rw [hsame] at hw
    exact (resolveFrom_of_walk hw).symm
  · rw [hlink] at hw
    cases hw
    exact absurd hv (hl t)

/-- A new directory stands where its path names a location. -/
theorem Grown.makeDirectory (h : d.Grown allowed d')
    (hp : allowed (d.resolve p)) (hm : d'.makeDirectory p = .ok d'') :
    d.Grown allowed d'' := by
  obtain ⟨place, hr, hm⟩ := exists_of_bind hm
  cases place with
  | itself l => cases hm
  | inside a n =>
      obtain ⟨-, -, hw⟩ := reach_eq_ok.mp hr
      have hdir := walk_inside hw
      simp only at hm
      split at hm
      · cases hm
      next hnone =>
      cases hm
      have hfree : d'.root.view (a ++ [n]) = none :=
        Entry.view_eq_none.mpr hnone
      have hloc : a ++ [n] = d.resolve p := by
        rw [← h.sameWays.resolve_eq]
        refine resolve_of_reach hr fun t ht => ?_
        rw [Place.location, hfree] at ht
        cases ht
      have hview : (d'.put (a ++ [n]) (.directory [])).root.view
          = d'.root.view.set (a ++ [n]) .directory :=
        Entry.view_insert_directory hdir n
      refine ⟨h.here, fun l x hx => ?_, fun l hnew hthere => ?_⟩
      · -- nothing was at the new place, and so nothing below it
        rw [hview, View.set_outside fun hpre => ?_]
        · exact h.kept l x hx
        · obtain ⟨b, rfl⟩ := hpre
          have hgone := h.kept _ x hx
          rw [Entry.view_eq_none.mpr (by
            rw [Entry.get?_append, hnone]; rfl)] at hgone
          cases hgone
      · rw [hview] at hthere ⊢
        by_cases hpre : a ++ [n] <+: l
        · by_cases heq : l = a ++ [n]
          · subst heq
            exact ⟨View.set_self _ _ _, hloc ▸ hp⟩
          · exact absurd (View.set_below hpre heq _) hthere
        · rw [View.set_outside hpre] at hthere ⊢
          exact h.fresh l hnew hthere

theorem Grown.ensureDirectory (h : d.Grown allowed d')
    (hp : allowed (d.resolve p)) (hm : d'.ensureDirectory p = .ok d'') :
    d.Grown allowed d'' := by
  unfold Disk.ensureDirectory at hm
  split at hm
  · split at hm
    · cases hm
      exact h
    · cases hm
    · cases hm
  · exact h.makeDirectory hp hm

/-- What is found at a path is at the location that the path names. -/
theorem resolve_of_find {l : Location} {x : Entry}
    (hf : d.find true p = .ok (l, x)) : d.resolve p = l := by
  obtain ⟨place, hreach, rfl, -⟩ := find_eq_ok.mp hf
  exact resolveFrom_of_walk (reach_eq_ok.mp hreach).2.2

/-- A directory that is taken away was empty, at the location that its path
names. -/
theorem removeDirectory_ok (hr : d.removeDirectory p = .ok d') :
    ∃ a n, d.reach false p (.path p) = .ok (.inside a n)
      ∧ d.root.get? (a ++ [n]) = some (.directory [])
      ∧ a ++ [n] = d.resolve p ∧ d' = d.drop (a ++ [n]) := by
  obtain ⟨a, n, hreach, hget, rfl⟩ := exists_of_removeDirectory hr
  refine ⟨a, n, hreach, hget, ?_, rfl⟩
  -- an empty directory is no link
  refine resolve_of_reach hreach fun t ht => ?_
  rw [Place.location, Entry.view_eq_directory.mpr ⟨[], hget⟩] at ht
  cases ht

end Disk

end TreeReplica
