/-
What calls below one path can do to a disk at all. A site that holds a
tree without links, with proper names at its top, holds such a tree after
every call about a proper path below it (`guards_site`): nothing outside
the site is ever reached. Below a path that leads nowhere no call changes
anything (`guards_lost`).
-/
import TreeReplica.Proofs.Disk.Call
import TreeReplica.Proofs.Disk.Respect
import TreeReplica.Proofs.Disk.Route
import TreeReplica.Proofs.Disk.Tidy

namespace TreeReplica

theorem Entry.Bare.noLinks {x : Entry} (h : x.Bare) (l : Location)
    (t : String) : x.view l ≠ some (.link t) := by
  cases h with
  | file c s =>
      cases l <;>
        simp [Entry.view, Entry.get?_cons, Entry.child?, Entry.shape]
  | directory =>
      cases l <;> simp [Entry.view_cons, Children.get?, Entry.shape]

theorem Entry.Bare.tidy {x : Entry} (h : x.Bare) : x.Tidy := by
  cases h with
  | file c s => exact Entry.tidy_file c s
  | directory => exact Entry.tidy_empty

namespace Site

/-- A tree that a replica may have at a site, whatever happened: without
links, and with entries at the top that calls can be about. -/
structure Plain (s : Site) (m : Entry) : Prop where
  base : m.view [] = some .directory
  noLinks : ∀ l t, m.view l ≠ some (.link t)
  tops : ∀ n, m.view [n] ≠ none → IsName n ∧ s.Fits [n]
  tidy : m.Tidy

variable {s : Site} {m x : Entry} {a l : Location} {n : String}

theorem plain_empty : s.Plain (.directory []) where
  base := rfl
  noLinks := Entry.Bare.directory.noLinks
  tops _ h := absurd rfl h
  tidy := Entry.tidy_empty

theorem Plain.insert (h : s.Plain m) (ha : m.view a = some .directory)
    (hn : AllNames (a ++ [n])) (hf : s.Fits (a ++ [n]))
    (hx : ∀ l t, x.view l ≠ some (.link t)) (ht : x.Tidy) :
    s.Plain (m.insert (a ++ [n]) x) := by
  have hview := Entry.view_insert ha n x
  constructor
  · rw [hview, if_neg (by simp)]
    exact h.base
  · intro l t
    rw [hview]
    split
    · exact hx _ t
    · exact h.noLinks l t
  · intro k hk
    rw [hview] at hk
    split at hk
    · next hp =>
        have heq : a ++ [n] = [k] :=
          hp.eq_of_length_le (by simp)
        rw [← heq]
        rw [heq] at hn
        exact ⟨hn k (by simp), hf⟩
    · exact h.tops k hk
  · exact h.tidy.insert ht _

theorem Plain.erase (h : s.Plain m) (hl : l ≠ []) :
    s.Plain (m.erase l) := by
  have hview := Entry.view_erase m hl
  constructor
  · rw [hview, if_neg fun hp => hl (List.prefix_nil.mp hp)]
    exact h.base
  · intro k t
    rw [hview]
    split
    · simp
    · exact h.noLinks k t
  · intro k hk
    rw [hview] at hk
    split at hk
    · exact absurd rfl hk
    · exact h.tops k hk
  · exact h.tidy.erase l

/-- What is reached below the site is in the site. -/
theorem Plain.reached (h : s.Plain m) (hn : AllNames (a ++ [n]))
    {follow : Bool} {subject : Subject} {place : Place}
    (hr : (s.holding m).reach follow (s.path.descend (a ++ [n])) subject
      = .ok place) :
    place.location = s.location ++ (a ++ [n]) ∧ s.Fits (a ++ [n])
      ∧ m.view a = some .directory := by
  have hreach := Footing.reach_of_noLinks (s.isOpen _) h.base h.noLinks hn follow
    subject
  rw [hr] at hreach
  cases hreach with
  | inside fits parent => exact ⟨by simp [Place.location], fits, parent⟩

/-- What stands at the top of the site is reached without fail. -/
theorem Plain.reach_top (h : s.Plain m) (hn : m.view [n] ≠ none)
    (follow : Bool) (subject : Subject) :
    (s.holding m).reach follow (s.path.child n) subject
      = .ok (.inside s.location n) := by
  obtain ⟨hname, hfits⟩ := h.tops n hn
  have hr := Footing.reach_fits (a := []) (n := n) (s.isOpen _) h.base h.noLinks
    (by simpa [AllNames] using hname) hfits h.base follow subject
  rwa [List.append_nil, List.nil_append, ← Path.child_eq_descend] at hr

theorem Plain.touched (h : s.Plain m) (hl : l ≠ []) (hn : AllNames l)
    {d : Disk} (ht : (s.holding m).Touched (s.path.descend l) d) :
    ∃ m', d = s.holding m' ∧ s.Plain m' := by
  obtain ⟨a, n, rfl⟩ := (List.eq_nil_or_concat l).resolve_left hl
  rw [List.concat_eq_append] at *
  cases ht with
  | same => exact ⟨m, rfl, h⟩
  | put reached bare =>
      obtain ⟨hloc, fits, parent⟩ := h.reached hn reached
      rw [hloc, s.holding_put]
      exact ⟨_, rfl, h.insert parent hn fits bare.noLinks bare.tidy⟩
  | drop reached =>
      rw [(h.reached hn reached).1, s.holding_drop m hl]
      exact ⟨_, rfl, h.erase hl⟩

theorem Plain.moved (h : s.Plain m) {b : Location} (ha : a ≠ [])
    (hb : b ≠ []) (hna : AllNames a) (hnb : AllNames b) {d : Disk}
    (ht : (s.holding m).Moved (s.path.descend a) (s.path.descend b) d) :
    ∃ m', d = s.holding m' ∧ s.Plain m' := by
  obtain ⟨a, n, rfl⟩ := (List.eq_nil_or_concat a).resolve_left ha
  obtain ⟨b, k, rfl⟩ := (List.eq_nil_or_concat b).resolve_left hb
  simp only [List.concat_eq_append] at *
  cases ht with
  | same => exact ⟨m, rfl, h⟩
  | @moved _ from' to' x source target there apart apart' =>
      obtain ⟨hfrom, -, -⟩ := h.reached hna source
      obtain ⟨hto, fits, parent⟩ := h.reached hnb target
      rw [hfrom, s.holding_get?] at there
      rw [hfrom, hto, List.prefix_append_right_inj] at apart
      rw [hfrom, hto, s.holding_drop m ha, s.holding_put]
      refine ⟨_, rfl, (h.erase ha).insert ?_ hnb fits ?_
        (h.tidy.of_get? there)⟩
      · rw [Entry.view_erase m ha, if_neg fun hp =>
          apart (hp.trans (List.prefix_append b [k]))]
        exact parent
      · intro l t
        rw [← Entry.view_append there]
        exact h.noLinks _ t

/-- No call below a site reaches anything outside it. -/
theorem guards_site (s : Site) :
    Guards s.path fun d => ∃ m, d = s.holding m ∧ s.Plain m where
  touched hl hn hp ht := by
    obtain ⟨m, rfl, h⟩ := hp
    exact h.touched hl hn ht
  moved ha hb hna hnb hp ht := by
    obtain ⟨m, rfl, h⟩ := hp
    exact h.moved ha hb hna hnb ht
  root hp hd := by
    obtain ⟨m, rfl, h⟩ := hp
    rw [isDirectory_self h.base] at hd
    cases hd

end Site

-- ======================================================= paths to nothing

/-- The path can be passed to the system, and leads to nothing. -/
structure Disk.Lost (d : Disk) (p : Path) : Prop where
  clear : Disk.hasNull p.text = false
  short : p.text.utf8ByteSize < pathLimit
  stuck : ∀ follow, Stuck d.root .noEntry
    (walk d.root follow linkLimit (d.start p.anchor) p.parts)

namespace Disk.Lost

variable {d : Disk} {p : Path}

/-- Nothing is found at the path. -/
theorem find_eq (h : d.Lost p) (follow : Bool) :
    d.find follow p = refuse p .noEntry := by
  have hs := h.stuck follow
  have hshort : ¬ pathLimit ≤ p.text.utf8ByteSize := by
    have := h.short
    omega
  unfold find reach
  rw [h.clear, if_neg (by simp), if_neg hshort]
  generalize walk d.root follow linkLimit (d.start p.anchor) p.parts = w
    at hs
  cases hs with
  | stopped => rfl
  | nowhere place nothing =>
      simp only [bind, Except.bind]
      rw [Entry.view_eq_none.mp nothing]

theorem isDirectory_eq (h : d.Lost p) : d.isDirectory p = .ok false := by
  rw [isDirectory, status, h.find_eq]
  rfl

theorem occupied_eq (h : d.Lost p) : d.occupied p = false := by
  rw [occupied, linkStatus, h.find_eq]
  rfl

/-- No call below a path that leads nowhere changes the disk. -/
theorem guards (h : d.Lost p) : Guards p (· = d) where
  touched hl _ hp ht := by
    subst hp
    cases ht with
    | same => rfl
    | put reached =>
        exact absurd reached (not_reached_of_stuck (h.stuck true) hl)
    | drop reached =>
        exact absurd reached (not_reached_of_stuck (h.stuck true) hl)
  moved ha _ _ _ hp ht := by
    subst hp
    cases ht with
    | same => rfl
    | moved source =>
        exact absurd source (not_reached_of_stuck (h.stuck true) ha)
  root hp _ := by
    subst hp
    exact h.occupied_eq

end Disk.Lost

end TreeReplica
