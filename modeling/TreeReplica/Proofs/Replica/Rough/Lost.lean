/-
A path that is lost. The path to a replica may pass through what the
replica holds, and a directory that is taken away may take the path with
it. A tree with less in it leaves a footing a footing, or shuts the path
(`refoot_or_shut`): then nothing below it is reached, and no node is kept
any more (`materialize_shut`).
-/
import TreeReplica.Proofs.Disk.Linkless
import TreeReplica.Proofs.Disk.Respect
import TreeReplica.Replica.Apply

namespace TreeReplica

open Work

-- ============================================================ shut paths

/-- Nothing below the path is reached: the system refuses. -/
def Disk.Shut (d : Disk) (p : Path) : Prop :=
  ∀ l, l ≠ [] → AllSegments l → ∀ follow subject, ∃ reason,
    d.reach follow (p.descend l) subject
      = .error (.system (.refused reason subject))

namespace Footing

variable {s : Footing} {m m' : Entry}

theorem holding_within (h : m'.view.Within m.view) :
    (s.holding m').root.view.Within (s.holding m).root.view := by
  intro l
  by_cases hl : s.location <+: l
  · obtain ⟨b, rfl⟩ := hl
    rw [s.holding_view, s.holding_view]
    exact h b
  · right
    rw [s.holding_outside m' hl, s.holding_outside m hl]

/-- With less in it a footing is still found by its path, or the path is
shut. -/
theorem refoot_or_shut (ho : s.Open m.view) (hm : m.view.Linkless)
    (hm' : m'.view.Linkless) (hless : m'.view.Within m.view) :
    (∃ s' : Footing, s'.path = s.path
      ∧ (∀ x, s'.holding x = s.holding x) ∧ s'.Open m'.view)
    ∨ (s.holding m').Shut s.path := by
  obtain ⟨place, hreach, hplace, -⟩ := Disk.find_eq_ok.mp
    (find_self ho hm.base)
  obtain ⟨hclear, hshort, hw⟩ := Disk.reach_eq_ok.mp hreach
  rcases walk_within (holding_within hless) true linkLimit
      ((s.holding m').start s.path.anchor) s.path.parts with hsame | hstuck
  · left
    obtain ⟨cs, hcs⟩ := Entry.view_eq_directory.mp hm'.base
    rw [Entry.get?_nil, Option.some.injEq] at hcs
    have hget := s.holding_get? m' []
    rw [List.append_nil, Entry.get?_nil] at hget
    have hfind : (s.holding m').find true s.path
        = .ok (s.location, .directory cs) := by
      refine Disk.find_eq_ok.mpr ⟨place, Disk.reach_eq_ok.mpr
        ⟨hclear, hshort, hsame.trans hw⟩, hplace, ?_⟩
      rw [hget, hcs]
    obtain ⟨s', hpath, -, hholding, hopen⟩ :=
      exists_of_find hfind (hcs ▸ hm'.noLinks)
    refine ⟨s', hpath, fun x => ?_, hcs ▸ hopen⟩
    have hput := s.holding_put m' [] x
    rw [List.append_nil] at hput
    rw [hholding, hput]
    cases m' <;> rfl
  · right
    intro l hl hn follow subject
    have hnull : Disk.hasNull (s.path.descend l).text = false := by
      rw [Disk.hasNull_descend, hclear, hn.clear, Bool.or_false]
    have hstop : walk (s.holding m').root follow linkLimit
        ((s.holding m').start (s.path.descend l).anchor)
        (s.path.descend l).parts = .error .noEntry :=
      walk_append_stuck hl hstuck
    unfold Disk.reach
    rw [hnull, if_neg (by simp), hstop]
    by_cases hlong : pathLimit ≤ (s.path.descend l).text.utf8ByteSize
    · exact ⟨_, if_pos hlong⟩
    · exact ⟨_, if_neg hlong⟩

end Footing

-- ========================================================= work on them

namespace Disk.Shut

variable {d : Disk} {p : Path} {l : Location}

theorem find_eq (h : d.Shut p) (hl : l ≠ []) (hn : AllSegments l)
    (follow : Bool) : ∃ reason subject, d.find follow (p.descend l)
      = .error (.system (.refused reason subject)) := by
  obtain ⟨reason, hr⟩ := h l hl hn follow (.path (p.descend l))
  refine ⟨reason, .path (p.descend l), ?_⟩
  rw [find, hr]
  rfl

theorem occupied_eq (h : d.Shut p) (hl : l ≠ []) (hn : AllSegments l) :
    d.occupied (p.descend l) = false := by
  obtain ⟨reason, subject, hf⟩ := h.find_eq hl hn false
  rw [occupied, linkStatus, hf]
  rfl

/-- No directory is found, or not even that can be told. -/
theorem isDirectory_cases (h : d.Shut p) (hl : l ≠ [])
    (hn : AllSegments l) : d.isDirectory (p.descend l) = .ok false
      ∨ ∃ e, d.isDirectory (p.descend l) = .error (.system e) := by
  obtain ⟨reason, subject, hf⟩ := h.find_eq hl hn true
  rw [isDirectory, status, hf]
  simp only [Except.map, holds]
  split
  · exact Or.inl rfl
  · exact Or.inr ⟨_, rfl⟩

theorem makeDirectory_eq (h : d.Shut p) (hl : l ≠ [])
    (hn : AllSegments l) :
    ∃ e, d.makeDirectory (p.descend l) = .error (.system e) := by
  obtain ⟨reason, hr⟩ := h l hl hn false (.path (p.descend l))
  rw [makeDirectory, hr]
  exact ⟨_, rfl⟩

theorem write_eq (h : d.Shut p) (hl : l ≠ []) (hn : AllSegments l)
    (content : Bytes) :
    ∃ e, d.write (p.descend l) content = .error (.system e) := by
  obtain ⟨reason, hr⟩ := h l hl hn true (.path (p.descend l))
  rw [write, hr]
  exact ⟨_, rfl⟩

end Disk.Shut

/-- An ancestor at which nothing is seen is made. -/
theorem Repair.makeAncestor_free {h : Host} {p : Path}
    (hno : h.disk.isDirectory p = .ok false)
    (hfree : h.disk.occupied p = false) (payload : String) :
    Repair.makeAncestor payload p h = act (·.makeDirectory p) h := by
  unfold Repair.makeAncestor
  rw [ask_bind_eq hno, if_neg (by simp), get_bind_eq]
  simp only [hfree, Bool.false_eq_true, if_false]

/-- No ancestor is made below a path that is shut. -/
theorem Repair.makeAncestor_shut {h : Host} {p : Path} {l : Location}
    (hshut : h.disk.Shut p) (hl : l ≠ []) (hn : AllSegments l)
    (payload : String) :
    ∃ e, Repair.makeAncestor payload (p.descend l) h
      = .error (.system e) h := by
  rcases hshut.isDirectory_cases hl hn with hno | ⟨e, hfail⟩
  · obtain ⟨e, hmake⟩ := hshut.makeDirectory_eq hl hn
    refine ⟨e, ?_⟩
    rw [makeAncestor_free hno (hshut.occupied_eq hl hn)]
    simp only [act, hmake]
  · refine ⟨e, bind_error_eq ?_⟩
    simp only [ask, hfail]

/-- A leaf is not kept below a path that is shut: the system refuses, and
nothing has changed. -/
theorem Replica.materialize_shut {r : Replica} {node : Node} {h : Host}
    {a : Location} {n : String} (hshut : h.disk.Shut r.root)
    (hn : AllSegments (a ++ [n])) (hleaf : node.isContainer = false) :
    ∃ f, r.materialize node (r.root.descend (a ++ [n])) h = .error f h
      ∧ ∀ e, f ≠ .disk (.argument e) := by
  have hroot : r.root.descend (a ++ [n]) ≠ r.root :=
    fun h => absurd (Path.descend_eq_self.mp h) (by simp)
  unfold materialize
  rw [if_pos hroot, Path.parent_descend]
  cases a with
  | nil =>
      -- the parent is the root, so the file itself is the first thing to do
      obtain ⟨e, hwrite⟩ := hshut.write_eq (by simp) hn node.bytes
      refine ⟨.disk (.system e), ?_, fun _ => by simp⟩
      have hchain : Repair.ensureChain (r.root.descend []) r.root r.payload h
          = .ok () h := by
        unfold Repair.ensureChain
        rw [Path.descend_nil, if_pos rfl]
        rfl
      have hroot : r.root.descend [n] ≠ r.root := hroot
      refine (bind_eq hchain).trans (recast_error_eq ?_)
      rw [if_pos (by simp [hleaf, hroot])]
      refine bind_error_eq ?_
      simp only [act, hwrite]
  | cons k rest =>
      obtain ⟨e, hmake⟩ := Repair.makeAncestor_shut hshut
        (List.cons_ne_nil k []) (hn.above ⟨rest ++ [n], by simp⟩) r.payload
      refine ⟨.unusable (.blocked (r.root.descend [k]) e), bind_error_eq ?_,
        fun _ => by simp⟩
      unfold Repair.ensureChain
      rw [if_neg fun h => absurd (Path.descend_eq_self.mp h) (by simp),
        Path.relativeTo?_descend]
      refine bind_error_eq ?_
      unfold Repair.makeBelow
      rw [Path.child_eq_descend]
      exact bind_error_eq (recast_error_eq hmake)

end TreeReplica
