/-
Where the entries of a replica come from. While work towards a place goes
on, and wherever it may stop, whatever is new is a directory above the
place, the bytes of a file that became the payload of its directory, or a
staging directory with nothing in it: `Stems` says so of two views, entry
by entry. Taking away adds nothing, so only the few steps that put
something have to be looked at, and steps compose.
-/
import TreeReplica.Proofs.Replica.Chain

namespace TreeReplica

namespace View

variable {payload : String} {v v' v'' : View} {a l m : Location}
  {x : Shape}

-- =============================================================== entries

/-- An entry of a view within another is in the other. -/
theorem Within.of_some (h : v'.Within v) (hm : v' m = some x) :
    v m = some x := by
  rcases h m with hno | heq
  · rw [hno] at hm
    cases hm
  · rw [← heq, hm]

theorem within_cut (v : View) (l : Location) : (v.cut l).Within v := by
  intro m
  unfold View.cut
  split
  · exact Or.inl rfl
  · exact Or.inr rfl

/-- A directory that is emptied has less in it. -/
theorem within_emptied (h : v l = some .directory) :
    (v.set l .directory).Within v := by
  intro m
  unfold View.set
  split
  · split
    · next heq => exact Or.inr (by rw [heq, h])
    · exact Or.inl rfl
  · exact Or.inr rfl

/-- How an entry `x` at `m` came about in `v'` where `v` was before, when
only work towards the place `l` was done. -/
inductive Stem (payload : String) (l : Location) (v v' : View)
    (m : Location) : Shape → Prop
  | stays {x : Shape} (was : v m = some x) : Stem payload l v v' m x
  | way (above : m <+: l) : Stem payload l v v' m .directory
  | slot {q : Location} {c : Bytes} {t : Stamp} (above : q <+: l)
      (inSlot : m = q ++ [payload]) (full : c.length ≠ 0)
      (was : v q = some (.file c t)) : Stem payload l v v' m (.file c t)
  | staging {a : Location} {k : Nat} (above : a <+: l)
      (inside : m = a ++ [Disk.stagingName k])
      (empty : ∀ n, v' (m ++ [n]) = none) :
      Stem payload l v v' m .directory

/-- All entries of `v'` come from those of `v` by work towards `l`. -/
def Stems (payload : String) (l : Location) (v v' : View) : Prop :=
  ∀ m x, v' m = some x → Stem payload l v v' m x

theorem Within.stems (h : v'.Within v) (payload : String) (l : Location) :
    Stems payload l v v' :=
  fun _ _ hm => .stays (h.of_some hm)

theorem Stems.refl (payload : String) (l : Location) (v : View) :
    Stems payload l v v :=
  (Within.refl v).stems payload l

/-- Work towards a place above is work towards the place. -/
theorem Stems.below (h : Stems payload a v v') (hal : a <+: l) :
    Stems payload l v v' := by
  intro m x hm
  cases h m x hm with
  | stays was => exact .stays was
  | way above => exact .way (above.trans hal)
  | slot above inSlot full was =>
      exact .slot (above.trans hal) inSlot full was
  | staging above inside empty => exact .staging (above.trans hal) inside empty

/-- Work goes on where other work stopped. The place is open, so that no
file is put in the slot of a slot. -/
theorem Stems.trans (hl : payload ∉ l) (h : Stems payload l v v')
    (h' : Stems payload l v' v'') : Stems payload l v v'' := by
  intro m x hm
  cases h' m x hm with
  | way above => exact .way above
  | staging above inside empty => exact .staging above inside empty
  | slot above inSlot full was =>
      cases h _ _ was with
      | stays first => exact .slot above inSlot full first
      | slot _ inSlot' _ _ =>
          refine absurd (above.subset ?_) hl
          rw [inSlot']
          simp
  | stays was =>
      cases h m x was with
      | stays first => exact .stays first
      | way above => exact .way above
      | slot above inSlot full first => exact .slot above inSlot full first
      | staging above inside empty =>
          by_cases hfull : ∃ n y, v'' (m ++ [n]) = some y
          · -- a staging directory that is filled is on the way to the place
            obtain ⟨n, y, hn⟩ := hfull
            refine .way ?_
            cases h' _ _ hn with
            | stays was =>
                rw [empty n] at was
                cases was
            | way above => exact (List.prefix_append m [n]).trans above
            | slot above inSlot full was =>
                rwa [(List.append_inj' inSlot rfl).1]
            | staging above inside _ =>
                rwa [(List.append_inj' inside rfl).1]
          · refine .staging above inside fun n => ?_
            cases hn : v'' (m ++ [n]) with
            | none => rfl
            | some y => exact absurd ⟨n, y, hn⟩ hfull

-- ============================================================ the steps

/-- Taking away adds nothing. -/
theorem Stems.of_cut (h : Stems payload l v v') (m : Location) :
    Stems payload l v (v'.cut m) := by
  intro j x hj
  obtain ⟨-, hj⟩ := cut_eq_some hj
  cases h j x hj with
  | stays was => exact .stays was
  | way above => exact .way above
  | slot above inSlot full was => exact .slot above inSlot full was
  | staging above inside empty =>
      refine .staging above inside fun n => ?_
      unfold View.cut
      rw [empty n]
      split <;> rfl

theorem stems_cut (payload : String) (l : Location) (v : View)
    (m : Location) : Stems payload l v (v.cut m) :=
  (Stems.refl payload l v).of_cut m

/-- A directory on the way. -/
theorem stems_set (payload : String) (hm : m <+: l) (v : View) :
    Stems payload l v (v.set m .directory) := by
  intro j x hj
  rcases set_eq_some hj with ⟨rfl, rfl⟩ | ⟨-, hv⟩
  · exact .way hm
  · exact .stays hv

/-- A staging directory that was left in a directory on the way. -/
theorem stems_staged (payload : String) (ha : a <+: l) (v : View)
    (k : Nat) : Stems payload l v (staged v a (Disk.stagingName k)) := by
  intro j x hj
  rcases set_eq_some hj with ⟨rfl, rfl⟩ | ⟨-, hj⟩
  · exact .staging ha rfl fun n => set_below (List.prefix_append _ [n])
      (by simp) _
  · exact .stays hj

end View

end TreeReplica
