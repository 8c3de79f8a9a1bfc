/-
Staging directories. The names tried for one are told apart by their
numbers, so among one more of them than a directory has entries one is
free, and a staging directory can always be made in a directory of a
site, up to the length of its path.
-/
import TreeReplica.Proofs.Disk.Call

namespace TreeReplica

namespace Disk

-- ======================================================= staging names

theorem toList_stagingName (n : Nat) :
    (stagingName n).toList = stagingStart.toList ++ stagingLetters 8 n := by
  simp [stagingName, String.toList_append]

/-- Different digits have different letters. -/
theorem stagingLetter_inj : ∀ i < 37, ∀ j < 37,
    stagingAlphabet.getD i 'a' = stagingAlphabet.getD j 'a' → i = j := by
  decide +kernel

/-- The letters say what the number is. -/
theorem stagingLetters_inj {width n k : Nat}
    (h : stagingLetters width n = stagingLetters width k) : n = k := by
  induction width generalizing n k with
  | zero =>
      have hv : ∀ m, Nat.ofDigitChars 10 (stagingLetters 0 m) 0 = m := by
        intro m
        by_cases hm : m = 0
        · simp [stagingLetters, hm]
        · simp [stagingLetters, hm]
      rw [← hv n, h, hv k]
  | succ width ih =>
      rw [stagingLetters, stagingLetters] at h
      obtain ⟨hfront, hlast⟩ := List.append_inj' h rfl
      have hquotient := ih hfront
      have hdigit := stagingLetter_inj _ (Nat.mod_lt n (by decide)) _
        (Nat.mod_lt k (by decide)) (by simpa using hlast)
      omega

/-- Staging names differ as their numbers do. -/
theorem stagingName_inj {n k : Nat} (h : stagingName n = stagingName k) :
    n = k := by
  have hl := congrArg String.toList h
  rw [toList_stagingName, toList_stagingName,
    List.append_cancel_left_eq] at hl
  exact stagingLetters_inj hl

theorem mem_stagingLetters {width n : Nat} {c : Char}
    (h : c ∈ stagingLetters width n) :
    c ∈ stagingAlphabet ∨ c.isDigit = true := by
  induction width generalizing n with
  | zero =>
      rw [stagingLetters] at h
      split at h
      · simp at h
      · exact Or.inr (Nat.isDigit_of_mem_toDigits (by decide) (by decide) h)
  | succ width ih =>
      rw [stagingLetters, List.mem_append, List.mem_singleton] at h
      rcases h with h | rfl
      · exact ih h
      · have hlt : n % 37 < stagingAlphabet.length :=
          Nat.lt_of_lt_of_eq (Nat.mod_lt n (by decide)) (by decide)
        rw [List.getD_eq_getElem?_getD, List.getElem?_eq_getElem hlt]
        exact Or.inl (List.getElem_mem hlt)

/-- A staging name holds its common start, letters and digits. -/
theorem mem_stagingName {n : Nat} {c : Char}
    (h : c ∈ (stagingName n).toList) :
    c ∈ stagingStart.toList ++ stagingAlphabet ∨ c.isDigit = true := by
  rw [toList_stagingName, List.mem_append] at h
  rw [List.mem_append]
  rcases h with h | h
  · exact Or.inl (Or.inl h)
  · exact (mem_stagingLetters h).imp_left Or.inr

theorem hasNull_stagingName (n : Nat) : hasNull (stagingName n) = false := by
  have hnot : '\x00' ∉ (stagingName n).toList := by
    intro h
    rcases mem_stagingName h with h | h
    · revert h
      decide
    · revert h
      decide
  simpa [hasNull] using hnot

theorem isName_stagingName (n : Nat) : IsName (stagingName n) := by
  have hlong : 8 ≤ (stagingName n).toList.length := by
    rw [toList_stagingName, List.length_append]
    have : stagingStart.toList.length = 8 := by decide
    omega
  have hshort : ∀ t : String, t.toList.length < 8 → stagingName n ≠ t := by
    intro t ht heq
    rw [heq] at hlong
    omega
  refine ⟨hshort _ (by decide), hshort _ (by decide), hshort _ (by decide), ?_⟩
  intro h
  rcases mem_stagingName h with h | h
  · revert h
    decide
  · revert h
    decide

/-- Of one more staging name than there are names, one is new, so the
search for one ends. -/
theorem exists_stagingName (taken : List String) (draw : Nat) :
    ∃ n, ((draw % stagingCount :: List.range (taken.length + 1)).find? fun n =>
        !taken.contains (stagingName n)) = some n
      ∧ stagingName n ∉ taken := by
  cases hf : (draw % stagingCount :: List.range (taken.length + 1)).find?
      fun n => !taken.contains (stagingName n) with
  | some n =>
      refine ⟨n, rfl, ?_⟩
      have hp := List.find?_some hf
      simpa using hp
  | none =>
      exfalso
      have hall : ∀ n ∈ List.range (taken.length + 1),
          stagingName n ∈ taken := by
        intro n hn
        simpa using List.find?_eq_none.mp hf n (List.mem_cons_of_mem _ hn)
      -- then the new names would be more than there are names
      have hnodup : ((List.range (taken.length + 1)).map stagingName).Nodup :=
        List.Pairwise.map _ (fun a b hab h => hab (stagingName_inj h))
          List.nodup_range
      have hsub : (List.range (taken.length + 1)).map stagingName ⊆ taken := by
        intro x hx
        obtain ⟨n, hn, rfl⟩ := List.mem_map.mp hx
        exact hall n hn
      have hlen := hnodup.length_le_of_subset hsub
      rw [List.length_map, List.length_range] at hlen
      omega

/-- The staging name that is drawn is taken where it is free. -/
theorem makeStaging_first {d : Disk} {p : Path} {draw : Nat}
    (hlt : draw < stagingCount)
    (hfree : ∀ names, d.list p = .ok names → stagingName draw ∉ names) :
    d.makeStaging p draw = (do
      let d' ← d.makeDirectory (p.child (stagingName draw))
      return (p.child (stagingName draw), d')) := by
  have hfirst : ∀ taken : List String, stagingName draw ∉ taken →
      ((draw % stagingCount :: List.range (taken.length + 1)).find? fun n =>
        !taken.contains (stagingName n)) = some draw := by
    intro taken hnot
    rw [Nat.mod_eq_of_lt hlt, List.find?_cons_of_pos]
    simpa using hnot
  unfold makeStaging
  cases hl : d.list p with
  | error f =>
      simp only
      rw [hfirst [] (by simp)]
      rfl
  | ok names =>
      simp only
      rw [hfirst names (hfree names hl)]
      rfl

end Disk

namespace Site

variable {s : Site} {m : Entry} {bad : Fault → Prop}

theorem child_get?_eq_none {cs : List (String × Entry)} {n : String} :
    Children.get? cs n = none ↔ n ∉ cs.map (·.1) := by
  induction cs with
  | nil => simp [Children.get?]
  | cons c rest ih =>
      obtain ⟨k, x⟩ := c
      rw [List.map_cons, List.mem_cons, not_or, ← ih, Children.get?]
      by_cases hk : k = n
      · simp [hk]
      · simp [hk, Ne.symm hk]

/-- Making a staging directory in a directory of the site. -/
theorem makeStaging_yields (h : s.Sound m.view) (draw : Nat) {a : Location}
    (ha : m.view a = some .directory) (hb : Tolerates bad a) :
    ∃ k, IsName k ∧ Disk.hasNull k = false ∧ m.view (a ++ [k]) = none
      ∧ ((s.Fits (a ++ [k])
        ∧ (s.holding m).makeStaging (s.path.descend a) draw
          = .ok (s.path.descend (a ++ [k]),
              s.holding (m.insert (a ++ [k]) (.directory []))))
        ∨ ∃ f, (s.holding m).makeStaging (s.path.descend a) draw = .error f
          ∧ bad f) := by
  obtain ⟨cs, hcs⟩ := Entry.view_eq_directory.mp ha
  obtain ⟨n, hfind, hfree⟩ := Disk.exists_stagingName (cs.map (·.1)) draw
  have hname := Disk.isName_stagingName n
  have hnull := Disk.hasNull_stagingName n
  have hnone : m.view (a ++ [Disk.stagingName n]) = none := by
    rw [Entry.view_append hcs, Entry.view_cons, child_get?_eq_none.mpr hfree]
    rfl
  refine ⟨Disk.stagingName n, hname, hnull, hnone, ?_⟩
  have hn : AllNames (a ++ [Disk.stagingName n]) := by
    rw [allNames_append]
    exact ⟨h.names a (by simp [ha]), by simpa [AllNames] using hname⟩
  have hchild : (s.path.descend a).child (Disk.stagingName n)
      = s.path.descend (a ++ [Disk.stagingName n]) := by
    simp [Path.child, Path.descend]
  unfold Disk.makeStaging
  rw [list_eq h hcs]
  simp only [hfind, Option.getD_some, hchild]
  rcases makeDirectory_yields h hn ha hnone
      (hb.append (b := [Disk.stagingName n]) (by simpa using hnull)).admits
    with ⟨fits, hr⟩ | ⟨f, hr, hf⟩
  · left
    rw [hr]
    exact ⟨fits, rfl⟩
  · right
    rw [hr]
    exact ⟨f, rfl, hf⟩

end Site

end TreeReplica
