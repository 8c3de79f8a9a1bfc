/-
Tidy trees: in every directory the names are distinct. A tree that is
made by putting entries and taking them away is tidy, and in a tidy tree
every child of a directory is found under its name, so that looking up
and listing tell the same.
-/
import TreeReplica.Proofs.Disk.View

namespace TreeReplica

namespace Children

variable {cs : List (String × Entry)} {n : String}

/-- Setting a name keeps the names, with the new one at the end. -/
theorem names_set (cs : List (String × Entry)) (n : String) (x : Entry) :
    (set cs n x).map (·.1)
      = if n ∈ cs.map (·.1) then cs.map (·.1) else cs.map (·.1) ++ [n] := by
  induction cs with
  | nil => rfl
  | cons c rest ih =>
      obtain ⟨m, old⟩ := c
      by_cases hm : m = n
      · simp [set, hm]
      · have hn : ¬ n = m := fun h => hm h.symm
        simp only [set, hm, if_false, List.map_cons, ih, List.mem_cons, hn,
          false_or]
        split
        · rfl
        · rfl

theorem nodup_set (h : (cs.map (·.1)).Nodup) (n : String) (x : Entry) :
    ((set cs n x).map (·.1)).Nodup := by
  rw [names_set]
  split
  · exact h
  · next hn =>
      rw [List.nodup_append]
      refine ⟨h, by simp, ?_⟩
      intro a ha b hb heq
      subst heq
      exact hn (List.mem_singleton.mp hb ▸ ha)

theorem erase_sublist (cs : List (String × Entry)) (n : String) :
    (erase cs n).Sublist cs := by
  induction cs with
  | nil => exact List.Sublist.slnil
  | cons c rest ih =>
      obtain ⟨m, old⟩ := c
      unfold erase
      split
      · exact ih.cons _
      · exact ih.cons_cons _

theorem not_mem_erase (cs : List (String × Entry)) (n : String) :
    n ∉ (erase cs n).map (·.1) := by
  induction cs with
  | nil => simp [erase]
  | cons c rest ih =>
      obtain ⟨m, old⟩ := c
      unfold erase
      split
      · exact ih
      · next hm =>
          rw [List.map_cons, List.mem_cons, not_or]
          exact ⟨fun heq => hm heq.symm, ih⟩

theorem nodup_erase (h : (cs.map (·.1)).Nodup) (n : String) :
    ((erase cs n).map (·.1)).Nodup :=
  h.sublist ((erase_sublist cs n).map _)

/-- Where the names are distinct each child is found by its name. -/
theorem get?_of_mem (h : (cs.map (·.1)).Nodup) {c : Entry}
    (hc : (n, c) ∈ cs) : get? cs n = some c := by
  induction cs with
  | nil => cases hc
  | cons d rest ih =>
      obtain ⟨m, old⟩ := d
      rw [List.map_cons, List.nodup_cons] at h
      rcases List.mem_cons.mp hc with heq | hc
      · cases heq
        simp [get?]
      · have hm : m ≠ n := by
          intro heq
          subst heq
          exact h.1 (List.mem_map.mpr ⟨_, hc, rfl⟩)
        simp only [get?, hm, if_false]
        exact ih h.2 hc

theorem mem_of_get? {c : Entry} (h : get? cs n = some c) : (n, c) ∈ cs := by
  induction cs with
  | nil => cases h
  | cons d rest ih =>
      obtain ⟨m, old⟩ := d
      by_cases hm : m = n
      · simp only [get?, hm, if_true, Option.some.injEq] at h
        simp [hm, h]
      · simp only [get?, hm, if_false] at h
        exact List.mem_cons_of_mem _ (ih h)

end Children

namespace Entry

/-- In every directory of the tree the names are distinct. -/
def Tidy (e : Entry) : Prop :=
  ∀ l cs, e.get? l = some (directory cs) → (cs.map (·.1)).Nodup

variable {e x : Entry} {cs : List (String × Entry)}

theorem tidy_directory :
    (directory cs).Tidy ↔ (cs.map (·.1)).Nodup
      ∧ ∀ n c, Children.get? cs n = some c → c.Tidy := by
  constructor
  · intro h
    refine ⟨h [] cs (get?_nil _), fun n c hc l ds hl => ?_⟩
    exact h (n :: l) ds (get?_cons_eq_some.mpr ⟨cs, c, rfl, hc, hl⟩)
  · intro hmid l ds hl
    obtain ⟨hnames, hbelow⟩ := hmid
    cases l with
    | nil =>
        rw [get?_nil, Option.some.injEq, directory.injEq] at hl
        exact hl ▸ hnames
    | cons n l =>
        obtain ⟨_, c, heq, hc, hl⟩ := get?_cons_eq_some.mp hl
        cases heq
        exact hbelow n c hc l ds hl

theorem tidy_file (c : Bytes) (t : Stamp) : (file c t).Tidy := by
  intro l cs hl
  cases l with
  | nil => cases hl
  | cons n l => cases hl

theorem tidy_empty : (directory []).Tidy :=
  tidy_directory.mpr ⟨List.nodup_nil, fun _ _ hc => by cases hc⟩

/-- The entries of a tidy tree are tidy. -/
theorem Tidy.of_get? (h : e.Tidy) {l : Location} (hl : e.get? l = some x) :
    x.Tidy := by
  intro m cs hm
  refine h (l ++ m) cs ?_
  rw [get?_append, hl]
  exact hm

/-- One child of a tidy directory set to a tidy entry. -/
private theorem Tidy.set_child (h : (directory cs).Tidy) (hx : x.Tidy)
    (n : String) : (directory (Children.set cs n x)).Tidy := by
  rw [tidy_directory] at h ⊢
  refine ⟨Children.nodup_set h.1 n x, fun m c hc => ?_⟩
  rw [Children.get?_set] at hc
  split at hc
  · cases hc
    exact hx
  · exact h.2 m c hc

/-- Putting a tidy entry leaves a tree tidy. -/
theorem Tidy.insert (h : e.Tidy) (hx : x.Tidy) (l : Location) :
    (e.insert l x).Tidy := by
  induction l generalizing e with
  | nil => cases e <;> exact hx
  | cons n l ih =>
      cases e with
      | file c t => cases l <;> exact h
      | link t => cases l <;> exact h
      | directory cs =>
          cases hc : Children.get? cs n with
          | some c =>
              rw [insert_cons hc]
              exact h.set_child (ih ((tidy_directory.mp h).2 n c hc)) n
          | none =>
              cases l with
              | nil => exact h.set_child hx n
              | cons m l => simpa only [Entry.insert, hc] using h

/-- Taking an entry away leaves a tree tidy. -/
theorem Tidy.erase (h : e.Tidy) (l : Location) : (e.erase l).Tidy := by
  induction l generalizing e with
  | nil => cases e <;> exact h
  | cons n l ih =>
      cases e with
      | file c t => cases l <;> exact h
      | link t => cases l <;> exact h
      | directory cs =>
          cases l with
          | nil =>
              rw [tidy_directory] at h
              refine tidy_directory.mpr ⟨Children.nodup_erase h.1 n,
                fun m c hc => ?_⟩
              rw [Children.get?_erase] at hc
              split at hc
              · cases hc
              · exact h.2 m c hc
          | cons m l =>
              cases hc : Children.get? cs n with
              | some c =>
                  rw [erase_cons hc (by simp)]
                  exact h.set_child (ih ((tidy_directory.mp h).2 n c hc)) n
              | none => simpa only [Entry.erase, hc] using h

end Entry

end TreeReplica
