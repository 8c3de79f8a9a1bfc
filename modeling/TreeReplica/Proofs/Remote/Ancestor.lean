/-
Remote paths above one another, and the places at which they are kept. For
every base, whatever text it is, the places of two remote paths lie one
above the other only if the paths do, the place of the base apart
(`isAbove_of_places`).
-/
import TreeReplica.Proofs.Remote.Path

namespace TreeReplica.Remote

/-- The remote path `p` is the remote path `q` or an ancestor of it. -/
def IsAbove (p q : String) : Prop :=
  ∃ a b, AllNames a ∧ AllNames b ∧ p = pathOf a ∧ q = pathOf b ∧ a <+: b

variable {base payload path p q : String} {l m : Location}

theorem IsAbove.refl {a : Location} (ha : AllNames a) :
    IsAbove (pathOf a) (pathOf a) :=
  ⟨a, a, ha, ha, rfl, rfl, List.prefix_refl a⟩

/-- Which of two paths is above the other is read off their names. -/
theorem isAbove_pathOf {a b : Location} (ha : AllNames a)
    (hb : AllNames b) : IsAbove (pathOf a) (pathOf b) ↔ a <+: b := by
  constructor
  · intro hmid
    obtain ⟨a', b', ha', hb', hpa, hpb, hpre⟩ := hmid
    rwa [pathOf_inj ha ha' hpa, pathOf_inj hb hb' hpb]
  · exact fun hpre => ⟨a, b, ha, hb, rfl, rfl, hpre⟩

/-- The path of a place is the base, or continues it. -/
theorem place?_split (h : place? base payload path = some l) :
    (path = base ∧ l = [])
    ∨ (path ≠ base ∧ l ≠ [] ∧ splitSlashes path.toList
        = splitSlashes (trimSlashes base.toList)
          ++ l.map String.toList) := by
  obtain hbase | ⟨below, hne, hpath, rfl, -⟩ := place?_cases h
  · exact Or.inl hbase
  · refine Or.inr ⟨hne, by simpa using splitSlashes_ne_nil _, ?_⟩
    rw [hpath, stem, List.append_assoc, List.cons_append, List.nil_append,
      splitSlashes_append_slash, map_ofList_toList]

/-- Only the base is kept at the root. -/
theorem place?_eq_nil (h : place? base payload path = some l) :
    l = [] ↔ path = base := by
  rcases place?_split h with ⟨heq, hl⟩ | ⟨hne, hl, -⟩
  · exact iff_of_true hl heq
  · exact iff_of_false hl hne

/-- The pieces of a remote path other than the root. -/
theorem splitSlashes_pathOf {a : Location} (ha : AllNames a)
    (hne : a ≠ []) :
    splitSlashes (pathOf a).toList = [] :: a.map String.toList := by
  have hcut := splitSlashes_intercalate hne fun n hn => (ha n hn).noSlash
  rw [toList_pathOf]
  simp [splitSlashes, hcut]

/-- Where the place of one remote path is above that of another, the root
apart, the first path is above the second. -/
theorem isAbove_of_places (hp : validate p = .ok p)
    (hq : validate q = .ok q) (hl : place? base payload p = some l)
    (hm : place? base payload q = some m) (hne : l ≠ [])
    (hlm : l <+: m) : IsAbove p q := by
  obtain ⟨a, ha, rfl, -⟩ := exists_of_validate hp
  obtain ⟨b, hb, rfl, -⟩ := exists_of_validate hq
  refine ⟨a, b, ha, hb, rfl, rfl, ?_⟩
  have hm' : m ≠ [] := by
    intro heq
    subst heq
    exact hne (List.prefix_nil.mp hlm)
  have hsplit := ((place?_split hl).resolve_left fun h => hne h.2).2.2
  have hsplit' := ((place?_split hm).resolve_left fun h => hm' h.2).2.2
  by_cases hanil : a = []
  · rw [hanil]
    exact List.nil_prefix
  have hbnil : b ≠ [] := by
    -- the pieces of the root's path are empty, and no name is
    intro heq
    subst heq
    have hroot : splitSlashes (pathOf []).toList = [[], []] := by decide
    rw [hroot] at hsplit'
    obtain ⟨m', n, rfl⟩ := (List.eq_nil_or_concat m).resolve_left hm'
    rw [List.concat_eq_append, List.map_append, ← List.append_assoc,
      show ([[], []] : List (List Char)) = [[]] ++ [[]] from rfl] at hsplit'
    have hn := (List.append_inj' hsplit' rfl).2
    simp only [List.map_cons, List.map_nil, List.cons.injEq, and_true] at hn
    refine ((place?_names hm).1 n (by simp)).nonempty ?_
    exact String.toList_inj.mp hn.symm
  rw [splitSlashes_pathOf ha hanil] at hsplit
  rw [splitSlashes_pathOf hb hbnil] at hsplit'
  have hpre : [] :: a.map String.toList <+: [] :: b.map String.toList := by
    rw [hsplit, hsplit', List.prefix_append_right_inj]
    exact hlm.map String.toList
  have hback := (List.cons_prefix_cons.mp hpre).2.map String.ofList
  simpa [List.map_map, Function.comp_def] using hback

end TreeReplica.Remote
