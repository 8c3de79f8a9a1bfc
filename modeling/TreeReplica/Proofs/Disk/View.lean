/-
What a tree of entries looks like, location by location. A view forgets
the order of children and keeps, for every location, the kind of entry
that stands there with its bytes, time or target. Every change of a tree
is then one equation on views:

- `view_insert` and `view_erase` say what the two changes of a tree do;
- `insert_below` and `erase_below` say that a change below a location is
  a change of the subtree that stands there, so that all the rest of a
  disk can be left out of sight.
-/
import TreeReplica.Disk.Entry

namespace TreeReplica

-- ============================================================= shapes

/-- An entry without what it holds. -/
inductive Shape
  | directory
  | file (content : Bytes) (stamp : Stamp)
  | link (target : String)
  deriving DecidableEq, Repr, Inhabited

/-- What stands at each location. -/
abbrev View := Location → Option Shape

/-- The shape of an entry. -/
def Entry.shape : Entry → Shape
  | .directory _ => .directory
  | .file content stamp => .file content stamp
  | .link target => .link target

/-- The view of a tree. -/
def Entry.view (e : Entry) : View := fun l => (e.get? l).map Entry.shape

-- =================================================== children by name

namespace Children

/-- Setting a name twice leaves the second entry. -/
theorem set_set (cs : List (String × Entry)) (n : String) (x y : Entry) :
    set (set cs n x) n y = set cs n y := by
  induction cs with
  | nil => simp [set]
  | cons c rest ih =>
      obtain ⟨m, old⟩ := c
      by_cases hm : m = n
      · simp [set, hm]
      · simp [set, hm, ih]

/-- Setting a name to what it already has changes nothing. -/
theorem set_get? {cs : List (String × Entry)} {n : String} {x : Entry}
    (h : get? cs n = some x) : set cs n x = cs := by
  induction cs with
  | nil => cases h
  | cons c rest ih =>
      obtain ⟨m, old⟩ := c
      by_cases hm : m = n
      · simp only [get?, hm, if_true, Option.some.injEq] at h
        simp [set, hm, h]
      · simp only [get?, hm, if_false] at h
        simp [set, hm, ih h]

/-- Dropping a name forgets what was set. -/
theorem erase_set (cs : List (String × Entry)) (n : String) (x : Entry) :
    erase (set cs n x) n = erase cs n := by
  induction cs with
  | nil => simp [set, erase]
  | cons c rest ih =>
      obtain ⟨m, old⟩ := c
      by_cases hm : m = n
      · simp [set, erase, hm]
      · simp [set, erase, hm, ih]

/-- Dropping a name that is not there changes nothing. -/
theorem erase_of_none {cs : List (String × Entry)} {n : String}
    (h : get? cs n = none) : erase cs n = cs := by
  induction cs with
  | nil => rfl
  | cons c rest ih =>
      obtain ⟨m, old⟩ := c
      by_cases hm : m = n
      · simp [get?, hm] at h
      · simp only [get?, hm, if_false] at h
        simp [erase, hm, ih h]

end Children

namespace Entry

-- ========================================================== looking up

@[simp] theorem get?_nil (e : Entry) : e.get? [] = some e := by
  cases e <;> rfl

theorem get?_cons (e : Entry) (n : String) (l : Location) :
    e.get? (n :: l) = (e.child? n).bind (·.get? l) := by
  rw [get?]
  cases e.child? n <;> rfl

/-- What is found below an entry is found below a child of it. -/
theorem get?_cons_eq_some {e x : Entry} {n : String} {l : Location} :
    e.get? (n :: l) = some x ↔ ∃ cs c, e = directory cs
      ∧ Children.get? cs n = some c ∧ c.get? l = some x := by
  rw [get?_cons, Option.bind_eq_some_iff]
  cases e with
  | file c t => simp [child?]
  | link t => simp [child?]
  | directory cs => simp [child?]

/-- Looking below a location is looking into what stands there. -/
theorem get?_append (e : Entry) (a b : Location) :
    e.get? (a ++ b) = (e.get? a).bind (·.get? b) := by
  induction a generalizing e with
  | nil => simp
  | cons n a ih =>
      rw [List.cons_append, get?_cons, get?_cons]
      cases e.child? n with
      | none => rfl
      | some c => exact ih c

@[simp] theorem view_nil (e : Entry) : e.view [] = some e.shape := by
  simp [view]

/-- The view of a directory goes through its children. -/
theorem view_cons (cs : List (String × Entry)) (n : String) (l : Location) :
    (directory cs).view (n :: l)
      = (Children.get? cs n).bind (·.view l) := by
  unfold view
  rw [get?_cons, child?]
  cases Children.get? cs n <;> rfl

/-- The view below a location is the view of what stands there. -/
theorem view_append {e x : Entry} {a : Location} (h : e.get? a = some x)
    (b : Location) : e.view (a ++ b) = x.view b := by
  unfold view
  rw [get?_append, h]
  rfl

theorem view_eq_directory {e : Entry} {l : Location} :
    e.view l = some .directory ↔ ∃ cs, e.get? l = some (.directory cs) := by
  unfold view
  constructor
  · intro h
    obtain ⟨x, hx, hs⟩ := Option.map_eq_some_iff.mp h
    cases x with
    | directory cs => exact ⟨cs, hx⟩
    | file c t => cases hs
    | link t => cases hs
  · intro hmid
    obtain ⟨cs, h⟩ := hmid
    rw [h]
    rfl

theorem view_eq_file {e : Entry} {l : Location} {c : Bytes} {t : Stamp} :
    e.view l = some (.file c t) ↔ e.get? l = some (.file c t) := by
  unfold view
  constructor
  · intro h
    obtain ⟨x, hx, hs⟩ := Option.map_eq_some_iff.mp h
    cases x with
    | directory cs => cases hs
    | file c' t' =>
        cases hs
        exact hx
    | link t' => cases hs
  · intro h
    rw [h]
    rfl

theorem view_eq_none {e : Entry} {l : Location} :
    e.view l = none ↔ e.get? l = none := by
  unfold view
  rw [Option.map_eq_none_iff]

/-- Whatever has an entry below it is a directory. -/
theorem view_above {e : Entry} {a b : Location} (hb : b ≠ [])
    (h : e.view (a ++ b) ≠ none) : e.view a = some .directory := by
  cases ha : e.get? a with
  | none =>
      exfalso
      apply h
      rw [view_eq_none, get?_append, ha]
      rfl
  | some x =>
      rw [view_append ha] at h
      cases b with
      | nil => exact absurd rfl hb
      | cons n b =>
          cases x with
          | directory cs => exact view_eq_directory.mpr ⟨cs, ha⟩
          | file c t => exact absurd rfl h
          | link t => exact absurd rfl h

/-- A directory in which nothing stands has no children. -/
theorem get?_of_empty {e : Entry} {l : Location}
    (hx : e.view l = some .directory)
    (hempty : ∀ k, e.view (l ++ [k]) = none) :
    e.get? l = some (.directory []) := by
  obtain ⟨cs, hcs⟩ := view_eq_directory.mp hx
  cases cs with
  | nil => exact hcs
  | cons c cs =>
      obtain ⟨k, x⟩ := c
      have hk := hempty k
      rw [view_append hcs, view_cons] at hk
      simp [Children.get?] at hk

-- ============================================================= changes

/-- A change below a child that is there is a change of that child. -/
theorem insert_cons {cs : List (String × Entry)} {n : String} {c : Entry}
    (h : Children.get? cs n = some c) (l : Location) (x : Entry) :
    (directory cs).insert (n :: l) x
      = directory (Children.set cs n (c.insert l x)) := by
  cases l with
  | nil => cases c <;> rfl
  | cons m l => simp only [insert, h]

/-- The same for taking away. -/
theorem erase_cons {cs : List (String × Entry)} {n : String} {c : Entry}
    (h : Children.get? cs n = some c) {l : Location} (hl : l ≠ []) :
    (directory cs).erase (n :: l)
      = directory (Children.set cs n (c.erase l)) := by
  cases l with
  | nil => exact absurd rfl hl
  | cons m l => simp only [erase, h]

/-- A tree with a new entry at a location whose parent is a directory
shows the new entry there and is otherwise as before. -/
theorem view_insert {e : Entry} {a : Location}
    (h : e.view a = some .directory) (n : String) (x : Entry)
    (m : Location) :
    (e.insert (a ++ [n]) x).view m
      = if a ++ [n] <+: m then x.view (m.drop (a.length + 1))
        else e.view m := by
  induction a generalizing e m with
  | nil =>
      obtain ⟨cs, hcs⟩ := view_eq_directory.mp h
      rw [get?_nil, Option.some.injEq] at hcs
      subst hcs
      cases m with
      | nil => simp [insert, shape]
      | cons k m =>
          simp only [List.nil_append, insert, view_cons, Children.get?_set,
            List.length_nil, Nat.zero_add, List.drop_succ_cons,
            List.drop_zero, List.cons_prefix_cons, List.nil_prefix, and_true]
          by_cases hk : n = k
          · simp [hk]
          · simp [hk]
  | cons b a ih =>
      obtain ⟨cs, hcs⟩ := view_eq_directory.mp
        (view_above (e := e) (a := []) (b := b :: a) (by simp)
          (by rw [List.nil_append, h]; simp))
      rw [get?_nil, Option.some.injEq] at hcs
      subst hcs
      rw [view_cons] at h
      cases hb : Children.get? cs b with
      | none => simp [hb] at h
      | some c =>
          rw [hb, Option.bind_some] at h
          rw [List.cons_append, insert_cons hb]
          cases m with
          | nil => simp [shape]
          | cons k m =>
              simp only [view_cons, Children.get?_set, List.length_cons,
                List.drop_succ_cons, List.cons_prefix_cons]
              by_cases hk : b = k
              · subst hk
                simp only [if_true, Option.bind_some, ih h, hb, true_and]
              · simp [hk]

/-- The same for a location where something stands. -/
theorem view_insert_over {e : Entry} {l : Location} (h : e.view l ≠ none)
    (x : Entry) (m : Location) :
    (e.insert l x).view m
      = if l <+: m then x.view (m.drop l.length) else e.view m := by
  rcases List.eq_nil_or_concat l with rfl | ⟨a, n, rfl⟩
  · cases e <;> simp [insert]
  · rw [List.concat_eq_append] at h ⊢
    rw [view_insert (view_above (List.cons_ne_nil n []) h),
      List.length_append, List.length_singleton]

/-- Taking away what is not there changes nothing. -/
theorem erase_of_none {e : Entry} {l : Location} (h : e.get? l = none) :
    e.erase l = e := by
  induction l generalizing e with
  | nil => simp at h
  | cons n l ih =>
      cases e with
      | file c t => simp [erase]
      | link t => simp [erase]
      | directory cs =>
          rw [get?_cons, child?] at h
          cases hc : Children.get? cs n with
          | none =>
              cases l with
              | nil => simp only [erase, Children.erase_of_none hc]
              | cons m l => simp only [erase, hc]
          | some c =>
              rw [hc, Option.bind_some] at h
              have hl : l ≠ [] := by
                intro heq
                subst heq
                simp at h
              rw [erase_cons hc hl, ih h, Children.set_get? hc]

/-- A tree without the entry at a location shows nothing at and below it
and is otherwise as before. -/
theorem view_erase (e : Entry) {l : Location} (hl : l ≠ [])
    (m : Location) :
    (e.erase l).view m = if l <+: m then none else e.view m := by
  induction l generalizing e m with
  | nil => exact absurd rfl hl
  | cons n l ih =>
      cases e with
      | file c t =>
          cases m with
          | nil => simp [erase]
          | cons k m =>
              have hnone : (file c t).view (k :: m) = none := rfl
              simp [erase, hnone]
      | link t =>
          cases m with
          | nil => simp [erase]
          | cons k m =>
              have hnone : (link t).view (k :: m) = none := rfl
              simp [erase, hnone]
      | directory cs =>
          cases m with
          | nil =>
              have hd : ((directory cs).erase (n :: l)).shape
                  = Shape.directory := by
                cases l with
                | nil => rfl
                | cons k l =>
                    cases hg : Children.get? cs n <;>
                      simp [erase, hg, shape]
              rw [view_nil, view_nil, hd]
              simp [shape]
          | cons k m =>
              simp only [List.cons_prefix_cons]
              cases hl' : l with
              | nil =>
                  simp only [erase, view_cons, Children.get?_erase,
                    List.nil_prefix, and_true]
                  by_cases hk : n = k <;> simp [hk]
              | cons j l'' =>
                  rw [← hl']
                  have hne : l ≠ [] := by simp [hl']
                  cases hg : Children.get? cs n with
                  | none =>
                      have hsame : (directory cs).erase (n :: l)
                          = directory cs := by
                        simp only [hl', erase, hg]
                      rw [hsame, view_cons]
                      by_cases hk : n = k
                      · subst hk
                        simp [hg]
                      · simp [hk]
                  | some c =>
                      rw [erase_cons hg hne, view_cons, view_cons,
                        Children.get?_set]
                      by_cases hk : n = k
                      · subst hk
                        simp [ih c hne, hg]
                      · simp [hk]

-- ============================================== changes of a subtree

/-- What is put at a location is found there. -/
theorem get?_insert {e z : Entry} {l : Location} (h : e.get? l = some z)
    (x : Entry) : (e.insert l x).get? l = some x := by
  induction l generalizing e with
  | nil => cases e <;> simp [insert]
  | cons n l ih =>
      obtain ⟨cs, c, rfl, hc, h⟩ := get?_cons_eq_some.mp h
      rw [insert_cons hc, get?_cons, child?, Children.get?_set]
      simpa using ih h

/-- Putting back what stands at a location changes nothing. -/
theorem insert_get? {e x : Entry} {l : Location} (h : e.get? l = some x) :
    e.insert l x = e := by
  induction l generalizing e with
  | nil =>
      rw [get?_nil, Option.some.injEq] at h
      subst h
      cases e <;> rfl
  | cons n l ih =>
      obtain ⟨cs, c, rfl, hc, h⟩ := get?_cons_eq_some.mp h
      rw [insert_cons hc, ih h, Children.set_get? hc]

/-- A change below a location is a change of what stands there. -/
theorem insert_below {e z : Entry} {l : Location} (h : e.get? l = some z)
    (x : Entry) (m : Location) (y : Entry) :
    (e.insert l x).insert (l ++ m) y = e.insert l (x.insert m y) := by
  induction l generalizing e with
  | nil => cases e <;> simp [insert]
  | cons n l ih =>
      obtain ⟨cs, c, rfl, hc, h⟩ := get?_cons_eq_some.mp h
      have hset : Children.get? (Children.set cs n (c.insert l x)) n
          = some (c.insert l x) := by
        rw [Children.get?_set, if_pos rfl]
      rw [insert_cons hc, List.cons_append, insert_cons hset, ih h,
        Children.set_set, insert_cons hc]

/-- Taking away below a location is a change of what stands there. -/
theorem erase_below {e z : Entry} {l : Location} (h : e.get? l = some z)
    (x : Entry) {m : Location} (hm : m ≠ []) :
    (e.insert l x).erase (l ++ m) = e.insert l (x.erase m) := by
  induction l generalizing e with
  | nil => cases e <;> simp [insert]
  | cons n l ih =>
      obtain ⟨cs, c, rfl, hc, h⟩ := get?_cons_eq_some.mp h
      have hset : Children.get? (Children.set cs n (c.insert l x)) n
          = some (c.insert l x) := by
        rw [Children.get?_set, if_pos rfl]
      have hne : l ++ m ≠ [] := by
        intro heq
        exact hm (List.append_eq_nil_iff.mp heq).2
      rw [insert_cons hc, List.cons_append, erase_cons hset hne,
        ih h, Children.set_set, insert_cons hc]

/-- Taking away what was put over an entry is taking the entry away. -/
theorem erase_insert {e z : Entry} {l : Location} (h : e.get? l = some z)
    (hl : l ≠ []) (x : Entry) : (e.insert l x).erase l = e.erase l := by
  obtain ⟨a, n, rfl⟩ := (List.eq_nil_or_concat l).resolve_left hl
  rw [List.concat_eq_append] at *
  have hthere : e.view (a ++ [n]) ≠ none := fun hno => by
    rw [view_eq_none.mp hno] at h
    cases h
  obtain ⟨cs, hcs⟩ := view_eq_directory.mp
    (view_above (List.cons_ne_nil n []) hthere)
  have hself := (insert_get? hcs).symm
  rw [hself, insert_below hcs, erase_below hcs _ (List.cons_ne_nil n []),
    erase_below hcs _ (List.cons_ne_nil n [])]
  simp only [insert, erase, Children.erase_set]

end Entry

end TreeReplica
