/-
The two changes of a view: `set` puts one entry, with nothing below it,
and `cut` takes away whatever is at and below a location. They are the
changes of a tree seen through its view, and a sound view stays sound
under both as long as what is put fits its place.
-/
import TreeReplica.Proofs.Disk.Site

namespace TreeReplica

namespace View

/-- The view with the entry `x` at `l` and nothing below it. -/
def set (v : View) (l : Location) (x : Shape) : View := fun m =>
  if l <+: m then if m = l then some x else none else v m

/-- The view without the entry at `l` and all below it. -/
def cut (v : View) (l : Location) : View := fun m =>
  if l <+: m then none else v m

-- ============================================================ looking up

@[simp] theorem set_self (v : View) (l : Location) (x : Shape) :
    v.set l x l = some x := by
  simp [set]

theorem set_outside {v : View} {l m : Location} (h : ¬ l <+: m)
    (x : Shape) : v.set l x m = v m := by
  simp [set, h]

theorem set_below {v : View} {l m : Location} (h : l <+: m) (hne : m ≠ l)
    (x : Shape) : v.set l x m = none := by
  simp [set, h, hne]

theorem cut_outside {v : View} {l m : Location} (h : ¬ l <+: m) :
    v.cut l m = v m := by
  simp [cut, h]

theorem cut_within {v : View} {l m : Location} (h : l <+: m) :
    v.cut l m = none := by
  simp [cut, h]

/-- Setting forgets what was there. -/
theorem set_cut (v : View) (l : Location) (x : Shape) :
    (v.cut l).set l x = v.set l x := by
  funext m
  by_cases h : l <+: m
  · simp [set, h]
  · simp [set, cut, h]

theorem set_set (v : View) (l : Location) (x y : Shape) :
    (v.set l x).set l y = v.set l y := by
  funext m
  by_cases h : l <+: m
  · simp [set, h]
  · simp [set, h]

/-- Taking away forgets what was set. -/
theorem cut_set (v : View) (l : Location) (x : Shape) :
    (v.set l x).cut l = v.cut l := by
  funext m
  by_cases h : l <+: m
  · simp [cut, h]
  · simp [set, cut, h]

/-- A path is not a prefix of a shorter one. -/
theorem not_prefix_of_append {a b : Location} (hb : b ≠ []) :
    ¬ a ++ b <+: a := by
  intro h
  have hlen := h.length_le
  rw [List.length_append] at hlen
  exact hb (List.length_eq_zero_iff.mp (by omega))

@[simp] theorem append_cons_not_prefix (a : Location) (n : String)
    (b : Location) : ¬ a ++ n :: b <+: a :=
  not_prefix_of_append (List.cons_ne_nil n b)

/-- What is there once an entry is set is that entry, or was there
before. -/
theorem set_eq_some {v : View} {l m : Location} {x y : Shape}
    (h : v.set l x m = some y) :
    (m = l ∧ y = x) ∨ (¬ l <+: m ∧ v m = some y) := by
  unfold set at h
  split at h
  · split at h
    · next heq => exact Or.inl ⟨heq, (Option.some.inj h).symm⟩
    · cases h
  · next hp => exact Or.inr ⟨hp, h⟩

/-- What is left once something is taken away was there before. -/
theorem cut_eq_some {v : View} {l m : Location} {y : Shape}
    (h : v.cut l m = some y) : ¬ l <+: m ∧ v m = some y := by
  unfold cut at h
  split at h
  · cases h
  · next hp => exact ⟨hp, h⟩

-- ======================================================== without links

/-- A view of a directory without links in it: every entry is below
directories only. -/
structure Linkless (v : View) : Prop where
  base : v [] = some .directory
  noLinks : ∀ l t, v l ≠ some (.link t)
  above : ∀ a b, b ≠ [] → v (a ++ b) ≠ none → v a = some .directory

/-- Nothing is below what is no directory. -/
theorem Linkless.below {v : View} (h : v.Linkless) {l m : Location}
    (hl : v l ≠ some .directory) (hm : l <+: m) (hne : m ≠ l) :
    v m = none := by
  obtain ⟨r, rfl⟩ := hm
  have hr : r ≠ [] := by
    intro heq
    subst heq
    exact hne (List.append_nil l)
  exact Decidable.byContradiction fun hv => hl (h.above l r hr hv)

/-- Where nothing stands nothing is taken away. -/
theorem Linkless.cut_of_none {v : View} (h : v.Linkless) {l : Location}
    (hl : v l = none) : v.cut l = v := by
  funext m
  by_cases hp : l <+: m
  · rw [cut_within hp]
    by_cases hm : m = l
    · rw [hm, hl]
    · rw [h.below (by simp [hl]) hp hm]
  · exact cut_outside hp

/-- An entry that is no link can be set in a directory. -/
theorem Linkless.set {v : View} (h : v.Linkless) {a : Location}
    {n : String} (ha : v a = some .directory) {x : Shape}
    (hx : ∀ t, x ≠ .link t) : (v.set (a ++ [n]) x).Linkless where
  base := by
    rw [set_outside (by simp)]
    exact h.base
  noLinks l t hl := by
    rcases set_eq_some hl with ⟨-, hy⟩ | ⟨-, hv⟩
    · exact hx t hy.symm
    · exact h.noLinks l t hv
  above b c hc hbc := by
    obtain ⟨y, hy⟩ := Option.ne_none_iff_exists'.mp hbc
    rcases set_eq_some hy with ⟨heq, -⟩ | ⟨hp, hv⟩
    · -- above the new entry is its parent or what is above that
      have hpre : b <+: a := by
        rcases List.prefix_concat_iff.mp ⟨c, heq⟩ with hb | hb
        · rw [← hb] at heq
          exact absurd (List.append_right_eq_self.mp heq) hc
        · exact hb
      rw [set_outside fun hp => not_prefix_of_append (by simp) (hp.trans hpre)]
      obtain ⟨r, rfl⟩ := hpre
      by_cases hr : r = []
      · simpa [hr] using ha
      · exact h.above b r hr (by simp [ha])
    · rw [set_outside fun hp' => hp (hp'.trans (List.prefix_append b c))]
      exact h.above b c hc (by simp [hv])

/-- Anything but the top can be taken away. -/
theorem Linkless.cut {v : View} (h : v.Linkless) {l : Location}
    (hl : l ≠ []) : (v.cut l).Linkless where
  base := by
    rw [cut_outside fun hp => hl (List.prefix_nil.mp hp)]
    exact h.base
  noLinks m t hm := h.noLinks m t (cut_eq_some hm).2
  above b c hc hbc := by
    obtain ⟨y, hy⟩ := Option.ne_none_iff_exists'.mp hbc
    obtain ⟨hp, hv⟩ := cut_eq_some hy
    rw [cut_outside fun hp' => hp (hp'.trans (List.prefix_append b c))]
    exact h.above b c hc (by simp [hv])

end View

namespace Entry

/-- Putting a file, or an empty directory, is setting its shape. -/
theorem view_insert_bare {e x : Entry} {a : Location}
    (h : e.view a = some .directory) (n : String)
    (hx : ∀ k l, x.view (k :: l) = none) :
    (e.insert (a ++ [n]) x).view = e.view.set (a ++ [n]) x.shape := by
  funext m
  rw [view_insert h]
  unfold View.set
  split
  · next hp =>
      obtain ⟨b, rfl⟩ := hp
      cases b with
      | nil => simp
      | cons k l => simp [hx]
  · rfl

theorem view_insert_file {e : Entry} {a : Location}
    (h : e.view a = some .directory) (n : String) (c : Bytes) (t : Stamp) :
    (e.insert (a ++ [n]) (.file c t)).view
      = e.view.set (a ++ [n]) (.file c t) :=
  view_insert_bare h n fun _ _ => rfl

theorem view_insert_directory {e : Entry} {a : Location}
    (h : e.view a = some .directory) (n : String) :
    (e.insert (a ++ [n]) (.directory [])).view
      = e.view.set (a ++ [n]) .directory :=
  view_insert_bare h n fun _ _ => rfl

/-- A tree without links, directory by directory. -/
theorem linkless_view {e : Entry} (hbase : e.view [] = some .directory)
    (hno : ∀ l t, e.view l ≠ some (.link t)) : e.view.Linkless where
  base := hbase
  noLinks := hno
  above _ _ hb h := view_above hb h

mutual

/-- No link is in the tree. -/
def linkFree : Entry → Bool
  | .directory cs => linkFreeAll cs
  | .file _ _ => true
  | .link _ => false

/-- No link is in any of the trees. -/
def linkFreeAll : List (String × Entry) → Bool
  | [] => true
  | (_, e) :: rest => e.linkFree && linkFreeAll rest

end

theorem linkFree_of_get? {cs : List (String × Entry)}
    (h : linkFreeAll cs = true) {n : String} {c : Entry}
    (hc : Children.get? cs n = some c) : c.linkFree = true := by
  induction cs with
  | nil => cases hc
  | cons d rest ih =>
      obtain ⟨m, e⟩ := d
      rw [linkFreeAll, Bool.and_eq_true] at h
      rw [Children.get?] at hc
      split at hc
      · rw [← Option.some.inj hc]
        exact h.1
      · exact ih h.2 hc

/-- A tree that is found to be without links shows none. -/
theorem noLinks_of_linkFree {e : Entry} (h : e.linkFree = true)
    (l : Location) (t : String) : e.view l ≠ some (.link t) := by
  induction l generalizing e with
  | nil => cases e <;> simp [linkFree, shape] at h ⊢
  | cons n l ih =>
      cases e with
      | link t => cases h
      | file c t' => exact fun hno => by cases hno
      | directory cs =>
          rw [view_cons]
          cases hc : Children.get? cs n with
          | none => exact fun hno => by cases hno
          | some c =>
              rw [linkFree] at h
              exact ih (linkFree_of_get? h hc)

theorem view_erase_eq (e : Entry) {l : Location} (hl : l ≠ []) :
    (e.erase l).view = e.view.cut l := by
  funext m
  rw [view_erase e hl]
  rfl

end Entry

namespace Footing

variable {s : Footing} {v : View} {l : Location}

-- ============================================================== openness

/-- What is taken away that is no directory leaves the footing open. -/
theorem Open.cut (h : s.Open v) (hv : v.Linkless)
    (hl : v l ≠ some .directory) : s.Open (v.cut l) := by
  refine h.mono fun m hm => ?_
  rw [View.cut_outside, hm]
  intro hp
  by_cases heq : m = l
  · exact hl (heq ▸ hm)
  · rw [hv.below hl hp heq] at hm
    cases hm

/-- What is set where no directory stands leaves the footing open. -/
theorem Open.set (h : s.Open v) (hv : v.Linkless)
    (hl : v l ≠ some .directory) (x : Shape) : s.Open (v.set l x) := by
  refine (h.cut hv hl).mono fun m hm => ?_
  obtain ⟨hp, hm⟩ := View.cut_eq_some hm
  rw [View.set_outside hp, hm]

end Footing

namespace Site

variable {s : Site} {v : View}

-- ============================================================= soundness

theorem Sound.linkless (h : s.Sound v) : v.Linkless where
  base := h.base
  noLinks := h.noLinks
  above := h.above

/-- A sound view stays sound when an entry that is no link is set in a
directory under a path that fits. -/
theorem Sound.set (h : s.Sound v) {a : Location} {n : String}
    (ha : v a = some .directory) (hn : AllNames (a ++ [n]))
    (hf : s.Fits (a ++ [n])) {x : Shape} (hx : ∀ t, x ≠ .link t) :
    s.Sound (v.set (a ++ [n]) x) := by
  have hlinkless := h.linkless.set ha hx (n := n)
  refine ⟨hlinkless.base, hlinkless.noLinks, ?_, ?_, hlinkless.above⟩
  · intro l hl
    obtain ⟨y, hy⟩ := Option.ne_none_iff_exists'.mp hl
    rcases View.set_eq_some hy with ⟨rfl, -⟩ | ⟨-, hv⟩
    · exact hf
    · exact h.fits l (by simp [hv])
  · intro l hl
    obtain ⟨y, hy⟩ := Option.ne_none_iff_exists'.mp hl
    rcases View.set_eq_some hy with ⟨rfl, -⟩ | ⟨-, hv⟩
    · exact hn
    · exact h.names l (by simp [hv])

/-- A sound view stays sound when something is taken away. -/
theorem Sound.cut (h : s.Sound v) {l : Location} (hl : l ≠ []) :
    s.Sound (v.cut l) := by
  have hlinkless := h.linkless.cut hl
  have hthere : ∀ m, v.cut l m ≠ none → v m ≠ none := by
    intro m hm
    obtain ⟨y, hy⟩ := Option.ne_none_iff_exists'.mp hm
    simp [(View.cut_eq_some hy).2]
  exact ⟨hlinkless.base, hlinkless.noLinks, fun m hm => h.fits m (hthere m hm),
    fun m hm => h.names m (hthere m hm), hlinkless.above⟩

end Site

end TreeReplica
