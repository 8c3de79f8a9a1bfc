/-
What a scan finds: one item for every location at which the view of a
directory has an entry, under the text of that location, and nothing else
(`scan_yields`), so the tree as a map from texts to items
(`scan_items`). It needs every entry to be found by its path
(`Disk.Sees`), as it is below a footing without links where every path
fits.
-/
import TreeReplica.Proofs.Disk.Linkless
import TreeReplica.Proofs.Disk.Work
import TreeReplica.Proofs.Layout.Compare
import TreeReplica.Layout.Scan

namespace TreeReplica

/-- What a layout shows of an entry; a link is seen as what it leads to
and does not occur in a replica. -/
def Shape.item : Shape → Item
  | .directory => .directory
  | .file c _ => .file c
  | .link _ => .directory

/-- The text under which a layout has a location. -/
def Layout.key (l : Location) : String := Path.text ⟨.here, l⟩

namespace Entry

-- ========================================================= what is reached

/-- No directory of the tree is under a path too long to be opened. -/
def Openable (p : Path) (e : Entry) : Prop :=
  ∀ l cs, e.get? l = some (directory cs) →
    (p.descend l).text.utf8ByteSize < pathLimit

theorem Openable.child {p : Path} {cs : List (String × Entry)}
    (h : (directory cs).Openable p) {n : String} {c : Entry}
    (hc : Children.get? cs n = some c) : c.Openable (p.child n) := by
  intro l ds hl
  have hn := h (n :: l) ds (get?_cons_eq_some.mpr ⟨cs, c, rfl, hc, hl⟩)
  rwa [Path.descend_cons] at hn

mutual

/-- Every entry below a tidy tree is reached, and nothing else. -/
theorem reachable_spec (e : Entry) {p : Path} (ht : e.Tidy)
    (ho : e.Openable p) :
    ∃ found, e.reachable p = .ok found
      ∧ ∀ l, l ∈ found ↔ l ≠ [] ∧ e.get? l ≠ none := by
  cases e with
  | file c t =>
      refine ⟨[], rfl, fun l => ?_⟩
      cases l <;> simp [get?_cons, child?]
  | link t =>
      refine ⟨[], rfl, fun l => ?_⟩
      cases l <;> simp [get?_cons, child?]
  | directory cs =>
      obtain ⟨hnames, hbelow⟩ := tidy_directory.mp ht
      obtain ⟨found, hok, hmem⟩ := reachableIn_spec cs (p := p)
        (fun n c hc => hbelow n c (Children.get?_of_mem hnames hc))
        (fun n c hc => ho.child (Children.get?_of_mem hnames hc))
      have hshort : ¬ pathLimit ≤ p.text.utf8ByteSize := by
        have hp := ho [] cs (get?_nil _)
        rw [Path.descend_nil] at hp
        omega
      refine ⟨found, ?_, fun l => ?_⟩
      · rw [reachable, if_neg hshort]
        exact hok
      rw [hmem]
      constructor
      · intro h
        obtain ⟨n, c, r, hc, heq, hr⟩ := h
        subst heq
        rw [get?_cons, child?, Children.get?_of_mem hnames hc]
        exact ⟨by simp, hr⟩
      · intro h
        obtain ⟨hl, hget⟩ := h
        cases l with
        | nil => exact absurd rfl hl
        | cons n r =>
            rw [get?_cons, child?] at hget
            cases hc : Children.get? cs n with
            | none =>
                rw [hc] at hget
                exact absurd rfl hget
            | some c =>
                rw [hc] at hget
                exact ⟨n, c, r, Children.mem_of_get? hc, rfl, hget⟩

/-- The same for the children of a directory. -/
theorem reachableIn_spec (cs : List (String × Entry)) {p : Path}
    (ht : ∀ n c, (n, c) ∈ cs → c.Tidy)
    (ho : ∀ n c, (n, c) ∈ cs → c.Openable (p.child n)) :
    ∃ found, reachableIn p cs = .ok found ∧ ∀ l, l ∈ found ↔
      ∃ n c r, (n, c) ∈ cs ∧ l = n :: r ∧ c.get? r ≠ none := by
  cases cs with
  | nil => exact ⟨[], rfl, fun l => by simp⟩
  | cons d rest =>
      obtain ⟨name, e⟩ := d
      obtain ⟨found, hok, hmem⟩ := reachable_spec e (p := p.child name)
        (ht name e (List.mem_cons_self ..)) (ho name e (List.mem_cons_self ..))
      obtain ⟨others, hoks, hmems⟩ := reachableIn_spec rest (p := p)
        (fun n c hc => ht n c (List.mem_cons_of_mem _ hc))
        (fun n c hc => ho n c (List.mem_cons_of_mem _ hc))
      refine ⟨[name] :: found.map (name :: ·) ++ others, ?_, fun l => ?_⟩
      · rw [reachableIn, hok, hoks]
      have hfirst : l ∈ [name] :: found.map (name :: ·)
          ↔ ∃ r, l = name :: r ∧ e.get? r ≠ none := by
        rw [List.mem_cons, List.mem_map]
        constructor
        · intro h
          rcases h with heq | ⟨r, hr, heq⟩
          · exact ⟨[], heq, by simp⟩
          · exact ⟨r, heq.symm, ((hmem r).mp hr).2⟩
        · intro h
          obtain ⟨r, heq, hr⟩ := h
          by_cases hnil : r = []
          · exact Or.inl (hnil ▸ heq)
          · exact Or.inr ⟨r, (hmem r).mpr ⟨hnil, hr⟩, heq.symm⟩
      rw [List.mem_append, hfirst, hmems]
      constructor
      · intro h
        rcases h with ⟨r, heq, hr⟩ | ⟨n, c, r, hc, heq, hr⟩
        · exact ⟨name, e, r, List.mem_cons_self .., heq, hr⟩
        · exact ⟨n, c, r, List.mem_cons_of_mem _ hc, heq, hr⟩
      · intro h
        obtain ⟨n, c, r, hc, heq, hr⟩ := h
        rcases List.mem_cons.mp hc with hd | hc
        · cases hd
          exact Or.inl ⟨r, heq, hr⟩
        · exact Or.inr ⟨n, c, r, hc, heq, hr⟩

end

end Entry

namespace Disk

/-- The directory `m` is seen at the path `p`: every entry in it is found
by its path and is no link, under a proper name, and no directory of it is
under a path that is too long. -/
structure Sees (d : Disk) (p : Path) (m : Entry) : Prop where
  status : ∀ l x, m.get? l = some x → d.status (p.descend l) = .ok x
  directory : m.view [] = some .directory
  noLinks : ∀ l t, m.view l ≠ some (.link t)
  names : ∀ l, m.view l ≠ none → AllNames l
  openable : m.Openable p

namespace Sees

variable {d : Disk} {p : Path} {m : Entry}

-- =============================================================== the scan

/-- The locations of a directory are found, all but the directory
itself. -/
theorem below_eq (h : d.Sees p m) (ht : m.Tidy) :
    ∃ found, d.below p = .ok found
      ∧ ∀ l, l ∈ found ↔ l ≠ [] ∧ m.view l ≠ none := by
  obtain ⟨found, hok, hmem⟩ := Entry.reachable_spec m ht h.openable
  obtain ⟨cs, hcs⟩ := Entry.view_eq_directory.mp h.directory
  rw [Entry.get?_nil, Option.some.injEq] at hcs
  have hstatus := h.status [] m m.get?_nil
  rw [Path.descend_nil] at hstatus
  refine ⟨found.mergeSort componentsLE, ?_, fun l => ?_⟩
  · rw [hcs] at hstatus hok
    simp only [Disk.below, isDirectory, hstatus, holds, bind, Except.bind,
      hok]
    rfl
  · rw [List.mem_mergeSort, hmem]
    simp [Entry.view]

/-- The item at what stands in the directory. -/
theorem itemAt_eq (h : d.Sees p m) {l : Location} {x : Shape}
    (hx : m.view l = some x) :
    d.itemAt (p.descend l) = .ok x.item := by
  obtain ⟨e, he, rfl⟩ := Option.map_eq_some_iff.mp hx
  simp only [itemAt, isDirectory, read, h.status l e he, holds]
  cases e with
  | directory cs => rfl
  | file c t => rfl
  | link t => exact absurd hx (h.noLinks l t)

/-- The scan of a list of locations: each has its item under its key, and
all other texts are as before. The induction is on the list, with the
layout so far left general. -/
private theorem scan_list (h : d.Sees p m) {found : List Location}
    (hfound : ∀ l ∈ found, m.view l ≠ none) {before : Layout}
    (hbefore : before.Distinct) :
    ∃ after, found.foldlM (fun (l : Layout) parts => do
          return l.put (Path.text ⟨.here, parts⟩)
            (← d.itemAt (p.descend parts))) before
        = .ok after
      ∧ after.Distinct
      ∧ (∀ l ∈ found,
        after.get? (Layout.key l) = (m.view l).map Shape.item)
      ∧ ∀ t, (∀ l ∈ found, t ≠ Layout.key l) →
        after.get? t = before.get? t := by
  induction found generalizing before with
  | nil => exact ⟨before, rfl, hbefore, by simp, fun _ _ => rfl⟩
  | cons l rest ih =>
      obtain ⟨x, hx⟩ := Option.ne_none_iff_exists'.mp
        (hfound l (List.mem_cons_self ..))
      have hrest : ∀ l ∈ rest, m.view l ≠ none :=
        fun k hk => hfound k (List.mem_cons_of_mem _ hk)
      obtain ⟨after, hok, hdistinct, hin, hout⟩ := ih hrest
        (hbefore.put (Layout.key l) x.item)
      refine ⟨after, ?_, hdistinct, ?_, ?_⟩
      · rw [List.foldlM_cons, h.itemAt_eq hx]
        exact hok
      · intro k hk
        rcases List.mem_cons.mp hk with heq | hk
        · subst heq
          by_cases hk : ∃ j ∈ rest, Layout.key k = Layout.key j
          · obtain ⟨j, hj, hkey⟩ := hk
            have hkj := Path.text_inj (h.names k (by simp [hx]))
              (h.names j (hrest j hj)) hkey
            exact hin k (hkj ▸ hj)
          · rw [hout _ fun j hj heq => hk ⟨j, hj, heq⟩, Layout.get?_put,
              if_pos rfl, hx]
            rfl
        · exact hin k hk
      · intro t ht
        rw [hout t fun k hk => ht k (List.mem_cons_of_mem _ hk),
          Layout.get?_put, if_neg fun heq => ht l (List.mem_cons_self ..)
            heq.symm]

/-- The scan of a directory that is seen has an item for every location in
it, under its key, and nothing else, and each text once. -/
theorem scan_yields (h : d.Sees p m) (ht : m.Tidy) :
    ∃ layout, d.scan p = .ok layout ∧ layout.Distinct
      ∧ (∀ l, l ≠ [] → m.view l ≠ none →
        layout.get? (Layout.key l) = (m.view l).map Shape.item)
      ∧ ∀ t, layout.get? t ≠ none →
        ∃ l, l ≠ [] ∧ m.view l ≠ none ∧ t = Layout.key l := by
  obtain ⟨found, hok, hmem⟩ := h.below_eq ht
  obtain ⟨after, hscan, hdistinct, hin, hout⟩ := h.scan_list
    (fun l hl => ((hmem l).mp hl).2) Layout.distinct_empty
  refine ⟨after, ?_, hdistinct,
    fun l hl hv => hin l ((hmem l).mpr ⟨hl, hv⟩), ?_⟩
  · unfold Disk.scan
    rw [hok]
    exact hscan
  · intro t hne
    apply Classical.byContradiction
    intro hnone
    refine hne (hout t fun l hl heq => hnone ?_)
    exact ⟨l, ((hmem l).mp hl).1, ((hmem l).mp hl).2, heq⟩

end Sees

end Disk

/-- A directory as a file system keeps it: the names in a directory differ,
and each is a segment that is not too long for a name. -/
structure Entry.Regular (m : Entry) : Prop where
  tidy : m.Tidy
  segments : ∀ l, m.view l ≠ none → AllSegments l
  short : ∀ l, m.view l ≠ none → ∀ n ∈ l, n.utf8ByteSize ≤ nameLimit

/-- Where every path fits what a footing holds is seen. -/
theorem Footing.sees {s : Footing} {m : Entry} (ho : s.Open m.view)
    (h : m.view.Linkless) (hn : ∀ l, m.view l ≠ none → AllSegments l)
    (hf : ∀ l, m.view l ≠ none → s.Fits l) :
    (s.holding m).Sees s.path m where
  status l x hx := by
    have hthere : m.view l ≠ none := by simp [Entry.view, hx]
    have hfound := Footing.found_true ho h (hn l hthere)
    unfold Disk.status
    generalize (s.holding m).find true (s.path.descend l) = result at hfound
    cases hfound with
    | there fits stands =>
        rw [hx, Option.some.injEq] at stands
        rw [stands]
        rfl
    | absent tells nothing => exact absurd nothing hthere
    | unfit other fits => exact absurd (hf l hthere) fits
  directory := h.base
  noLinks := h.noLinks
  names l hl := (hn l hl).names
  openable l cs hl := by
    refine (hf l ?_).short
    rw [Entry.view_eq_directory.mpr ⟨cs, hl⟩]
    simp

/-- What stands in a sound site is seen: every path to it fits. -/
theorem Site.Sound.sees {s : Site} {m : Entry} (h : s.Sound m.view) :
    (s.holding m).Sees s.path m where
  status _ _ hx := Site.status_eq h hx
  directory := h.base
  noLinks := h.noLinks
  names := h.names
  openable l cs hl := by
    refine (h.fits l ?_).short
    rw [Entry.view_eq_directory.mpr ⟨cs, hl⟩]
    simp

-- ============================================================== one file

section Single

variable {name : String} {content : Bytes} {t : Stamp}

namespace Entry

end Entry

namespace Disk

end Disk

end Single

end TreeReplica
