/-
Where work on a replica stands. A footing is a directory of a disk and a
path that leads to it. The path may pass through directories below the
one that it leads to, as `a/b/..` does below `a`, so the directory may
hold any tree that has these open (`Footing.Open`). All work on a replica
happens below one footing: the disk is written as the footing holding a
tree, and every call about a path below it is a statement about the view
of that tree.

A site is a footing whose path passes through nothing below it, so that
it leads there whatever the directory holds.

A call does what the view says or blames a name: some texts are too long
for the system, and a null character cannot be passed to it at all. A set
of faults that allows for both is said to tolerate a location
(`Tolerates`), and `Yields` is an answer up to tolerated faults.
-/
import TreeReplica.Proofs.Disk.Name
import TreeReplica.Proofs.Disk.Route
import TreeReplica.Disk.Work

namespace TreeReplica

-- ============================================================= footings

/-- A directory of a disk and a path that leads to it, as long as the
directories stand below it that the path passes through. -/
structure Footing where
  disk : Disk
  path : Path
  location : Location
  place : Place
  stands : disk.root.view location = some .directory
  clear : Disk.hasNull path.text = false
  short : path.text.utf8ByteSize < pathLimit
  place_location : place.location = location
  passes : Location → Prop
  leads : ∀ cs, (∀ l, passes l →
      (Entry.directory cs).view l = some .directory) →
    walk (disk.root.insert location (.directory cs)) true linkLimit
      (disk.start path.anchor) path.parts = .ok place

namespace Footing

/-- The disk of a footing when it holds the tree `m`. -/
def holding (s : Footing) (m : Entry) : Disk := s.disk.put s.location m

/-- Directories stand wherever the path of the footing passes. -/
def Open (s : Footing) (v : View) : Prop :=
  ∀ l, s.passes l → v l = some .directory

/-- What keeps its directories stays open. -/
theorem Open.mono {s : Footing} {v w : View} (h : s.Open v)
    (hkeep : ∀ l, v l = some .directory → w l = some .directory) :
    s.Open w :=
  fun l hl => hkeep l (h l hl)

/-- A directory without links in it that is reached by a path is a
footing: whatever it passes through it passes through directories. -/
theorem exists_of_find {d : Disk} {p : Path} {l : Location}
    {cs : List (String × Entry)}
    (h : d.find true p = .ok (l, .directory cs))
    (hno : ∀ m t, (Entry.directory cs).view m ≠ some (.link t)) :
    ∃ s : Footing, s.path = p ∧ s.location = l
      ∧ (∀ m, s.holding m = d.put l m)
      ∧ s.Open (Entry.directory cs).view := by
  obtain ⟨place, hr, rfl, hg⟩ := Disk.find_eq_ok.mp h
  obtain ⟨hclear, hshort, hw⟩ := Disk.reach_eq_ok.mp hr
  have hv : d.root.view place.location = some .directory :=
    Entry.view_eq_directory.mpr ⟨cs, hg⟩
  refine ⟨{ disk := d, path := p, location := place.location,
            place := place, stands := hv, clear := hclear, short := hshort,
            place_location := rfl,
            passes := fun m => (Entry.directory cs).view m = some .directory,
            leads := fun cs' hkeep => ?_ },
    rfl, rfl, fun _ => rfl, fun _ => id⟩
  have hnew := Entry.view_insert_over (e := d.root) (l := place.location)
    (by simp [hv]) (.directory cs')
  refine walk_kept (fun m hm => ?_) (fun m t hm => ?_) hw hv
  · rw [hnew]
    split
    · next hp =>
        obtain ⟨b, rfl⟩ := hp
        rw [Entry.view_append hg] at hm
        rw [List.drop_left, hkeep b hm]
    · exact hm
  · rw [hnew]
    split
    · next hp =>
        obtain ⟨b, rfl⟩ := hp
        rw [Entry.view_append hg] at hm
        exact absurd hm (hno b t)
    · exact hm

variable (s : Footing)

theorem holding_get? (m : Entry) (l : Location) :
    (s.holding m).root.get? (s.location ++ l) = m.get? l := by
  obtain ⟨cs, hcs⟩ := Entry.view_eq_directory.mp s.stands
  rw [Entry.get?_append, holding, Disk.put, Entry.get?_insert hcs]
  rfl

theorem holding_put (m : Entry) (l : Location) (x : Entry) :
    (s.holding m).put (s.location ++ l) x = s.holding (m.insert l x) := by
  obtain ⟨cs, hcs⟩ := Entry.view_eq_directory.mp s.stands
  simp only [holding, Disk.put, Entry.insert_below hcs]

theorem holding_drop (m : Entry) {l : Location} (hl : l ≠ []) :
    (s.holding m).drop (s.location ++ l) = s.holding (m.erase l) := by
  obtain ⟨cs, hcs⟩ := Entry.view_eq_directory.mp s.stands
  simp only [holding, Disk.drop, Disk.put, Entry.erase_below hcs _ hl]

/-- What is not below the footing is as if it were not looked at. -/
theorem holding_outside (m : Entry) {l : Location}
    (hl : ¬ s.location <+: l) :
    (s.holding m).root.view l = s.disk.root.view l := by
  have hsome : s.disk.root.view s.location ≠ none := by
    rw [s.stands]
    simp
  rw [holding, Disk.put, Entry.view_insert_over hsome, if_neg hl]

/-- What is below the footing is what the tree shows that it holds. -/
theorem holding_view (m : Entry) (l : Location) :
    (s.holding m).root.view (s.location ++ l) = m.view l := by
  rw [Entry.view, s.holding_get?]
  rfl

-- ======================================================== what may stand

/-- The path to a location of the footing can be passed to the system, and
no name in it is too long for an entry. -/
structure Fits (l : Location) : Prop where
  clear : Disk.hasNull (s.path.descend l).text = false
  short : (s.path.descend l).text.utf8ByteSize < pathLimit
  names : ∀ n ∈ l, n.utf8ByteSize ≤ nameLimit

theorem fits_nil : s.Fits [] where
  clear := by simpa using s.clear
  short := by simpa using s.short
  names := by simp

variable {s}

/-- What a path that fits leads by fits too. -/
theorem Fits.above {a l : Location} (h : s.Fits l) (ha : a <+: l) :
    s.Fits a := by
  obtain ⟨b, rfl⟩ := ha
  refine ⟨?_, Nat.lt_of_le_of_lt (Path.size_descend_le ..) h.short,
    fun n hn => h.names n (List.mem_append_left b hn)⟩
  have hclear := h.clear
  rw [Disk.hasNull_descend, Bool.or_eq_false_iff, List.any_append,
    Bool.or_eq_false_iff] at hclear
  rw [Disk.hasNull_descend, hclear.1, hclear.2.1]
  rfl

-- ============================================================= reaching

/-- Where the path to the name `n` below the location `a` of a footing
leads when it holds `m`. -/
inductive Reached (s : Footing) (m : Entry) (a : Location) (n : String)
    (subject : Subject) : Except Fault Place → Prop
  | inside (fits : s.Fits (a ++ [n])) (parent : m.view a = some .directory) :
      Reached s m a n subject (.ok (.inside (s.location ++ a) n))
  | absent (reason : Errno)
      (absent : reason = .noEntry ∨ reason = .notDirectory)
      (parent : m.view a ≠ some .directory) :
      Reached s m a n subject (.error (.system (.refused reason subject)))
  | tooLong (fits : ¬ s.Fits (a ++ [n])) :
      Reached s m a n subject
        (.error (.system (.refused .nameTooLong subject)))
  | null (some : (a ++ [n]).any Disk.hasNull = true) :
      Reached s m a n subject (.error (.argument .nullCharacter))

/-- What is reached below a footing depends on the entries on the way
only: no link may be among them. -/
theorem reach_of_noLinks {m : Entry} (hopen : s.Open m.view)
    (hbase : m.view [] = some .directory)
    (hno : ∀ l t, m.view l ≠ some (.link t)) {a : Location} {n : String}
    (hn : AllNames (a ++ [n])) (follow : Bool) (subject : Subject) :
    Reached s m a n subject
      ((s.holding m).reach follow (s.path.descend (a ++ [n])) subject) := by
  unfold Disk.reach
  rw [Disk.hasNull_descend, s.clear, Bool.false_or]
  by_cases hnull : (a ++ [n]).any Disk.hasNull = true
  · rw [if_pos hnull]
    exact .null hnull
  rw [if_neg hnull]
  by_cases hlong : pathLimit ≤ (s.path.descend (a ++ [n])).text.utf8ByteSize
  · rw [if_pos hlong]
    exact .tooLong fun hf => absurd hf.short (by omega)
  rw [if_neg hlong]
  -- the way to the footing, then the way below it
  obtain ⟨cs, hcs⟩ := Entry.view_eq_directory.mp hbase
  rw [Entry.get?_nil, Option.some.injEq] at hcs
  subst hcs
  obtain ⟨cs₀, hcs₀⟩ := Entry.view_eq_directory.mp s.stands
  have hget : (s.disk.root.insert s.location (.directory cs)).get? s.location
      = some (.directory cs) := Entry.get?_insert hcs₀ _
  have hview : (s.disk.root.insert s.location (.directory cs)).view
      s.place.location = some .directory := by
    rw [s.place_location]
    exact Entry.view_eq_directory.mpr ⟨cs, hget⟩
  obtain ⟨left, hleft⟩ := walk_append follow
    (List.concat_ne_nil n a) (s.leads cs hopen) hview
  have hwalk : walk (s.holding (.directory cs)).root follow linkLimit
      ((s.holding (.directory cs)).start (s.path.descend (a ++ [n])).anchor)
      (s.path.descend (a ++ [n])).parts
        = walk (s.disk.root.insert s.location (.directory cs)) follow left
            s.location (a ++ [n]) := by
    rw [s.place_location] at hleft
    rw [← hleft]
    rfl
  rw [hwalk]
  have hproper : ∀ k ∈ a ++ [n], k ≠ "." ∧ k ≠ ".." :=
    fun k hk => ⟨(hn k hk).notDot, (hn k hk).notUp⟩
  have hbelow := trace_below hget hno follow (a := []) hproper hbase
  rw [List.append_nil, List.nil_append] at hbelow
  unfold walk
  rcases hbelow with ⟨ht, hv, hshort⟩ | ⟨r, ht, hr, hv⟩ | ⟨ht, k, hk, hl⟩
  · rw [ht]
    refine .inside ⟨?_, by omega, hshort⟩ hv
    rw [Disk.hasNull_descend, s.clear, Bool.false_or]
    simpa using hnull
  · rw [ht]
    exact .absent r hr hv
  · rw [ht]
    exact .tooLong fun hf => absurd (hf.names k hk) (by omega)

/-- A place whose path fits is reached when its parent is a directory. -/
theorem reach_fits {m : Entry} (hopen : s.Open m.view)
    (hbase : m.view [] = some .directory)
    (hno : ∀ l t, m.view l ≠ some (.link t)) {a : Location} {n : String}
    (hn : AllNames (a ++ [n])) (hf : s.Fits (a ++ [n]))
    (ha : m.view a = some .directory) (follow : Bool) (subject : Subject) :
    (s.holding m).reach follow (s.path.descend (a ++ [n])) subject
      = .ok (.inside (s.location ++ a) n) := by
  have hr := reach_of_noLinks (s := s) hopen hbase hno hn follow subject
  generalize (s.holding m).reach follow (s.path.descend (a ++ [n])) subject
    = result at hr
  cases hr with
  | inside fits parent => rfl
  | absent r hr parent => exact absurd ha parent
  | tooLong fits => exact absurd hf fits
  | null some =>
      have hc := hf.clear
      rw [Disk.hasNull_descend, some, Bool.or_true] at hc
      cases hc

end Footing

-- =============================================================== sites

/-- A footing whose path leads to it whatever directory stands there. -/
structure Site extends Footing where
  free : ∀ l, ¬ passes l

namespace Site

theorem isOpen (s : Site) (v : View) : s.Open v :=
  fun l hl => absurd hl (s.free l)

theorem leads_any (s : Site) (cs : List (String × Entry)) :
    walk (s.disk.root.insert s.location (.directory cs)) true linkLimit
      (s.disk.start s.path.anchor) s.path.parts = .ok s.place :=
  s.leads cs (s.isOpen _)

/-- An empty directory that is reached by a path is a site: no way to it
can go below it. -/
theorem exists_of_find {d : Disk} {p : Path} {l : Location}
    (h : d.find true p = .ok (l, .directory [])) :
    ∃ s : Site, s.disk = d ∧ s.path = p ∧ s.location = l
      ∧ s.holding (.directory []) = d := by
  obtain ⟨place, hr, rfl, hg⟩ := Disk.find_eq_ok.mp h
  obtain ⟨hclear, hshort, hw⟩ := Disk.reach_eq_ok.mp hr
  have hv : d.root.view place.location = some .directory :=
    Entry.view_eq_directory.mpr ⟨[], hg⟩
  refine ⟨{ disk := d, path := p, location := place.location,
            place := place, stands := hv, clear := hclear, short := hshort,
            place_location := rfl, passes := fun _ => False,
            leads := fun cs _ => ?_, free := fun _ => id },
    rfl, rfl, rfl, ?_⟩
  · exact walk_insert hg cs hw (by simp [hv])
  · simp [Footing.holding, Disk.put, Entry.insert_get? hg]

variable (s : Site)

/-- A view of the site with nothing out of the ordinary: no links, every
entry under a proper path that fits, and directories above it. -/
structure Sound (v : View) : Prop where
  base : v [] = some .directory
  noLinks : ∀ l t, v l ≠ some (.link t)
  fits : ∀ l, v l ≠ none → s.Fits l
  names : ∀ l, v l ≠ none → AllNames l
  above : ∀ a b, b ≠ [] → v (a ++ b) ≠ none → v a = some .directory

variable {s}

/-- A site that holds an empty directory is sound. -/
theorem sound_empty : s.Sound (Entry.directory []).view where
  base := rfl
  noLinks l t := by
    cases l <;> simp [Entry.view_cons, Children.get?, Entry.shape]
  fits l h := by
    cases l with
    | nil => exact s.fits_nil
    | cons n l => exact absurd rfl h
  names l h := by
    cases l with
    | nil => intro n hn; cases hn
    | cons n l => exact absurd rfl h
  above a b hb h := Entry.view_above hb h

theorem reach {m : Entry} (h : s.Sound m.view) {a : Location} {n : String}
    (hn : AllNames (a ++ [n])) (follow : Bool) (subject : Subject) :
    s.Reached m a n subject
      ((s.holding m).reach follow (s.path.descend (a ++ [n])) subject) :=
  Footing.reach_of_noLinks (s.isOpen _) h.base h.noLinks hn follow subject

end Site

end TreeReplica
