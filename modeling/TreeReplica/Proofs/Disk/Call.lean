/-
What the calls of a disk do below a site. Questions answer what the view
says; a change puts or takes away one entry of the tree that the site
holds. What stands in the site is under a path that fits, so a question
about it cannot fail; a change may still meet a name that the system
refuses, which `Yields` leaves open.
-/
import TreeReplica.Proofs.Disk.Change
import TreeReplica.Proofs.Disk.Touch

namespace TreeReplica

-- ==================================================== answers up to names

/-- The set of faults `bad` allows for every fault that the names of a
location could be blamed for. -/
structure Tolerates (bad : Fault → Prop) (l : Location) : Prop where
  tooLong : ∀ subject, bad (.system (.refused .nameTooLong subject))
  null : l.any Disk.hasNull = true → bad (.argument .nullCharacter)

theorem Tolerates.of_append {bad : Fault → Prop} {a b : Location}
    (h : Tolerates bad (a ++ b)) : Tolerates bad a where
  tooLong := h.tooLong
  null ha := h.null (by rw [List.any_append, ha, Bool.true_or])

theorem Tolerates.append {bad : Fault → Prop} {a b : Location}
    (h : Tolerates bad a) (hb : b.any Disk.hasNull = false) :
    Tolerates bad (a ++ b) where
  tooLong := h.tooLong
  null hab := h.null (by rwa [List.any_append, hb, Bool.or_false] at hab)

/-- The set of faults `bad` allows for the faults that the names of a
location of the site are to blame for: none, if the location fits. -/
structure Site.Admits (s : Site) (bad : Fault → Prop) (l : Location) :
    Prop where
  tooLong : ¬ s.Fits l →
    ∀ subject, bad (.system (.refused .nameTooLong subject))
  null : l.any Disk.hasNull = true → bad (.argument .nullCharacter)

theorem Tolerates.admits {bad : Fault → Prop} {l : Location}
    (h : Tolerates bad l) {s : Site} : s.Admits bad l where
  tooLong _ := h.tooLong
  null := h.null

theorem Footing.Fits.admits {s : Site} {l : Location} (h : s.Fits l) :
    s.Admits (fun _ => False) l where
  tooLong hf := absurd h hf
  null hs := by
    have hc := h.clear
    rw [Disk.hasNull_descend, hs, Bool.or_true] at hc
    cases hc

/-- The answer is `a`, or a fault of the set `bad`. -/
def Yields {α : Type} (bad : Fault → Prop) (x : Except Fault α) (a : α) :
    Prop :=
  x = .ok a ∨ ∃ f, x = .error f ∧ bad f

/-- Is a regular file in this place of a view? -/
def Shape.isFile : Option Shape → Bool
  | some (.file _ _) => true
  | _ => false

-- The kind of what stands at a location is in the view.

theorem Entry.any_isDirectory (m : Entry) (l : Location) :
    (m.get? l).any Entry.isDirectory
      = decide (m.view l = some .directory) := by
  unfold Entry.view
  cases m.get? l with
  | none => rfl
  | some x => cases x <;> rfl

theorem Entry.any_isFile (m : Entry) (l : Location) :
    (m.get? l).any Entry.isFile = Shape.isFile (m.view l) := by
  unfold Entry.view
  cases m.get? l with
  | none => rfl
  | some x => cases x <;> rfl

theorem Entry.any_true (m : Entry) (l : Location) :
    (m.get? l).any (fun _ => true) = (m.view l).isSome := by
  unfold Entry.view
  cases m.get? l <;> rfl

-- =================================================== a directory with all

/-- What is emptied is a directory where the path leads. -/
theorem Disk.emptyTree_ok {d d' : Disk} {p : Path}
    (h : d.emptyTree p = .ok d') :
    ∃ l n cs, d.reach false p (.path p) = .ok (.inside l n)
      ∧ d.root.get? (l ++ [n]) = some (.directory cs)
      ∧ d' = d.put (l ++ [n]) (.directory []) := by
  obtain ⟨x, hx, h⟩ := exists_of_bind h
  have hfind : ∃ l, d.find false p = .ok (l, x) := by
    unfold linkStatus at hx
    cases hf : d.find false p with
    | error f =>
        rw [hf] at hx
        cases hx
    | ok found =>
        rw [hf] at hx
        cases hx
        exact ⟨found.1, rfl⟩
  obtain ⟨l, hfind⟩ := hfind
  obtain ⟨place, hr, rfl, hget⟩ := Disk.find_eq_ok.mp hfind
  cases x with
  | link t =>
      obtain ⟨_, -, h⟩ := exists_of_bind h
      cases h
  | file c t => cases h
  | directory cs =>
      simp only [hr, bind, Except.bind] at h
      cases place with
      | itself l => cases h
      | inside l n =>
          cases h
          exact ⟨l, n, cs, hr, hget, rfl⟩

/-- An emptied directory has less in it. -/
theorem Entry.view_emptied {e : Entry} {l : Location}
    {cs : List (String × Entry)} (h : e.get? l = some (.directory cs)) :
    (e.insert l (.directory [])).view.Within e.view := by
  have hdir : e.view l = some .directory := Entry.view_eq_directory.mpr ⟨cs, h⟩
  intro m
  rw [Entry.view_insert_over (by simp [hdir])]
  split
  · next hm =>
      obtain ⟨b, rfl⟩ := hm
      rw [List.drop_left]
      cases b with
      | nil => exact Or.inr (by rw [List.append_nil, hdir]; rfl)
      | cons k b => exact Or.inl rfl
  · exact Or.inr rfl

/-- Once a directory is emptied the path to it leads to it still, and it
can be taken away, or the path led through what it held and is lost. -/
theorem Disk.removeDirectory_emptied {d : Disk} {p : Path} {l : Location}
    {n : String} {cs : List (String × Entry)}
    (hr : d.reach false p (.path p) = .ok (.inside l n))
    (hget : d.root.get? (l ++ [n]) = some (.directory cs)) :
    (d.put (l ++ [n]) (.directory [])).removeDirectory p
        = .ok (d.drop (l ++ [n]))
      ∨ ∃ e, (d.put (l ++ [n]) (.directory [])).removeDirectory p
        = .error (.system e) := by
  have hless : (d.put (l ++ [n]) (.directory [])).root.view.Within
      d.root.view := Entry.view_emptied hget
  unfold removeDirectory
  rcases reach_within (by rfl) hless hr with hsame | herr | ⟨place, hlost, hnone⟩
  · have hnow : (d.put (l ++ [n]) (.directory [])).root.get? (l ++ [n])
        = some (.directory []) := Entry.get?_insert hget _
    have hdrop : (d.put (l ++ [n]) (.directory [])).drop (l ++ [n])
        = d.drop (l ++ [n]) := by
      simp only [drop, put, Entry.erase_insert hget (List.concat_ne_nil n l)]
    simp only [hsame, bind, Except.bind, hnow, hdrop]
    exact Or.inl rfl
  · rw [herr]
    exact Or.inr ⟨_, rfl⟩
  · rw [hlost]
    simp only [bind, Except.bind, refuse]
    right
    cases place with
    | itself m =>
        dsimp only
        split
        · exact ⟨_, rfl⟩
        · split <;> exact ⟨_, rfl⟩
    | inside m k =>
        rw [Place.location] at hnone
        dsimp only
        rw [hnone]
        exact ⟨_, rfl⟩

/-- How a directory is taken away with all that it holds, on any disk: it
is emptied first, and may be left empty. -/
theorem removeTree_cases (p : Path) (h : Host) :
    (∃ f, h.disk.emptyTree p = .error f
      ∧ Work.removeTree p h = .error f h)
    ∨ ∃ l n cs, h.disk.reach false p (.path p) = .ok (.inside l n)
      ∧ h.disk.root.get? (l ++ [n]) = some (.directory cs)
      ∧ (Work.removeTree p h
          = .ok () { h with disk := h.disk.drop (l ++ [n]) }
        ∨ ∃ e, Work.removeTree p h = .error (.system e)
          { h with disk := h.disk.put (l ++ [n]) (.directory []) }) := by
  have hwork : Work.removeTree p h
      = match h.disk.emptyTree p with
        | .error f => .error f h
        | .ok d => Work.act (·.removeDirectory p) { h with disk := d } := by
    unfold Work.removeTree
    simp only [bind, EStateM.bind, Work.act]
    cases h.disk.emptyTree p <;> rfl
  rw [hwork]
  cases hempty : h.disk.emptyTree p with
  | error f => exact Or.inl ⟨f, rfl, rfl⟩
  | ok d =>
      obtain ⟨l, n, cs, hr, hget, rfl⟩ := Disk.emptyTree_ok hempty
      refine Or.inr ⟨l, n, cs, hr, hget, ?_⟩
      simp only [Work.act]
      rcases Disk.removeDirectory_emptied hr hget with hgone | ⟨e, hleft⟩
      · rw [hgone]
        exact Or.inl rfl
      · rw [hleft]
        exact Or.inr ⟨e, rfl⟩

namespace Footing

variable {s : Footing} {m : Entry}

-- ======================================================= at a footing

/-- A footing itself is found, links followed. -/
theorem find_self (hopen : s.Open m.view)
    (hbase : m.view [] = some .directory) :
    (s.holding m).find true s.path = .ok (s.location, m) := by
  obtain ⟨cs, hcs⟩ := Entry.view_eq_directory.mp hbase
  rw [Entry.get?_nil, Option.some.injEq] at hcs
  subst hcs
  have hget := s.holding_get? (.directory cs) []
  rw [List.append_nil, Entry.get?_nil] at hget
  have hwalk : walk (s.holding (.directory cs)).root true linkLimit
      ((s.holding (.directory cs)).start s.path.anchor) s.path.parts
        = .ok s.place := s.leads cs hopen
  have hshort : ¬ pathLimit ≤ s.path.text.utf8ByteSize := by
    have := s.short
    omega
  unfold Disk.find Disk.reach
  rw [s.clear, if_neg (by simp), if_neg hshort, hwalk]
  simp only [bind, Except.bind]
  rw [s.place_location, hget]
  rfl

/-- A footing itself is a directory. -/
theorem isDirectory_self (hopen : s.Open m.view)
    (hbase : m.view [] = some .directory) :
    (s.holding m).isDirectory s.path = .ok true := by
  obtain ⟨cs, hcs⟩ := Entry.view_eq_directory.mp hbase
  rw [Entry.get?_nil, Option.some.injEq] at hcs
  rw [Disk.isDirectory, Disk.status, find_self hopen hbase, hcs]
  rfl

theorem get?_inside (a : Location) (n : String) :
    (s.holding m).root.get? (s.location ++ a ++ [n]) = m.get? (a ++ [n]) := by
  rw [List.append_assoc, s.holding_get?]

theorem put_inside (a : Location) (n : String) (x : Entry) :
    (s.holding m).put (s.location ++ a ++ [n]) x
      = s.holding (m.insert (a ++ [n]) x) := by
  rw [List.append_assoc, s.holding_put]

theorem drop_inside (a : Location) (n : String) :
    (s.holding m).drop (s.location ++ a ++ [n])
      = s.holding (m.erase (a ++ [n])) := by
  rw [List.append_assoc, s.holding_drop _ (by simp)]

-- What a call does at a name that it reaches.

section Inside

variable {p q : Path} {a b : Location} {n k : String}

theorem write_of_reach
    (hr : (s.holding m).reach true p (.path p)
      = .ok (.inside (s.location ++ a) n)) (c : Bytes) :
    (s.holding m).write p c
      = if m.view (a ++ [n]) = some .directory then
          Disk.refuse p .isDirectory
        else .ok (s.holding (m.insert (a ++ [n]) (.file c .written))) := by
  unfold Disk.write
  rw [hr]
  simp only [bind, Except.bind]
  rw [get?_inside, put_inside]
  split
  · next cs hx =>
      rw [if_pos (Entry.view_eq_directory.mpr ⟨cs, hx⟩)]
  · next hno =>
      rw [if_neg fun hd => ?_]
      · rfl
      · obtain ⟨cs, hcs⟩ := Entry.view_eq_directory.mp hd
        exact hno cs hcs

theorem makeDirectory_of_reach
    (hr : (s.holding m).reach false p (.path p)
      = .ok (.inside (s.location ++ a) n)) :
    (s.holding m).makeDirectory p
      = if m.view (a ++ [n]) = none then
          .ok (s.holding (m.insert (a ++ [n]) (.directory [])))
        else Disk.refuse p .alreadyExists := by
  unfold Disk.makeDirectory
  rw [hr]
  simp only [bind, Except.bind]
  rw [get?_inside, put_inside]
  cases hx : m.get? (a ++ [n]) with
  | none =>
      rw [if_pos (Entry.view_eq_none.mpr hx)]
      rfl
  | some x =>
      rw [if_neg fun hno => by simp [Entry.view_eq_none.mp hno] at hx]

theorem removeDirectory_of_reach
    (hr : (s.holding m).reach false p (.path p)
      = .ok (.inside (s.location ++ a) n)) :
    (s.holding m).removeDirectory p
      = match m.get? (a ++ [n]) with
        | none => Disk.refuse p .noEntry
        | some (.directory []) => .ok (s.holding (m.erase (a ++ [n])))
        | some (.directory _) => Disk.refuse p .notEmpty
        | some _ => Disk.refuse p .notDirectory := by
  unfold Disk.removeDirectory
  rw [hr]
  simp only [bind, Except.bind]
  rw [get?_inside, drop_inside]
  rfl

theorem removeFile_of_reach
    (hr : (s.holding m).reach false p (.path p)
      = .ok (.inside (s.location ++ a) n)) :
    (s.holding m).removeFile p
      = match m.view (a ++ [n]) with
        | none => Disk.refuse p .noEntry
        | some .directory => Disk.refuse p .isDirectory
        | some _ => .ok (s.holding (m.erase (a ++ [n]))) := by
  unfold Disk.removeFile
  rw [hr]
  simp only [bind, Except.bind]
  rw [get?_inside, drop_inside]
  unfold Entry.view
  cases m.get? (a ++ [n]) with
  | none => rfl
  | some x => cases x <;> rfl

/-- Moving a file to a free place in a directory: the two places are
apart, since a file has nothing below it and nothing is below a free
place. -/
theorem move_of_reach (h : m.view.Linkless)
    (hnull : Disk.hasNull q.text = false)
    (hr : (s.holding m).reach false p (.move p q)
      = .ok (.inside (s.location ++ a) n))
    (hr' : (s.holding m).reach false q (.move p q)
      = .ok (.inside (s.location ++ b) k)) {c : Bytes} {t : Stamp}
    (hx : m.view (a ++ [n]) = some (.file c t))
    (hb : m.view b = some .directory) (hfree : m.view (b ++ [k]) = none) :
    (s.holding m).move p q
      = .ok (s.holding ((m.erase (a ++ [n])).insert (b ++ [k])
          (.file c t))) := by
  unfold Disk.move
  rw [hr, hr']
  have hget : (s.holding m).root.get? (s.location ++ a ++ [n])
      = some (.file c t) := by
    rw [get?_inside, Entry.view_eq_file.mp hx]
  have hgetb : (s.holding m).root.get? (s.location ++ b ++ [k]) = none := by
    rw [get?_inside, Entry.view_eq_none.mp hfree]
  have hne : s.location ++ a ++ [n] ≠ s.location ++ b ++ [k] := by
    intro heq
    rw [heq, hgetb] at hget
    cases hget
  have hab : ¬ (s.location ++ a ++ [n]).isPrefixOf
      (s.location ++ b ++ [k]) = true := by
    intro hp
    rw [List.isPrefixOf_iff_prefix, List.append_assoc, List.append_assoc,
      List.prefix_append_right_inj] at hp
    rcases List.prefix_concat_iff.mp hp with heq | hp
    · rw [← heq, hx] at hfree
      cases hfree
    · have hbelow : m.view b = none := h.below (by simp [hx]) hp fun heq => by
        rw [heq, hx] at hb
        cases hb
      rw [hb] at hbelow
      cases hbelow
  have hba : ¬ (s.location ++ b ++ [k]).isPrefixOf
      (s.location ++ a ++ [n]) = true := by
    intro hp
    rw [List.isPrefixOf_iff_prefix, List.append_assoc, List.append_assoc,
      List.prefix_append_right_inj] at hp
    have hbelow : m.view (a ++ [n]) = none :=
      h.below (by simp [hfree]) hp fun heq => by
        rw [heq, hfree] at hx
        cases hx
    rw [hx] at hbelow
    cases hbelow
  simp only [hnull, bind, Except.bind, Place.location, hget, hgetb, hne,
    hab, hba, Disk.displace, if_false]
  rw [drop_inside, put_inside]
  rfl

end Inside

end Footing

namespace Site

open Footing

variable {s : Site} {m : Entry} {bad : Fault → Prop}

-- ============================================================== finding

/-- What stands in the site is reached without fail. -/
theorem reach_of_some (h : s.Sound m.view) {a : Location} {n : String}
    (hx : m.view (a ++ [n]) ≠ none) (follow : Bool) (subject : Subject) :
    (s.holding m).reach follow (s.path.descend (a ++ [n])) subject
      = .ok (.inside (s.location ++ a) n) :=
  Footing.reach_fits (s.isOpen _) h.base h.noLinks (h.names _ hx) (h.fits _ hx)
    (h.above a [n] (by simp) hx) follow subject

/-- What stands in a sound site is found by its path. -/
theorem find_of_some (h : s.Sound m.view) {a : Location} {n : String}
    {x : Entry} (hx : m.get? (a ++ [n]) = some x) (follow : Bool) :
    (s.holding m).find follow (s.path.descend (a ++ [n]))
      = .ok (s.location ++ (a ++ [n]), x) := by
  have hv : m.view (a ++ [n]) ≠ none := by
    intro hnone
    rw [Entry.view_eq_none, hx] at hnone
    cases hnone
  refine Disk.find_eq_ok.mpr ⟨_, reach_of_some h hv follow _, ?_, ?_⟩
  · simp [Place.location]
  · rw [s.holding_get?, hx]

/-- The faults that say that nothing can be found at a path. -/
inductive Missing (s : Site) (l : Location) : Fault → Prop
  | absent (reason : Errno) (subject : Subject)
      (tells : Disk.saysAbsent reason = true) :
      Missing s l (.system (.refused reason subject))
  | tooLong (fits : ¬ s.Fits l) (subject : Subject) :
      Missing s l (.system (.refused .nameTooLong subject))
  | null (some : l.any Disk.hasNull = true) :
      Missing s l (.argument .nullCharacter)

/-- Where nothing stands nothing is found. -/
theorem find_of_none (h : s.Sound m.view) {a : Location} {n : String}
    (hn : AllNames (a ++ [n])) (hx : m.get? (a ++ [n]) = none)
    (follow : Bool) :
    ∃ f, (s.holding m).find follow (s.path.descend (a ++ [n])) = .error f
      ∧ Missing s (a ++ [n]) f := by
  have hr := reach h hn follow (.path (s.path.descend (a ++ [n])))
  unfold Disk.find
  generalize (s.holding m).reach follow (s.path.descend (a ++ [n]))
    (.path (s.path.descend (a ++ [n]))) = result at hr
  cases hr with
  | inside fits parent =>
      simp only [bind, Except.bind, Place.location, List.append_assoc]
      rw [s.holding_get?, hx]
      exact ⟨_, rfl, .absent _ _ rfl⟩
  | absent r hr parent =>
      refine ⟨_, rfl, .absent r _ ?_⟩
      rcases hr with rfl | rfl <;> rfl
  | tooLong fits => exact ⟨_, rfl, .tooLong fits _⟩
  | null some => exact ⟨_, rfl, .null some⟩

/-- The site itself is found, links followed. -/
theorem find_self (hbase : m.view [] = some .directory) :
    (s.holding m).find true s.path = .ok (s.location, m) :=
  Footing.find_self (s.isOpen _) hbase

/-- The site itself is a directory. -/
theorem isDirectory_self (hbase : m.view [] = some .directory) :
    (s.holding m).isDirectory s.path = .ok true :=
  Footing.isDirectory_self (s.isOpen _) hbase

/-- The faults of a missing entry are answers, or tolerated. -/
private theorem holds_missing {l : Location} {f : Fault}
    (hf : Missing s l f) (hb : s.Admits bad l) (kind : Entry → Bool) :
    Yields bad (Disk.holds kind (.error f)) false := by
  cases hf with
  | absent r subject tells =>
      left
      simp [Disk.holds, tells]
  | tooLong fits subject => exact Or.inr ⟨_, rfl, hb.tooLong fits subject⟩
  | null some => exact Or.inl rfl

-- ============================================================ questions

/-- A question about a location that is answered by the kind of entry
there. -/
private theorem holds_status (h : s.Sound m.view) {l : Location}
    (hn : AllNames l) (hb : s.Admits bad l) (kind : Entry → Bool) :
    Yields bad (Disk.holds kind ((s.holding m).status (s.path.descend l)))
      ((m.get? l).any kind) := by
  rcases List.eq_nil_or_concat l with rfl | ⟨a, n, rfl⟩
  · left
    rw [Path.descend_nil, Disk.status, find_self h.base]
    simp [Except.map, Disk.holds]
  · rw [List.concat_eq_append] at *
    unfold Disk.status
    cases hx : m.get? (a ++ [n]) with
    | some x =>
        left
        rw [find_of_some h hx]
        rfl
    | none =>
        obtain ⟨f, hf, hmiss⟩ := find_of_none h hn hx true
        rw [hf]
        exact holds_missing hmiss hb kind

theorem isDirectory_yields (h : s.Sound m.view) {l : Location}
    (hn : AllNames l) (hb : s.Admits bad l) :
    Yields bad ((s.holding m).isDirectory (s.path.descend l))
      (decide (m.view l = some .directory)) := by
  rw [← Entry.any_isDirectory]
  exact holds_status h hn hb Entry.isDirectory

theorem isFile_yields (h : s.Sound m.view) {l : Location}
    (hn : AllNames l) (hb : s.Admits bad l) :
    Yields bad ((s.holding m).isFile (s.path.descend l))
      (Shape.isFile (m.view l)) := by
  rw [← Entry.any_isFile]
  exact holds_status h hn hb Entry.isFile

theorem reaches_yields (h : s.Sound m.view) {l : Location}
    (hn : AllNames l) (hb : s.Admits bad l) :
    Yields bad ((s.holding m).reaches (s.path.descend l))
      (m.view l).isSome := by
  rw [← Entry.any_true]
  exact holds_status h hn hb fun _ => true

/-- Whether a location is occupied is answered by the view alone. -/
theorem occupied_eq (h : s.Sound m.view) {l : Location} (hl : l ≠ [])
    (hn : AllNames l) :
    (s.holding m).occupied (s.path.descend l) = (m.view l).isSome := by
  rcases List.eq_nil_or_concat l with rfl | ⟨a, n, rfl⟩
  · exact absurd rfl hl
  · rw [List.concat_eq_append] at *
    unfold Disk.occupied Disk.linkStatus Entry.view
    cases hx : m.get? (a ++ [n]) with
    | some x =>
        rw [find_of_some h hx]
        rfl
    | none =>
        obtain ⟨f, hf, -⟩ := find_of_none h hn hx false
        rw [hf]
        rfl

/-- The status of what stands at a location. -/
theorem status_eq (h : s.Sound m.view) {l : Location} {x : Entry}
    (hx : m.get? l = some x) :
    (s.holding m).status (s.path.descend l) = .ok x := by
  rcases List.eq_nil_or_concat l with rfl | ⟨a, n, rfl⟩
  · rw [Entry.get?_nil, Option.some.injEq] at hx
    rw [Path.descend_nil, Disk.status, find_self h.base, hx]
    rfl
  · rw [List.concat_eq_append] at *
    rw [Disk.status, find_of_some h hx]
    rfl

theorem size_eq (h : s.Sound m.view) {l : Location} {c : Bytes} {t : Stamp}
    (hx : m.view l = some (.file c t)) :
    (s.holding m).size (s.path.descend l) = .ok c.length := by
  rw [Disk.size, status_eq h (Entry.view_eq_file.mp hx)]
  rfl

theorem list_eq (h : s.Sound m.view) {l : Location}
    {cs : List (String × Entry)} (hx : m.get? l = some (.directory cs)) :
    (s.holding m).list (s.path.descend l) = .ok (cs.map (·.1)) := by
  rw [Disk.list, status_eq h hx]
  rfl

-- ============================================================== changes

/-- A place in a directory of the site can be reached, up to its names. -/
theorem reach_inside (h : s.Sound m.view) {a : Location} {n : String}
    (hn : AllNames (a ++ [n])) (ha : m.view a = some .directory)
    (hb : s.Admits bad (a ++ [n])) (follow : Bool) (subject : Subject) :
    (s.Fits (a ++ [n])
      ∧ (s.holding m).reach follow (s.path.descend (a ++ [n])) subject
        = .ok (.inside (s.location ++ a) n))
    ∨ ∃ f, (s.holding m).reach follow (s.path.descend (a ++ [n])) subject
        = .error f ∧ bad f := by
  have hr := reach h hn follow subject
  generalize (s.holding m).reach follow (s.path.descend (a ++ [n])) subject
    = result at hr
  cases hr with
  | inside fits parent => exact Or.inl ⟨fits, rfl⟩
  | absent r hr parent => exact absurd ha parent
  | tooLong fits => exact Or.inr ⟨_, rfl, hb.tooLong fits _⟩
  | null some => exact Or.inr ⟨_, rfl, hb.null some⟩

/-- Writing a file, where no directory stands. -/
theorem write_yields (h : s.Sound m.view) {a : Location} {n : String}
    (hn : AllNames (a ++ [n])) (ha : m.view a = some .directory)
    (hd : m.view (a ++ [n]) ≠ some .directory)
    (hb : s.Admits bad (a ++ [n])) (c : Bytes) :
    (s.Fits (a ++ [n])
      ∧ (s.holding m).write (s.path.descend (a ++ [n])) c
        = .ok (s.holding (m.insert (a ++ [n]) (.file c .written))))
    ∨ ∃ f, (s.holding m).write (s.path.descend (a ++ [n])) c = .error f
      ∧ bad f := by
  rcases reach_inside h hn ha hb true (.path (s.path.descend (a ++ [n])))
    with ⟨fits, hr⟩ | ⟨f, hr, hf⟩
  · rw [write_of_reach hr, if_neg hd]
    exact Or.inl ⟨fits, rfl⟩
  · unfold Disk.write
    rw [hr]
    exact Or.inr ⟨f, rfl, hf⟩

/-- Dating a file that is there. -/
theorem setTime_eq (h : s.Sound m.view) {a : Location} {n : String}
    {c : Bytes} {t : Stamp} (hx : m.view (a ++ [n]) = some (.file c t))
    (millis : Int) :
    (s.holding m).setTime (s.path.descend (a ++ [n])) millis
      = if Disk.representable millis then
          .ok (s.holding (m.insert (a ++ [n]) (.file c (.dated millis))))
        else .error (.argument .timeOutOfRange) := by
  unfold Disk.setTime
  cases hr : Disk.representable millis with
  | false => rfl
  | true =>
      have hreach := reach_of_some h (a := a) (n := n) (by simp [hx]) true
        .unnamed
      simp only [Bool.not_true, if_true, hreach, bind, Except.bind,
        Place.location, Bool.false_eq_true, if_false]
      rw [get?_inside, Entry.view_eq_file.mp hx]
      simp only
      rw [put_inside]
      rfl

/-- Making a directory where nothing stands. -/
theorem makeDirectory_yields (h : s.Sound m.view) {a : Location}
    {n : String} (hn : AllNames (a ++ [n])) (ha : m.view a = some .directory)
    (hd : m.view (a ++ [n]) = none) (hb : s.Admits bad (a ++ [n])) :
    (s.Fits (a ++ [n])
      ∧ (s.holding m).makeDirectory (s.path.descend (a ++ [n]))
        = .ok (s.holding (m.insert (a ++ [n]) (.directory []))))
    ∨ ∃ f, (s.holding m).makeDirectory (s.path.descend (a ++ [n]))
        = .error f ∧ bad f := by
  rcases reach_inside h hn ha hb false (.path (s.path.descend (a ++ [n])))
    with ⟨fits, hr⟩ | ⟨f, hr, hf⟩
  · rw [makeDirectory_of_reach hr, if_pos hd]
    exact Or.inl ⟨fits, rfl⟩
  · unfold Disk.makeDirectory
    rw [hr]
    exact Or.inr ⟨f, rfl, hf⟩

/-- No directory is made where something stands. -/
theorem makeDirectory_of_some (h : s.Sound m.view) {a : Location}
    {n : String} (hx : m.view (a ++ [n]) ≠ none) :
    (s.holding m).makeDirectory (s.path.descend (a ++ [n]))
      = Disk.refuse (s.path.descend (a ++ [n])) .alreadyExists := by
  rw [makeDirectory_of_reach (reach_of_some h hx _ _), if_neg hx]

/-- Taking an empty directory away. -/
theorem removeDirectory_eq (h : s.Sound m.view) {a : Location} {n : String}
    (hx : m.get? (a ++ [n]) = some (.directory [])) :
    (s.holding m).removeDirectory (s.path.descend (a ++ [n]))
      = .ok (s.holding (m.erase (a ++ [n]))) := by
  have hv : m.view (a ++ [n]) ≠ none := by
    rw [Entry.view_eq_directory.mpr ⟨[], hx⟩]
    simp
  rw [removeDirectory_of_reach (reach_of_some h hv _ _), hx]

/-- Taking a file away. -/
theorem removeFile_eq (h : s.Sound m.view) {a : Location} {n : String}
    {c : Bytes} {t : Stamp} (hx : m.view (a ++ [n]) = some (.file c t)) :
    (s.holding m).removeFile (s.path.descend (a ++ [n]))
      = .ok (s.holding (m.erase (a ++ [n]))) := by
  rw [removeFile_of_reach (reach_of_some h (by simp [hx]) _ _), hx]

/-- Taking away the file in a place of a directory, if there is one. -/
theorem removeFileIfAny_yields (h : s.Sound m.view) {a : Location}
    {n : String} (hn : AllNames (a ++ [n])) (ha : m.view a = some .directory)
    (hd : m.view (a ++ [n]) ≠ some .directory)
    (hb : s.Admits bad (a ++ [n])) :
    Yields bad ((s.holding m).removeFileIfAny (s.path.descend (a ++ [n])))
      (s.holding (m.erase (a ++ [n]))) := by
  unfold Disk.removeFileIfAny
  cases hx : m.view (a ++ [n]) with
  | some x =>
      cases x with
      | directory => exact absurd hx hd
      | link t => exact absurd hx (h.noLinks _ t)
      | file c t =>
          left
          rw [removeFile_eq h hx]
  | none =>
      -- where nothing stands there is nothing to erase
      have hsame : m.erase (a ++ [n]) = m := by
        rw [Entry.erase_of_none (Entry.view_eq_none.mp hx)]
      rw [hsame]
      rcases reach_inside h hn ha hb false (.path (s.path.descend (a ++ [n])))
        with ⟨fits, hr⟩ | ⟨f, hr, hf⟩
      · left
        rw [removeFile_of_reach hr, hx]
        rfl
      · unfold Disk.removeFile
        rw [hr]
        simp only [bind, Except.bind]
        split
        · exact Or.inl rfl
        · exact Or.inr ⟨f, rfl, hf⟩

/-- Taking away all below a directory. -/
theorem emptyTree_eq (h : s.Sound m.view) {a : Location} {n : String}
    (hx : m.view (a ++ [n]) = some .directory) :
    (s.holding m).emptyTree (s.path.descend (a ++ [n]))
      = .ok (s.holding (m.insert (a ++ [n]) (.directory []))) := by
  obtain ⟨cs, hcs⟩ := Entry.view_eq_directory.mp hx
  unfold Disk.emptyTree Disk.linkStatus
  rw [find_of_some h hcs, reach_of_some h (by simp [hx])]
  simp only [Except.map, bind, Except.bind]
  rw [put_inside]
  rfl

/-- Making a directory unless one is there. -/
theorem ensureDirectory_yields (h : s.Sound m.view) {a : Location}
    {n : String} (hn : AllNames (a ++ [n])) (ha : m.view a = some .directory)
    (hd : m.view (a ++ [n]) = none ∨ m.view (a ++ [n]) = some .directory)
    (hb : s.Admits bad (a ++ [n])) :
    ((s.holding m).ensureDirectory (s.path.descend (a ++ [n]))
        = .ok (s.holding m) ∧ m.view (a ++ [n]) = some .directory)
    ∨ (s.Fits (a ++ [n]) ∧ m.view (a ++ [n]) = none
      ∧ (s.holding m).ensureDirectory (s.path.descend (a ++ [n]))
        = .ok (s.holding (m.insert (a ++ [n]) (.directory []))))
    ∨ ∃ f, (s.holding m).ensureDirectory (s.path.descend (a ++ [n]))
        = .error f ∧ bad f := by
  unfold Disk.ensureDirectory
  rcases hd with hd | hd
  · rcases makeDirectory_yields h hn ha hd hb with ⟨fits, hr⟩ | ⟨f, hr, hf⟩
    · right; left
      refine ⟨fits, hd, ?_⟩
      rw [hr]
    · right; right
      rw [hr]
      cases f with
      | argument e => exact ⟨_, rfl, hf⟩
      | system e =>
          have hy := isDirectory_yields h hn hb
          rw [hd] at hy
          simp only
          rcases hy with hy | ⟨g, hy, hg⟩
          · rw [hy]
            exact ⟨_, rfl, hf⟩
          · rw [hy]
            exact ⟨_, rfl, hg⟩
  · left
    refine ⟨?_, hd⟩
    rw [makeDirectory_of_some h (by simp [hd])]
    obtain ⟨cs, hcs⟩ := Entry.view_eq_directory.mp hd
    simp only [Disk.refuse, Disk.isDirectory, status_eq h hcs]
    rfl

/-- Moving a file to a free place in a directory that does not go through
the file. -/
theorem move_yields (h : s.Sound m.view) {a b : Location} {n k : String}
    {c : Bytes} {t : Stamp} (hx : m.view (a ++ [n]) = some (.file c t))
    (hn : AllNames (b ++ [k])) (hb : m.view b = some .directory)
    (hfree : m.view (b ++ [k]) = none) (ht : s.Admits bad (b ++ [k])) :
    (s.Fits (b ++ [k])
      ∧ (s.holding m).move (s.path.descend (a ++ [n]))
          (s.path.descend (b ++ [k]))
        = .ok (s.holding ((m.erase (a ++ [n])).insert (b ++ [k])
            (.file c t))))
    ∨ ∃ f, (s.holding m).move (s.path.descend (a ++ [n]))
          (s.path.descend (b ++ [k])) = .error f ∧ bad f := by
  by_cases hnull : Disk.hasNull (s.path.descend (b ++ [k])).text = true
  · have hsome : (b ++ [k]).any Disk.hasNull = true := by
      rwa [Disk.hasNull_descend, s.clear, Bool.false_or] at hnull
    right
    unfold Disk.move
    simp only [hnull, if_true]
    exact ⟨_, rfl, ht.null hsome⟩
  have hr := reach_of_some h (a := a) (n := n) (by simp [hx]) false
    (.move (s.path.descend (a ++ [n])) (s.path.descend (b ++ [k])))
  rcases reach_inside h hn hb ht false
      (.move (s.path.descend (a ++ [n])) (s.path.descend (b ++ [k])))
    with ⟨fits, hr'⟩ | ⟨f, hr', hf⟩
  · exact Or.inl ⟨fits, move_of_reach h.linkless (by simpa using hnull) hr
      hr' hx hb hfree⟩
  · right
    unfold Disk.move
    rw [hr, hr']
    simp only [hnull]
    exact ⟨f, rfl, hf⟩

end Site

end TreeReplica
