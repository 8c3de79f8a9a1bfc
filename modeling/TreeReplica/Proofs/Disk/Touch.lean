/-
What a successful call leaves behind, on any disk. A call about one path
leaves the disk alone or changes the one entry that its path leads to
(`Touched`), and a move takes an entry from one such place to another
(`Moved`). There is one lemma for each call, and nothing later looks into
a call again to see what it may have changed.
-/
import TreeReplica.Disk.Work

namespace TreeReplica

/-- An entry as calls make it: a file, or a directory with nothing in
it. -/
inductive Entry.Bare : Entry → Prop
  | file (content : Bytes) (stamp : Stamp) : Entry.Bare (.file content stamp)
  | directory : Entry.Bare (.directory [])

/-- Calls that follow each other have all gone well if the last has. -/
theorem exists_of_bind {ε α β : Type} {x : Except ε α}
    {f : α → Except ε β} {b : β} (h : (x >>= f) = .ok b) :
    ∃ a, x = .ok a ∧ f a = .ok b := by
  cases x with
  | error e => cases h
  | ok a => exact ⟨a, rfl, h⟩

namespace Disk

variable {d d' : Disk} {p q : Path}

/-- The disk as it was, or with one entry put or taken away where the
path leads. -/
inductive Touched (d : Disk) (p : Path) : Disk → Prop
  | same : Touched d p d
  | put {follow : Bool} {subject : Subject} {place : Place} {x : Entry}
      (reached : d.reach follow p subject = .ok place) (bare : x.Bare) :
      Touched d p (d.put place.location x)
  | drop {subject : Subject} {place : Place}
      (reached : d.reach false p subject = .ok place) :
      Touched d p (d.drop place.location)

/-- The disk without the entry that has the name where the path leads. -/
inductive Dropped (d : Disk) (p : Path) : Disk → Prop
  | inside {l : Location} {n : String}
      (reached : d.reach false p (.path p) = .ok (.inside l n)) :
      Dropped d p (d.drop (l ++ [n]))

theorem Dropped.touched (h : d.Dropped p d') : d.Touched p d' := by
  cases h with
  | inside reached => exact .drop reached

/-- The disk as it was, or with an entry taken from where one path leads
to where the other leads. Neither place is above the other. -/
inductive Moved (d : Disk) (p q : Path) : Disk → Prop
  | same : Moved d p q d
  | moved {subject : Subject} {a b : Place} {x : Entry}
      (source : d.reach false p subject = .ok a)
      (target : d.reach false q subject = .ok b)
      (there : d.root.get? a.location = some x)
      (apart : ¬ a.location <+: b.location)
      (apart' : ¬ b.location <+: a.location) :
      Moved d p q ((d.drop a.location).put b.location x)

-- ========================================================== single calls

theorem makeDirectory_touched (h : d.makeDirectory p = .ok d') :
    d.Touched p d' := by
  obtain ⟨place, hr, h⟩ := exists_of_bind h
  cases place with
  | itself l => cases h
  | inside l n =>
      simp only at h
      split at h
      · cases h
      · cases h
        exact .put hr .directory

/-- A directory that is taken away is empty, and goes by its own name. -/
theorem exists_of_removeDirectory (h : d.removeDirectory p = .ok d') :
    ∃ l n, d.reach false p (.path p) = .ok (.inside l n)
      ∧ d.root.get? (l ++ [n]) = some (.directory [])
      ∧ d' = d.drop (l ++ [n]) := by
  obtain ⟨place, hr, h⟩ := exists_of_bind h
  cases place with
  | itself l =>
      simp only at h
      split at h
      · cases h
      · split at h <;> cases h
  | inside l n =>
      simp only at h
      split at h
      · cases h
      · next hget =>
          cases h
          exact ⟨l, n, hr, hget, rfl⟩
      · cases h
      · cases h

/-- What is taken away as a file is there, and no directory. -/
theorem exists_of_removeFile (h : d.removeFile p = .ok d') :
    ∃ l n x, d.reach false p (.path p) = .ok (.inside l n)
      ∧ d.root.get? (l ++ [n]) = some x ∧ (∀ cs, x ≠ .directory cs)
      ∧ d' = d.drop (l ++ [n]) := by
  obtain ⟨place, hr, h⟩ := exists_of_bind h
  cases place with
  | itself l => cases h
  | inside l n =>
      simp only at h
      split at h
      · cases h
      · cases h
      next x hother hget =>
      cases h
      exact ⟨l, n, x, hr, hget, fun cs hx => hother cs (hx ▸ rfl), rfl⟩

theorem removeDirectory_dropped (h : d.removeDirectory p = .ok d') :
    d.Dropped p d' := by
  obtain ⟨l, n, hr, -, rfl⟩ := exists_of_removeDirectory h
  exact .inside hr

theorem removeFile_dropped (h : d.removeFile p = .ok d') :
    d.Dropped p d' := by
  obtain ⟨l, n, x, hr, -, -, rfl⟩ := exists_of_removeFile h
  exact .inside hr

theorem emptyTree_touched (h : d.emptyTree p = .ok d') :
    d.Touched p d' := by
  obtain ⟨x, -, h⟩ := exists_of_bind h
  cases x with
  | link t =>
      obtain ⟨_, -, h⟩ := exists_of_bind h
      cases h
  | file c t => cases h
  | directory cs =>
      obtain ⟨place, hr, h⟩ := exists_of_bind h
      cases place with
      | itself l => cases h
      | inside l n =>
          cases h
          exact .put hr .directory

theorem removeDirectory_touched (h : d.removeDirectory p = .ok d') :
    d.Touched p d' :=
  (removeDirectory_dropped h).touched

theorem removeFile_touched (h : d.removeFile p = .ok d') :
    d.Touched p d' :=
  (removeFile_dropped h).touched

theorem write_touched {content : Bytes} (h : d.write p content = .ok d') :
    d.Touched p d' := by
  obtain ⟨place, hr, h⟩ := exists_of_bind h
  cases place with
  | itself l => cases h
  | inside l n =>
      simp only at h
      split at h
      · cases h
      · cases h
        exact .put hr (.file ..)

theorem setTime_touched {millis : Int} (h : d.setTime p millis = .ok d') :
    d.Touched p d' := by
  unfold setTime at h
  simp only at h
  split at h
  · cases h
  obtain ⟨place, hr, h⟩ := exists_of_bind h
  split at h
  · cases h
  · cases h
    exact .put hr (.file ..)
  · cases h
    exact .same

theorem move_moved (h : d.move p q = .ok d') : d.Moved p q d' := by
  unfold move at h
  simp only at h
  split at h
  · cases h
  obtain ⟨a, ha, h⟩ := exists_of_bind h
  obtain ⟨b, hb, h⟩ := exists_of_bind h
  split at h
  · cases h
  · cases h
  split at h
  · cases h
  next x hx =>
  split at h
  · cases h
    exact .same
  split at h
  · cases h
  next hab =>
  split at h
  · cases h
  next hba =>
  split at h
  · cases h
  cases h
  rw [List.isPrefixOf_iff_prefix] at hab hba
  exact .moved ha hb hx hab hba

theorem makeStaging_touched {parent staging : Path} {draw : Nat}
    (h : d.makeStaging parent draw = .ok (staging, d')) :
    (∃ n, staging = parent.child (stagingName n)) ∧ d.Touched staging d' := by
  obtain ⟨_, hm, h⟩ := exists_of_bind h
  cases h
  exact ⟨⟨_, rfl⟩, makeDirectory_touched hm⟩

-- ===================================================== calls upon calls

theorem removeFileIfAny_touched (h : d.removeFileIfAny p = .ok d') :
    d.Touched p d' := by
  unfold removeFileIfAny at h
  split at h
  · cases h
    exact .same
  · exact removeFile_touched h

theorem ensureDirectory_touched (h : d.ensureDirectory p = .ok d') :
    d.Touched p d' := by
  unfold ensureDirectory at h
  split at h
  · split at h
    · cases h
      exact .same
    · cases h
    · cases h
  · exact makeDirectory_touched h

end Disk

end TreeReplica
