/-
What cleaning takes from a disk, whatever stands where: files, directories
and links, in the output directory or on the way to it. Beside the entry
that has the last name of the path, only what is below the directory that
the path names can go, and no link is followed (`cleaning_exact`).

Taking entries away, one after the other, keeps the disk `Cleared`, whether
or not it is stopped: nothing is new, and nothing beside the directory has
changed. So the path leads to the directory still, or to nothing, and
every entry that is taken away is one of the directory's.

The path itself can be lost: where it goes through what is in the
directory, as an entry that `..` leaves again or as a link, the directory
is empty in the end and the path leads to nothing (`find_cleared`).
-/
import TreeReplica.Proofs.Disk.Carry
import TreeReplica.Proofs.Replica.Harmless

namespace TreeReplica

namespace Disk

variable {d d' : Disk} {p : Path}

-- ==================================================== taking entries away

/-- The disk with nothing new on it, and with nothing changed but below the
directory at `l`. -/
structure Cleared (d : Disk) (l : Location) (d' : Disk) : Prop where
  here : d'.workingDirectory = d.workingDirectory
  less : d'.root.view.Within d.root.view
  beside : ∀ m, ¬ (l <+: m ∧ m ≠ l) → d'.root.view m = d.root.view m

variable {l : Location} {n : String}

theorem Cleared.refl (d : Disk) (l : Location) : d.Cleared l d :=
  ⟨rfl, .refl _, fun _ _ => rfl⟩

/-- What is not below a directory is not below an entry of it. -/
private theorem not_below_child {m : Location} (hm : ¬ (l <+: m ∧ m ≠ l)) :
    ¬ l ++ [n] <+: m := by
  intro hp
  obtain ⟨b, rfl⟩ := hp
  refine hm ⟨(List.prefix_append l _).trans (List.prefix_append _ b), ?_⟩
  simp

/-- An entry of the directory is taken away. -/
theorem Cleared.drop (h : d.Cleared l d') (n : String) :
    d.Cleared l (d'.drop (l ++ [n])) where
  here := h.here
  less := (Entry.view_erase_within _ (by simp)).trans h.less
  beside m hm := by
    rw [Disk.drop, Entry.view_erase _ (by simp), if_neg (not_below_child hm)]
    exact h.beside m hm

/-- A directory in the directory is emptied. -/
theorem Cleared.put (h : d.Cleared l d') {cs : List (String × Entry)}
    (hget : d'.root.get? (l ++ [n]) = some (.directory cs)) :
    d.Cleared l (d'.put (l ++ [n]) (.directory [])) where
  here := h.here
  less := (Entry.view_emptied hget).trans h.less
  beside m hm := by
    have hthere : d'.root.view (l ++ [n]) ≠ none := by
      simp [Entry.view_eq_directory.mpr ⟨cs, hget⟩]
    rw [Disk.put, Entry.view_insert_over hthere, if_neg (not_below_child hm)]
    exact h.beside m hm

/-- A child of the path to the directory is an entry of the directory, as
long as there is a way to it. -/
theorem Cleared.inside {place : Place} {a : Location} {k : String}
    {subject : Subject}
    (hw : walk d.root true linkLimit (d.start p.anchor) p.parts = .ok place)
    (h : d.Cleared place.location d')
    (hr : d'.reach false (p.child n) subject = .ok (.inside a k)) :
    a = place.location ∧ k = n := by
  obtain ⟨above, hp, ⟨before, habove, rfl⟩, hdir, -⟩ := exists_above hr
  obtain ⟨rfl, hlast⟩ := List.append_inj' hp rfl
  cases hlast
  have hstart : d'.start (p.child n).anchor = d.start p.anchor := by
    simp only [start, Path.child, h.here]
  rw [hstart] at habove
  refine ⟨?_, rfl⟩
  have hbefore := (walk_of_within h.less habove (by simp [hdir])).1
  cases hw.symm.trans hbefore
  rfl

end Disk

namespace Output

open Work

variable {out : Path} {d : Disk} {h h' : Host} {place : Place} {n : String}
  {names : List String} {P : Disk → Prop}

/-- However the work ended, it left a disk with the property and nothing
else of the host changed. -/
inductive Ends (P : Disk → Prop) (h : Host) :
    EStateM.Result Fault Host Unit → Prop
  | ok {d : Disk} (kept : P d) : Ends P h (.ok () { h with disk := d })
  | error {d : Disk} {f : Fault} (kept : P d) :
      Ends P h (.error f { h with disk := d })

theorem ends_ask_bind {α : Type} {question : Disk → Except Fault α}
    {k : α → Work Fault Unit} (hp : P h.disk)
    (hk : ∀ a, Ends P h (k a h)) : Ends P h ((ask question >>= k) h) := by
  simp only [Bind.bind, EStateM.bind, ask]
  cases question h.disk with
  | ok a => exact hk a
  | error f => exact .error hp

theorem ends_act {change : Disk → Except Fault Disk} (hp : P h.disk)
    (hc : ∀ d, change h.disk = .ok d → P d) : Ends P h (act change h) := by
  unfold act
  cases hd : change h.disk with
  | ok d => exact .ok (hc d hd)
  | error f => exact .error hp

theorem Ends.bind {w : Work Fault Unit} {k : Unit → Work Fault Unit}
    (hw : Ends P h (w h))
    (hk : ∀ d, P d → Ends P { h with disk := d }
      (k () { h with disk := d })) :
    Ends P h ((w >>= k) h) := by
  simp only [Bind.bind, EStateM.bind]
  generalize w h = result at hw ⊢
  cases hw with
  | @ok d kept =>
      -- the host is the first one but for its disk, again
      have hnext := hk d kept
      simp only
      generalize k () { h with disk := d } = last at hnext
      cases hnext with
      | ok kept' => exact .ok kept'
      | error kept' => exact .error kept'
  | error kept => exact .error kept

/-- One entry: it is taken away, emptied, or left. -/
theorem deleteEntry_ends
    (hw : walk d.root true linkLimit (d.start out.anchor) out.parts
      = .ok place) (hc : d.Cleared place.location h.disk) (n : String) :
    Ends (d.Cleared place.location) h (deleteEntry (out.child n) h) := by
  have hfile : Ends (d.Cleared place.location) h
      (act (·.removeFile (out.child n)) h) := by
    refine ends_act hc fun d' hd' => ?_
    cases Disk.removeFile_dropped hd' with
    | inside reached =>
        obtain ⟨rfl, rfl⟩ := hc.inside hw reached
        exact hc.drop _
  unfold deleteEntry
  refine ends_ask_bind hc fun isDirectory => ?_
  split
  · refine ends_ask_bind hc fun isLink => ?_
    split
    · exact hfile
    · rcases removeTree_cases (out.child n) h
        with ⟨f, -, hf⟩ | ⟨a, k, cs, hreach, hget, hdone⟩
      · rw [hf]
        exact .error hc
      · obtain ⟨rfl, rfl⟩ := hc.inside hw hreach
        rcases hdone with hdone | ⟨e, hleft⟩
        · rw [hdone]
          exact .ok (hc.drop _)
        · rw [hleft]
          exact .error (hc.put hget)
  · exact hfile

/-- The listed entries, one after the other. -/
theorem forM_deleteEntry_ends
    (hw : walk d.root true linkLimit (d.start out.anchor) out.parts
      = .ok place) (hc : d.Cleared place.location h.disk)
    (names : List String) :
    Ends (d.Cleared place.location) h
      ((names.forM fun n => deleteEntry (out.child n)) h) := by
  induction names generalizing h with
  | nil => exact .ok hc
  | cons n names ih =>
      exact (deleteEntry_ends hw hc n).bind fun d' hd' => ih hd'

/-- Emptying a directory, whether or not it is stopped. -/
theorem deleteContents_ends {l : Location} {x : Entry}
    (hf : h.disk.find true out = .ok (l, x)) :
    Ends (h.disk.Cleared l) h (deleteContents out h) := by
  obtain ⟨place, hreach, rfl, -⟩ := Disk.find_eq_ok.mp hf
  obtain ⟨-, -, hw⟩ := Disk.reach_eq_ok.mp hreach
  have hc := Disk.Cleared.refl h.disk place.location
  exact ends_ask_bind hc fun names => forM_deleteEntry_ends hw hc names

end Output

-- ============================================================ what is spared

namespace Disk

variable {d d' m : Disk} {out : Path} {allowed : Location → Prop}

/-- The entry with the last name of the path is at the location. -/
def Own (d : Disk) (out : Path) (l : Location) : Prop :=
  ∃ a n, d.reach false out (.path out) = .ok (.inside a n) ∧ l = a ++ [n]

/-- Every entry is as it was, but perhaps the path's own entry and those
below the location that the path names. -/
def Confined (d : Disk) (out : Path) (d' : Disk) : Prop :=
  ∀ l x, d.root.view l = some x → d'.root.view l = some x
    ∨ d.Own out l ∨ d.resolve out <+: l ∧ l ≠ d.resolve out

/-- The path goes through, or asks for, an entry below the location. -/
def Through (d : Disk) (out : Path) (l : Location) : Prop :=
  ∃ m, Looks d.root.view (d.start out.anchor) out.parts m
    ∧ l <+: m ∧ m ≠ l

theorem Confined.refl (d : Disk) (out : Path) : d.Confined out d :=
  fun _ _ hx => Or.inl hx

theorem Grown.confined (h : d.Grown allowed d') : d.Confined out d' :=
  fun l x hx => Or.inl (h.kept l x hx)

/-- On a disk that only grew, and then lost what was below the location. -/
theorem Cleared.confined (h : m.Cleared (d.resolve out) d')
    (hg : d.Grown allowed m) : d.Confined out d' := by
  intro l x hx
  by_cases hbelow : d.resolve out <+: l ∧ l ≠ d.resolve out
  · exact Or.inr (Or.inr hbelow)
  · exact Or.inl ((h.beside l hbelow).trans (hg.kept l x hx))

/-- The path's own entry may be taken away at last. -/
theorem Confined.dropOwn (h : d.Confined out d') {l : Location}
    (hown : d.Own out l) (hl : d.resolve out = l) :
    d.Confined out (d'.drop l) := by
  intro m x hx
  by_cases hp : l <+: m
  · by_cases heq : m = l
    · exact Or.inr (Or.inl (heq ▸ hown))
    · exact Or.inr (Or.inr (hl ▸ ⟨hp, heq⟩))
  · refine (h m x hx).imp_left fun hkept => ?_
    obtain ⟨a, n, -, rfl⟩ := hown
    rw [drop, Entry.view_erase _ (by simp), if_neg hp]
    exact hkept

end Disk

namespace Output

open Work

variable {out : Path} {force : Bool} {d d' : Disk} {l : Location}
  {cs : List (String × Entry)} {h h' : Host}

/-- After entries below a location were taken away, the path leads to what
is left there; or it goes through what is gone, and leads to nothing. -/
theorem find_cleared {x y : Entry} (hf : d.find true out = .ok (l, x))
    (hc : d.Cleared l d') (hy : d'.root.get? l = some y) :
    d'.find true out = .ok (l, y)
      ∨ d'.Through out l ∧ d'.find true out = Disk.refuse out .noEntry := by
  obtain ⟨place, hreach, rfl, -⟩ := Disk.find_eq_ok.mp hf
  have hfound : d'.reach true out (.path out) = .ok place →
      d'.find true out = .ok (place.location, y) :=
    fun hr => Disk.find_eq_ok.mpr ⟨place, hr, rfl, hy⟩
  by_cases hthrough : d'.Through out place.location
  · rcases Disk.reach_within hc.here hc.less hreach
      with hsame | herr | ⟨place', hlost, hnone⟩
    · exact Or.inl (hfound hsame)
    · refine Or.inr ⟨hthrough, ?_⟩
      rw [Disk.find, herr]
      rfl
    · refine Or.inr ⟨hthrough, ?_⟩
      rw [Disk.find, hlost]
      simp only [bind, Except.bind, hnone]
  · -- the walk looks at nothing that has changed
    obtain ⟨hclear, hshort, hw⟩ := Disk.reach_eq_ok.mp hreach
    have hstart : d.start out.anchor = d'.start out.anchor := by
      simp only [Disk.start, hc.here]
    refine Or.inl (hfound (Disk.reach_eq_ok.mpr ⟨hclear, hshort, ?_⟩))
    rw [← hw, hstart]
    refine (walk_looks fun m hm => ?_).symm
    exact (hc.beside m fun hbelow => hthrough ⟨m, hm, hbelow⟩).symm

/-- What was emptied without a failure is changed below only. -/
theorem deleteContents_cleared (hf : h.disk.find true out
      = .ok (l, .directory cs)) (hr : deleteContents out h = .ok () h') :
    h.disk.Cleared l h'.disk := by
  have hends := deleteContents_ends hf
  rw [hr] at hends
  cases hends with
  | ok kept => exact kept

-- ================================================================ the start

/-- What a start leaves of a path: an empty directory at the location that
the path named, or with its own name if a file was in the way. The path
leads to it; but if the start was forced, and the path goes through what
was in the directory, it leads to nothing. -/
structure Vacant (out : Path) (force : Bool) (d d' : Disk) (l : Location) :
    Prop where
  place : l = d.resolve out ∨ d.isFile out = .ok true ∧ d.Own out l
  empty : d'.root.get? l = some (.directory [])
  leads : d'.find true out = .ok (l, .directory [])
    ∨ force = true ∧ d'.Through out l
      ∧ d'.find true out = Disk.refuse out .noEntry

theorem prepare_vacant (hr : prepare out force h = .ok () h') :
    ∃ l, Vacant out force h.disk h'.disk l := by
  have hstarts := prepare_starts out force h
  rw [hr] at hstarts
  cases hstarts with
  | @replaced a n asked forced reached other removed made found =>
      obtain ⟨_, -, -, hget⟩ := Disk.find_eq_ok.mp found
      exact ⟨a ++ [n], Or.inr ⟨asked, a, n, reached, rfl⟩, hget,
        Or.inl found⟩
  | empty asked made =>
      obtain ⟨_, -, -, hget⟩ := Disk.find_eq_ok.mp made.found
      exact ⟨_, Or.inl rfl, hget, Or.inl made.found⟩
  | @cleaned mid _ cs asked forced made emptied =>
      have hcleared := deleteContents_cleared made.found emptied
      obtain ⟨rfl, -⟩ := deleteContents_ok made.found emptied
      obtain ⟨_, -, -, hget⟩ := Disk.find_eq_ok.mp made.found
      have hempty := Entry.get?_insert hget (.directory [])
      exact ⟨_, Or.inl rfl, hempty,
        (find_cleared made.found hcleared hempty).imp_right
          fun hlost => ⟨forced, hlost⟩⟩

/-- Without force nothing is taken away, whether or not the run starts. -/
theorem prepare_keeps (out : Path) (h : Host) :
    Leaves (fun d' => ∀ l x, h.disk.root.view l = some x →
      d'.root.view l = some x) (prepare out false h) := by
  have hgrown := prepare_grown out h
  cases hr : prepare out false h with
  | ok u h' =>
      rw [hr] at hgrown
      exact hgrown.1.kept
  | error f h' =>
      rw [hr] at hgrown
      exact hgrown.kept

/-- A directory in the place of an entry that was none. -/
theorem confined_replaced {a : Location} {n : String}
    (hreach : d.reach false out (.path out) = .ok (.inside a n))
    (hother : d.root.view (a ++ [n]) ≠ some .directory) :
    d.Confined out ((d.drop (a ++ [n])).put (a ++ [n]) (.directory [])) := by
  obtain ⟨-, -, -, hdir, -⟩ := Disk.exists_above hreach
  have hdrop : ∀ m, (d.drop (a ++ [n])).root.view m
      = if a ++ [n] <+: m then none else d.root.view m :=
    Entry.view_erase d.root (by simp)
  have hdir' : (d.drop (a ++ [n])).root.view a = some .directory := by
    rw [hdrop, if_neg (by simp), hdir]
  intro l x hx
  by_cases hp : a ++ [n] <+: l
  · by_cases heq : l = a ++ [n]
    · exact Or.inr (Or.inl ⟨a, n, hreach, heq⟩)
    · cases (Entry.view_below hother hp heq).symm.trans hx
  · left
    rw [Disk.put, Entry.view_insert_directory hdir', View.set_outside hp,
      hdrop, if_neg hp]
    exact hx

/-- No start takes anything away but the path's own entry and what is
below the directory that the path names. -/
theorem prepare_confined (out : Path) (force : Bool) (h : Host) :
    Leaves (h.disk.Confined out) (prepare out force h) := by
  have hstarts := prepare_starts out force h
  generalize prepare out force h = result at hstarts
  have hrefl := Disk.Confined.refl h.disk out
  have hclean : ∀ {mid : Host} {cs},
      Made out h mid cs →
      Leaves (h.disk.Confined out) (deleteContents out mid) := by
    intro mid cs made
    have hends := deleteContents_ends made.found
    generalize deleteContents out mid = result at hends
    cases hends with
    | ok kept => exact kept.confined made.grown
    | error kept => exact kept.confined made.grown
  cases hstarts with
  | unknown => exact hrefl
  | obstructed => exact hrefl
  | fileStays => exact hrefl
  | replaced asked forced reached other => exact confined_replaced reached other
  | unmade asked grown => exact grown.confined
  | empty asked made => exact made.grown.confined
  | full asked gentle made => exact made.grown.confined
  | cleaned asked forced made emptied =>
      have hleft := hclean made
      rw [emptied] at hleft
      exact hleft
  | unclean asked forced made stopped =>
      have hleft := hclean made
      rw [stopped] at hleft
      exact hleft

-- ================================================================== the end

/-- What is taken away last, once the directory is empty, is the directory
itself, by its own name. -/
theorem removeDirectory_own (hf : d.find true out = .ok (l, .directory cs))
    (hr : (d.put l (.directory [])).removeDirectory out = .ok d') :
    d.Own out l ∧ d' = (d.put l (.directory [])).drop l
      ∧ (d.put l (.directory [])).resolve out = l := by
  obtain ⟨_, -, -, hget⟩ := Disk.find_eq_ok.mp hf
  have hless : (d.put l (.directory [])).root.view.Within d.root.view :=
    Entry.view_emptied hget
  obtain ⟨a, n, hreach, hempty, hnow, rfl⟩ := Disk.removeDirectory_ok hr
  have hthere := Entry.view_eq_directory.mpr ⟨[], hempty⟩
  obtain ⟨hclear, hshort, hw⟩ := Disk.reach_eq_ok.mp hreach
  obtain ⟨hw', hsame⟩ := walk_of_within hless hw
    (by simp [Place.location, hthere])
  have hbefore : d.reach false out (.path out) = .ok (.inside a n) :=
    Disk.reach_eq_ok.mpr ⟨hclear, hshort, hw'⟩
  have hloc : a ++ [n] = l := by
    rw [← Disk.resolve_of_find hf]
    exact Disk.resolve_of_reach hbefore fun t ht => by
      rw [hsame, Place.location, hthere] at ht
      cases ht
  exact ⟨⟨a, n, hbefore, hloc.symm⟩, by rw [hloc], hnow.symm.trans hloc⟩

/-- How the removal of a directory ends. If there is no report and no
failure, the directory is empty and its path names the working directory
then, or it is gone. -/
inductive Removes (out : Path) (l : Location) (h : Host) :
    EStateM.Result Fault Host Unit → Prop
  | reported {d : Disk} {text : String} (kept : h.disk.Cleared l d) :
      Removes out l h
        (.ok () { h with disk := d, log := h.log ++ [⟨.error, text⟩] })
  | failed {d : Disk} {f : Fault} (kept : h.disk.Cleared l d) :
      Removes out l h (.error f { h with disk := d })
  | stays (kept : h.disk.Cleared l (h.disk.put l (.directory [])))
      (named : (h.disk.put l (.directory [])).resolve out
        = h.disk.workingDirectory) :
      Removes out l h (.ok () { h with disk := h.disk.put l (.directory []) })
  | gone (kept : h.disk.Cleared l (h.disk.put l (.directory [])))
      (own : h.disk.Own out l) (apart : l ≠ h.disk.workingDirectory) :
      Removes out l h
        (.ok () { h with disk := (h.disk.put l (.directory [])).drop l })

theorem remove_removes (hf : h.disk.find true out = .ok (l, .directory cs)) :
    Removes out l h (remove out h) := by
  have hself : h.disk.isDirectory out = .ok true := by
    rw [Disk.isDirectory, Disk.status, hf]
    rfl
  have hends := deleteContents_ends hf
  unfold remove
  rw [ask_bind_eq hself]
  simp only [Bool.not_true, Bool.false_eq_true, if_false]
  unfold rescue
  cases hr : deleteContents out h with
  | error f h' =>
      rw [hr] at hends
      rw [bind_error_eq hr]
      cases hends with
      | error kept =>
          cases f with
          | system e => exact .reported kept
          | argument e => exact .failed kept
  | ok u h' =>
      have hkept := deleteContents_cleared hf hr
      obtain ⟨rfl, -⟩ := deleteContents_ok hf hr
      rw [bind_eq hr]
      cases he : isElsewhere out (h.disk.put l (.directory [])) with
      | error f =>
          have hsystem : ∃ e, f = .system e := by
            unfold isElsewhere at he
            split at he
            · cases he
              exact ⟨_, rfl⟩
            · cases he
          obtain ⟨e, rfl⟩ := hsystem
          simp only [Bind.bind, EStateM.bind, ask, he]
          exact .reported hkept
      | ok elsewhere =>
          rw [ask_bind_eq he]
          cases elsewhere with
          | false =>
              refine .stays hkept ?_
              unfold isElsewhere at he
              split at he
              · cases he
              · have hnamed : (h.disk.put l (.directory [])).resolve out
                    = (h.disk.put l (.directory [])).workingDirectory := by
                  simpa using he
                exact hnamed
          | true =>
              rw [if_pos rfl]
              simp only [act]
              cases hd : (h.disk.put l (.directory [])).removeDirectory out with
              | ok d =>
                  obtain ⟨hown, rfl, hnow⟩ := removeDirectory_own hf hd
                  refine .gone hkept hown fun heq => ?_
                  unfold isElsewhere at he
                  rw [hnow] at he
                  split at he
                  · cases he
                  · simp [heq, Disk.put] at he
              | error f =>
                  cases f with
                  | system e => exact .reported hkept
                  | argument e => exact .failed hkept

/-- What a removal without a report leaves of the directory that a path
named. The working directory stays, with nothing in it. Another one is
gone; but if the path goes through what was in it, and without that names
the working directory, it stays with nothing in it. -/
structure Removed (out : Path) (d d' : Disk) : Prop where
  working : d.resolve out = d.workingDirectory →
    d'.root.get? (d.resolve out) = some (.directory [])
  other : d.resolve out ≠ d.workingDirectory →
    d'.root.view (d.resolve out) = none
    ∨ d'.root.get? (d.resolve out) = some (.directory [])
      ∧ d'.resolve out = d.workingDirectory
      ∧ d'.Through out (d.resolve out)
      ∧ d'.find true out = Disk.refuse out .noEntry

theorem remove_removed (hf : h.disk.isDirectory out = .ok true)
    (hr : remove out h = .ok () h') (hcalm : h.log.Calm h'.log) :
    Removed out h.disk h'.disk := by
  obtain ⟨l, x, hfound, hkind⟩ := Disk.find_of_holds hf
  cases x with
  | file c t => cases hkind
  | link t => cases hkind
  | directory cs =>
      obtain ⟨_, -, -, hget⟩ := Disk.find_eq_ok.mp hfound
      have hempty := Entry.get?_insert hget (.directory [])
      have hremoves := remove_removes hfound
      rw [hr] at hremoves
      have hnamed := Disk.resolve_of_find hfound
      subst hnamed
      cases hremoves with
      | reported kept => exact absurd hcalm (Log.not_calm_error (.refl _) _)
      | stays kept named =>
          refine ⟨fun _ => hempty,
            fun hother => Or.inr ⟨hempty, named, ?_⟩⟩
          refine (find_cleared hfound kept hempty).resolve_left
            fun hsame => ?_
          exact hother ((Disk.resolve_of_find hsame).symm.trans named)
      | gone kept own apart =>
          refine ⟨fun heq => absurd heq apart, fun _ => Or.inl ?_⟩
          obtain ⟨a, n, -, hl⟩ := own
          rw [Disk.drop, Entry.view_erase _ (by simp [hl]),
            if_pos (List.prefix_refl _)]

/-- No removal takes anything away but the path's own entry and what is
below the directory that the path names. -/
theorem remove_confined (out : Path) (h : Host) :
    Leaves (h.disk.Confined out) (remove out h) := by
  have hrefl := Disk.Confined.refl h.disk out
  cases hf : h.disk.isDirectory out with
  | error f =>
      have hstop : remove out h = .error f h := by
        unfold remove
        refine bind_error_eq ?_
        simp only [ask, hf]
      rw [hstop]
      exact hrefl
  | ok isDirectory =>
      cases isDirectory with
      | false =>
          unfold remove
          rw [ask_bind_eq hf]
          exact hrefl
      | true =>
          obtain ⟨l, x, hfound, hkind⟩ := Disk.find_of_holds hf
          cases x with
          | file c t => cases hkind
          | link t => cases hkind
          | directory cs =>
              have hremoves := remove_removes hfound
              have hnamed := Disk.resolve_of_find hfound
              subst hnamed
              have hgrown : h.disk.Grown (fun _ => False) h.disk := .refl _
              generalize remove out h = result at hremoves
              cases hremoves with
              | reported kept => exact kept.confined hgrown
              | failed kept => exact kept.confined hgrown
              | stays kept => exact kept.confined hgrown
              | gone kept own =>
                  exact (kept.confined hgrown).dropOwn own rfl

-- ============================================================= both ends

/-- What cleaning does, whatever stands where. A start that goes well
leaves an empty directory, which the path leads to unless it goes through
what was cleaned away; without force every entry stays as it was; with
force, and at the end, every entry stays that is neither the path's own
nor below the directory that the path names, so that nothing behind a link
is touched; and a directory is gone when its removal had nothing to
report, but for the working directory, and for one whose path was lost
with what was in it. -/
theorem cleaning_exact (out : Path) (h : Host) :
    (∀ force h', prepare out force h = .ok () h' →
      ∃ l, Vacant out force h.disk h'.disk l)
    ∧ Leaves (fun d' => ∀ l x, h.disk.root.view l = some x →
        d'.root.view l = some x) (prepare out false h)
    ∧ Leaves (h.disk.Confined out) (prepare out true h)
    ∧ Leaves (h.disk.Confined out) (remove out h)
    ∧ ∀ h', h.disk.isDirectory out = .ok true → remove out h = .ok () h' →
        h.log.Calm h'.log → Removed out h.disk h'.disk :=
  ⟨fun _ _ => prepare_vacant, prepare_keeps out h,
    prepare_confined out true h, remove_confined out h,
    fun _ => remove_removed⟩

/-- A start over a directory with a link to a file beside it in it: the
link is gone and the file is still there. -/
theorem cleaning_exact_link :
    let h : Host := { disk := ⟨.directory [("m", .directory
      [("l", .link "../x")]), ("x", .file [1] (.dated 5))], []⟩ }
    let out : Path := ⟨.here, ["m"]⟩
    ∃ h', prepare out true h = .ok () h'
      ∧ h'.disk.root.view ["x"] = some (.file [1] (.dated 5))
      ∧ ∃ l, Vacant out true h.disk h'.disk l := by
  intro h out
  obtain ⟨hvacant, -, hconfined, -, -⟩ := cleaning_exact out h
  have hwell : endsWell (fun _ => true) (prepare out true h) = true := by
    decide +kernel
  obtain ⟨⟨⟩, h', hr, -⟩ := exists_of_endsWell hwell
  refine ⟨h', hr, ?_, hvacant true h' hr⟩
  rw [hr] at hconfined
  have hreach : h.disk.reach false out (.path out)
      = .ok (.inside [] "m") := by decide +kernel
  have hnamed : h.disk.resolve out = ["m"] :=
    (Disk.resolve_of_reach hreach fun t ht => by cases ht).symm
  have hx : h.disk.root.view ["x"] = some (.file [1] (.dated 5)) := rfl
  obtain hkept | ⟨a, n, hown, heq⟩ | ⟨hbelow, -⟩ := hconfined ["x"] _ hx
  · exact hkept
  · cases hreach.symm.trans hown
    exact absurd heq (by decide)
  · rw [hnamed] at hbelow
    exact absurd hbelow (by decide)

/-- A path can be lost with what it goes through. Where it leaves the
directory again that it names, by an entry in it, the start goes well and
the path leads to nothing. Where it goes on through a link in the
directory, the directory is left standing without a report, although it
is not the working directory. -/
theorem cleaning_loses_path :
    (let h : Host := { disk := ⟨.directory
        [("m", .directory [("sub", .directory [])])], []⟩ }
      let out : Path := ⟨.here, ["m", "sub", ".."]⟩
      ∃ h', prepare out true h = .ok () h'
        ∧ h'.disk.isDirectory out = .ok false)
    ∧ (let h : Host := { disk := ⟨.directory
        [("d", .directory [("c", .link "../p/q/r")]),
          ("p", .directory [("q", .directory [("r", .directory [])]),
            ("LINK", .link "../d")]),
          ("LINK", .link ".")], []⟩ }
      let out : Path := ⟨.here, ["d", "c", "..", "..", "LINK"]⟩
      h.disk.isDirectory out = .ok true
        ∧ h.disk.resolve out ≠ h.disk.workingDirectory
        ∧ ∃ h', remove out h = .ok () h' ∧ h.log.Calm h'.log
          ∧ h'.disk.root.view (h.disk.resolve out) = some .directory) := by
  constructor
  · intro h out
    have hwell : endsWell
        (fun h' => decide (h'.disk.isDirectory out = .ok false))
        (prepare out true h) = true := by decide +kernel
    obtain ⟨⟨⟩, h', hr, htest⟩ := exists_of_endsWell hwell
    exact ⟨h', hr, of_decide_eq_true htest⟩
  · intro h out
    have hself : h.disk.isDirectory out = .ok true := by decide +kernel
    have hreach : h.disk.reach true out (.path out)
        = .ok (.inside [] "d") := by decide +kernel
    have hfound : h.disk.find true out
        = .ok (["d"], .directory [("c", .link "../p/q/r")]) :=
      Disk.find_eq_ok.mpr ⟨_, hreach, rfl, rfl⟩
    have hnamed := Disk.resolve_of_find hfound
    have hwell : endsWell (fun _ => true) (deleteContents out h) = true := by
      decide +kernel
    obtain ⟨⟨⟩, h', hempty, -⟩ := exists_of_endsWell hwell
    obtain ⟨rfl, -⟩ := deleteContents_ok hfound hempty
    -- the last link is the one at the top now, to the working directory
    have hnow : (h.disk.put ["d"] (.directory [])).resolve out = [] := by
      have ht : targetParts "." = ["."] := by decide +kernel
      simp [h, out, Disk.resolve, Disk.resolveFrom, Disk.start, linkLimit,
        Disk.put, Entry.insert, Entry.get?, Entry.child?, Children.get?,
        Children.set, ht]
    have helse : isElsewhere out (h.disk.put ["d"] (.directory []))
        = .ok false := by
      unfold isElsewhere
      rw [hnow]
      rfl
    have hremove : remove out h
        = .ok () { h with disk := h.disk.put ["d"] (.directory []) } := by
      unfold remove
      rw [ask_bind_eq hself]
      refine rescue_eq ?_
      rw [bind_eq hempty, ask_bind_eq helse]
      rfl
    refine ⟨hself, ?_, _, hremove, .refl _, ?_⟩
    · rw [hnamed]
      decide
    · rw [hnamed]
      rfl

end Output

end TreeReplica
