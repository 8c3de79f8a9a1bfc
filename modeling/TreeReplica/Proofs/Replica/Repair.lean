/-
The exchange of a file for a directory, seen through views.
`View.convert` makes one place a directory and keeps the bytes of a file
that stood there in the payload slot. `turns_relocate` shows that the
exchange does just this to the view of a site, and that a step that fails
leaves the file to be put back: the staging directory is beside the file
only while the exchange lasts.
-/
import TreeReplica.Proofs.Disk.Work
import TreeReplica.Proofs.Remote.Path
import TreeReplica.Replica.Repair

namespace TreeReplica

open Work

namespace View

-- ========================================================= on the view

/-- The view with a directory at `l`. A file with bytes that stood there
becomes its payload, an empty one is dropped. -/
def convert (payload : String) (v : View) (l : Location) : View :=
  match v l with
  | some .directory => v
  | some (.file c t) =>
      if c.length = 0 then v.set l .directory
      else (v.set l .directory).set (l ++ [payload]) (.file c t)
  | _ => v.set l .directory

theorem convert_of_directory {v : View} {l : Location}
    (h : v l = some .directory) (payload : String) :
    v.convert payload l = v := by
  simp [convert, h]

/-- A converted place is a directory. -/
theorem convert_self (payload : String) (v : View) (l : Location) :
    v.convert payload l l = some .directory := by
  have hnot : ¬ l ++ [payload] <+: l := not_prefix_of_append (by simp)
  unfold convert
  cases hl : v l with
  | none => exact set_self ..
  | some x =>
      cases x with
      | directory => exact hl
      | link t => exact set_self ..
      | file c t =>
          simp only
          by_cases hc : c.length = 0
          · rw [if_pos hc, set_self]
          · rw [if_neg hc, set_outside hnot, set_self]

/-- A conversion changes nothing that is not at the place or below it. -/
theorem convert_outside {payload : String} {v : View}
    {l m : Location} (h : ¬ l <+: m) : v.convert payload l m = v m := by
  have hslot : ¬ l ++ [payload] <+: m :=
    fun hp => h ((List.prefix_append l [payload]).trans hp)
  unfold convert
  cases hl : v l with
  | none => exact set_outside h _
  | some x =>
      cases x with
      | directory => rfl
      | link t => exact set_outside h _
      | file c t =>
          simp only
          by_cases hc : c.length = 0
          · rw [if_pos hc, set_outside h]
          · rw [if_neg hc, set_outside hslot, set_outside h]

-- ======================================================= the exchange

section Exchange

variable {v : View} {payload : String} {a : Location} {n k : String}
  {c : Bytes} {t : Stamp}

/-- The staging directory made. -/
def staged (v : View) (a : Location) (k : String) : View :=
  v.set (a ++ [k]) .directory

/-- The file moved into the staging directory. -/
def parked (v : View) (a : Location) (n k : String) (c : Bytes)
    (t : Stamp) : View :=
  ((staged v a k).cut (a ++ [n])).set (a ++ [k] ++ [n]) (.file c t)

/-- The directory made in the place of the file. -/
def opened (v : View) (a : Location) (n k : String) (c : Bytes)
    (t : Stamp) : View :=
  (parked v a n k c t).set (a ++ [n]) .directory

/-- A file to be exchanged, and a free name beside it for the staging
directory. -/
structure Exchange (v : View) (a : Location) (n k : String) (c : Bytes)
    (t : Stamp) : Prop where
  linkless : v.Linkless
  file : v (a ++ [n]) = some (.file c t)
  free : v (a ++ [k]) = none

theorem Exchange.apart (h : Exchange v a n k c t) : k ≠ n := by
  intro heq
  subst heq
  have hx := h.file
  rw [h.free] at hx
  cases hx

theorem Exchange.there (h : Exchange v a n k c t) :
    v (a ++ [n]) ≠ none := by
  rw [h.file]
  simp

theorem Exchange.parent (h : Exchange v a n k c t) :
    v a = some .directory :=
  h.linkless.above a [n] (by simp) h.there

theorem not_prefix_beside {m : Location} (hkn : k ≠ n)
    (h : a ++ [k] <+: m) : ¬ a ++ [n] <+: m := by
  obtain ⟨r, rfl⟩ := h
  intro hp
  rw [List.append_assoc, List.prefix_append_right_inj] at hp
  simp only [List.cons_append, List.nil_append, List.cons_prefix_cons] at hp
  exact hkn hp.1.symm

/-- With the staging directory gone nothing is left of it. -/
theorem Exchange.below (h : Exchange v a n k c t) {m : Location}
    (hm : a ++ [k] <+: m) : v m = none := by
  obtain ⟨r, rfl⟩ := hm
  by_cases hr : r = []
  · rw [hr, List.append_nil, h.free]
  · apply Decidable.byContradiction
    intro hne
    have hdir := h.linkless.above _ r hr hne
    rw [h.free] at hdir
    cases hdir

/-- With the file moved on to the payload slot and the staging directory
gone, the exchange is all that has changed. -/
theorem Exchange.cut_swapped (h : Exchange v a n k c t) :
    (((opened v a n k c t).cut (a ++ [k] ++ [n])).set
        (a ++ [n] ++ [payload]) (.file c t)).cut (a ++ [k])
      = (v.set (a ++ [n]) .directory).set (a ++ [n] ++ [payload])
          (.file c t) := by
  funext m
  by_cases hm : a ++ [k] <+: m
  · have hn := not_prefix_beside h.apart hm
    have hslot : ¬ a ++ [n] ++ [payload] <+: m :=
      fun hp => hn ((List.prefix_append _ _).trans hp)
    rw [cut_within hm, set_outside hslot,
      set_outside hn, h.below hm]
  · have hmoved : ¬ a ++ [k] ++ [n] <+: m :=
      fun hp => hm ((List.prefix_append _ _).trans hp)
    rw [cut_outside hm]
    by_cases hslot : a ++ [n] ++ [payload] <+: m
    · simp only [set, hslot, if_true]
    · rw [set_outside hslot, set_outside hslot,
        cut_outside hmoved]
      unfold opened parked staged
      by_cases hn : a ++ [n] <+: m
      · simp only [set, hn, if_true]
      · rw [set_outside hn, set_outside hmoved,
          cut_outside hn, set_outside hm,
          set_outside hn]

/-- With the file moved back the staging directory is all that is left. -/
theorem Exchange.restored (h : Exchange v a n k c t) :
    (((opened v a n k c t).cut (a ++ [n])).cut (a ++ [k] ++ [n])).set
        (a ++ [n]) (.file c t) = staged v a k := by
  funext m
  by_cases hn : a ++ [n] <+: m
  · have hk : ¬ a ++ [k] <+: m := fun hk => not_prefix_beside h.apart hk hn
    by_cases hm : m = a ++ [n]
    · rw [hm, set_self, staged, set_outside (hm ▸ hk), h.file]
    · rw [set_below hn hm, staged, set_outside hk]
      obtain ⟨r, rfl⟩ := hn
      have hr : r ≠ [] := by
        intro heq
        subst heq
        simp at hm
      apply Decidable.byContradiction
      intro hne
      have hdir := h.linkless.above _ r hr fun e => hne e.symm
      rw [h.file] at hdir
      cases hdir
  · rw [set_outside hn]
    by_cases hm : a ++ [k] ++ [n] <+: m
    · have hne : m ≠ a ++ [k] := by
        intro heq
        subst heq
        exact not_prefix_of_append (by simp) hm
      rw [cut_within hm, staged,
        set_below ((List.prefix_append _ _).trans hm) hne]
    · rw [cut_outside hm, cut_outside hn, opened,
        set_outside hn, parked, set_outside hm,
        cut_outside hn]

end Exchange

end View

namespace Site

open View

variable {s : Site} {v : View} {tolerated : Fault → Prop}
  {payload : String}

/-- A view of a site that follows the rule of payload slots: no directory
has the name of a slot. -/
structure Clean (s : Site) (payload : String) (v : View) : Prop
    extends s.Sound v where
  slots : ∀ a, v (a ++ [payload]) ≠ some .directory

theorem clean_empty (payload : String) :
    s.Clean payload (Entry.directory []).view where
  toSound := sound_empty
  slots a := by cases a <;> simp [Entry.view_cons, Children.get?]

theorem Clean.cut (h : s.Clean payload v) {l : Location} (hl : l ≠ []) :
    s.Clean payload (v.cut l) where
  toSound := h.toSound.cut hl
  slots a hd := by
    unfold View.cut at hd
    split at hd
    · cases hd
    · exact h.slots a hd

/-- Setting an entry other than a directory of the slots' name keeps the
rule. -/
theorem Clean.set (h : s.Clean payload v) {a : Location} {n : String}
    {x : Shape} (hs : s.Sound (v.set (a ++ [n]) x))
    (hx : x = .directory → n ≠ payload) :
    s.Clean payload (v.set (a ++ [n]) x) where
  toSound := hs
  slots b hd := by
    unfold View.set at hd
    split at hd
    · split at hd
      · next heq =>
          have hname := (List.append_inj' heq rfl).2
          simp only [List.cons.injEq, and_true] at hname
          exact hx (Option.some.inj hd) hname.symm
      · cases hd
    · exact h.slots b hd

-- ========================================================== relocation

/-- Opening a staging directory in a directory of the site. -/
theorem turns_openStaging {a : Location} (ha : v a = some .directory)
    (ht : Tolerates tolerated a) :
    s.Turns (Repair.openStaging (s.path.descend a)) v
      (fun p v' => ∃ k, IsName k ∧ Disk.hasNull k = false
        ∧ v (a ++ [k]) = none ∧ p = s.path.descend (a ++ [k])
        ∧ v' = v.set (a ++ [k]) .directory)
      (fun f _ => tolerated f) := by
  intro before host hs
  obtain ⟨m, hm, hv, htidy⟩ := hs.tree
  subst hv
  obtain ⟨k, hk, hnull, hfree, hmake⟩ :=
    makeStaging_yields hs.sound (host.draw host.log.length) ha ht
  unfold Repair.openStaging
  rw [hm]
  rcases hmake with ⟨fits, hr⟩ | ⟨f, hr, hf⟩
  · rw [hr]
    have hn : AllNames (a ++ [k]) :=
      (hs.sound.names a (by simp [ha])).concat hk
    exact ⟨_, ⟨⟨_, rfl, Entry.view_insert_directory ha k,
        htidy.insert Entry.tidy_empty _⟩,
      hs.sound.set ha hn fits (by simp), hs.calm⟩,
      k, hk, hnull, hfree, rfl, rfl⟩
  · rw [hr]
    exact ⟨_, hs, hf⟩

/-- An exchange at a site, with a name for the staging directory that can
be passed to the system. -/
private structure Staged (s : Site) (v : View) (a : Location)
    (n k : String) (c : Bytes) (t : Stamp) : Prop
    extends Exchange v a n k c t where
  sound : s.Sound v
  name : IsName k
  clear : Disk.hasNull k = false

section Staged

variable {a : Location} {n k : String} {c : Bytes} {t : Stamp}

private theorem Staged.names (h : Staged s v a n k c t) :
    AllNames (a ++ [n]) := h.sound.names _ h.there

private theorem Staged.fits (h : Staged s v a n k c t) :
    s.Fits (a ++ [n]) := h.sound.fits _ h.there

private theorem Staged.moved (h : Staged s v a n k c t) :
    AllNames (a ++ [k] ++ [n]) :=
  ((h.names.above (List.prefix_append _ _)).concat h.name).concat
    (h.names n (by simp))

private theorem Staged.tolerates (h : Staged s v a n k c t)
    (ht : Tolerates tolerated (a ++ [n])) :
    Tolerates tolerated (a ++ [k] ++ [n]) := by
  have hn : Disk.hasNull n = false := by
    have hc := h.fits.clear
    rw [Disk.hasNull_descend] at hc
    simp only [List.any_append, List.any_cons, List.any_nil, Bool.or_false,
      Bool.or_eq_false_iff] at hc
    exact hc.2.2
  exact (ht.of_append.append (b := [k]) (by simpa using h.clear)).append
    (b := [n]) (by simpa using hn)

/-- The three steps of the exchange. A fault leaves the file where it was
or in the staging directory with a new directory in its place. -/
private theorem Staged.turns_exchange (h : Staged s v a n k c t)
    (hp : IsSegment payload) (ht : Tolerates tolerated (a ++ [n])) :
    s.Turns (do
        act (·.move (s.path.descend (a ++ [n]))
          (s.path.descend (a ++ [k] ++ [n])))
        act (·.makeDirectory (s.path.descend (a ++ [n])))
        act (·.move (s.path.descend (a ++ [k] ++ [n]))
          (s.path.descend (a ++ [n] ++ [payload]))))
      (staged v a k)
      (fun _ w => w = ((opened v a n k c t).cut (a ++ [k] ++ [n])).set
        (a ++ [n] ++ [payload]) (.file c t))
      (fun f w => tolerated f
        ∧ (w = staged v a k ∨ w = opened v a n k c t)) := by
  have hkn := h.apart
  have hnk : n ≠ k := fun e => hkn e.symm
  have htslot : Tolerates tolerated (a ++ [n] ++ [payload]) :=
    ht.append (b := [payload]) (by simpa using hp.clear)
  refine (turns_move (n := n) (c := c) (t := t)
    (g := fun _ w => w = parked v a n k c t) ?_ h.moved ?_ ?_
    (h.tolerates ht).admits (fun f hf => ⟨hf, Or.inl rfl⟩) rfl).bind ?_
  · simp [staged, View.set, hkn, h.file]
  · simp [staged]
  · simp [staged, View.set]
  intro _ _ heq
  subst heq
  refine (turns_makeDirectory (g := fun _ w => w = opened v a n k c t)
    h.names ?_ ?_ h.fits.admits (fun f => False.elim) rfl).bind ?_
  · simp [parked, staged, View.set, View.cut, h.parent]
  · simp [parked, View.set, View.cut, hkn]
  intro _ _ heq
  subst heq
  refine turns_move (n := n) (c := c) (t := t) ?_
    (h.names.concat hp.toIsName) ?_ ?_ htslot.admits
    (fun f hf => ⟨hf, Or.inr rfl⟩) rfl
  · simp [opened, parked, View.set, hnk]
  · simp [opened]
  · simp [opened, View.set]

/-- Putting the file back after a fault, whichever step it stopped. -/
private theorem Staged.turns_putBack (h : Staged s v a n k c t)
    (ht : Tolerates tolerated (a ++ [n])) {w : View}
    (hw : w = staged v a k ∨ w = opened v a n k c t) :
    s.Turns (Repair.putBack (s.path.descend (a ++ [n]))
        (s.path.descend (a ++ [k] ++ [n]))) w
      (fun _ w' => w' = staged v a k)
      (fun f w' => tolerated f ∧ w' = staged v a k) := by
  have hkn := h.apart
  have hnk : n ≠ k := fun e => hkn e.symm
  unfold Repair.putBack
  rcases hw with rfl | rfl
  · refine (turns_reaches h.moved (h.tolerates ht).admits
      (g := fun b w' => b = false ∧ w' = staged v a k)
      (fun f hf => ⟨hf, rfl⟩) ⟨?_, rfl⟩).bind ?_
    · simp [staged, View.set]
    intro _ _ hmid
    obtain ⟨rfl, rfl⟩ := hmid
    exact turns_pure rfl
  · refine turns_of_sound fun hs => ?_
    have hmoved : opened v a n k c t (a ++ [k] ++ [n])
        = some (.file c t) := by
      simp [opened, parked, View.set, hnk]
    refine (turns_reaches h.moved
      (hs.fits _ (by rw [hmoved]; simp)).admits
      (g := fun b w' => b = true ∧ w' = opened v a n k c t)
      (fun f => False.elim) ⟨by rw [hmoved]; rfl, rfl⟩).bind ?_
    intro _ _ hmid
    obtain ⟨rfl, rfl⟩ := hmid
    refine (turns_isDirectory h.names h.fits.admits
      (g := fun b w' => b = true ∧ w' = opened v a n k c t)
      (fun f => False.elim) ⟨by simp [opened], rfl⟩).bind ?_
    intro _ _ hmid
    obtain ⟨rfl, rfl⟩ := hmid
    refine (turns_removeDirectory
      (g := fun _ w' => w' = (opened v a n k c t).cut (a ++ [n]))
      (by simp [opened]) (fun j => by simp [opened, View.set]) rfl).bind ?_
    intro _ _ heq
    subst heq
    refine turns_move (n := n) (c := c) (t := t) ?_ h.names ?_ ?_
      h.fits.admits (fun f => False.elim) ?_
    · simpa [View.cut, hnk] using hmoved
    · simp [opened, parked, staged, View.set, View.cut, h.parent]
    · simp [View.cut]
    · exact h.restored

/-- Taking the staging directory away once the file has left it. -/
private theorem Staged.turns_closeStaging (h : Staged s v a n k c t)
    (ht : Tolerates tolerated (a ++ [n])) {w : View}
    (hdir : w (a ++ [k]) = some .directory)
    (hempty : ∀ j, w (a ++ [k] ++ [j]) = none)
    {good : Unit → View → Prop} (hg : good () (w.cut (a ++ [k]))) :
    s.Turns (Repair.closeStaging (s.path.descend (a ++ [n]))
        (s.path.descend (a ++ [k])) (s.path.descend (a ++ [k] ++ [n]))) w
      good (fun f _ => tolerated f) := by
  unfold Repair.closeStaging
  refine (turns_reaches h.moved (h.tolerates ht).admits
    (g := fun b w' => b = false ∧ w' = w) (fun f hf => hf)
    ⟨by rw [hempty n]; rfl, rfl⟩).bind ?_
  intro _ _ hmid
  obtain ⟨rfl, rfl⟩ := hmid
  exact turns_removeDirectory hdir hempty hg

end Staged

-- ==================================================== the whole exchange

/-- Exchanging a file for a directory that holds it as its payload. The
only steps that can fail are those that meet a new name, the staging
directory and the payload slot, and a fault of one of them is passed on. -/
theorem turns_relocate (hp : IsSegment payload) {a : Location} {n : String}
    {c : Bytes} {t : Stamp} (hx : v (a ++ [n]) = some (.file c t))
    (ht : Tolerates tolerated (a ++ [n])) :
    s.Turns (Repair.relocate (s.path.descend (a ++ [n])) payload) v
      (fun _ v' => v' = (v.set (a ++ [n]) .directory).set
        (a ++ [n] ++ [payload]) (.file c t))
      (fun f _ => tolerated f) := by
  refine turns_of_sound fun hs => ?_
  have ha : v a = some .directory := hs.above a [n] (by simp) (by simp [hx])
  unfold Repair.relocate
  rw [Path.parent_descend, Path.name_descend]
  refine (turns_openStaging ha ht.of_append).bind ?_
  intro _ _ hmid
  obtain ⟨k, hk, hnull, hfree, rfl, rfl⟩ := hmid
  have h : Staged s v a n k c t :=
    ⟨⟨hs.linkless, hx, hfree⟩, hs, hk, hnull⟩
  rw [Path.child_descend, Remote.payloadSlot_descend hp.toIsName]
  have hnk : n ≠ k := fun e => h.apart e.symm
  -- the names are in use, so what fails is refused by the system
  have hts : Tolerates (fun f => tolerated f ∧ ∃ e, f = .system e)
      (a ++ [n]) := by
    refine ⟨fun subject => ⟨ht.tooLong subject, _, rfl⟩, fun hnull => ?_⟩
    have hc := h.fits.clear
    rw [Disk.hasNull_descend, hnull, Bool.or_true] at hc
    cases hc
  refine Turns.ensuring
    (p := fun _ w => w = ((opened v a n k c t).cut
      (a ++ [k] ++ [n])).set (a ++ [n] ++ [payload]) (.file c t))
    (q := fun f w => tolerated f ∧ w = staged v a k)
    ((h.turns_exchange hp hts).rescue ?_) ?_ ?_
  · intro _ w hmid
    obtain ⟨⟨hf, e, rfl⟩, hw⟩ := hmid
    refine (h.turns_putBack ht hw).bind ?_
    intro _ _ heq
    subst heq
    exact turns_throw ⟨hf, rfl⟩
  · intro _ _ heq
    subst heq
    refine h.turns_closeStaging ht ?_ ?_ ?_
    · simp [opened, parked, staged, View.set, View.cut, hnk]
    · intro j
      by_cases hj : j = n
      · simp [View.set, View.cut, hnk, hj]
      · have hnj : n ≠ j := fun e => hj e.symm
        simp [opened, parked, staged, View.set, View.cut, hnk, hnj]
    · exact h.cut_swapped
  · intro f _ hmid
    obtain ⟨hf, rfl⟩ := hmid
    exact h.turns_closeStaging ht (by simp [staged])
      (fun j => by simp [staged, View.set]) hf

end Site

end TreeReplica
