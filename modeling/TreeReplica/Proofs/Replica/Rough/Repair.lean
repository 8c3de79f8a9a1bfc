/-
The repair of parents where nothing is known of a replica but that no link
is in it. If it goes well the places on the way are directories and
nothing else has changed (`Chained`). If it fails the system is to blame,
and it has stopped at one ancestor: those above it are repaired, and the
entry at it is what it was (`Stopped`). Each step is all or nothing, but
for an empty staging directory that it may leave beside the entry
(`Left`); the run follows by induction on the names of the way.
-/
import TreeReplica.Proofs.Disk.Linkless
import TreeReplica.Proofs.Replica.Stems

namespace TreeReplica

open Work

namespace View

variable {payload : String} {v w : View} {a l m start parts : Location}
  {n k : String} {c : Bytes} {t : Stamp}

-- ======================================================== what is left

/-- What a step at the name `n` below `a` leaves when it fails: all that
was there, and maybe an empty staging directory beside the file of that
name. The paths of both fit then, and that of the file inside the
directory does not. -/
inductive Left (fits : Location → Prop) (a : Location) (n : String)
    (v : View) : View → Prop
  | same : Left fits a n v v
  | staging (i : Nat) (apart : Disk.stagingName i ≠ n)
      (beside : ∃ c t, v (a ++ [n]) = some (.file c t))
      (free : v (a ++ [Disk.stagingName i]) = none)
      (fitsFile : fits (a ++ [n]))
      (fitsStaging : fits (a ++ [Disk.stagingName i]))
      (cramped : ¬ fits (a ++ [Disk.stagingName i] ++ [n])) :
      Left fits a n v (staged v a (Disk.stagingName i))

theorem Left.stems {fits : Location → Prop} (h : Left fits a n v w) :
    Stems payload (a ++ [n]) v w := by
  cases h with
  | same => exact .refl payload _ v
  | staging i => exact stems_staged payload (List.prefix_append a [n]) v i

/-- A repair that stopped at an ancestor: the chain is made above it, and
the step at it failed. -/
def Stopped (fits : Location → Prop) (payload : String) (v : View)
    (start parts ancestor : Location) (w : View) : Prop :=
  ∃ done n later u, parts = done ++ n :: later
    ∧ ancestor = start ++ done ++ [n]
    ∧ Chained payload v start done u ∧ Left fits (start ++ done) n u w

theorem Chained.stems (h : Chained payload v start parts w) :
    Stems payload (start ++ parts) v w := by
  intro m x hm
  by_cases hmade : ∃ p, p <+: parts ∧ p ≠ [] ∧ m = start ++ p
  · obtain ⟨p, hp, hne, rfl⟩ := hmade
    rw [h.made p hp hne] at hm
    cases hm
    exact .way ((List.prefix_append_right_inj start).mpr hp)
  by_cases hslot : ∃ p, p <+: parts ∧ p ≠ [] ∧ m = start ++ p ++ [payload]
  · obtain ⟨p, hp, hne, rfl⟩ := hslot
    rw [h.slot p hp hne] at hm
    unfold slotAfter at hm
    split at hm
    · next c t hfile =>
        split at hm
        · cases hm
        · next hfull =>
            cases hm
            exact .slot ((List.prefix_append_right_inj start).mpr hp) rfl
              hfull hfile
    · exact .stays hm
  · refine .stays ?_
    rw [← hm, h.kept m]
    intro p hp hne
    exact ⟨fun heq => hmade ⟨p, hp, hne, heq⟩,
      fun heq => hslot ⟨p, hp, hne, heq⟩⟩

theorem Stopped.stems {fits : Location → Prop} (hpay : payload ∉ start ++ parts)
    (h : Stopped fits payload v start parts l w) :
    Stems payload (start ++ parts) v w := by
  obtain ⟨done, n, later, u, rfl, -, hchain, hleft⟩ := h
  have hway : start ++ done ++ [n] <+: start ++ (done ++ n :: later) :=
    ⟨later, by simp⟩
  exact (hchain.stems.below ((List.prefix_append _ [n]).trans hway)).trans
    hpay (hleft.stems.below hway)

/-- A chain that is made keeps every directory that was there. -/
theorem Chained.keeps (hl : v.Linkless)
    (h : Chained payload v start parts w) (hm : v m = some .directory) :
    w m = some .directory := by
  by_cases hmade : ∃ p, p <+: parts ∧ p ≠ [] ∧ m = start ++ p
  · obtain ⟨p, hp, hne, rfl⟩ := hmade
    exact h.made p hp hne
  by_cases hslot : ∃ p, p <+: parts ∧ p ≠ [] ∧ m = start ++ p ++ [payload]
  · obtain ⟨p, hp, hne, rfl⟩ := hslot
    have habove := hl.above (start ++ p) [payload] (by simp) (by rw [hm]; simp)
    rw [h.slot p hp hne, slotAfter, habove]
    exact hm
  · rw [h.kept m, hm]
    intro p hp hne
    exact ⟨fun heq => hmade ⟨p, hp, hne, heq⟩,
      fun heq => hslot ⟨p, hp, hne, heq⟩⟩

/-- So does a conversion. -/
theorem Linkless.convert_keeps (hl : v.Linkless)
    (hm : v m = some .directory) :
    v.convert payload l m = some .directory := by
  by_cases hself : m = l
  · rw [hself, convert_self]
  by_cases hslot : m = l ++ [payload]
  · have hdir := hl.above l [payload] (by simp) (by simp [← hslot, hm])
    rw [convert_of_directory hdir, hm]
  · rw [hl.convert_kept hself hslot, hm]

/-- A directory is apart from a file that is exchanged and from the name
that is free. -/
theorem Exchange.apart_of_directory (h : Exchange v a n k c t)
    (hm : v m = some .directory) : ¬ a ++ [n] <+: m ∧ ¬ a ++ [k] <+: m := by
  constructor
  · intro hp
    by_cases heq : m = a ++ [n]
    · rw [heq, h.file] at hm
      cases hm
    · rw [h.linkless.below (by simp [h.file]) hp heq] at hm
      cases hm
  · intro hp
    rw [h.below hp] at hm
    cases hm

end View

namespace Footing

open View

variable {s : Footing} {v : View} {before : Host} {payload : String}
  {a l : Location} {n k : String} {c : Bytes} {t : Stamp}

-- ========================================================== relocation

/-- Opening a staging directory below a directory. -/
theorem bears_openStaging (ho : s.Open v) (ha : AllSegments a) :
    Carries (s.Bears before) (Repair.openStaging (s.path.descend a)) v
      (fun p w => ∃ i, s.Fits (a ++ [Disk.stagingName i])
        ∧ v (a ++ [Disk.stagingName i]) = none
        ∧ p = s.path.descend (a ++ [Disk.stagingName i])
        ∧ w = staged v a (Disk.stagingName i))
      (fun f w => (∃ e, f = .system e) ∧ w = v) := by
  intro host hs
  obtain ⟨i, hi⟩ : ∃ i, host.disk.makeStaging (s.path.descend a)
        (host.draw host.log.length)
      = (do
          let d ← host.disk.makeDirectory
            ((s.path.descend a).child (Disk.stagingName i))
          return ((s.path.descend a).child (Disk.stagingName i), d)) :=
    ⟨_, rfl⟩
  rw [Path.child_descend] at hi
  have hmake := bears_makeDirectory ho
    (ha.concat (isSegment_stagingName i))
    (g := fun _ w => s.Fits (a ++ [Disk.stagingName i])
      ∧ v (a ++ [Disk.stagingName i]) = none
      ∧ w = staged v a (Disk.stagingName i))
    (q := fun f w => (∃ e, f = .system e) ∧ w = v)
    (fun fits _ hfree => ⟨fits, hfree, rfl⟩) (fun e _ => ⟨⟨e, rfl⟩, rfl⟩)
    host hs
  unfold Repair.openStaging
  simp only [act] at hmake
  rw [hi]
  cases hr : host.disk.makeDirectory
      (s.path.descend (a ++ [Disk.stagingName i])) with
  | ok d =>
      rw [hr] at hmake
      obtain ⟨w, hw, fits, hfree, heq⟩ := hmake
      exact ⟨w, hw, i, fits, hfree, rfl, heq⟩
  | error f =>
      rw [hr] at hmake
      exact hmake

section Exchange

variable (ho : s.Open v) (h : Exchange v a n k c t)
  (hn : AllSegments (a ++ [n])) (hk : IsSegment k)

include ho h

/-- The footing is open as long as only the file and the free name are
changed. -/
private theorem open_of_apart {w : View}
    (hw : ∀ m, ¬ a ++ [n] <+: m → ¬ a ++ [k] <+: m → w m = v m) :
    s.Open w := by
  refine ho.mono fun m hm => ?_
  obtain ⟨hn, hk⟩ := h.apart_of_directory hm
  rw [hw m hn hk, hm]

/-- So it is at every point of the exchange. -/
theorem open_exchange :
    s.Open (staged v a k) ∧ s.Open (parked v a n k c t)
      ∧ s.Open (opened v a n k c t)
      ∧ s.Open ((opened v a n k c t).cut (a ++ [n])) := by
  have hmoved : ∀ {m : Location}, ¬ a ++ [k] <+: m →
      ¬ a ++ [k] ++ [n] <+: m :=
    fun hk hp => hk ((List.prefix_append _ [n]).trans hp)
  have hparked : ∀ m, ¬ a ++ [n] <+: m → ¬ a ++ [k] <+: m →
      parked v a n k c t m = v m := by
    intro m hn hk
    rw [parked, set_outside (hmoved hk), cut_outside hn, staged,
      set_outside hk]
  refine ⟨open_of_apart ho h fun m _ hk => set_outside hk _,
    open_of_apart ho h hparked,
    open_of_apart ho h fun m hn hk => ?_, open_of_apart ho h fun m hn hk => ?_⟩
  · rw [opened, set_outside hn, hparked m hn hk]
  · rw [cut_outside hn, opened, set_outside hn, hparked m hn hk]

include hn hk

/-- The three steps of the exchange: only the last of them can fail once
the first went well, and then every path is known to fit. -/
theorem bears_exchange (hp : IsSegment payload) :
    Carries (s.Bears before) (do
        act (·.move (s.path.descend (a ++ [n]))
          (s.path.descend (a ++ [k] ++ [n])))
        act (·.makeDirectory (s.path.descend (a ++ [n])))
        act (·.move (s.path.descend (a ++ [k] ++ [n]))
          (s.path.descend (a ++ [n] ++ [payload]))))
      (staged v a k)
      (fun _ w => s.Fits (a ++ [k] ++ [n])
        ∧ w = ((opened v a n k c t).cut (a ++ [k] ++ [n])).set
          (a ++ [n] ++ [payload]) (.file c t))
      (fun f w => (∃ e, f = .system e) ∧ (w = staged v a k
        ∨ w = opened v a n k c t ∧ s.Fits (a ++ [n])
          ∧ s.Fits (a ++ [k] ++ [n]))) := by
  have hkn := h.apart
  have hnk : n ≠ k := fun e => hkn e.symm
  have hmoved : AllSegments (a ++ [k] ++ [n]) :=
    ((hn.above (List.prefix_append _ _)).concat hk).concat (hn n (by simp))
  obtain ⟨hstaged, hparked, hopened, -⟩ := open_exchange ho h
  refine (bears_move (g := fun _ w => s.Fits (a ++ [n])
      ∧ s.Fits (a ++ [k] ++ [n]) ∧ w = parked v a n k c t) hstaged hn hmoved
    (c := c) (t := t) ?_ ?_ (fun fits fits' _ => ⟨fits, fits', rfl⟩)
    (fun e _ => ⟨⟨e, rfl⟩, Or.inl rfl⟩)).bind ?_
  · simp [staged, View.set, hkn, h.file]
  · simp [staged, View.set]
  intro _ _ hmid
  obtain ⟨fits, fits', rfl⟩ := hmid
  have hparent : parked v a n k c t a = some .directory := by
    simp [parked, staged, View.set, View.cut, h.parent]
  have hfree : parked v a n k c t (a ++ [n]) = none := by
    simp [parked, View.set, View.cut, hkn]
  refine (bears_makeDirectory (g := fun _ w => w = opened v a n k c t)
    hparked hn (fun _ _ _ => rfl)
    (fun e hno => absurd ⟨fits, hparent, hfree⟩ hno)).bind ?_
  intro _ _ heq
  subst heq
  refine bears_move (c := c) (t := t) hopened hmoved (hn.concat hp) ?_ ?_
    (fun _ _ _ => ⟨fits', rfl⟩)
    (fun e _ => ⟨⟨e, rfl⟩, Or.inr ⟨rfl, fits, fits'⟩⟩)
  · simp [opened, parked, View.set, hnk]
  · simp [opened, View.set]

/-- Putting the file back after a fault, whichever step it stopped. -/
theorem bears_putBack {w : View} (hw : w = staged v a k
      ∨ w = opened v a n k c t ∧ s.Fits (a ++ [n])
        ∧ s.Fits (a ++ [k] ++ [n])) :
    Carries (s.Bears before) (Repair.putBack (s.path.descend (a ++ [n]))
        (s.path.descend (a ++ [k] ++ [n]))) w
      (fun _ w' => w' = staged v a k)
      (fun f w' => (∃ e, f = .system e) ∧ w' = staged v a k) := by
  have hkn := h.apart
  have hnk : n ≠ k := fun e => hkn e.symm
  have hmoved : AllSegments (a ++ [k] ++ [n]) :=
    ((hn.above (List.prefix_append _ _)).concat hk).concat (hn n (by simp))
  obtain ⟨hstaged, -, hopened, hcut⟩ := open_exchange ho h
  unfold Repair.putBack
  rcases hw with rfl | ⟨rfl, fits, fits'⟩
  · refine (bears_reaches (g := fun b w' => b = false
        ∧ w' = staged v a k) hstaged hmoved ⟨?_, rfl⟩
      (fun e _ => ⟨⟨e, rfl⟩, rfl⟩)).bind ?_
    · simp [staged, View.set]
    intro _ _ hmid
    obtain ⟨rfl, rfl⟩ := hmid
    exact carries_pure rfl
  · have hfile : opened v a n k c t (a ++ [k] ++ [n]) = some (.file c t) := by
      simp [opened, parked, View.set, hnk]
    refine (bears_reaches (g := fun b w' => b = true
        ∧ w' = opened v a n k c t) hopened hmoved ⟨by rw [hfile]; rfl, rfl⟩
      (fun e hno => absurd fits' hno)).bind ?_
    intro _ _ hmid
    obtain ⟨rfl, rfl⟩ := hmid
    refine (bears_isDirectory (g := fun b w' => b = true
        ∧ w' = opened v a n k c t) hopened hn
      (fun _ => ⟨by simp [opened], rfl⟩)
      (fun e hno => absurd fits hno)).bind ?_
    intro _ _ hmid
    obtain ⟨rfl, rfl⟩ := hmid
    have hempty : ∀ j, opened v a n k c t (a ++ [n] ++ [j]) = none :=
      fun j => by simp [opened, View.set]
    refine (bears_removeDirectory
      (g := fun _ w' => w' = (opened v a n k c t).cut (a ++ [n])) hopened hn
      rfl
      (fun e hno => absurd ⟨fits, set_self .., hempty⟩ hno)).bind ?_
    intro _ _ heq
    subst heq
    have hparent : (opened v a n k c t).cut (a ++ [n]) a
        = some .directory := by
      simp [opened, parked, staged, View.set, View.cut, h.parent]
    refine bears_move (c := c) (t := t) hcut hmoved hn ?_ ?_
      (fun _ _ _ => h.restored)
      (fun e hno => absurd ⟨fits', fits, hparent⟩ hno)
    · simpa [View.cut, hnk] using hfile
    · simp [View.cut]

end Exchange

/-- Taking the staging directory away once the file has left it. -/
private theorem bears_closeStaging {w : View} {p : Path} {g : View → Prop}
    {q : Fault → View → Prop} (ho : s.Open w) (hk : AllSegments (a ++ [k]))
    (hn : IsSegment n) (hempty : ∀ j, w (a ++ [k] ++ [j]) = none)
    (hg : g (w.cut (a ++ [k])))
    (hb : ∀ e, ¬ (s.Fits (a ++ [k] ++ [n]) ∧ s.Fits (a ++ [k])
      ∧ w (a ++ [k]) = some .directory) → q (.system e) w) :
    Carries (s.Bears before) (Repair.closeStaging p (s.path.descend (a ++ [k]))
        (s.path.descend (a ++ [k] ++ [n]))) w (fun _ w' => g w') q := by
  unfold Repair.closeStaging
  refine (bears_reaches (g := fun b w' => b = false ∧ w' = w)
    ho (hk.concat hn) ⟨by rw [hempty n]; rfl, rfl⟩
    (fun e hno => hb e fun hp => hno hp.1)).bind ?_
  intro _ _ hmid
  obtain ⟨rfl, rfl⟩ := hmid
  exact bears_removeDirectory ho hk hg
    (fun e hno => hb e fun hp => hno ⟨hp.2.1, hp.2.2, hempty⟩)

/-- Exchanging a file for a directory that holds it as its payload. Where
it fails the file is where it was, and an empty staging directory may be
beside it. -/
theorem bears_relocate (ho : s.Open v) (hp : IsSegment payload)
    (hx : v (a ++ [n]) = some (.file c t)) (hn : AllSegments (a ++ [n]))
    (hfits : s.Fits (a ++ [n])) :
    Carries (s.Bears before)
      (Repair.relocate (s.path.descend (a ++ [n])) payload) v
      (fun _ w => w = (v.set (a ++ [n]) .directory).set
        (a ++ [n] ++ [payload]) (.file c t))
      (fun f w => (∃ e, f = .system e) ∧ Left s.Fits a n v w) := by
  refine bears_of_linkless fun hl => ?_
  have ha := hn.above (List.prefix_append a [n])
  have hname := hn n (by simp)
  unfold Repair.relocate
  rw [Path.parent_descend, Path.name_descend]
  refine ((bears_openStaging ho ha).mono (fun _ _ hg => hg) ?_).bind ?_
  · intro f w hmid
    obtain ⟨hf, rfl⟩ := hmid
    exact ⟨hf, .same⟩
  intro _ _ hmid
  obtain ⟨i, fitsk, hfree, rfl, rfl⟩ := hmid
  have hk := isSegment_stagingName i
  have h : Exchange v a n (Disk.stagingName i) c t := ⟨hl, hx, hfree⟩
  have hnk : n ≠ Disk.stagingName i := fun e => h.apart e.symm
  obtain ⟨hstaged, -, hopened, -⟩ := open_exchange ho h
  rw [Path.child_descend, Remote.payloadSlot_descend hp.toIsName]
  refine Carries.ensuring
    (p := fun _ w => s.Fits (a ++ [Disk.stagingName i] ++ [n])
      ∧ w = ((opened v a n (Disk.stagingName i) c t).cut
        (a ++ [Disk.stagingName i] ++ [n])).set (a ++ [n] ++ [payload])
          (.file c t))
    (q := fun f w => (∃ e, f = .system e)
      ∧ w = staged v a (Disk.stagingName i))
    ((bears_exchange ho h hn hk hp).rescue ?_) ?_ ?_
  · intro _ w hmid
    obtain ⟨⟨e, rfl⟩, hw⟩ := hmid
    refine (bears_putBack ho h hn hk hw).bind ?_
    intro _ _ heq
    subst heq
    exact carries_throw ⟨⟨e, rfl⟩, rfl⟩
  · intro _ _ hmid
    obtain ⟨fits, rfl⟩ := hmid
    have hdir : ((opened v a n (Disk.stagingName i) c t).cut
        (a ++ [Disk.stagingName i] ++ [n])).set (a ++ [n] ++ [payload])
          (.file c t) (a ++ [Disk.stagingName i]) = some .directory := by
      simp [opened, parked, staged, View.set, View.cut, hnk]
    refine bears_closeStaging ?_ (ha.concat hk) hname ?_ h.cut_swapped
      (fun e hno => absurd ⟨fits, fitsk, hdir⟩ hno)
    · refine open_of_apart ho h fun m hm hm' => ?_
      rw [set_outside fun hp => hm ((List.prefix_append _ _).trans hp),
        cut_outside fun hp => hm' ((List.prefix_append _ _).trans hp), opened,
        set_outside hm, parked,
        set_outside fun hp => hm' ((List.prefix_append _ _).trans hp),
        cut_outside hm, staged, set_outside hm']
    · intro j
      by_cases hj : j = n
      · simp [View.set, View.cut, hnk, hj]
      · have hnj : n ≠ j := fun e => hj e.symm
        simp [opened, parked, staged, View.set, View.cut, hnk, hnj]
  · intro f _ hmid
    obtain ⟨hf, rfl⟩ := hmid
    have hdir : staged v a (Disk.stagingName i) (a ++ [Disk.stagingName i])
        = some .directory := set_self ..
    refine bears_closeStaging hstaged (ha.concat hk) hname
      (fun j => by simp [staged, View.set]) ⟨hf, ?_⟩
      (fun e hno => ⟨⟨e, rfl⟩, .staging i h.apart ⟨c, t, hx⟩ hfree hfits
        fitsk fun hmoved => hno ⟨hmoved, fitsk, hdir⟩⟩)
    -- without the staging directory all is as it was
    rw [staged, cut_set, hl.cut_of_none hfree]
    exact .same

-- ============================================================ the chain

/-- Making one ancestor a directory. -/
theorem bears_makeAncestor (ho : s.Open v) (hp : IsSegment payload)
    (hn : AllSegments (a ++ [n])) :
    Carries (s.Bears before)
      (Repair.makeAncestor payload (s.path.descend (a ++ [n]))) v
      (fun _ w => s.Fits (a ++ [n]) ∧ w = v.convert payload (a ++ [n]))
      (fun f w => (∃ e, f = .system e) ∧ Left s.Fits a n v w) := by
  unfold Repair.makeAncestor
  refine (bears_isDirectory (g := fun b w =>
      (s.Fits (a ++ [n]) ∨ v (a ++ [n]) = none)
        ∧ b = decide (v (a ++ [n]) = some .directory) ∧ v = w) ho hn
    (fun hfits => ⟨hfits, rfl, rfl⟩) (fun e _ => ⟨⟨e, rfl⟩, .same⟩)).bind ?_
  intro _ _ hmid
  obtain ⟨hfits, rfl, rfl⟩ := hmid
  by_cases hd : v (a ++ [n]) = some .directory
  · rw [if_pos (by simpa using hd)]
    exact carries_pure ⟨hfits.resolve_right (by simp [hd]),
      (convert_of_directory hd payload).symm⟩
  rw [if_neg (by simpa using hd)]
  refine carries_get_bind fun host hs => ?_
  obtain ⟨m, hm, rfl⟩ := hs.tree
  have hl := hs.linkless
  by_cases hocc : host.disk.occupied (s.path.descend (a ++ [n])) = true
  · rw [if_pos hocc]
    rw [hm, occupied_iff ho hl (by simp) hn] at hocc
    obtain ⟨hfits, hthere⟩ := hocc
    have ha := hl.above a [n] (by simp) hthere
    obtain ⟨x, hx⟩ := Option.ne_none_iff_exists'.mp hthere
    cases x with
    | directory => exact absurd hx hd
    | link t => exact absurd hx (hl.noLinks _ t)
    | file c t =>
        refine (bears_size (g := fun k w => k = c.length ∧ w = m.view) ho hn
          hx ⟨rfl, rfl⟩ (fun e _ => ⟨⟨e, rfl⟩, .same⟩)).bind ?_
        intro _ _ hmid
        obtain ⟨rfl, rfl⟩ := hmid
        by_cases hc : c.length = 0
        · rw [if_pos hc]
          refine (bears_removeFile (g := fun _ w => w = m.view.cut (a ++ [n]))
            ho hn (fun _ _ => rfl) (fun e => ⟨⟨e, rfl⟩, .same⟩)).bind ?_
          intro _ _ heq
          subst heq
          have hopen : s.Open (m.view.cut (a ++ [n])) := ho.cut hl hd
          -- the place is free now, so nothing can go wrong
          have hfree : m.view.cut (a ++ [n]) (a ++ [n]) = none :=
            cut_within (List.prefix_refl _)
          have hparent : m.view.cut (a ++ [n]) a = some .directory := by
            rw [cut_outside (by simp), ha]
          refine bears_makeDirectory hopen hn (fun _ _ _ => ⟨hfits, ?_⟩)
            (fun e hno => absurd ⟨hfits, hparent, hfree⟩ hno)
          rw [set_cut]
          simp only [convert, hx]
          rw [if_pos hc]
        · rw [if_neg hc]
          refine (bears_say (by simp) _ (g := fun _ w => w = m.view) rfl).bind ?_
          intro _ _ heq
          subst heq
          refine (bears_relocate ho hp hx hn hfits).mono ?_ (fun _ _ h => h)
          intro _ _ heq
          subst heq
          refine ⟨hfits, ?_⟩
          simp only [convert, hx]
          rw [if_neg hc]
  · rw [if_neg hocc]
    refine bears_makeDirectory ho hn (fun fits _ hx => ⟨fits, ?_⟩)
      (fun e _ => ⟨⟨e, rfl⟩, .same⟩)
    simp [convert, hx]

/-- Making the places that the parts name directories, from a directory
down. The induction is on the parts; each step either converts its place,
or is the one at which the repair stops. -/
theorem bears_makeBelow (ho : s.Open v) (hp : IsSegment payload)
    {start parts : Location} (hn : AllSegments (start ++ parts))
    (hpay : payload ∉ parts) :
    Carries (s.Bears before)
      (Repair.makeBelow payload (s.path.descend start) parts) v
      (fun _ w => Chained payload v start parts w
        ∧ (parts ≠ [] → s.Fits (start ++ parts)))
      (fun f w => ∃ l e, f = .unusable (.blocked (s.path.descend l) e)
        ∧ Stopped s.Fits payload v start parts l w) := by
  induction parts generalizing start v with
  | nil => exact carries_pure ⟨.refl payload v start, fun h => absurd rfl h⟩
  | cons part rest ih =>
      have hsplit : start ++ part :: rest = start ++ [part] ++ rest := by simp
      rw [hsplit] at hn ⊢
      have hrest : payload ∉ rest :=
        fun h => hpay (List.mem_cons_of_mem part h)
      refine bears_of_linkless fun hl => ?_
      unfold Repair.makeBelow
      rw [Path.child_descend]
      refine Carries.bind (Carries.recast ?_) (p := fun _ w =>
        s.Fits (start ++ [part])
          ∧ w = v.convert payload (start ++ [part])) ?_
      · refine (bears_makeAncestor ho hp (allSegments_append.mp hn).1).mono
          (fun _ _ h => h) ?_
        intro _ w hmid
        obtain ⟨⟨e, rfl⟩, hleft⟩ := hmid
        refine ⟨_, e, rfl, [], part, rest, v, rfl, by simp, .refl _ _ _, ?_⟩
        rwa [List.append_nil]
      intro _ _ hmid
      obtain ⟨hfits, rfl⟩ := hmid
      have hopen : s.Open (v.convert payload (start ++ [part])) :=
        ho.mono fun _ hm => hl.convert_keeps hm
      refine (ih hopen hn hrest).mono ?_ ?_
      · intro _ w hmid
        obtain ⟨hchain, hmore⟩ := hmid
        refine ⟨hl.chained_cons hrest hchain, fun _ => ?_⟩
        by_cases hnil : rest = []
        · rwa [hnil, List.append_nil]
        · exact hmore hnil
      · intro f w hmid
        obtain ⟨l, e, rfl, done, n, later, u, rfl, rfl, hchain, hleft⟩ := hmid
        refine ⟨_, e, rfl, part :: done, n, later, u, rfl, by simp,
          hl.chained_cons (fun h => hrest ?_) hchain, ?_⟩
        · exact List.mem_append_left _ h
        · rwa [show start ++ part :: done = start ++ [part] ++ done by simp]

/-- The way to `a` is made from the root, and what was made is then looked
for: its path was passed to the system before, so it is found. -/
theorem bears_ensureChain_of {a : Location} {good : View → Prop}
    {bad : Repair.Failure → View → Prop} (hn : AllSegments a)
    (hroot : a = [] → good v)
    (hmake : Carries (s.Bears before) (Repair.makeBelow payload s.path a) v
      (fun _ w => good w
        ∧ (a ≠ [] → s.Open w ∧ s.Fits a ∧ w a = some .directory)) bad) :
    Carries (s.Bears before)
      (Repair.ensureChain (s.path.descend a) s.path payload) v
      (fun _ w => good w) bad := by
  unfold Repair.ensureChain
  by_cases ha : a = []
  · subst ha
    rw [Path.descend_nil, if_pos rfl]
    exact carries_pure (hroot rfl)
  rw [if_neg fun h => ha (Path.descend_eq_self.mp h),
    Path.relativeTo?_descend]
  refine hmake.bind ?_
  intro _ w hmid
  obtain ⟨hgood, hfound⟩ := hmid
  obtain ⟨hopen, hfits, hd⟩ := hfound ha
  refine Carries.bind (p := fun b w' => b = true ∧ w' = w)
    (Carries.recast (bears_isDirectory hopen hn (fun _ => ⟨by simp [hd], rfl⟩)
      (fun e hno => absurd hfits hno))) ?_
  intro _ _ hmid
  obtain ⟨rfl, rfl⟩ := hmid
  exact carries_pure hgood

/-- Making every ancestor of what is to be kept below `a`, and `a` itself,
a directory. -/
theorem bears_ensureChain (ho : s.Open v) (hp : IsSegment payload)
    (hn : AllSegments a) (hpay : payload ∉ a) :
    Carries (s.Bears before)
      (Repair.ensureChain (s.path.descend a) s.path payload) v
      (fun _ w => Chained payload v [] a w)
      (fun f w => ∃ l e, f = .unusable (.blocked (s.path.descend l) e)
        ∧ Stopped s.Fits payload v [] a l w) := by
  refine bears_of_linkless fun hl => ?_
  have hmake : Carries (s.Bears before) _ v _ _ :=
    bears_makeBelow ho hp (show AllSegments ([] ++ a) from hn) hpay
  rw [Path.descend_nil] at hmake
  refine bears_ensureChain_of hn (fun ha => ha ▸ .refl payload v [])
    (hmake.mono ?_ (fun _ _ h => h))
  intro _ w hmid
  obtain ⟨hchain, hfits⟩ := hmid
  exact ⟨hchain, fun ha => ⟨ho.mono fun _ hm => hchain.keeps hl hm, hfits ha,
    hchain.made a (List.prefix_refl a) ha⟩⟩

-- ==================================================== nothing to repair

/-- Where directories stand all the way, nothing is done. -/
theorem bears_makeBelow_standing (ho : s.Open v) {start parts : Location}
    (hn : AllSegments (start ++ parts)) (hfits : s.Fits (start ++ parts))
    (hd : v (start ++ parts) = some .directory) :
    Carries (s.Bears before)
      (Repair.makeBelow payload (s.path.descend start) parts) v
      (fun _ w => w = v) (fun _ _ => False) := by
  induction parts generalizing start with
  | nil => exact carries_pure rfl
  | cons part rest ih =>
      have hsplit : start ++ part :: rest = start ++ [part] ++ rest := by simp
      have hway : start ++ [part] <+: start ++ part :: rest :=
        ⟨rest, hsplit.symm⟩
      refine bears_of_linkless fun hl => ?_
      have hpart : v (start ++ [part]) = some .directory := by
        by_cases hnil : rest = []
        · rwa [hsplit, hnil, List.append_nil] at hd
        · exact hl.above _ rest hnil (by simp [← hsplit, hd])
      unfold Repair.makeBelow Repair.makeAncestor
      rw [Path.child_descend]
      refine Carries.bind (p := fun _ w => w = v) (Carries.recast
        ((bears_isDirectory (g := fun b w => b = true ∧ w = v) ho
          (hn.above hway) (fun _ => ⟨by simp [hpart], rfl⟩)
          (fun e hno => absurd (hfits.above hway) hno)).bind ?_)) ?_
      · intro _ _ hmid
        obtain ⟨rfl, rfl⟩ := hmid
        exact carries_pure rfl
      · intro _ _ heq
        subst heq
        exact ih (hsplit ▸ hn) (hsplit ▸ hfits) (hsplit ▸ hd)

theorem bears_ensureChain_standing (ho : s.Open v) (hn : AllSegments a)
    (hfits : s.Fits a) (hd : v a = some .directory) :
    Carries (s.Bears before)
      (Repair.ensureChain (s.path.descend a) s.path payload) v
      (fun _ w => w = v) (fun _ _ => False) := by
  have hmake : Carries (s.Bears before)
      (Repair.makeBelow payload (s.path.descend []) a) v _ _ :=
    bears_makeBelow_standing ho (show AllSegments ([] ++ a) from hn) hfits hd
  rw [Path.descend_nil] at hmake
  refine bears_ensureChain_of hn (fun _ => rfl)
    (hmake.mono ?_ (fun _ _ h => h))
  intro _ w heq
  subst heq
  exact ⟨rfl, fun _ => ⟨ho, hfits, hd⟩⟩

end Footing

/-- The failure is not that of an argument that cannot be passed to the
system. -/
def Repair.Failure.Refusal (f : Repair.Failure) : Prop :=
  ∀ e, f ≠ .disk (.argument e)

end TreeReplica
