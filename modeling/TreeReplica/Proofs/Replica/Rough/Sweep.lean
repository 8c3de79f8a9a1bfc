/-
What the repair of parents leaves of its staging directories. A step
converts a place, or it fails at a file and may leave the staging
directory that it has made beside it. So of the names that start as
staging names do only those on the way itself can be new, and one more
(`Swept`). The one more is there only if the repair stopped at a file, and
the path of that file inside the staging directory is too long for the
system: the directory is taken away again after that path was asked for,
and the question fails (`Stranded`, `ensureChain_sweeps`). Wherever that
path is too long it does stay (`ensureChain_leaves`).
-/
import TreeReplica.Proofs.Replica.Rough.Lossless
import TreeReplica.Replica.Apply

namespace TreeReplica

open Work

/-- Does a name start as the names of staging directories do? -/
def Disk.startsStaging (n : String) : Bool :=
  stagingStart.toList.isPrefixOf n.toList

namespace View

variable {payload : String} {v u w : View} {chain a l : Location}
  {n : String} {left : Option Location} {fits : Location → Prop}

-- ================================================================ views

/-- From `v` to `w` no entry has gone and every directory stayed one. Of
the names that start as staging names do, only those of the places on
`chain` are new, and what is `left`. -/
structure Swept (chain : Location) (left : Option Location) (v w : View) :
    Prop where
  stays : ∀ m, v m ≠ none → w m ≠ none
  keeps : ∀ m, v m = some .directory → w m = some .directory
  new : ∀ m k, Disk.startsStaging k → w (m ++ [k]) ≠ none →
    v (m ++ [k]) ≠ none ∨ m ++ [k] <+: chain ∨ m ++ [k] ∈ left

theorem Swept.refl (chain : Location) (v : View) : Swept chain none v v :=
  ⟨fun _ hm => hm, fun _ hm => hm, fun _ _ _ hm => Or.inl hm⟩

theorem Swept.trans (h : Swept chain none v u) (h' : Swept chain left u w) :
    Swept chain left v w := by
  refine ⟨fun m hm => h'.stays m (h.stays m hm),
    fun m hm => h'.keeps m (h.keeps m hm), fun m k hk hm => ?_⟩
  obtain hu | hnew := h'.new m k hk hm
  · obtain hv | hway | hno := h.new m k hk hu
    · exact Or.inl hv
    · exact Or.inr (Or.inl hway)
    · cases hno
  · exact Or.inr hnew

/-- A conversion adds its place and maybe the slot there. -/
theorem Linkless.swept_convert (hl : v.Linkless)
    (hpay : Disk.startsStaging payload = false) (hway : l <+: chain) :
    Swept chain none v (v.convert payload l) := by
  have hkept : ∀ m, m ≠ l → m ≠ l ++ [payload] →
      v.convert payload l m = v m := fun m => hl.convert_kept
  refine ⟨fun m hm => ?_, fun m hm => hl.convert_keeps hm,
    fun m k hk hm => ?_⟩
  · by_cases hself : m = l
    · rw [hself, convert_self]
      simp
    by_cases hslot : m = l ++ [payload]
    · have hdir := hl.above l [payload] (by simp) (hslot ▸ hm)
      rwa [convert_of_directory hdir]
    · rwa [hkept m hself hslot]
  · by_cases hself : m ++ [k] = l
    · exact Or.inr (Or.inl (hself ▸ hway))
    · left
      rwa [← hkept _ hself fun heq => ?_]
      obtain rfl := List.singleton_inj.mp (List.append_inj' heq rfl).2
      rw [hpay] at hk
      cases hk

/-- An empty staging directory at `s` that was left beside the file `n`
below `a`: the path of the file inside it does not fit. -/
structure Stranded (fits : Location → Prop) (a : Location) (n : String)
    (v w : View) (s : Location) : Prop where
  named : ∃ i, s = a ++ [Disk.stagingName i]
  free : v s = none
  made : w s = some .directory
  empty : ∀ k, w (s ++ [k]) = none
  beside : ∃ c t, w (a ++ [n]) = some (.file c t)
  fitsFile : fits (a ++ [n])
  fitsSelf : fits s
  cramped : ¬ fits (s ++ [n])

/-- A step that fails leaves all as it was, or a staging directory. -/
theorem Left.swept (hl : v.Linkless) (chain : Location)
    (h : Left fits a n v w) :
    ∃ left, Swept chain left v w ∧ ∀ s ∈ left, Stranded fits a n v w s := by
  cases h with
  | same => exact ⟨none, .refl chain v, fun s hs => by cases hs⟩
  | staging i apart beside free fitsFile fitsStaging cramped =>
      obtain ⟨c, t, hfile⟩ := beside
      have houtside : ∀ m, v m ≠ none →
          staged v a (Disk.stagingName i) m = v m := by
        intro m hm
        refine set_outside (fun hp => hm ?_) _
        by_cases heq : m = a ++ [Disk.stagingName i]
        · rw [heq, free]
        · exact hl.below (by simp [free]) hp heq
      refine ⟨some (a ++ [Disk.stagingName i]),
        ⟨fun m hm => by rwa [houtside m hm],
          fun m hm => (houtside m (by simp [hm])).trans hm,
          fun m k _ hm => ?_⟩, ?_⟩
      · by_cases heq : m ++ [k] = a ++ [Disk.stagingName i]
        · exact Or.inr (Or.inr (by rw [heq]; rfl))
        · left
          obtain ⟨x, hx⟩ := Option.ne_none_iff_exists'.mp hm
          obtain ⟨heq', -⟩ | ⟨-, hx⟩ := set_eq_some hx
          · exact absurd heq' heq
          · simp [hx]
      · intro s hs
        obtain rfl := Option.mem_some_iff.mp hs
        exact ⟨⟨i, rfl⟩, free, set_self ..,
          fun k => set_below (List.prefix_append _ [k]) (by simp) _,
          ⟨c, t, (houtside _ (by simp [hfile])).trans hfile⟩,
          fitsFile, fitsStaging, cramped⟩

/-- What was done before does not matter to what is left. -/
theorem Stranded.before {s : Location} (h : Stranded fits a n u w s)
    (hswept : Swept chain left v u) : Stranded fits a n v w s :=
  { h with
    free := Decidable.byContradiction fun hv => hswept.stays s hv h.free }

end View

-- ============================================================== the chain

/-- The way to a place below another leads by that one. -/
theorem Repair.makeBelow_append (payload : String) (start : Path)
    (a b : Location) :
    makeBelow payload start (a ++ b) = (do
      makeBelow payload start a
      makeBelow payload (start.descend a) b) := by
  induction a generalizing start with
  | nil => rw [Path.descend_nil]; rfl
  | cons n a ih =>
      rw [List.cons_append, makeBelow, makeBelow, ih, ← Path.descend_cons]
      simp only [bind_assoc]

namespace Footing

open View

variable {s : Footing} {v : View} {before : Host} {payload : String}

/-- The induction is on the names of the way; what a step converts lies on
it, and the step that fails is the last. -/
theorem sweeps_makeBelow (ho : s.Open v) (hp : IsSegment payload)
    (hpay : Disk.startsStaging payload = false) {start parts : Location}
    (hn : AllSegments (start ++ parts)) :
    Carries (s.Bears before)
      (Repair.makeBelow payload (s.path.descend start) parts) v
      (fun _ w => Swept (start ++ parts) none v w
        ∧ (parts ≠ [] → s.Fits (start ++ parts)
          ∧ w (start ++ parts) = some .directory))
      (fun f w => ∃ a n e left,
        f = .unusable (.blocked (s.path.descend (a ++ [n])) e)
          ∧ a ++ [n] <+: start ++ parts
          ∧ Swept (start ++ parts) left v w
          ∧ ∀ l ∈ left, Stranded s.Fits a n v w l) := by
  induction parts generalizing start v with
  | nil => exact carries_pure ⟨.refl _ v, fun h => absurd rfl h⟩
  | cons part rest ih =>
      have hsplit : start ++ part :: rest = start ++ [part] ++ rest := by simp
      rw [hsplit] at hn ⊢
      have hway : start ++ [part] <+: start ++ [part] ++ rest :=
        List.prefix_append _ _
      refine bears_of_linkless fun hl => ?_
      unfold Repair.makeBelow
      rw [Path.child_descend]
      refine Carries.bind (Carries.recast ?_) (p := fun _ w =>
        s.Fits (start ++ [part])
          ∧ w = v.convert payload (start ++ [part])) ?_
      · refine (bears_makeAncestor ho hp (allSegments_append.mp hn).1).mono
          (fun _ _ h => h) ?_
        intro _ w hmid
        obtain ⟨⟨e, rfl⟩, hleft⟩ := hmid
        obtain ⟨left, hswept, hstranded⟩ :=
          hleft.swept hl (start ++ [part] ++ rest)
        exact ⟨start, part, e, left, rfl, hway, hswept, hstranded⟩
      intro _ _ hmid
      obtain ⟨hfits, rfl⟩ := hmid
      have hstep := hl.swept_convert hpay hway
      refine (ih (ho.mono fun _ hm => hl.convert_keeps hm) hn).mono ?_ ?_
      · intro _ w hmid
        obtain ⟨hswept, hmade⟩ := hmid
        refine ⟨hstep.trans hswept, fun _ => ?_⟩
        by_cases hnil : rest = []
        · subst hnil
          rw [List.append_nil]
          exact ⟨hfits, hswept.keeps _ (convert_self ..)⟩
        · exact hmade hnil
      · intro f w hmid
        obtain ⟨a, n, e, left, rfl, hin, hswept, hstranded⟩ := hmid
        exact ⟨a, n, e, left, rfl, hin, hstep.trans hswept,
          fun l hl => (hstranded l hl).before hstep⟩

/-- Making the way to `a`. -/
theorem sweeps_ensureChain (ho : s.Open v) (hp : IsSegment payload)
    (hpay : Disk.startsStaging payload = false) {a : Location}
    (hn : AllSegments a) :
    Carries (s.Bears before)
      (Repair.ensureChain (s.path.descend a) s.path payload) v
      (fun _ w => Swept a none v w)
      (fun f w => ∃ b n e left,
        f = .unusable (.blocked (s.path.descend (b ++ [n])) e)
          ∧ b ++ [n] <+: a ∧ Swept a left v w
          ∧ ∀ l ∈ left, Stranded s.Fits b n v w l) := by
  have hmake : Carries (s.Bears before) _ v _ _ :=
    sweeps_makeBelow ho hp hpay (show AllSegments ([] ++ a) from hn)
  rw [Path.descend_nil] at hmake
  refine bears_ensureChain_of hn (fun ha => ha ▸ .refl [] v)
    (hmake.mono ?_ (fun _ _ h => h))
  intro _ w hmid
  obtain ⟨hswept, hmade⟩ := hmid
  exact ⟨hswept, fun ha => ⟨ho.mono hswept.keeps, hmade ha⟩⟩

/-- Of a place that does not fit between places that do, it is the path
that is too long. -/
theorem long_of_cramped {a m : Location} {n : String}
    (hfile : s.Fits (a ++ [n])) (hself : s.Fits m)
    (hcramped : ¬ s.Fits (m ++ [n])) :
    ¬ (s.path.descend (m ++ [n])).text.utf8ByteSize < pathLimit := by
  refine fun hshort => hcramped ⟨?_, hshort, fun k hk => ?_⟩
  · have hclear := hself.clear
    have hclearFile := hfile.clear
    rw [Disk.hasNull_descend, Bool.or_eq_false_iff] at hclear hclearFile ⊢
    rw [List.any_append, Bool.or_eq_false_iff] at hclearFile ⊢
    exact ⟨hclear.1, hclear.2, hclearFile.2.2⟩
  · obtain hk | hk := List.mem_append.mp hk
    · exact hself.names k hk
    · exact hfile.names k (List.mem_append_right _ hk)

-- ===================================================== what stays in fact

section Leaves

variable {a rest : Location} {n : String} {c : Bytes} {t : Stamp} {k : Nat}
  (hdraw : before.draw = fun _ => k) (hlt : k < Disk.stagingCount)

include hdraw hlt

/-- A staging name that is always drawn is taken where it is free. -/
theorem bears_openStaging_first (ho : s.Open v)
    (ha : AllSegments a) (hd : v a = some .directory)
    (hfree : v (a ++ [Disk.stagingName k]) = none)
    (hself : s.Fits (a ++ [Disk.stagingName k])) :
    Carries (s.Bears before) (Repair.openStaging (s.path.descend a)) v
      (fun p w => p = s.path.descend (a ++ [Disk.stagingName k])
        ∧ w = staged v a (Disk.stagingName k))
      (fun _ _ => False) := by
  intro host hs
  obtain ⟨m, hm, rfl⟩ := hs.tree
  have hfirst : ∀ names, host.disk.list (s.path.descend a) = .ok names →
      Disk.stagingName k ∉ names := by
    intro names hlist
    have hf := found_true ho hs.linkless ha
    rw [hm] at hlist
    unfold Disk.list Disk.status at hlist
    generalize (s.holding m).find true (s.path.descend a) = result
      at hf hlist
    cases hf with
    | @there x fits stands =>
        cases x with
        | directory cs =>
            cases hlist
            rw [Entry.view_append stands, Entry.view_cons] at hfree
            cases hx : Children.get? cs (Disk.stagingName k) with
            | none => exact Site.child_get?_eq_none.mp hx
            | some y => simp [hx] at hfree
        | file c t => cases hlist
        | link t => cases hlist
    | absent => cases hlist
    | unfit => cases hlist
  have hmake := bears_makeDirectory ho
    (ha.concat (isSegment_stagingName k))
    (g := fun _ w => w = staged m.view a (Disk.stagingName k))
    (q := fun _ _ => False) (fun _ _ _ => rfl)
    (fun e hno => hno ⟨hself, hd, hfree⟩) host hs
  have hk : host.draw host.log.length = k := by rw [hs.drawn, hdraw]
  unfold Repair.openStaging
  rw [hk, Disk.makeStaging_first hlt hfirst, Path.child_descend]
  simp only [act] at hmake
  cases hr : host.disk.makeDirectory
      (s.path.descend (a ++ [Disk.stagingName k])) with
  | ok d =>
      rw [hr] at hmake
      obtain ⟨w, hw, heq⟩ := hmake
      exact ⟨w, hw, rfl, heq⟩
  | error f =>
      rw [hr] at hmake
      obtain ⟨-, -, hno⟩ := hmake
      exact hno.elim

variable (ho : s.Open v) (hp : IsSegment payload)
  (hx : v (a ++ [n]) = some (.file c t))
  (hfree : v (a ++ [Disk.stagingName k]) = none)
  (hself : s.Fits (a ++ [Disk.stagingName k]))
  (hcramped : ¬ s.Fits (a ++ [Disk.stagingName k] ++ [n]))

include ho hp hx hfree hself hcramped

/-- A staging directory that is too deep for the file is left where it was
made. -/
theorem leaves_relocate (hn : AllSegments (a ++ [n])) :
    Carries (s.Bears before)
      (Repair.relocate (s.path.descend (a ++ [n])) payload) v
      (fun _ _ => False)
      (fun f w => (∃ e, f = .system e)
        ∧ w = staged v a (Disk.stagingName k)) := by
  refine bears_of_linkless fun hl => ?_
  have ha := hn.above (List.prefix_append a [n])
  have hk := isSegment_stagingName k
  have hd := hl.above a [n] (by simp) (by simp [hx])
  have h : Exchange v a n (Disk.stagingName k) c t := ⟨hl, hx, hfree⟩
  obtain ⟨hstaged, -, -, -⟩ := open_exchange ho h
  unfold Repair.relocate
  rw [Path.parent_descend, Path.name_descend]
  refine ((bears_openStaging_first hdraw hlt ho ha hd hfree hself).mono
    (fun _ _ hg => hg) (fun _ _ hno => hno.elim)).bind ?_
  intro _ _ hmid
  obtain ⟨rfl, rfl⟩ := hmid
  rw [Path.child_descend, Remote.payloadSlot_descend hp.toIsName]
  refine Carries.ensuring (p := fun _ _ => False)
    (q := fun f w => (∃ e, f = .system e)
      ∧ w = staged v a (Disk.stagingName k)) ?_
    (fun _ _ hno => hno.elim) ?_
  · refine (bears_exchange ho h hn hk hp).mono
      (fun _ _ hg => hcramped hg.1) (fun _ _ hq => hq) |>.rescue ?_
    intro _ w hmid
    obtain ⟨⟨e, rfl⟩, hw⟩ := hmid
    refine (bears_putBack ho h hn hk hw).bind ?_
    intro _ _ heq
    subst heq
    exact carries_throw ⟨⟨e, rfl⟩, rfl⟩
  · -- the same question was asked before
    intro f _ hmid
    obtain ⟨hf, rfl⟩ := hmid
    unfold Repair.closeStaging
    exact (bears_reaches_unfit hstaged ((ha.concat hk).concat (hn n (by simp)))
      (set_self ..) hcramped (g := fun _ _ => False)
      (fun e => ⟨⟨e, rfl⟩, rfl⟩)).bind fun _ _ hno => hno.elim

theorem leaves_makeAncestor (hc : c ≠ []) (hn : AllSegments (a ++ [n]))
    (hfits : s.Fits (a ++ [n])) :
    Carries (s.Bears before)
      (Repair.makeAncestor payload (s.path.descend (a ++ [n]))) v
      (fun _ _ => False)
      (fun f w => (∃ e, f = .system e)
        ∧ w = staged v a (Disk.stagingName k)) := by
  unfold Repair.makeAncestor
  refine (bears_isDirectory (g := fun b w => b = false ∧ w = v) ho hn
    (fun _ => ⟨by simp [hx], rfl⟩)
    (fun e hno => absurd hfits hno)).bind ?_
  intro _ _ hmid
  obtain ⟨rfl, rfl⟩ := hmid
  refine carries_get_bind fun host hs => ?_
  obtain ⟨m, hm, rfl⟩ := hs.tree
  have hocc : host.disk.occupied (s.path.descend (a ++ [n])) = true := by
    rw [hm, occupied_iff ho hs.linkless (by simp) hn]
    exact ⟨hfits, by simp [hx]⟩
  rw [if_pos hocc]
  refine (bears_size (g := fun k w => k = c.length ∧ w = m.view) ho hn hx
    ⟨rfl, rfl⟩ (fun e hno => absurd hfits hno)).bind ?_
  intro _ _ hmid
  obtain ⟨rfl, rfl⟩ := hmid
  rw [if_neg fun hzero => hc (List.length_eq_zero_iff.mp hzero)]
  refine (bears_say (by simp) _ (g := fun _ w => w = m.view) rfl).bind ?_
  intro _ _ heq
  subst heq
  exact leaves_relocate hdraw hlt ho hp hx hfree hself hcramped hn

/-- It is left on the way to a place at the file or below it. -/
theorem leaves_ensureChain (hc : c ≠ [])
    (hn : AllSegments (a ++ n :: rest)) (hfits : s.Fits (a ++ [n])) :
    Carries (s.Bears before)
      (Repair.ensureChain (s.path.descend (a ++ n :: rest)) s.path payload)
      v (fun _ _ => False)
      (fun f w => (∃ e, f
          = .unusable (.blocked (s.path.descend (a ++ [n])) e))
        ∧ w = staged v a (Disk.stagingName k)) := by
  refine bears_of_linkless fun hl => ?_
  have hway : AllSegments (a ++ [n]) := hn.above ⟨rest, by simp⟩
  have hd := hl.above a [n] (by simp) (by simp [hx])
  have hstands : Carries (s.Bears before)
      (Repair.makeBelow payload (s.path.descend []) a) v _ _ :=
    bears_makeBelow_standing ho (hway.above (List.prefix_append a [n]))
      (hfits.above (List.prefix_append a [n])) hd
  rw [Path.descend_nil] at hstands
  unfold Repair.ensureChain
  rw [if_neg fun h => absurd (Path.descend_eq_self.mp h) (by simp),
    Path.relativeTo?_descend]
  simp only
  rw [Repair.makeBelow_append, Repair.makeBelow, Path.child_descend]
  refine Carries.bind (p := fun _ _ => False) ?_ fun _ _ hno => hno.elim
  refine (hstands.mono (fun _ _ hg => hg) fun _ _ hno => hno.elim).bind ?_
  intro _ _ heq
  subst heq
  refine Carries.bind (p := fun _ _ => False) (Carries.recast
    ((leaves_makeAncestor hdraw hlt ho hp hx hfree hself hcramped hc hway
      hfits).mono
      (fun _ _ hg => hg) ?_)) fun _ _ hno => hno.elim
  intro _ _ hmid
  obtain ⟨⟨e, rfl⟩, hw⟩ := hmid
  exact ⟨⟨e, rfl⟩, hw⟩

end Leaves
end Footing

-- ================================================================ the disk

namespace Repair

variable {root : Path} {payload : String} {h : Host} {l parts : Location}
  {cs : List (String × Entry)}

/-- How the repair of the way to the place `parts` below the root may end,
where the root is the directory with the entries `cs` at the location `l`,
and what is left of its staging directories. No error is reported. -/
inductive Sweeps (root : Path) (parts : Location) (h : Host) (l : Location)
    (cs : List (String × Entry)) :
    EStateM.Result Failure Host Unit → Prop
  | made {cs' : List (String × Entry)} {h' : Host}
      (rebuilt : Rebuilt root l h cs' h') (calm : h.log.Calm h'.log)
      (swept : View.Swept parts none (Entry.directory cs).view
        (Entry.directory cs').view) :
      Sweeps root parts h l cs (.ok () h')
  | blocked {a : Location} {n : String} {e : SystemError}
      {left : Option Location} {cs' : List (String × Entry)} {h' : Host}
      (rebuilt : Rebuilt root l h cs' h') (calm : h.log.Calm h'.log)
      (way : a ++ [n] <+: parts)
      (swept : View.Swept parts left (Entry.directory cs).view
        (Entry.directory cs').view)
      (stranded : ∀ s ∈ left, View.Stranded
        (fun m => (root.descend m).text.utf8ByteSize < pathLimit) a n
        (Entry.directory cs).view (Entry.directory cs').view s) :
      Sweeps root parts h l cs
        (.error (.unusable (.blocked (root.descend (a ++ [n])) e)) h')

/-- What is borne on an open footing is found at its path. -/
theorem Rebuilt.of_bears {s : Footing} {w : View} {before : Host} {h' : Host}
    (hholding : ∀ m, s.holding m = h.disk.put s.location m) (ho : s.Open w)
    (hw : s.Bears before w h') :
    ∃ cs', (Entry.directory cs').view = w
      ∧ Rebuilt s.path s.location h cs' h' := by
  obtain ⟨cs', rfl, hdisk⟩ := hw.directory
  refine ⟨cs', rfl, hdisk.trans (hholding _), ?_⟩
  rw [hdisk]
  exact Footing.find_self ho hw.linkless.base

/-- Whatever the repair of the way to a place below the root meets, it
leaves no staging directory, or it stops at a file and leaves an empty one
beside it because the path of the file in there would be too long. -/
theorem ensureChain_sweeps
    (hroot : h.disk.find true root = .ok (l, .directory cs))
    (hlinks : ∀ m t, (Entry.directory cs).view m ≠ some (.link t))
    (hp : IsSegment payload) (hpay : Disk.startsStaging payload = false)
    (hn : AllSegments parts) :
    Sweeps root parts h l cs
      (ensureChain (root.descend parts) root payload h) := by
  obtain ⟨s, rfl, rfl, hholding, hopen, hs⟩ :=
    Footing.exists_bears hroot hlinks
  have hchain := Footing.sweeps_ensureChain hopen hp hpay hn h hs
  cases hresult : ensureChain (s.path.descend parts) s.path payload h with
  | ok u h' =>
      rw [hresult] at hchain
      obtain ⟨w, hw, hswept⟩ := hchain
      obtain ⟨cs', rfl, hnew⟩ :=
        Rebuilt.of_bears hholding (hopen.mono hswept.keeps) hw
      exact .made hnew hw.calm hswept
  | error f h' =>
      rw [hresult] at hchain
      obtain ⟨w, hw, a, n, e, left, rfl, hway, hswept, hstranded⟩ := hchain
      obtain ⟨cs', rfl, hnew⟩ :=
        Rebuilt.of_bears hholding (hopen.mono hswept.keeps) hw
      refine .blocked hnew hw.calm hway hswept fun m hm => ?_
      have hleft := hstranded m hm
      exact { hleft with
        fitsFile := hleft.fitsFile.short
        fitsSelf := hleft.fitsSelf.short
        cramped := Footing.long_of_cramped hleft.fitsFile hleft.fitsSelf
          hleft.cramped }

/-- The bytes of a file on the way become a payload, and no staging
directory is left. -/
theorem ensureChain_sweeps_moved :
    let cs : List (String × Entry) := [("a", .file [1] (.dated 5))]
    let h : Host := { disk := ⟨.directory [("m", .directory cs)], []⟩ }
    h.disk.find true ⟨.here, ["m"]⟩ = .ok (["m"], .directory cs)
      ∧ (∀ m t, (Entry.directory cs).view m ≠ some (.link t))
      ∧ IsSegment defaultPayload
      ∧ Disk.startsStaging defaultPayload = false ∧ AllSegments ["a", "b"]
      ∧ ∃ h', ensureChain ⟨.here, ["m", "a", "b"]⟩ ⟨.here, ["m"]⟩
          defaultPayload h = .ok () h'
        ∧ ∀ m k, Disk.startsStaging k →
          h'.disk.root.view ("m" :: m ++ [k]) = none := by
  intro cs h
  have hlinks : ∀ m t, (Entry.directory cs).view m ≠ some (.link t) :=
    Entry.noLinks_of_linkFree rfl
  have hn : AllSegments ["a", "b"] := by
    unfold AllSegments
    decide
  have hends : Sweeps ⟨.here, ["m"]⟩ ["a", "b"] h ["m"] cs
      (ensureChain ⟨.here, ["m", "a", "b"]⟩ ⟨.here, ["m"]⟩
        defaultPayload h) :=
    ensureChain_sweeps rfl hlinks (by decide) (by decide) hn
  have hwell : endsWell (fun _ => true) (ensureChain ⟨.here, ["m", "a", "b"]⟩
      ⟨.here, ["m"]⟩ defaultPayload h) = true := by decide +kernel
  refine ⟨rfl, hlinks, by decide, by decide, hn, ?_⟩
  revert hwell
  generalize ensureChain ⟨.here, ["m", "a", "b"]⟩ ⟨.here, ["m"]⟩
    defaultPayload h = result at hends ⊢
  intro hwell
  cases hends with
  | blocked => cases hwell
  | made rebuilt calm swept =>
      refine ⟨_, rfl, fun m k hk => ?_⟩
      have hother : ∀ n ∈ ["a", "b"], n ≠ k := by
        rintro n hn rfl
        revert n
        decide
      refine (rebuilt.view (m ++ [k])).trans (Decidable.byContradiction
        fun hthere => ?_)
      obtain hold | hway | hleft := swept.new m k hk hthere
      · -- below the file nothing stands
        refine hold ?_
        cases m with
        | nil =>
            simp [cs, Entry.view_cons, Children.get?, hother "a" (by simp)]
        | cons n m =>
            rw [List.cons_append, Entry.view_cons]
            by_cases ha : "a" = n
            · simp only [Children.get?, cs, ha, if_true]
              cases m <;> rfl
            · simp [Children.get?, cs, ha]
      · exact hother k (hway.subset (by simp)) rfl
      · cases hleft

/-- A staging directory stays where the path of the file inside it is too
long, and no error is reported. -/
theorem ensureChain_leaves {a rest : Location} {n : String} {c : Bytes}
    {t : Stamp} {k : Nat} (hdraw : h.draw = fun _ => k)
    (hlt : k < Disk.stagingCount)
    (hroot : h.disk.find true root = .ok (l, .directory cs))
    (hlinks : ∀ m t, (Entry.directory cs).view m ≠ some (.link t))
    (hp : IsSegment payload) (hn : AllSegments (a ++ n :: rest))
    (hx : (Entry.directory cs).view (a ++ [n]) = some (.file c t))
    (hc : c ≠ [])
    (hfree : (Entry.directory cs).view (a ++ [Disk.stagingName k]) = none)
    (hnames : ∀ m ∈ a ++ [Disk.stagingName k, n],
      m.utf8ByteSize ≤ nameLimit)
    (hfile : (root.descend (a ++ [n])).text.utf8ByteSize < pathLimit)
    (hself : (root.descend (a ++ [Disk.stagingName k])).text.utf8ByteSize
      < pathLimit)
    (hcramped : pathLimit ≤ (root.descend
      (a ++ [Disk.stagingName k] ++ [n])).text.utf8ByteSize) :
    ∃ e cs' h', ensureChain (root.descend (a ++ n :: rest)) root payload h
        = .error (.unusable (.blocked (root.descend (a ++ [n])) e)) h'
      ∧ Rebuilt root l h cs' h' ∧ h.log.Calm h'.log
      ∧ (Entry.directory cs').view
        = (Entry.directory cs).view.staged a (Disk.stagingName k) := by
  obtain ⟨s, rfl, rfl, hholding, hopen, hs⟩ :=
    Footing.exists_bears hroot hlinks
  have hway : AllSegments (a ++ [n]) := hn.above ⟨rest, by simp⟩
  have ha := hway.above (List.prefix_append a [n])
  have hk := isSegment_stagingName k
  have hstaging : s.Fits (a ++ [Disk.stagingName k]) := by
    exact (ha.concat hk).fits hself fun m hm =>
      hnames m (by rw [List.append_cons]; exact List.mem_append_left _ hm)
  have hfits : s.Fits (a ++ [n]) := hway.fits hfile fun m hm => hnames m <| by
    rcases List.mem_append.mp hm with hm | hm
    · exact List.mem_append_left _ hm
    · exact List.mem_append_right _ (List.mem_cons_of_mem _ hm)
  have hends := Footing.leaves_ensureChain hdraw hlt hopen hp hx hfree hstaging
    (fun hf => absurd hf.short (by omega)) hc hn hfits h hs
  cases hresult : ensureChain (s.path.descend (a ++ n :: rest)) s.path payload
      h with
  | ok u h' =>
      rw [hresult] at hends
      obtain ⟨-, -, hno⟩ := hends
      exact hno.elim
  | error f h' =>
      rw [hresult] at hends
      obtain ⟨w, hw, ⟨e, rfl⟩, rfl⟩ := hends
      have hkeeps : ∀ m, (Entry.directory cs).view m = some .directory →
          (Entry.directory cs).view.staged a (Disk.stagingName k) m
            = some .directory := by
        intro m hm
        rw [View.staged, View.set_outside fun hp => ?_, hm]
        by_cases heq : m = a ++ [Disk.stagingName k]
        · rw [heq, hfree] at hm
          cases hm
        · rw [hs.linkless.below (by simp [hfree]) hp heq] at hm
          cases hm
      obtain ⟨cs', hview, hnew⟩ :=
        Rebuilt.of_bears hholding (hopen.mono hkeeps) hw
      exact ⟨e, cs', h', rfl, hnew, hw.calm, hview⟩

/-- The tree `e` below directories of these names, one in the other. -/
def nest (e : Entry) : Location → Entry
  | [] => e
  | n :: names => .directory [(n, nest e names)]

theorem view_nest (e : Entry) (names m : Location) :
    (nest e names).view (names ++ m) = e.view m := by
  induction names with
  | nil => rfl
  | cons n names ih =>
      rw [List.cons_append, nest, Entry.view_cons]
      simpa [Children.get?] using ih

theorem linkFree_nest {e : Entry} (he : e.linkFree = true)
    (names : Location) : (nest e names).linkFree = true := by
  induction names with
  | nil => exact he
  | cons n names ih =>
      rw [nest, Entry.linkFree, Entry.linkFreeAll]
      simpa [Entry.linkFreeAll] using ih

/-- A long name. -/
def deepName : String := String.ofList (List.replicate 50 'a')

/-- Names that make a path almost as long as one can be. -/
def deepWay : Location := List.replicate 79 deepName

theorem size_deep (l : Location) :
    (Path.descend ⟨.here, ["m"]⟩ (deepWay ++ l)).text.utf8ByteSize
      = 4030 + Path.extent l := by
  have hm : ("/".intercalate ["m"]).utf8ByteSize = 1 := by decide
  have hway : Path.extent deepWay = 4029 := by decide +kernel
  rw [Path.size_text, Path.descend, Path.size_intercalate_append (by simp),
    Path.extent_append, hm, hway]
  simp only [Anchor.text, String.utf8ByteSize_empty]
  omega

/-- So an empty staging directory can be new after a repair that reported
no error. -/
theorem ensureChain_leaves_deep :
    let inner : Entry := .directory [(deepName, .file [1] (.dated 5))]
    let h : Host :=
      { disk := ⟨.directory [("m", nest inner deepWay)], []⟩ }
    let target := Path.descend ⟨.here, ["m"]⟩ (deepWay ++ [deepName])
    let staging := "m" :: deepWay ++ [Disk.stagingName 0]
    h.disk.isDirectory ⟨.here, ["m"]⟩ = .ok true
      ∧ h.disk.root.linkFree = true ∧ h.disk.root.view staging = none
      ∧ AllSegments (deepWay ++ [deepName])
      ∧ ∃ cause h', ensureChain target ⟨.here, ["m"]⟩ defaultPayload h
          = .error (.unusable cause) h'
        ∧ h'.disk.root.view staging = some .directory
        ∧ (∀ k, h'.disk.root.view (staging ++ [k]) = none)
        ∧ h'.log.hasError = false := by
  intro inner h target staging
  have hlinkFree : (nest inner deepWay).linkFree = true := linkFree_nest rfl _
  have hname : IsSegment deepName := by decide +kernel
  have hway : AllSegments deepWay := fun n hn =>
    List.eq_of_mem_replicate hn ▸ hname
  have hn : AllSegments (deepWay ++ [deepName]) := hway.concat hname
  have hfile : deepName.utf8ByteSize = 50 := by decide +kernel
  have hstaging : (Disk.stagingName 0).utf8ByteSize = 16 := by decide +kernel
  have hfree : (nest inner deepWay).view (deepWay ++ [Disk.stagingName 0])
      = none := by
    rw [view_nest]
    decide +kernel
  have hroot : h.disk.find true ⟨.here, ["m"]⟩
      = .ok (["m"], nest inner deepWay) := rfl
  have hp : IsSegment defaultPayload := by decide
  have hx : (nest inner deepWay).view (deepWay ++ [deepName])
      = some (.file [1] (.dated 5)) := by
    rw [view_nest]
    decide +kernel
  have hnames : ∀ m ∈ deepWay ++ [Disk.stagingName 0, deepName],
      m.utf8ByteSize ≤ nameLimit := by
    decide +kernel
  obtain ⟨e, cs', h', hends, hnew, hcalm, hview⟩ := ensureChain_leaves rfl
    (by decide) hroot (Entry.noLinks_of_linkFree hlinkFree) hp hn hx (by simp) hfree hnames
    (by rw [size_deep]; simp [hfile, pathLimit])
    (by rw [size_deep]; simp [hstaging, pathLimit])
    (by rw [List.append_assoc, size_deep]; simp [hfile, hstaging, pathLimit])
  have hbelow : ∀ m, h'.disk.root.view ("m" :: deepWay ++ m)
      = View.staged (nest inner deepWay).view deepWay (Disk.stagingName 0)
        (deepWay ++ m) := by
    intro m
    rw [← List.singleton_append (x := "m"), List.append_assoc, hnew.view,
      hview]
    rfl
  refine ⟨rfl, linkFree_nest (e := inner) rfl ("m" :: deepWay), ?_, hn, _, h',
    hends, ?_, fun k => ?_, ?_⟩
  · exact (view_nest inner ("m" :: deepWay) [Disk.stagingName 0]).trans
      (by decide +kernel)
  · rw [hbelow]
    exact View.set_self ..
  · rw [List.append_assoc, hbelow, ← List.append_assoc]
    exact View.set_below (List.prefix_append _ [k]) (by simp) _
  · simpa [h] using (Log.calm_iff.mp hcalm).2

end Repair

end TreeReplica
