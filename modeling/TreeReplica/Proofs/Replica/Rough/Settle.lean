/-
The work on one event where nothing is known of a replica but that no link
is in it. If it goes well it makes just the outcome of the change that the
event asks for (`bears_settle`). It stops at a broken contract only where
an added node meets an entry of the other kind (`Clashes`), and then
nothing has changed; wherever else it stops the system is to blame, and
what it leaves comes from what was there.
-/
import TreeReplica.Proofs.Replica.Effect
import TreeReplica.Proofs.Replica.Rough.Lost
import TreeReplica.Proofs.Replica.Rough.Repair
import TreeReplica.Proofs.Replica.Settle

namespace TreeReplica

open Work

namespace Footing

open View

/-- Work towards the place `l` was refused by the system and left `w`. -/
structure Lapse (payload : String) (l : Location) (v : View) (f : Fault)
    (w : View) : Prop where
  system : ∃ e, f = .system e
  stems : Stems payload l v w

variable {s : Footing} {v : View} {before : Host} {payload : String}
  {node : Node} {a l : Location} {n : String} {g : Unit → View → Prop}
  {q : Fault → View → Prop}

-- ========================================================== small pieces

/-- A directory that is made sure of leaves the footing open. -/
theorem Open.ensure (ho : s.Open v) (hv : v.Linkless) (l : Location) :
    s.Open (v.ensure l) := by
  unfold View.ensure
  split
  · exact ho
  · next hd => exact ho.set hv hd _

/-- So does a slot that is filled. -/
theorem Open.fill (ho : s.Open v) (hv : v.Linkless)
    (hslot : v (l ++ [payload]) ≠ some .directory) (node : Node) :
    s.Open (v.fill payload node l) := by
  unfold View.fill
  split
  · exact ho.set hv hslot _
  · exact ho.cut hv hslot

/-- Writing a file with its time. -/
theorem bears_writeFile (ho : s.Open v) (hn : AllSegments (a ++ [n]))
    (ht : Disk.representable node.modifiedAt = true)
    (hg : s.Fits (a ++ [n]) → v (a ++ [n]) ≠ some .directory →
      g () (v.set (a ++ [n]) node.file))
    (hb : ∀ e, ¬ (s.Fits (a ++ [n]) ∧ v a = some .directory
      ∧ v (a ++ [n]) ≠ some .directory) → q (.system e) v) :
    Carries (s.Bears before) (Replica.writeFile (s.path.descend (a ++ [n]))
      node.bytes node.modifiedAt) v g q := by
  refine bears_of_linkless fun hv => ?_
  unfold Replica.writeFile
  refine (bears_write (g := fun _ w => s.Fits (a ++ [n])
      ∧ v (a ++ [n]) ≠ some .directory
      ∧ w = v.set (a ++ [n]) (.file node.bytes .written)) ho hn node.bytes
    (fun fits _ hd => ⟨fits, hd, rfl⟩) hb).bind ?_
  intro _ _ hmid
  obtain ⟨fits, hd, rfl⟩ := hmid
  refine bears_setTime (ho.set hv hd _) hn fits (set_self ..) ht ?_
  rw [set_set]
  exact hg fits hd

/-- Filling the slot of a directory. -/
theorem bears_fill (ho : s.Open v) (hp : IsSegment payload)
    (hn : AllSegments l) (hd : v l = some .directory)
    (ht : Disk.representable node.modifiedAt = true)
    (hg : s.Fits (l ++ [payload]) → v (l ++ [payload]) ≠ some .directory →
      g () (v.fill payload node l))
    (hb : ∀ e, ¬ (s.Fits (l ++ [payload])
      ∧ v (l ++ [payload]) ≠ some .directory) → q (.system e) v) :
    Carries (s.Bears before) (do
        if node.hasData then
          Replica.writeFile (s.path.descend (l ++ [payload])) node.bytes
            node.modifiedAt
        else act (·.removeFileIfAny (s.path.descend (l ++ [payload]))))
      v g q := by
  unfold View.fill at hg
  replace hb : ∀ e, ¬ (s.Fits (l ++ [payload]) ∧ v l = some .directory
      ∧ v (l ++ [payload]) ≠ some .directory) → q (.system e) v :=
    fun e hno => hb e fun hp => hno ⟨hp.1, hd, hp.2⟩
  cases hdata : node.hasData with
  | true =>
      rw [hdata] at hg
      exact bears_writeFile ho (hn.concat hp) ht hg hb
  | false =>
      rw [hdata] at hg
      exact bears_removeFileIfAny ho (hn.concat hp)
        (fun hfits => hg (hfits hd)) hb

/-- Taking a directory away, with whatever is left in it. It may be left
empty. -/
theorem bears_removeStale (ho : s.Open v) (hn : AllSegments (a ++ [n]))
    (hg : g () (v.cut (a ++ [n])))
    (hb : ∀ e w, w.Within v → q (.system e) w) :
    Carries (s.Bears before) (Replica.removeStale (s.path.descend (a ++ [n])))
      v g q := by
  unfold Replica.removeStale
  refine (bears_list (g := fun _ w => v = w) ho hn (fun _ => rfl)
    (fun e => hb e v (.refl v))).bind ?_
  intro names _ heq
  subst heq
  by_cases he : names.isEmpty
  · rw [if_pos he]
    exact bears_removeDirectory ho hn hg fun e _ => hb e v (.refl v)
  · rw [if_neg he]
    refine (bears_say (by simp) _ (g := fun _ w => v = w) rfl).bind ?_
    intro _ _ heq
    subst heq
    exact bears_removeTree ho hn hg (fun e => hb e v (.refl v))
      fun e hd => hb e _ (within_emptied hd)

-- ============================================================ the pieces

/-- A node was kept at `l`, and it is reached there by a path that leads to
the footing. -/
structure Lodged (s : Footing) (payload : String) (node : Node)
    (l : Location) (w : View) : Prop where
  leads : s.Open w
  fits : s.Fits l
  slot : node.opens l = true → s.Fits (l ++ [payload])

/-- A footing at the same path on the same disk. -/
structure Reseats (s s' : Footing) : Prop where
  path : s'.path = s.path
  holding : ∀ m, s'.holding m = s.holding m

theorem Reseats.refl (s : Footing) : s.Reseats s := ⟨rfl, fun _ => rfl⟩

/-- It bears the same. -/
theorem Reseats.bears_iff {s' : Footing} (h : s.Reseats s') {host : Host} :
    s'.Bears before v host ↔ s.Bears before v host :=
  ⟨fun hs => ⟨by simpa only [h.holding] using hs.tree, hs.linkless, hs.calm, hs.drawn⟩,
    fun hs => ⟨by simpa only [h.holding] using hs.tree, hs.linkless, hs.calm, hs.drawn⟩⟩

variable {r : Replica}

theorem Reseats.keeps {s' : Footing} (h : s.Reseats s')
    (hr : s.Keeps payload r) : s'.Keeps payload r :=
  ⟨hr.root.trans h.path.symm, hr.slot, hr.segment⟩

/-- If a node is kept, the outcome is that of the change, and the node is
reached. -/
theorem bears_materialize (ho : s.Open v) (hr : s.Keeps payload r)
    (hn : AllSegments l)
    (hpay : payload ∉ l)
    (ht : Disk.representable node.modifiedAt = true) :
    Carries (s.Bears before) (r.materialize node (s.path.descend l)) v
      (fun _ w => w = (Change.keep node l).outcome payload v
        ∧ s.Lodged payload node l w)
      (fun f w => f.Refusal ∧ Stems payload l v w) := by
  have hp := hr.segment
  refine bears_of_linkless fun hv => ?_
  unfold Replica.materialize
  rw [hr.root, hr.slot, Remote.payloadSlot_descend hp.toIsName]
  rcases List.eq_nil_or_concat l with rfl | ⟨a, n, rfl⟩
  · -- the root
    simp only [Path.descend_nil, ne_eq, not_true_eq_false, if_false,
      decide_false, Bool.and_false]
    refine Carries.recast (bears_fill ho hp hn hv.base ht
      (fun fits hslot => ⟨outcome_root hv hslot, ho.fill hv hslot node,
        s.fits_nil, fun _ => fits⟩)
      (fun e _ => ⟨fun _ => by simp, .refl _ _ _⟩))
  rw [List.concat_eq_append] at *
  have hroot : s.path.descend (a ++ [n]) ≠ s.path :=
    fun h => absurd (Path.descend_eq_self.mp h) (by simp)
  rw [if_pos hroot, Path.parent_descend]
  have hopen : payload ∉ a := fun hm => hpay (List.mem_append_left [n] hm)
  refine ((bears_and_linkless (bears_ensureChain ho hp
    (hn.above (List.prefix_append a [n])) hopen)).mono
    (fun _ _ hg => hg) ?_).bind ?_
  · intro f w hmid
    obtain ⟨l, e, rfl, hstopped⟩ := hmid
    exact ⟨fun _ => by simp,
      (hstopped.stems hopen).below (List.prefix_append a [n])⟩
  intro _ w hmid
  obtain ⟨hchain, hw⟩ := hmid
  have hstems : Stems payload (a ++ [n]) v w :=
    hchain.stems.below (List.prefix_append a [n])
  replace ho : s.Open w := ho.mono fun _ hm => hchain.keeps hv hm
  simp only [hroot, ne_eq, not_false_eq_true, if_true, decide_true,
    Bool.and_true]
  have hopens : node.opens (a ++ [n]) = node.isContainer := by
    simp [Node.opens]
  refine Carries.recast ?_
  cases hk : node.isContainer with
  | false =>
      rw [if_pos (by simp)]
      refine bears_writeFile ho hn ht (fun fits hd => ⟨?_, ?_, fits, ?_⟩)
        (fun e _ => ⟨fun _ => by simp, hstems⟩)
      · exact outcome_leaf hv hchain (hopens.trans hk)
      · exact ho.set hw hd _
      · intro hno
        cases (hopens.trans hk).symm.trans hno
  | true =>
      rw [if_neg (by simp)]
      have hensure : Stems payload (a ++ [n]) v (w.ensure (a ++ [n])) := by
        unfold ensure
        split
        · exact hstems
        · exact hstems.trans hpay (stems_set payload (List.prefix_refl _) w)
      refine (bears_and_linkless (bears_ensureDirectory (g := fun _ w' =>
          s.Fits (a ++ [n]) ∧ w' = w.ensure (a ++ [n])) ho hn
        (fun fits hd => ⟨fits, ?_⟩) (fun fits _ hx => ⟨fits, ?_⟩)
        (fun e _ => ⟨fun _ => by simp, hstems⟩))).bind ?_
      · rw [ensure, if_pos hd]
      · rw [ensure, if_neg (by simp [hx])]
      intro _ _ hmid
      obtain ⟨⟨fits, rfl⟩, he⟩ := hmid
      replace ho := ho.ensure hw (a ++ [n])
      refine bears_fill ho hp hn (ensure_self w _) ht
        (fun fits' hslot => ⟨?_, ho.fill he hslot node, fits,
          fun _ => fits'⟩) (fun e _ => ⟨fun _ => by simp, hensure⟩)
      exact outcome_container hv hw hpay hchain (hopens.trans hk) he hslot

/-- A leaf is kept like that also where entries were taken away since the
footing was open: if the path to it is lost nothing is done. -/
theorem bears_materialize_within {m : Entry} (ho : s.Open m.view)
    (hm : m.view.Linkless) (hless : v.Within m.view)
    (hr : s.Keeps payload r) (hn : AllSegments l) (hpay : payload ∉ l)
    (ht : Disk.representable node.modifiedAt = true)
    (hleaf : node.opens l = false) :
    Carries (s.Bears before) (r.materialize node (s.path.descend l)) v
      (fun _ w => w = (Change.keep node l).outcome payload v
        ∧ ∃ s', s.Reseats s' ∧ s'.Lodged payload node l w)
      (fun f w => f.Refusal ∧ Stems payload l v w) := by
  intro host hs
  obtain ⟨m', hdisk, rfl⟩ := hs.tree
  rcases refoot_or_shut ho hm hs.linkless hless
    with ⟨s', hpath, hholding, hopen⟩ | hshut
  · -- the same disk, on a footing that is open
    have hseat : s.Reseats s' := ⟨hpath, hholding⟩
    have hkept : Carries (s'.Bears before) _ m'.view _ _ :=
      bears_materialize hopen (hseat.keeps hr) hn hpay ht
    replace hkept := hkept host (hseat.bears_iff.mpr hs)
    rw [hpath] at hkept
    cases hresult : r.materialize node (s.path.descend l) host with
    | ok u host' =>
        rw [hresult] at hkept
        obtain ⟨w, hw, heq, hlodged⟩ := hkept
        exact ⟨w, hseat.bears_iff.mp hw, heq, s', hseat, hlodged⟩
    | error f host' =>
        rw [hresult] at hkept
        obtain ⟨w, hw, hq⟩ := hkept
        exact ⟨w, hseat.bears_iff.mp hw, hq⟩
  · rw [← hdisk, ← hr.root] at hshut
    rcases List.eq_nil_or_concat l with rfl | ⟨a, n, rfl⟩
    · simp [Node.opens] at hleaf
    rw [List.concat_eq_append] at *
    obtain ⟨f, hstop, hf⟩ := Replica.materialize_shut hshut hn
      (show node.isContainer = false by simpa [Node.opens] using hleaf)
    rw [hr.root] at hstop
    rw [hstop]
    exact ⟨_, hs, hf, .refl _ _ _⟩

/-- An added node meets an entry of the other kind, which can be seen. -/
structure Clashes (s : Footing) (kind : EventKind) (node : Node)
    (l : Location) (v : View) : Prop where
  added : kind = .added
  inside : l ≠ []
  fits : s.Fits l
  there : v l ≠ none
  other : ¬ (v l = some .directory ↔ node.isContainer = true)

/-- An added node breaks the contract only where it clashes. -/
theorem bears_checkAdded (ho : s.Open v) (hr : s.Keeps payload r)
    (hn : AllSegments l) :
    Carries (s.Bears before) (r.checkAdded node (s.path.descend l)) v
      (fun _ w => w = v ∧ ¬ s.Clashes .added node l v)
      (fun setback w => w = v ∧ s.Clashes .added node l v
        ∧ ∃ x, setback = .violation x) := by
  unfold Replica.checkAdded
  refine carries_get_bind fun host hs => ?_
  obtain ⟨m, hm, rfl⟩ := hs.tree
  rw [hr.root]
  by_cases hl : l = []
  · rw [hl, Path.descend_nil, if_pos (by simp)]
    exact carries_pure ⟨rfl, fun hclash => hclash.inside rfl⟩
  have hroot : s.path.descend l ≠ s.path :=
    fun h => hl (Path.descend_eq_self.mp h)
  have hocc := occupied_iff ho hs.linkless hl hn
  rw [hm]
  by_cases hthere : s.Fits l ∧ m.view l ≠ none
  · rw [if_neg (by simp [hroot, hocc.mpr hthere])]
    have hclash : s.Clashes .added node l m.view
        ↔ ¬ (m.view l = some .directory ↔ node.isContainer = true) :=
      ⟨fun h => h.other, fun h => ⟨rfl, hl, hthere.1, hthere.2, h⟩⟩
    refine Carries.bind (p := fun b w => w = m.view
      ∧ (b = true ↔ (m.view l = some .directory ↔ node.isContainer = true)))
      (Carries.recast ?_) ?_
    · cases hk : node.isContainer with
      | true =>
          rw [if_pos rfl]
          exact bears_isDirectory ho hn (fun _ => ⟨rfl, by simp⟩)
            fun _ hno => absurd hthere.1 hno
      | false =>
          rw [if_neg (by simp)]
          refine bears_isFile ho hn ⟨rfl, ?_⟩ fun _ hno => absurd hthere.1 hno
          obtain ⟨x, hx⟩ := Option.ne_none_iff_exists'.mp hthere.2
          cases x with
          | directory => simp [hx, Shape.isFile]
          | file c t => simp [hx, Shape.isFile]
          | link t => exact absurd hx (hs.linkless.noLinks _ t)
    · intro same _ hmid
      obtain ⟨rfl, hsame⟩ := hmid
      cases same with
      | true =>
          rw [if_neg (by simp)]
          exact carries_pure ⟨rfl, fun h => hclash.mp h (hsame.mp rfl)⟩
      | false =>
          rw [if_pos (by simp)]
          refine carries_throw ⟨rfl, hclash.mpr fun h => ?_, _, rfl⟩
          simpa using hsame.mpr h
  · rw [if_pos (by simpa [hroot] using mt hocc.mp hthere)]
    exact carries_pure ⟨rfl, fun h => hthere ⟨h.fits, h.there⟩⟩

/-- If way is made for an updated node, an entry of the other kind is gone
and nothing else has changed. -/
theorem bears_convertKind (ho : s.Open v) (hr : s.Keeps payload r)
    (hn : AllSegments l) :
    Carries (s.Bears before) (r.convertKind node (s.path.descend l)) v
      (fun _ w => w = v
        ∨ w = v.cut l ∧ (node.opens l = true → v l ≠ some .directory))
      (Lapse payload l v) := by
  have hp := hr.segment
  refine bears_of_linkless fun hv => ?_
  unfold Replica.convertKind
  rw [hr.root, hr.slot, Remote.payloadSlot_descend hp.toIsName]
  rcases List.eq_nil_or_concat l with rfl | ⟨a, n, rfl⟩
  · rw [Path.descend_nil, if_pos rfl]
    exact carries_pure (Or.inl rfl)
  rw [List.concat_eq_append] at *
  rw [if_neg fun h => absurd (Path.descend_eq_self.mp h) (by simp)]
  have hopens : node.opens (a ++ [n]) = node.isContainer := by
    simp [Node.opens]
  rw [hopens]
  refine (bears_isDirectory (g := fun b w =>
      b = decide (v (a ++ [n]) = some .directory) ∧ v = w) ho hn
    (fun _ => ⟨rfl, rfl⟩) (fun e _ => ⟨⟨e, rfl⟩, .refl _ _ _⟩)).bind ?_
  intro _ _ hmid
  obtain ⟨rfl, rfl⟩ := hmid
  by_cases hleaf : v (a ++ [n]) = some .directory
      ∧ node.isContainer = false
  · -- a directory gives way to a leaf
    rw [if_pos (by simp [hleaf])]
    refine (bears_removeFileIfAny (g := fun _ w =>
        s.Open w ∧ w = v.cut (a ++ [n] ++ [payload])) ho (hn.concat hp)
      (fun _ hslot => ⟨ho.cut hv hslot, rfl⟩)
      (fun e _ => ⟨⟨e, rfl⟩, .refl _ _ _⟩)).bind ?_
    intro _ _ hmid
    obtain ⟨hopen, rfl⟩ := hmid
    refine bears_removeStale hopen hn (Or.inr ⟨cut_slot_cut payload v _, ?_⟩)
      (fun e w hw => ⟨⟨e, rfl⟩, (hw.trans (within_cut _ _)).stems _ _⟩)
    intro hk
    rw [hleaf.2] at hk
    cases hk
  rw [if_neg (by simpa using hleaf)]
  refine (bears_isFile (g := fun b w =>
      b = Shape.isFile (v (a ++ [n])) ∧ v = w) ho hn ⟨rfl, rfl⟩
    (fun e _ => ⟨⟨e, rfl⟩, .refl _ _ _⟩)).bind ?_
  intro _ _ hmid
  obtain ⟨rfl, rfl⟩ := hmid
  by_cases hcont : Shape.isFile (v (a ++ [n])) = true
      ∧ node.isContainer = true
  · -- a file gives way to a container
    rw [if_pos (by simp [hcont])]
    refine bears_removeFile ho hn (fun _ hd => Or.inr ⟨rfl, fun _ => hd⟩)
      (fun e => ⟨⟨e, rfl⟩, .refl _ _ _⟩)
  · rw [if_neg (by simpa using hcont)]
    exact carries_pure (Or.inl rfl)

/-- What the conversion takes away is not missed: the outcome is that of
the change to the tree before it. -/
theorem bears_materialize_cut {m : Entry} (ho : s.Open m.view)
    (hm : m.view.Linkless) (hr : s.Keeps payload r) (hn : AllSegments l)
    (hpay : payload ∉ l) (ht : Disk.representable node.modifiedAt = true)
    (hkind : node.opens l = true → m.view l ≠ some .directory) :
    Carries (s.Bears before) (r.materialize node (s.path.descend l))
      (m.view.cut l)
      (fun _ w => w = (Change.keep node l).outcome payload m.view
        ∧ ∃ s', s.Reseats s' ∧ s'.Lodged payload node l w)
      (fun f w => f.Refusal ∧ Stems payload l m.view w) := by
  have hkept : Carries (s.Bears before)
      (r.materialize node (s.path.descend l)) (m.view.cut l)
      (fun _ w => w = (Change.keep node l).outcome payload (m.view.cut l)
        ∧ ∃ s', s.Reseats s' ∧ s'.Lodged payload node l w)
      (fun f w => f.Refusal ∧ Stems payload l (m.view.cut l) w) := by
    by_cases hd : m.view l = some .directory
    · -- the path to the replica may have led through the directory
      exact bears_materialize_within ho hm (within_cut _ _) hr hn hpay ht
        (by simpa [hd] using hkind)
    · exact (bears_materialize (ho.cut hm hd) hr hn hpay ht).mono
        (fun _ _ hg => ⟨hg.1, s, .refl s, hg.2⟩) (fun _ _ hq => hq)
  refine hkept.mono ?_ ?_
  · intro _ w hmid
    exact ⟨hmid.1.trans (outcome_of_cut hm hpay hkind), hmid.2⟩
  · intro f w hmid
    exact ⟨hmid.1, (stems_cut _ _ _ _).trans hpay hmid.2⟩

/-- What was taken away at `l` could be reached, and the root and its slot
still can be. -/
structure Cleared (s : Footing) (payload : String) (l : Location)
    (v w : View) : Prop where
  fits : v l ≠ none → s.Fits l
  root : l = [] → s.Open w ∧ s.Fits [payload]

/-- If a place is cleared, the outcome is that of the change. -/
theorem bears_remove (ho : s.Open v) (hr : s.Keeps payload r)
    (hn : AllSegments l) :
    Carries (s.Bears before) (r.remove (s.path.descend l)) v
      (fun _ w => w = (Change.clear l).outcome payload v
        ∧ s.Cleared payload l v w)
      (fun f w => (∃ e, f = .system e) ∧ w.Within v) := by
  have hp := hr.segment
  refine bears_of_linkless fun hv => ?_
  unfold Replica.remove
  rw [hr.root, hr.slot, Remote.payloadSlot_descend hp.toIsName]
  refine (bears_isDirectory (g := fun b w => (s.Fits l ∨ v l = none)
      ∧ b = decide (v l = some .directory) ∧ v = w) ho hn
    (fun hf => ⟨hf, rfl, rfl⟩) (fun e _ => ⟨⟨e, rfl⟩, .refl _⟩)).bind ?_
  intro _ _ hmid
  obtain ⟨hf, rfl, rfl⟩ := hmid
  by_cases hd : v l = some .directory
  · rw [if_pos (by simpa using hd)]
    refine (bears_removeFileIfAny (g := fun _ w => s.Fits (l ++ [payload])
        ∧ s.Open w ∧ w = v.cut (l ++ [payload])) ho (hn.concat hp)
      (fun fits hslot => ⟨fits hd, ho.cut hv hslot, rfl⟩)
      (fun e _ => ⟨⟨e, rfl⟩, .refl _⟩)).bind ?_
    intro _ _ hmid
    obtain ⟨fits, hopen, rfl⟩ := hmid
    have hfits : v l ≠ none → s.Fits l :=
      fun _ => fits.above (List.prefix_append _ _)
    rcases List.eq_nil_or_concat l with rfl | ⟨a, n, rfl⟩
    · rw [if_neg (by simp)]
      exact carries_pure ⟨outcome_clear_root, hfits, fun _ => ⟨hopen, fits⟩⟩
    · rw [List.concat_eq_append] at *
      rw [if_pos fun h => absurd (Path.descend_eq_self.mp h) (by simp)]
      refine bears_removeStale hopen hn
        ⟨?_, hfits, fun h => absurd h (by simp)⟩
        (fun e w hw => ⟨⟨e, rfl⟩, hw.trans (within_cut _ _)⟩)
      rw [cut_slot_cut]
      exact outcome_clear (by simp)
  rw [if_neg (by simpa using hd)]
  refine carries_get_bind fun host hs => ?_
  obtain ⟨m, hm, rfl⟩ := hs.tree
  have hl : l ≠ [] := fun hl => hd (hl ▸ hv.base)
  have hocc := occupied_iff ho hv hl hn
  rw [hm]
  have hcleared : ∀ w, s.Cleared payload l m.view w :=
    fun _ => ⟨fun hthere => hf.resolve_right hthere, fun h => absurd h hl⟩
  by_cases hthere : m.view l = none
  · -- nothing is there to be taken away
    rw [if_neg fun h => (hocc.mp h).2 hthere]
    refine bears_say (by simp) _ ⟨?_, hcleared _⟩
    rw [← outcome_clear hl, hv.cut_of_none hthere]
  · rw [if_pos (hocc.mpr ⟨hf.resolve_right hthere, hthere⟩)]
    obtain ⟨a, n, rfl⟩ := (List.eq_nil_or_concat l).resolve_left hl
    rw [List.concat_eq_append] at *
    exact bears_removeFile ho hn (fun _ _ => ⟨outcome_clear hl, hcleared _⟩)
      (fun e => ⟨⟨e, rfl⟩, .refl _⟩)

-- ================================================================ an event

/-- The view `v` after a change, if there is one. -/
def Outcome (payload : String) (v : View) : Option Change → View
  | none => v
  | some c => c.outcome payload v

/-- What work on an event that ended well has reached: `v` is what was
there before and `w` what is there now. -/
structure Done (s : Footing) (payload : String) (kind : EventKind)
    (node : Node) (l : Location) (v w : View) : Prop where
  lodged : kind = .added ∨ kind = .updated →
    ∃ s', s.Reseats s' ∧ s'.Lodged payload node l w
  cleared : kind = .removed → s.Cleared payload l v w

/-- The work on one event: what it makes, where it breaks the contract,
and what it leaves where the system refuses a step. -/
theorem bears_settle (ho : s.Open v) (hr : s.Keeps payload r)
    (hn : AllSegments l) (hpay : payload ∉ l)
    (ht : Disk.representable node.modifiedAt = true) (kind : EventKind) :
    Carries (s.Bears before) (r.settle kind node (s.path.descend l)) v
      (fun _ w => w = Outcome payload v (kind.change? node l)
        ∧ ¬ s.Clashes kind node l v ∧ s.Done payload kind node l v w)
      (fun setback w =>
        (w = v ∧ s.Clashes kind node l v ∧ ∃ x, setback = .violation x)
        ∨ ∃ f, setback = .repair f ∧ f.Refusal ∧ Stems payload l v w
          ∧ (kind = .removed → w.Within v)) := by
  unfold Replica.settle
  cases kind with
  | added =>
      refine ((bears_checkAdded ho hr hn).mono (fun _ _ h => h)
        (fun _ _ h => Or.inl h)).bind ?_
      intro _ _ hmid
      obtain ⟨rfl, hclash⟩ := hmid
      refine Carries.recast
        ((bears_materialize ho hr hn hpay ht).mono ?_ ?_)
      · intro _ _ hmid
        obtain ⟨heq, hlodged⟩ := hmid
        exact ⟨heq, hclash, fun _ => ⟨s, .refl s, hlodged⟩,
          fun h => by cases h⟩
      · intro f w hmid
        exact Or.inr ⟨f, rfl, hmid.1, hmid.2, fun h => by cases h⟩
  | updated =>
      have hno : ¬ s.Clashes .updated node l v := fun h => by cases h.added
      refine bears_of_tree fun m hm hv => ?_
      subst hm
      refine Carries.bind (Carries.recast ((bears_convertKind ho hr hn).mono
        (fun _ _ h => h) ?_)) ?_
      · intro f w hmid
        obtain ⟨⟨e, rfl⟩, hstems⟩ := hmid
        exact Or.inr ⟨_, rfl, fun _ => by simp, hstems, fun h => by cases h⟩
      intro _ w hmid
      have hkept : Carries (s.Bears before)
          (r.materialize node (s.path.descend l)) w
          (fun _ w' => w' = (Change.keep node l).outcome payload m.view
            ∧ ∃ s', s.Reseats s' ∧ s'.Lodged payload node l w')
          (fun f w' => f.Refusal ∧ Stems payload l m.view w') := by
        rcases hmid with rfl | ⟨rfl, hkind⟩
        · exact (bears_materialize ho hr hn hpay ht).mono
            (fun _ _ hg => ⟨hg.1, s, .refl s, hg.2⟩) (fun _ _ hq => hq)
        · exact bears_materialize_cut ho hv hr hn hpay ht hkind
      refine Carries.recast (hkept.mono ?_ ?_)
      · intro _ w' hmid
        obtain ⟨heq, hlodged⟩ := hmid
        exact ⟨heq, hno, fun _ => hlodged, fun h => by cases h⟩
      · intro f w' hmid
        exact Or.inr ⟨f, rfl, hmid.1, hmid.2, fun h => by cases h⟩
  | removed =>
      have hno : ¬ s.Clashes .removed node l v := fun h => by cases h.added
      refine Carries.recast ((bears_remove ho hr hn).mono ?_ ?_)
      · intro _ _ hmid
        obtain ⟨heq, hcleared⟩ := hmid
        exact ⟨heq, hno, fun h => by simp at h, fun _ => hcleared⟩
      · intro f w hmid
        obtain ⟨⟨e, rfl⟩, hwithin⟩ := hmid
        exact Or.inr ⟨_, rfl, fun _ => by simp, hwithin.stems payload l,
          fun _ => hwithin⟩
  | initialized =>
      have hno : ¬ s.Clashes .initialized node l v := fun h => by
        cases h.added
      exact carries_pure ⟨rfl, hno, fun h => by simp at h, fun h => by cases h⟩

end Footing

end TreeReplica
