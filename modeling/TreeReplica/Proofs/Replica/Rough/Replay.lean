/-
Two events about one place. What the later one keeps there does not depend
on the earlier one, but for what stood below the place: a leaf takes it
away, and a container that comes after it does not bring it back
(`outcome_keep_keep`, `overwritten`). An event that went well can come
again (`repeated`): every call that the work on it makes finds what it left
(`settle_twice`), or, where the place was cleared, finds nothing there
(`remove_twice`), even if the path to the replica has gone with it
(`gone_of_within`).
-/
import TreeReplica.Proofs.Replica.Commute
import TreeReplica.Proofs.Replica.Rough.Lossless

namespace TreeReplica

open Work

-- ========================================================== two at a place

/-- Is `m` below `l`, and not the payload slot of it? -/
def View.Inner (payload : String) (l m : Location) : Prop :=
  l <+: m ∧ m ≠ l ∧ m ≠ l ++ [payload]

instance (payload : String) (l m : Location) :
    Decidable (View.Inner payload l m) := by
  unfold View.Inner
  infer_instance

theorem View.inner_append {payload : String} {b l m : Location} :
    View.Inner payload (b ++ l) (b ++ m) ↔ View.Inner payload l m := by
  unfold View.Inner
  rw [List.prefix_append_right_inj, List.append_assoc, ne_eq, ne_eq,
    List.append_cancel_left_eq, List.append_cancel_left_eq]

namespace Change

variable {payload : String} {n₁ n₂ node : Node} {l m : Location}

/-- Off their place all nodes kept there do the same. -/
theorem effect_keep_off (hm : ¬ l <+: m) :
    (keep n₁ l).effect payload m = (keep n₂ l).effect payload m := by
  rw [effect_keep, effect_keep, if_neg hm, if_neg hm]

/-- The later of two nodes kept at a place shows, without what a leaf took
away before a container came. -/
theorem outcome_keep_keep (v : View) (m : Location) :
    (keep n₂ l).outcome payload ((keep n₁ l).outcome payload v) m
      = if View.Inner payload l m ∧ n₁.opens l = false ∧ n₂.opens l = true
        then none
        else (keep n₂ l).outcome payload v m := by
  by_cases hp : l <+: m
  · by_cases hl : m = l
    · rw [if_neg fun h => h.1.2.1 hl]
      simp only [outcome_apply, effect_keep, if_pos hp, if_pos hl, Effect.at]
    by_cases hs : m = l ++ [payload]
    · rw [if_neg fun h => h.1.2.2 hs]
      simp only [outcome_apply, effect_keep, if_pos hp, if_neg hl, if_pos hs]
      split <;> rfl
    -- strictly below the place it is the kinds that count
    have hinner : View.Inner payload l m := ⟨hp, hl, hs⟩
    cases h₁ : n₁.opens l <;> cases h₂ : n₂.opens l <;>
      simp [outcome_apply, effect_keep, Effect.at, hp, hl, hs, hinner, h₁, h₂]
  · rw [if_neg fun h => hp h.1.1]
    have hsame : (keep n₁ l).effect payload m = (keep n₂ l).effect payload m :=
      effect_keep_off hp
    cases he : (keep n₂ l).effect payload m with
    | keep => simp only [outcome_apply, hsame, he, Effect.at]
    | give x => simp only [outcome_apply, he, Effect.at]
    | lift =>
        rw [lift_twice v he (hsame.trans he), outcome_apply, he]
        rfl

/-- A node that is kept once more changes nothing. -/
theorem outcome_keep_same (v : View) :
    (keep node l).outcome payload ((keep node l).outcome payload v)
      = (keep node l).outcome payload v := by
  funext m
  rw [outcome_keep_keep, if_neg]
  intro h
  cases h.2.1.symm.trans h.2.2

/-- The node stands at its place. -/
theorem outcome_keep_place (v : View) :
    (keep node l).outcome payload v l = some (node.form l) := by
  rw [outcome_apply, effect_keep, if_pos (List.prefix_refl l), if_pos rfl]
  rfl

/-- No directory is in the slot of a container. -/
theorem outcome_keep_slot (v : View) (ho : node.opens l = true) :
    (keep node l).outcome payload v (l ++ [payload])
      ≠ some .directory := by
  have hgive : (keep node l).outcome payload v (l ++ [payload])
      = node.inSlot l := by
    rw [outcome_apply, effect_keep, if_pos (List.prefix_append l _),
      if_neg (by simp), ho, if_neg (by simp), if_pos rfl]
    rfl
  rw [hgive, Node.inSlot]
  split <;> simp [Node.file]

/-- A container that is kept leaves what is below it. -/
theorem outcome_keep_inner (v : View) (ho : node.opens l = true)
    (hm : View.Inner payload l m) :
    (keep node l).outcome payload v m = v m := by
  obtain ⟨hp, hl, hs⟩ := hm
  rw [outcome_apply, effect_keep, if_pos hp, if_neg hl, ho,
    if_neg (by simp), if_neg hs]
  rfl

/-- Unless a leaf took the place of a directory and a container comes after
it, the earlier node leaves no trace. -/
theorem outcome_keep_absorbs {v : View} (h : v.Linkless)
    (hno : ¬ (n₁.opens l = false ∧ n₂.opens l = true
      ∧ v l = some .directory)) :
    (keep n₂ l).outcome payload ((keep n₁ l).outcome payload v)
      = (keep n₂ l).outcome payload v := by
  funext m
  rw [outcome_keep_keep]
  split
  · next hcond =>
      -- nothing stood below the place, which was no directory
      obtain ⟨hinner, h₁, h₂⟩ := hcond
      rw [outcome_keep_inner v h₂ hinner,
        h.below (fun hd => hno ⟨h₁, h₂, hd⟩) hinner.1 hinner.2.1]
  · rfl

/-- Nothing is left to be cleared. -/
theorem outcome_clear_same (v : View) :
    (clear l).outcome payload ((clear l).outcome payload v)
      = (clear l).outcome payload v := by
  funext m
  by_cases hp : (if l = [] then [payload] else l) <+: m
  · simp only [outcome_apply, effect_clear, if_pos hp, Effect.at]
  · simp only [outcome_apply, effect_clear, if_neg hp, Effect.at]

end Change

-- ============================================================ what is gone

/-- Nothing is seen at the path, and the system can tell that. -/
structure Disk.Gone (d : Disk) (p : Path) : Prop where
  directory : d.isDirectory p = .ok false
  occupied : d.occupied p = false

theorem Disk.gone_of_find {d : Disk} {p : Path}
    (h : ∀ follow, d.find follow p = Disk.refuse p .noEntry) : d.Gone p where
  directory := by
    rw [Disk.isDirectory, Disk.status, h true]
    rfl
  occupied := by
    rw [Disk.occupied, Disk.linkStatus, h false]
    rfl

/-- Where nothing is seen nothing is taken away. -/
theorem Replica.remove_gone {p : Path} {h : Host} (hgone : h.disk.Gone p)
    (r : Replica) : r.remove p h = .ok ()
      { h with log := h.log ++ [⟨.debug, s!"{p} already absent"⟩] } := by
  unfold remove
  rw [ask_bind_eq hgone.directory, if_neg (by simp), get_bind_eq]
  simp only [hgone.occupied, Bool.false_eq_true, if_false, say]

namespace Footing

open View

variable {s : Footing} {v : View} {before : Host} {payload : String}
  {node : Node} {a l : Location} {n : String} {r : Replica}

-- ============================================================== kept again

/-- Where the node stands no way has to be made for it. -/
theorem bears_convertKind_same (ho : s.Open v) (hr : s.Keeps payload r)
    (hn : AllSegments l) (hfits : s.Fits l)
    (hform : v l = some (node.form l)) :
    Carries (s.Bears before) (r.convertKind node (s.path.descend l)) v
      (fun _ w => w = v) (fun _ _ => False) := by
  unfold Replica.convertKind
  rw [hr.root]
  by_cases hl : l = []
  · rw [hl, Path.descend_nil, if_pos rfl]
    exact carries_pure rfl
  rw [if_neg fun h => hl (Path.descend_eq_self.mp h)]
  have hopens : node.opens l = node.isContainer := by simp [Node.opens, hl]
  rw [Node.form, hopens] at hform
  refine (bears_isDirectory (g := fun b w => b = node.isContainer ∧ w = v) ho
    hn (fun _ => ⟨?_, rfl⟩) (fun e hno => absurd hfits hno)).bind ?_
  · rw [hform]
    cases node.isContainer <;> simp [Node.file]
  intro _ _ hmid
  obtain ⟨rfl, rfl⟩ := hmid
  rw [if_neg (by simp)]
  refine (bears_isFile (g := fun b w => b = !node.isContainer ∧ w = _) ho
    hn ⟨?_, rfl⟩ (fun e hno => absurd hfits hno)).bind ?_
  · rw [hform]
    cases node.isContainer <;> simp [Node.file, Shape.isFile]
  intro _ _ hmid
  obtain ⟨rfl, rfl⟩ := hmid
  rw [if_neg (by simp)]
  exact carries_pure rfl

/-- A node that stands at its place and is reached there can be kept. -/
theorem bears_materialize_again (hr : s.Keeps payload r)
    (hn : AllSegments l) (hpay : payload ∉ l)
    (ht : Disk.representable node.modifiedAt = true)
    (hlodged : s.Lodged payload node l v)
    (hform : v l = some (node.form l))
    (hslot : node.opens l = true → v (l ++ [payload]) ≠ some .directory) :
    Carries (s.Bears before) (r.materialize node (s.path.descend l)) v
      (fun _ _ => True) (fun _ _ => False) := by
  have hp := hr.segment
  have ho := hlodged.leads
  refine bears_of_linkless fun hv => ?_
  unfold Replica.materialize
  rw [hr.root, hr.slot, Remote.payloadSlot_descend hp.toIsName]
  have hfill : node.opens l = true → Carries (s.Bears before) (do
      if node.hasData then
        Replica.writeFile (s.path.descend (l ++ [payload])) node.bytes
          node.modifiedAt
      else act (·.removeFileIfAny (s.path.descend (l ++ [payload]))))
      v (fun _ _ => True) (fun _ _ => False) := fun hopen =>
    bears_fill ho hp hn (by rw [hform, Node.form, hopen]; rfl) ht
      (fun _ _ => trivial)
      (fun e hno => hno ⟨hlodged.slot hopen, hslot hopen⟩)
  rcases List.eq_nil_or_concat l with rfl | ⟨a, n, rfl⟩
  · -- the root
    simp only [Path.descend_nil, ne_eq, not_true_eq_false, if_false,
      decide_false, Bool.and_false]
    exact Carries.recast (hfill (by simp [Node.opens]))
  rw [List.concat_eq_append] at *
  have hroot : s.path.descend (a ++ [n]) ≠ s.path :=
    fun h => absurd (Path.descend_eq_self.mp h) (by simp)
  have hopens : node.opens (a ++ [n]) = node.isContainer := by
    simp [Node.opens]
  have hparent := hv.above a [n] (by simp) (by simp [hform])
  rw [if_pos hroot, Path.parent_descend]
  refine ((bears_ensureChain_standing ho (hn.above (List.prefix_append a [n]))
    (hlodged.fits.above (List.prefix_append a [n])) hparent).mono
    (fun _ _ hg => hg) (fun _ _ hno => hno)).bind ?_
  intro _ _ heq
  subst heq
  simp only [hroot, ne_eq, not_false_eq_true, if_true, decide_true,
    Bool.and_true]
  refine Carries.recast ?_
  rw [Node.form, hopens] at hform
  cases hk : node.isContainer with
  | false =>
      rw [if_pos (by simp)]
      rw [hk] at hform
      refine bears_writeFile ho hn ht (fun _ _ => trivial)
        (fun e hno => hno ⟨hlodged.fits, hparent, ?_⟩)
      simp [hform, Node.file]
  | true =>
      rw [if_neg (by simp)]
      rw [hk, if_pos rfl] at hform
      refine (bears_ensureDirectory (g := fun _ w => w = _) ho hn
        (fun _ _ => rfl) (fun _ _ hx => ?_)
        (fun e hno => absurd ⟨hlodged.fits, hform⟩ hno)).bind ?_
      · rw [hform] at hx
        cases hx
      intro _ _ heq
      subst heq
      exact hfill (hopens.trans hk)

/-- With less in a tree, a place that could be reached and has gone is not
found, whether or not the path still leads to the footing. -/
theorem gone_of_within {m m' : Entry} (ho : s.Open m.view)
    (hm : m.view.Linkless) (hn : AllSegments (a ++ [n]))
    (hfits : s.Fits (a ++ [n])) (ha : m.view a = some .directory)
    (hless : m'.view.Within m.view) (hnone : m'.view (a ++ [n]) = none) :
    (s.holding m').Gone (s.path.descend (a ++ [n])) := by
  refine Disk.gone_of_find fun follow => ?_
  have hreach := reach_fits ho hm.base hm.noLinks hn.names hfits ha follow
    (.path (s.path.descend (a ++ [n])))
  obtain ⟨hclear, hshort, hw⟩ := Disk.reach_eq_ok.mp hreach
  unfold Disk.find Disk.reach
  rw [hclear, if_neg (by simp), if_neg (by omega)]
  rcases walk_within (holding_within hless) follow linkLimit
      ((s.holding m').start (s.path.descend (a ++ [n])).anchor)
      (s.path.descend (a ++ [n])).parts with hsame | hstuck
  · have hget : (s.holding m').root.get? (s.location ++ a ++ [n]) = none := by
      rw [List.append_assoc, s.holding_get?]
      exact Entry.view_eq_none.mp hnone
    rw [hsame.trans hw]
    simp only [bind, Except.bind, Place.location, hget]
  · generalize walk _ _ _ _ _ = result at hstuck
    cases hstuck with
    | stopped => rfl
    | nowhere place nothing =>
        simp only [bind, Except.bind, Entry.view_eq_none.mp nothing]

/-- If clearing a free place went well nothing is seen there. -/
theorem gone_of_remove {h h' : Host} (ho : s.Open v) (hl : l ≠ [])
    (hn : AllSegments l) (hs : s.Bears before v h) (hnone : v l = none)
    (hok : r.remove (s.path.descend l) h = .ok () h') :
    h.disk.Gone (s.path.descend l) := by
  obtain ⟨m, hm, rfl⟩ := hs.tree
  have hlinkless := hs.linkless
  refine ⟨?_, ?_⟩
  · have hf := found_true ho hlinkless hn
    rw [← hm] at hf
    cases hask : h.disk.isDirectory (s.path.descend l) with
    | ok b =>
        rw [Disk.isDirectory, Disk.status] at hask
        generalize h.disk.find true (s.path.descend l) = result at hf hask
        cases hf with
        | there fits stands => simp [Entry.view, stands] at hnone
        | absent tells nothing =>
            simp only [Except.map, Disk.holds, tells, if_true] at hask
            exact hask.symm
        | unfit other fits =>
            simp only [Except.map, Disk.holds, other, Bool.false_eq_true,
              if_false] at hask
            cases hask
    | error f =>
        -- then clearing the place would have failed as well
        have hstop : r.remove (s.path.descend l) h = .error f h :=
          bind_error_eq (by simp only [ask, hask])
        rw [hstop] at hok
        cases hok
  · rw [hm, Bool.eq_false_iff]
    exact fun hocc => ((occupied_iff ho hlinkless hl hn).mp hocc).2 hnone

/-- The root's slot can be cleared once more. -/
theorem bears_remove_again (ho : s.Open v) (hr : s.Keeps payload r)
    (hfits : s.Fits [payload]) (hslot : v [payload] = none) :
    Carries (s.Bears before) (r.remove (s.path.descend [])) v
      (fun _ _ => True) (fun _ _ => False) := by
  have hp := hr.segment
  have hnil : AllSegments [] := fun _ hm => absurd hm (by simp)
  refine bears_of_linkless fun hv => ?_
  unfold Replica.remove
  rw [hr.root, hr.slot, Remote.payloadSlot_descend hp.toIsName]
  refine (bears_isDirectory (g := fun b w => b = true ∧ w = v) ho hnil
    (fun _ => ⟨by simp [hv.base], rfl⟩)
    (fun e hno => absurd s.fits_nil hno)).bind ?_
  intro _ _ hmid
  obtain ⟨rfl, rfl⟩ := hmid
  rw [if_pos rfl]
  refine (bears_removeFileIfAny (g := fun _ _ => True) ho (hnil.concat hp)
    (fun _ _ => trivial)
    (fun e hno => hno ⟨hfits, hv.base, by simp [hslot]⟩)).bind ?_
  intro _ _ _
  rw [if_neg (by simp)]
  exact carries_pure trivial

/-- An event about a node that stands at its place and is reached there is
refused no step. -/
theorem bears_settle_again (hr : s.Keeps payload r) (hn : AllSegments l)
    (hpay : payload ∉ l) (ht : Disk.representable node.modifiedAt = true)
    (hlodged : s.Lodged payload node l v)
    (hform : v l = some (node.form l))
    (hslot : node.opens l = true → v (l ++ [payload]) ≠ some .directory)
    {kind : EventKind} (hkind : kind = .added ∨ kind = .updated) :
    Carries (s.Bears before) (r.settle kind node (s.path.descend l)) v
      (fun _ _ => True) (fun _ _ => False) := by
  have hkept : Carries (s.Bears before)
      (r.materialize node (s.path.descend l)) v _ _ :=
    bears_materialize_again hr hn hpay ht hlodged hform hslot
  unfold Replica.settle
  rcases hkind with rfl | rfl
  · refine ((bears_checkAdded hlodged.leads hr hn).mono
      (fun _ _ hg => hg.1) (fun _ _ hbad => ?_)).bind ?_
    · obtain ⟨-, hclash, -⟩ := hbad
      refine hclash.other ?_
      rw [hform, Node.form]
      have hopens : node.opens l = node.isContainer := by
        simp [Node.opens, hclash.inside]
      rw [hopens]
      cases node.isContainer <;> simp [Node.file]
    · intro _ _ heq
      subst heq
      exact Carries.recast hkept
  · refine Carries.bind (p := fun _ w => w = v) (Carries.recast
      ((bears_convertKind_same hlodged.leads hr hn hlodged.fits hform).mono
        (fun _ _ hg => hg) (fun _ _ hno => hno))) ?_
    intro _ _ heq
    subst heq
    exact Carries.recast hkept

-- ====================================================== twice in a row

variable {h h' mid : Host} {w : View}

/-- A node that was kept is kept again, and nothing changes. -/
theorem settle_twice {s' : Footing} (hseat : s.Reseats s')
    (hr : s.Keeps payload r) (hn : AllSegments l) (hpay : payload ∉ l)
    (ht : Disk.representable node.modifiedAt = true)
    (hlodged : s'.Lodged payload node l w) {kind : EventKind}
    (hkind : kind = .added ∨ kind = .updated)
    (hw : w = (Change.keep node l).outcome payload v)
    (hs : s.Bears before w h) :
    ∃ h', r.settle kind node (s.path.descend l) h = .ok () h'
      ∧ s.Bears before w h' := by
  have hs' : s'.Bears before w h := hseat.bears_iff.mpr hs
  have hform : w l = some (node.form l) :=
    hw ▸ Change.outcome_keep_place v
  have hslot : node.opens l = true → w (l ++ [payload]) ≠ some .directory :=
    fun ho => hw ▸ Change.outcome_keep_slot v ho
  have hchange : kind.change? node l = some (.keep node l) := by
    rcases hkind with rfl | rfl <;> rfl
  have hagain : Carries (s'.Bears before)
      (r.settle kind node (s'.path.descend l)) w _ _ :=
    bears_settle_again (hseat.keeps hr) hn hpay ht hlodged hform hslot hkind
  have hwork : Carries (s'.Bears before)
      (r.settle kind node (s'.path.descend l)) w _ _ :=
    bears_settle hlodged.leads (hseat.keeps hr) hn hpay ht kind
  replace hagain := hagain h hs'
  replace hwork := hwork h hs'
  rw [hseat.path] at hagain hwork
  cases hresult : r.settle kind node (s.path.descend l) h with
  | error setback host =>
      rw [hresult] at hagain
      obtain ⟨-, -, hno⟩ := hagain
      exact hno.elim
  | ok u host =>
      rw [hresult] at hwork
      obtain ⟨w', hw', hout, -⟩ := hwork
      refine ⟨host, rfl, hseat.bears_iff.mp ?_⟩
      rwa [hout, hchange, Outcome, hw, Change.outcome_keep_same, ← hw] at hw'

/-- A place that was cleared is seen to be free, unless it is the root. -/
theorem gone_of_cleared (ho : s.Open v) (hl : l ≠ []) (hn : AllSegments l)
    (hs : s.Bears before v h)
    (hok : r.remove (s.path.descend l) h = .ok () mid)
    (hmid : s.Bears before ((Change.clear l).outcome payload v) mid)
    (hfits : v l ≠ none → s.Fits l) :
    mid.disk.Gone (s.path.descend l) := by
  by_cases hthere : v l = none
  · have hgone := gone_of_remove ho hl hn hs hthere hok
    rw [Replica.remove_gone hgone] at hok
    cases hok
    exact hgone
  · obtain ⟨m, hm, rfl⟩ := hs.tree
    obtain ⟨m', hm', hview⟩ := hmid.tree
    rw [← outcome_clear hl] at hview
    obtain ⟨a, n, rfl⟩ := (List.eq_nil_or_concat l).resolve_left hl
    rw [List.concat_eq_append] at *
    rw [hm']
    refine gone_of_within ho hs.linkless hn (hfits hthere)
      (hs.linkless.above a [n] (by simp) hthere) ?_ ?_
    · rw [hview]
      exact within_cut _ _
    · rw [hview]
      exact cut_within (List.prefix_refl _)

/-- A place that was cleared is cleared again, and nothing changes. -/
theorem remove_twice (ho : s.Open v) (hr : s.Keeps payload r)
    (hn : AllSegments l) (hs : s.Bears before v h)
    (hok : r.remove (s.path.descend l) h = .ok () mid)
    (hmid : s.Bears before w mid)
    (hw : w = (Change.clear l).outcome payload v)
    (hcleared : s.Cleared payload l v w) {later : Host} {log : Log}
    (hagain : s.Bears later w { mid with log := log }) :
    ∃ h', r.remove (s.path.descend l) { mid with log := log } = .ok () h'
      ∧ s.Bears later w h' := by
  by_cases hl : l = []
  · subst hl
    obtain ⟨hopen, hfits⟩ := hcleared.root rfl
    have hslot : w [payload] = none := by
      rw [hw, ← outcome_clear_root]
      exact cut_within (List.prefix_refl _)
    have hnever := bears_remove_again hopen hr hfits hslot _ hagain
    have hwork := bears_remove hopen hr hn _ hagain
    cases hresult : r.remove (s.path.descend []) { mid with log := log } with
    | error f host =>
        rw [hresult] at hnever
        obtain ⟨-, -, hno⟩ := hnever
        exact hno.elim
    | ok u host =>
        rw [hresult] at hwork
        obtain ⟨w', hw', hout, -⟩ := hwork
        refine ⟨host, rfl, ?_⟩
        rwa [hout, hw, Change.outcome_clear_same, ← hw] at hw'
  · have hgone := gone_of_cleared ho hl hn hs hok (hw ▸ hmid) hcleared.fits
    refine ⟨_, Replica.remove_gone (h := { mid with log := log }) hgone r, ?_⟩
    exact hagain.said (by simp) _

-- ================================================================ an event

variable {e : Event}

/-- An announcement does not change what is borne, and all that was
reported before it is the start. -/
theorem Bears.announced (hs : s.Bears before v h) (e : Event) :
    s.Bears h v (e.announced h) :=
  hs.restart.said (by simp) e.text

section About

variable (hr : s.Keeps r.payload r) (hk : e.kind ≠ .initialized)
  (hnode : e.node = some node) (hplace : r.place? node.path = some l)
  (hn : AllSegments l) (ht : Disk.representable node.modifiedAt = true)

include hr hk hnode hplace

/-- An event is applied as its work goes. -/
theorem apply_of_settle
    (hok : r.settle e.kind node (s.path.descend l) (e.announced h)
      = .ok () h') : r.apply e h = .ok () h' := by
  rw [← hr.root] at hok
  rw [Replica.apply_eq hk hnode (Remote.toLocal_of_place hplace r.root), hok]

include hn ht

/-- An event of which no error is reported was refused no step. -/
theorem done_of_calm (ho : s.Open v) (hs : s.Bears before v h)
    (happly : r.apply e h = .ok () h') (hcalm : before.log.Calm h'.log) :
    r.settle e.kind node (s.path.descend l) (e.announced h) = .ok () h'
      ∧ ∃ w, s.Bears before w h'
        ∧ w = Outcome r.payload v (e.kind.change? node l)
        ∧ s.Done r.payload e.kind node l v w := by
  have hsaid : s.Bears before v (e.announced h) := hs.said (by simp) e.text
  have hwork : Carries (s.Bears before)
      (r.settle e.kind node (s.path.descend l)) v _ _ :=
    bears_settle ho hr hn (Remote.place?_names hplace).2 ht e.kind
  replace hwork := hwork (e.announced h) hsaid
  rw [Replica.apply_eq hk hnode (Remote.toLocal_of_place hplace r.root),
    hr.root] at happly
  cases hresult : r.settle e.kind node (s.path.descend l) (e.announced h) with
  | ok u host =>
      rw [hresult] at hwork happly
      obtain ⟨w, hw, hout, -, hdone⟩ := hwork
      cases happly
      exact ⟨rfl, w, hw, hout, hdone⟩
  | error setback host =>
      rw [hresult] at hwork happly
      obtain ⟨w, hw, -⟩ := hwork
      rcases setback with x | (cause | (x | x))
      · cases happly
      · cases happly
        exact absurd hcalm (Log.not_calm_error hw.calm _)
      · cases happly
        exact absurd hcalm (Log.not_calm_error hw.calm _)
      · cases happly

/-- Such an event can come again, and changes nothing then. -/
theorem apply_again (ho : s.Open v) (hs : s.Bears before v h)
    (happly : r.apply e h = .ok () h') (hcalm : before.log.Calm h'.log) :
    ∃ w h'', s.Bears before w h' ∧ r.apply e h' = .ok () h''
      ∧ s.Bears h' w h'' := by
  have hpay := (Remote.place?_names hplace).2
  obtain ⟨hok, w, hw, hout, hdone⟩ :=
    done_of_calm hr hk hnode hplace hn ht ho hs happly hcalm
  have hsaid : s.Bears before v (e.announced h) := hs.said (by simp) e.text
  have hagain : s.Bears h' w (e.announced h') := hw.announced e
  suffices hsettle : ∃ h'', r.settle e.kind node (s.path.descend l)
      (e.announced h') = .ok () h'' ∧ s.Bears h' w h'' by
    obtain ⟨h'', hok', hw'⟩ := hsettle
    exact ⟨w, h'', hw, apply_of_settle hr hk hnode hplace hok', hw'⟩
  by_cases hremoved : e.kind = .removed
  · rw [hremoved] at hok hout ⊢
    have hclear : r.remove (s.path.descend l) (e.announced h) = .ok () h' :=
      ok_of_recast hok
    obtain ⟨h'', hok', hw'⟩ := remove_twice ho hr hn hsaid hclear hw hout
      (hdone.cleared hremoved) hagain
    exact ⟨h'', recast_ok_eq hok', hw'⟩
  · have hkind : e.kind = .added ∨ e.kind = .updated := by
      cases hkind : e.kind with
      | added => exact Or.inl rfl
      | updated => exact Or.inr rfl
      | removed => exact absurd hkind hremoved
      | initialized => exact absurd hkind hk
    obtain ⟨s', hseat, hlodged⟩ := hdone.lodged hkind
    have hkeep : w = (Change.keep node l).outcome r.payload v := by
      rcases hkind with hkind | hkind <;> rw [hout, hkind] <;> rfl
    exact settle_twice hseat hr hn hpay ht hlodged hkind hkeep hagain

/-- An update of which no error is reported keeps its node. -/
theorem update_calm (hkind : e.kind = .updated) (ho : s.Open v)
    (hs : s.Bears before v h) (hcalm : before.log.Calm (r.leave h e).log) :
    ∃ h', r.apply e h = .ok () h'
      ∧ s.Bears before ((Change.keep node l).outcome r.payload v) h' := by
  have happ := applies_at ho hr hk hnode hplace hn ht hs
  unfold Replica.leave at hcalm
  cases hresult : r.apply e h with
  | ok u h' =>
      rw [hresult] at happ hcalm
      cases happ with
      | made whole bears =>
          have hchange : r.change? e = some (.keep node l) := by
            rw [Replica.change?, hnode]
            simp only [hplace, hkind]
            rfl
          rw [hchange] at bears
          exact ⟨h', rfl, bears⟩
      | refused text kind about place bears stems within =>
          exact absurd hcalm (Log.not_calm_error bears.calm text)
  | error halt h' =>
      rw [hresult] at happ
      cases happ with
      | broken breaks bears =>
          obtain ⟨a, -, hclash⟩ := (breaks_iff hnode).mp breaks
          cases hkind.symm.trans hclash.added

end About

/-- What a host shows below the footing that it bears. -/
theorem Bears.view_below (hs : s.Bears before v h) (m : Location) :
    h.disk.root.view (s.location ++ m) = v m := by
  obtain ⟨x, hx, rfl⟩ := hs.tree
  rw [hx, s.holding_view]

/-- Elsewhere all hosts that bear a tree on the footing show the same. -/
theorem Bears.view_outside (hs : s.Bears before v h) {m : Location}
    (hm : ¬ s.location <+: m) :
    h.disk.root.view m = s.disk.root.view m := by
  obtain ⟨x, hx, -⟩ := hs.tree
  rw [hx, s.holding_outside x hm]

end Footing

namespace Replica

variable {r : Replica} {h : Host} {l : Location} {cs : List (String × Entry)}

-- ============================================================ the replica

/-- Two events about nodes at one path, which is kept at `place`. The later
one is an update. -/
structure Overwrites (r : Replica) (e₁ e₂ : Event) (n₁ n₂ : Node)
    (place : Path) : Prop where
  earlier : e₁.kind = .added ∨ e₁.kind = .updated
  later : e₂.kind = .updated
  node₁ : e₁.node = some n₁
  node₂ : e₂.node = some n₂
  path : n₁.path = n₂.path
  kept : Remote.toLocal n₂.path r.root r.base r.payload = .ok place
  proper₁ : e₁.Proper
  proper₂ : e₂.Proper

/-- A leaf takes the place of a directory that is not the root, and a
container comes after it: `old` is what stood there. -/
structure Empties (n₁ n₂ : Node) (a : Location) (old : Option Shape) :
    Prop where
  inside : a ≠ []
  directory : old = some .directory
  leaf : n₁.isContainer = false
  container : n₂.isContainer = true

variable {e e₁ e₂ : Event} {n₁ n₂ : Node} {place : Path} {h₁ : Host}

theorem empties_iff {a : Location} {old : Option Shape} :
    Empties n₁ n₂ a old ↔ n₁.opens a = false ∧ n₂.opens a = true
      ∧ old = some .directory := by
  constructor
  · intro h
    refine ⟨?_, ?_, h.directory⟩
    · simp [Node.opens, h.leaf, h.inside]
    · simp [Node.opens, h.container]
  · intro hmid
    obtain ⟨h₁, h₂, hold⟩ := hmid
    have hne : a ≠ [] := fun hnil => by simp [Node.opens, hnil] at h₁
    refine ⟨hne, hold, ?_, ?_⟩
    · simpa [Node.opens, hne] using h₁
    · simpa [Node.opens, hne] using h₂

/-- What is shown on `h₂` and on `h₃`, after two events about the place `a`
and after the later one alone. `h` is the host before them. -/
structure Prevails (payload : String) (n₁ n₂ : Node) (l a : Location)
    (h h₂ h₃ : Host) : Prop where
  alike : ¬ Empties n₁ n₂ a (h.disk.root.view (l ++ a)) →
    h₂.disk.root.view = h₃.disk.root.view
  lost : Empties n₁ n₂ a (h.disk.root.view (l ++ a)) →
    ∀ m, View.Inner payload (l ++ a) m →
      h₂.disk.root.view m = none ∧ h₃.disk.root.view m = h.disk.root.view m
  other : Empties n₁ n₂ a (h.disk.root.view (l ++ a)) →
    ∀ m, ¬ View.Inner payload (l ++ a) m →
      h₂.disk.root.view m = h₃.disk.root.view m

/-- Of two events about one place the later one decides. -/
theorem overwritten (hp : IsSegment r.payload)
    (hroot : h.disk.find true r.root = .ok (l, .directory cs))
    (hlinks : ∀ m t, (Entry.directory cs).view m ≠ some (.link t))
    (hover : r.Overwrites e₁ e₂ n₁ n₂ place)
    (hfirst : r.apply e₁ h = .ok () h₁) (hcalm₁ : h.log.Calm h₁.log)
    (hcalm₂ : h₁.log.Calm (r.leave h₁ e₂).log)
    (hcalm₃ : h.log.Calm (r.leave h e₂).log) :
    ∃ a h₂ h₃, place = r.root.descend a
      ∧ r.apply e₂ h₁ = .ok () h₂ ∧ r.apply e₂ h = .ok () h₃
      ∧ Prevails r.payload n₁ n₂ l a h h₂ h₃ := by
  obtain ⟨s, hpath, rfl, hholding, hopen, hs⟩ :=
    Footing.exists_bears hroot hlinks
  have hr : s.Keeps r.payload r := ⟨hpath.symm, rfl, hp⟩
  obtain ⟨a, hplace₂, rfl⟩ := place?_of_toLocal hover.kept
  have hplace₁ : r.place? n₁.path = some a := by rw [hover.path, hplace₂]
  obtain ⟨hvalid₁, ht₁⟩ := hover.proper₁ n₁ hover.node₁
  obtain ⟨hvalid₂, ht₂⟩ := hover.proper₂ n₂ hover.node₂
  have hn := Remote.place?_segments hvalid₂ hplace₂
  have hk₁ : e₁.kind ≠ .initialized := by
    rcases hover.earlier with hk | hk <;> rw [hk] <;> simp
  have hk₂ : e₂.kind ≠ .initialized := by
    rw [hover.later]
    simp
  -- the earlier event, and the later one after it
  obtain ⟨-, w, hw, hout, hdone⟩ := Footing.done_of_calm hr hk₁ hover.node₁
    hplace₁ hn ht₁ hopen hs hfirst hcalm₁
  obtain ⟨s', hseat, hlodged⟩ := hdone.lodged hover.earlier
  replace hout : w = (Change.keep n₁ a).outcome r.payload
      (Entry.directory cs).view := by
    rcases hover.earlier with hk | hk <;> rw [hout, hk] <;> rfl
  obtain ⟨h₂, happly₂, hw₂⟩ := Footing.update_calm (hseat.keeps hr) hk₂
    hover.node₂ hplace₂ hn ht₂ hover.later hlodged.leads
    (hseat.bears_iff.mpr hw.restart) hcalm₂
  replace hw₂ := hseat.bears_iff.mp hw₂
  -- the later event alone
  obtain ⟨h₃, happly₃, hw₃⟩ := Footing.update_calm hr hk₂ hover.node₂ hplace₂
    hn ht₂ hover.later hopen hs hcalm₃
  refine ⟨a, h₂, h₃, rfl, happly₂, happly₃, ?_, ?_, ?_⟩ <;>
    rw [hs.view_below, empties_iff]
  · intro hno
    rw [hout, Change.outcome_keep_absorbs hs.linkless hno] at hw₂
    exact hw₂.view_eq hw₃
  · intro hempties m hinner
    obtain ⟨hopens₁, hopens₂, -⟩ := hempties
    obtain ⟨x, rfl⟩ := (List.prefix_append s.location a).trans hinner.1
    have hbelow := View.inner_append.mp hinner
    rw [hw₂.view_below, hw₃.view_below, hs.view_below, hout,
      Change.outcome_keep_keep, if_pos ⟨hbelow, hopens₁, hopens₂⟩]
    exact ⟨rfl, Change.outcome_keep_inner _ hopens₂ hbelow⟩
  · intro _ m hother
    by_cases hin : s.location <+: m
    · obtain ⟨x, rfl⟩ := hin
      rw [hw₂.view_below, hw₃.view_below, hout, Change.outcome_keep_keep,
        if_neg fun h => hother (View.inner_append.mpr h.1)]
    · rw [hw₂.view_outside hin, hw₃.view_outside hin]

/-- An event of which no error is reported can come again: it goes well
again, and changes nothing. -/
theorem repeated (hp : IsSegment r.payload)
    (hroot : h.disk.find true r.root = .ok (l, .directory cs))
    (hlinks : ∀ m t, (Entry.directory cs).view m ≠ some (.link t))
    (he : e.Proper) (happly : r.apply e h = .ok () h₁)
    (hcalm : h.log.Calm h₁.log) :
    ∃ h₂, r.apply e h₁ = .ok () h₂ ∧ h₁.log.Calm h₂.log
      ∧ h₂.disk.root.view = h₁.disk.root.view := by
  obtain ⟨s, hpath, rfl, hholding, hopen, hs⟩ :=
    Footing.exists_bears hroot hlinks
  have hr : s.Keeps r.payload r := ⟨hpath.symm, rfl, hp⟩
  have hsaid : h₁.log.Calm (e.announced h₁).log :=
    (Log.Calm.refl h₁.log).report (by simp) e.text
  by_cases hk : e.kind = .initialized
  · exact ⟨_, apply_initialized hk r h₁, hsaid, rfl⟩
  cases hnode : e.node with
  | none =>
      rw [apply_without hk hnode] at happly
      cases happly
  | some node =>
      obtain ⟨hvalid, ht⟩ := he node hnode
      cases hplace : r.place? node.path with
      | none =>
          obtain ⟨rejection, hrej⟩ := Remote.toLocal_of_none hplace r.root
          exact ⟨_, apply_skipped hk hnode hrej h₁, hsaid.report (by simp) _,
            rfl⟩
      | some a =>
          obtain ⟨w, h₂, hw₁, hagain, hw₂⟩ := Footing.apply_again hr hk hnode
            hplace (Remote.place?_segments hvalid hplace) ht hopen hs happly
            hcalm
          exact ⟨h₂, hagain, hw₂.calm, hw₂.view_eq hw₁⟩

/-- The last writer wins. An update after another event about its place
leaves what it leaves alone, but for what a leaf takes away before a
container comes. And an event of which no error is reported can come again
without any effect. -/
theorem last_writer_wins (hp : IsSegment r.payload)
    (hroot : h.disk.find true r.root = .ok (l, .directory cs))
    (hlinks : ∀ m t, (Entry.directory cs).view m ≠ some (.link t)) :
    (∀ e₁ e₂ n₁ n₂ place h₁, r.Overwrites e₁ e₂ n₁ n₂ place →
      r.apply e₁ h = .ok () h₁ → h.log.Calm h₁.log →
      h₁.log.Calm (r.leave h₁ e₂).log → h.log.Calm (r.leave h e₂).log →
      ∃ a h₂ h₃, place = r.root.descend a
        ∧ r.apply e₂ h₁ = .ok () h₂ ∧ r.apply e₂ h = .ok () h₃
        ∧ Prevails r.payload n₁ n₂ l a h h₂ h₃)
    ∧ ∀ e h₁, e.Proper → r.apply e h = .ok () h₁ → h.log.Calm h₁.log →
      ∃ h₂, r.apply e h₁ = .ok () h₂ ∧ h₁.log.Calm h₂.log
        ∧ h₂.disk.root.view = h₁.disk.root.view :=
  ⟨fun _ _ _ _ _ _ hover hfirst hcalm₁ hcalm₂ hcalm₃ =>
    overwritten hp hroot hlinks hover hfirst hcalm₁ hcalm₂ hcalm₃,
  fun _ _ he happly hcalm => repeated hp hroot hlinks he happly hcalm⟩

/-- A leaf and then a container where a directory was: the file in it is
lost, as it is not if the container comes alone. -/
theorem last_writer_wins_emptied :
    let r : Replica := { root := ⟨.here, ["m"]⟩, payload := "data" }
    let cs : List (String × Entry) :=
      [("a", .directory [("b", .file [1] (.dated 5))])]
    let h : Host := { disk := ⟨.directory [("m", .directory cs)], []⟩ }
    let e₁ : Event := ⟨.updated, some ⟨"/a", some [2], 0, 6⟩⟩
    let e₂ : Event := ⟨.updated, some ⟨"/a", none, 1, 7⟩⟩
    IsSegment r.payload
      ∧ h.disk.find true r.root = .ok (["m"], .directory cs)
      ∧ (∀ m t, (Entry.directory cs).view m ≠ some (.link t))
      ∧ ∃ h₁ h₂ h₃, r.apply e₁ h = .ok () h₁ ∧ r.apply e₂ h₁ = .ok () h₂
        ∧ r.apply e₂ h = .ok () h₃
        ∧ h₂.disk.root.view ["m", "a", "b"] = none
        ∧ h₃.disk.root.view ["m", "a", "b"] = some (.file [1] (.dated 5))
        ∧ ∃ h₄, r.apply e₁ h₁ = .ok () h₄
          ∧ h₄.disk.root.view = h₁.disk.root.view := by
  intro r cs h e₁ e₂
  have hp : IsSegment r.payload := by decide
  have hlinks : ∀ m t, (Entry.directory cs).view m ≠ some (.link t) :=
    Entry.noLinks_of_linkFree rfl
  have hroot : h.disk.find true r.root = .ok (["m"], .directory cs) :=
    show h.disk.find true ⟨.here, ["m"]⟩ = _ from rfl
  have hproper₁ : e₁.Proper := by decide +kernel
  have hproper₂ : e₂.Proper := by decide +kernel
  have hover : r.Overwrites e₁ e₂ ⟨"/a", some [2], 0, 6⟩ ⟨"/a", none, 1, 7⟩
      ⟨.here, ["m", "a"]⟩ :=
    ⟨Or.inr rfl, rfl, rfl, rfl, rfl, by decide +kernel, hproper₁, hproper₂⟩
  have hwell : endsWell (fun h₁ => decide (h.log.Calm h₁.log)
      && decide (h₁.log.Calm (r.leave h₁ e₂).log)) (r.apply e₁ h) = true := by
    decide +kernel
  have hcalm₃ : h.log.Calm (r.leave h e₂).log := by decide +kernel
  obtain ⟨u, h₁, hfirst, hcalm⟩ := exists_of_endsWell hwell
  simp only [Bool.and_eq_true, decide_eq_true_eq] at hcalm
  obtain ⟨hcalm₁, hcalm₂⟩ := hcalm
  obtain ⟨hboth, hagain⟩ := last_writer_wins hp hroot hlinks
  obtain ⟨a, h₂, h₃, hplace, happly₂, happly₃, hprevails⟩ :=
    hboth e₁ e₂ _ _ _ h₁ hover hfirst hcalm₁ hcalm₂ hcalm₃
  obtain ⟨h₄, happly₄, -, hsame⟩ := hagain e₁ h₁ hproper₁ hfirst hcalm₁
  obtain rfl : a = ["a"] := by
    simpa [Path.descend, r] using hplace.symm
  have hempties : Empties ⟨"/a", some [2], 0, 6⟩ ⟨"/a", none, 1, 7⟩ ["a"]
      (h.disk.root.view (["m"] ++ ["a"])) :=
    ⟨by simp, rfl, rfl, rfl⟩
  have hinner : View.Inner r.payload (["m"] ++ ["a"]) ["m", "a", "b"] := by
    decide
  obtain ⟨hlost, hkept⟩ := hprevails.lost hempties _ hinner
  exact ⟨hp, hroot, hlinks, h₁, h₂, h₃, hfirst, happly₂, happly₃, hlost,
    hkept.trans rfl, h₄, happly₄, hsame⟩

end Replica

end TreeReplica
