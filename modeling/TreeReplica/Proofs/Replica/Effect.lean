/-
What a change does to a view as a whole, slots and whatever is below them
included. At every location a change keeps what stands there, gives it
another entry, or lifts the bytes of a file into the slot of the place
that becomes a directory (`Effect`), so that a changed view can be read
off location by location (`Change.outcome`). Changes at places that are
not above one another commute (`outcome_comm`): where both act they give
the same.
-/
import TreeReplica.Proofs.Replica.Change

namespace TreeReplica

-- ============================================================== effects

/-- What a change does at one location. -/
inductive Effect
  | keep
  | give (x : Option Shape)
  | lift
  deriving DecidableEq, Repr, Inhabited

/-- What stands at `m` after an effect there, where the view was `v`. -/
def Effect.at (payload : String) (v : View) (m : Location) :
    Effect → Option Shape
  | .keep => v m
  | .give x => x
  | .lift => v.slotAfter payload m.dropLast

/-- Is `m` the payload slot of a place on the way to `l`, the root not
counted? -/
def IsSlotOn (payload : String) (l m : Location) : Prop :=
  m.dropLast <+: l ∧ m.dropLast ≠ [] ∧ m = m.dropLast ++ [payload]

instance (payload : String) (l m : Location) :
    Decidable (IsSlotOn payload l m) := by
  unfold IsSlotOn
  infer_instance

/-- A slot is not an open location. -/
theorem IsSlotOn.payload_mem {payload : String} {l m : Location}
    (h : IsSlotOn payload l m) : payload ∈ m := by
  rw [h.2.2]
  simp

/-- What making the places on the way to `l` directories does at `m`. -/
def wayEffect (payload : String) (l m : Location) : Effect :=
  if m <+: l then .give (some .directory)
  else if IsSlotOn payload l m then .lift
  else .keep

namespace Change

/-- The place that a change is about. -/
def location : Change → Location
  | .keep _ l => l
  | .clear l => l

/-- What a change does at `m`. -/
def effect (payload : String) : Change → Location → Effect
  | .keep node l, m =>
      if l <+: m then
        if m = l then .give (some (node.form l))
        else if node.opens l = false then .give none
        else if m = l ++ [payload] then .give (node.inSlot l)
        else .keep
      else wayEffect payload l m
  | .clear l, m =>
      if (if l = [] then [payload] else l) <+: m then .give none else .keep

/-- The view after a change. -/
def outcome (payload : String) (v : View) (c : Change) : View :=
  fun m => (c.effect payload m).at payload v m

theorem effect_keep (payload : String) (node : Node) (l m : Location) :
    (keep node l).effect payload m
      = if l <+: m then
          if m = l then .give (some (node.form l))
          else if node.opens l = false then .give none
          else if m = l ++ [payload] then .give (node.inSlot l)
          else .keep
        else wayEffect payload l m := rfl

theorem effect_clear (payload : String) (l m : Location) :
    (clear l).effect payload m
      = if (if l = [] then [payload] else l) <+: m then .give none
        else .keep := rfl

theorem outcome_apply (payload : String) (v : View) (c : Change)
    (m : Location) :
    c.outcome payload v m = (c.effect payload m).at payload v m := rfl

end Change

namespace View

variable {payload : String} {v w : View} {node : Node} {a l m : Location}
  {n : String}

-- =============================================================== chains

theorem isSlotOn_append {q : Location} (hq : q <+: l) (hne : q ≠ []) :
    IsSlotOn payload l (q ++ [payload]) := by
  unfold IsSlotOn
  rw [List.dropLast_concat]
  exact ⟨hq, hne, rfl⟩

/-- A chain is what the effects on the way to its end make. -/
theorem Chained.effect (h : Chained payload v [] a w)
    (hroot : v [] = some .directory) (m : Location) :
    w m = (wayEffect payload a m).at payload v m := by
  unfold wayEffect
  by_cases hp : m <+: a
  · rw [if_pos hp]
    by_cases hnil : m = []
    · rw [hnil, h.kept [] (fun p _ hne => by simp [Ne.symm hne]), hroot]
      rfl
    · exact h.made m hp hnil
  rw [if_neg hp]
  by_cases hs : IsSlotOn payload a m
  · rw [if_pos hs]
    obtain ⟨hq, hne, heq⟩ := hs
    rw [heq]
    have hslot := h.slot m.dropLast hq hne
    rw [List.nil_append] at hslot
    simpa [Effect.at] using hslot
  · rw [if_neg hs]
    refine h.kept m fun p hpre hne => ⟨?_, ?_⟩
    · intro heq
      rw [List.nil_append] at heq
      exact hp (heq ▸ hpre)
    · intro heq
      rw [List.nil_append] at heq
      exact hs (heq ▸ isSlotOn_append hpre hne)

/-- Off the place itself and what is below it, the way to a place is the
way to its parent. -/
theorem wayEffect_concat (h : ¬ a ++ [n] <+: m) :
    wayEffect payload (a ++ [n]) m = wayEffect payload a m := by
  have hway : m <+: a ++ [n] ↔ m <+: a :=
    Site.prefix_concat_of_ne fun heq => h (heq ▸ List.prefix_refl _)
  have hslot : IsSlotOn payload (a ++ [n]) m ↔ IsSlotOn payload a m := by
    unfold IsSlotOn
    rw [Site.prefix_concat_of_ne fun heq => h ?_]
    rw [← heq]
    exact List.dropLast_prefix m
  unfold wayEffect
  simp only [hway, hslot]

-- =========================================================== the changes

/-- A leaf kept, once its parents are directories. -/
theorem outcome_leaf (h : v.Linkless)
    (hc : Chained payload v [] a w) (hl : node.opens (a ++ [n]) = false) :
    w.set (a ++ [n]) node.file
      = (Change.keep node (a ++ [n])).outcome payload v := by
  funext m
  rw [Change.outcome_apply, Change.effect_keep]
  by_cases hp : a ++ [n] <+: m
  · by_cases he : m = a ++ [n]
    · rw [if_pos hp, if_pos he, he, set_self, Node.form, hl]
      rfl
    · rw [if_pos hp, if_neg he, if_pos hl, set_below hp he]
      rfl
  · rw [if_neg hp, set_outside hp, wayEffect_concat hp]
    exact hc.effect h.base m

/-- The root, or a container, with its slot filled. -/
theorem fill_eq (h : w.Linkless)
    (ho : node.opens l = true) (hslot : w (l ++ [payload]) ≠ some .directory)
    (m : Location) :
    w.fill payload node l m
      = if m = l ++ [payload] then node.inSlot l else w m := by
  unfold fill Node.inSlot
  rw [ho, Bool.true_and]
  by_cases he : m = l ++ [payload]
  · rw [if_pos he, he]
    split
    · exact set_self ..
    · exact cut_within (List.prefix_refl _)
  rw [if_neg he]
  by_cases hp : l ++ [payload] <+: m
  · rw [h.below hslot hp he]
    split
    · exact set_below hp he _
    · exact cut_within hp
  · split
    · exact set_outside hp _
    · exact cut_outside hp

/-- A container kept, once its parents are directories. -/
theorem outcome_container (h : v.Linkless) (hw : w.Linkless)
    (hpay : payload ∉ a ++ [n]) (hc : Chained payload v [] a w)
    (ho : node.opens (a ++ [n]) = true)
    (he : (w.ensure (a ++ [n])).Linkless)
    (hslot : w.ensure (a ++ [n]) (a ++ [n] ++ [payload]) ≠ some .directory) :
    (w.ensure (a ++ [n])).fill payload node (a ++ [n])
      = (Change.keep node (a ++ [n])).outcome payload v := by
  funext m
  rw [Change.outcome_apply, Change.effect_keep, fill_eq he ho hslot, ho]
  by_cases hp : a ++ [n] <+: m
  · rw [if_pos hp]
    by_cases hm : m = a ++ [n]
    · have hne : m ≠ a ++ [n] ++ [payload] := by simp [hm]
      rw [if_neg hne, if_pos hm, hm, ensure_self, Node.form, ho]
      rfl
    rw [if_neg hm, if_neg (by decide : ¬ true = false)]
    by_cases hs : m = a ++ [n] ++ [payload]
    · rw [if_pos hs, if_pos hs]
      rfl
    -- below the place nothing else is on the way
    have hoff : wayEffect payload a m = .keep := by
      unfold wayEffect
      rw [if_neg fun hm' => not_prefix_of_append (by simp) (hp.trans hm'),
        if_neg]
      intro hslot'
      obtain ⟨hq, -, heq⟩ := hslot'
      rw [heq] at hp
      exact not_prefix_of_append (by simp)
        (((prefix_slot hpay).mp hp).trans hq)
    rw [if_neg hs, if_neg hs, hw.ensure_below hm, hc.effect h.base, hoff]
  · have hne : m ≠ a ++ [n] ++ [payload] :=
      fun hs => hp (hs ▸ List.prefix_append _ _)
    rw [if_neg hp, if_neg hne, ensure_outside hp, wayEffect_concat hp]
    exact hc.effect h.base m

/-- The root kept. -/
theorem outcome_root (h : v.Linkless)
    (hslot : v [payload] ≠ some .directory) :
    v.fill payload node [] = (Change.keep node []).outcome payload v := by
  have ho : node.opens [] = true := by simp [Node.opens]
  funext m
  rw [Change.outcome_apply, Change.effect_keep, fill_eq h ho hslot, ho,
    if_pos List.nil_prefix]
  by_cases hm : m = []
  · have hne : m ≠ [] ++ [payload] := by simp [hm]
    rw [if_neg hne, if_pos hm, hm, h.base, Node.form, ho]
    rfl
  rw [if_neg hm, if_neg (by decide : ¬ true = false)]
  by_cases hs : m = [] ++ [payload]
  · rw [if_pos hs, if_pos hs]
    rfl
  · rw [if_neg hs, if_neg hs]
    rfl

/-- A place cleared. -/
theorem outcome_clear (hl : l ≠ []) :
    v.cut l = (Change.clear l).outcome payload v := by
  funext m
  rw [Change.outcome_apply, Change.effect_clear, if_neg hl, cut]
  split <;> rfl

/-- The root cleared. -/
theorem outcome_clear_root :
    v.cut [payload] = (Change.clear []).outcome payload v := by
  funext m
  rw [Change.outcome_apply, Change.effect_clear, if_pos rfl, cut]
  split <;> rfl

/-- Taking away an entry of the other kind first makes no difference. -/
theorem outcome_of_cut (h : v.Linkless) (hpay : payload ∉ l)
    (hkind : node.opens l = true → v l ≠ some .directory) :
    (Change.keep node l).outcome payload (v.cut l)
      = (Change.keep node l).outcome payload v := by
  funext m
  rw [Change.outcome_apply, Change.outcome_apply, Change.effect_keep]
  by_cases hp : l <+: m
  · simp only [if_pos hp]
    split
    · rfl
    · next hm =>
        split
        · rfl
        · next ho =>
            split
            · rfl
            · have hopen : node.opens l = true := by simpa using ho
              simp only [Effect.at]
              rw [cut_within hp, h.below (hkind hopen) hp hm]
  · rw [if_neg hp]
    unfold wayEffect
    split
    · rfl
    split
    · next hs =>
        -- the slot and its place are off the place that was cleared
        obtain ⟨-, -, heq⟩ := hs
        have hq : ¬ l <+: m.dropLast := fun hq =>
          hp (hq.trans (List.dropLast_prefix m))
        simp only [Effect.at, slotAfter]
        rw [cut_outside hq, cut_outside (mt (prefix_slot hpay).mp hq)]
    · simp only [Effect.at]
      rw [cut_outside hp]

end View

-- ======================================================== two changes

/-- Neither location is above the other or equal to it, unless one of them
alone is the root. -/
structure Apart (l l' : Location) : Prop where
  ne : l ≠ l'
  above : l <+: l' → l = []
  below : l' <+: l → l' = []

theorem Apart.symm {l l' : Location} (h : Apart l l') : Apart l' l :=
  ⟨h.ne.symm, h.below, h.above⟩

namespace Change

variable {payload : String} {c c' : Change} {l m : Location} {node : Node}

/-- Where a change acts at all, and how. -/
inductive Acts (payload : String) (c : Change) (m : Location) :
    Effect → Prop
  | keep : Acts payload c m .keep
  | own (x : Option Shape) (inner : c.location ≠ [])
      (inside : c.location <+: m) : Acts payload c m (.give x)
  | way (above : m <+: c.location) :
      Acts payload c m (.give (some .directory))
  | slot (on : IsSlotOn payload c.location m) : Acts payload c m .lift
  | root (x : Option Shape) (top : c.location = [])
      (inside : [payload] <+: m) : Acts payload c m (.give x)

theorem acts_keep (payload : String) (node : Node) (l m : Location) :
    Acts payload (keep node l) m ((keep node l).effect payload m) := by
  rw [effect_keep]
  by_cases hp : l <+: m
  · rw [if_pos hp]
    by_cases hl : l = []
    · have ho : node.opens l = true := by simp [Node.opens, hl]
      subst hl
      rw [Node.form, ho]
      split
      · next hm => exact .way (hm ▸ List.prefix_refl [])
      · split
        · next ho' => cases ho'
        · split
          · next hm => exact .root _ rfl (hm ▸ List.prefix_refl _)
          · exact .keep
    · split
      · exact .own _ hl hp
      · split
        · exact .own _ hl hp
        · split
          · exact .own _ hl hp
          · exact .keep
  · rw [if_neg hp, wayEffect]
    split
    · next hm => exact .way hm
    · split
      · next hs => exact .slot hs
      · exact .keep

theorem acts (payload : String) (c : Change) (m : Location) :
    Acts payload c m (c.effect payload m) := by
  cases c with
  | keep node l => exact acts_keep payload node l m
  | clear l =>
      rw [effect_clear]
      by_cases hl : l = []
      · rw [if_pos hl]
        split
        · next hp => exact .root _ hl hp
        · exact .keep
      · rw [if_neg hl]
        split
        · next hp => exact .own _ hl hp
        · exact .keep

/-- At an open location apart from its own a change does nothing. -/
theorem effect_apart (hm : payload ∉ m) (hne : m ≠ [])
    (ha : Apart c.location m) : c.effect payload m = .keep := by
  have hacts := acts payload c m
  generalize c.effect payload m = e at hacts
  cases hacts with
  | keep => rfl
  | own x inner inside => exact absurd (ha.above inside) inner
  | way above => exact absurd (ha.below above) hne
  | slot on => exact absurd on.payload_mem hm
  | root x top inside => exact absurd (inside.subset (by simp)) hm

/-- Only keeping a node lifts bytes, into a slot on the way to it. -/
theorem of_lift (h : c.effect payload m = .lift) :
    ∃ node l, c = keep node l ∧ IsSlotOn payload l m := by
  have hacts := acts payload c m
  rw [h] at hacts
  cases hacts with
  | slot on =>
      cases c with
      | keep node l => exact ⟨node, l, rfl, on⟩
      | clear l =>
          rw [effect_clear] at h
          by_cases hin : (if l = [] then [payload] else l) <+: m
          · rw [if_pos hin] at h
            cases h
          · rw [if_neg hin] at h
            cases h

/-- The places on the way become directories. -/
theorem effect_way {q : Location} (hq : q <+: l) (hne : q ≠ l) :
    (keep node l).effect payload q = .give (some .directory) := by
  rw [effect_keep, if_neg fun hp => hne (hq.eq_of_length_le hp.length_le),
    wayEffect, if_pos hq]

/-- The slots on the way are lifted into. -/
theorem effect_slot (hpay : payload ∉ l) {q : Location} (hq : q <+: l)
    (hne : q ≠ l) (hnil : q ≠ []) :
    (keep node l).effect payload (q ++ [payload]) = .lift := by
  rw [effect_keep, if_neg fun hp => ?_, wayEffect,
    if_neg fun hp => hpay (hp.subset (by simp)),
    if_pos (View.isSlotOn_append hq hnil)]
  have hlq := (View.prefix_slot hpay).mp hp
  exact hne (hq.eq_of_length_le hlq.length_le)

/-- Where bytes are lifted, the place above the slot becomes a
directory. -/
theorem directory_of_lift (v : View) (h : c.effect payload m = .lift) :
    c.outcome payload v m.dropLast = some .directory := by
  obtain ⟨node, l, rfl, hq, hne, heq⟩ := of_lift h
  have hnot : m.dropLast ≠ l := by
    intro e
    rw [heq, effect_keep, e, if_pos (List.prefix_append l _)] at h
    split at h
    · cases h
    · split at h
      · cases h
      · split at h <;> cases h
  rw [outcome_apply, effect_way hq hnot]
  rfl

/-- Of two changes that lift bytes into one slot the first one does. -/
theorem lift_twice (v : View) (h : c.effect payload m = .lift)
    (h' : c'.effect payload m = .lift) :
    c.outcome payload (c'.outcome payload v) m
      = v.slotAfter payload m.dropLast := by
  obtain ⟨-, -, -, -, -, heq⟩ := of_lift h
  rw [outcome_apply, h]
  simp only [Effect.at]
  rw [View.slotAfter, directory_of_lift v h', ← heq, outcome_apply, h']
  rfl

section Two

variable (hp : payload ∉ c.location) (hp' : payload ∉ c'.location)
  (ha : Apart c.location c'.location)

include hp hp' ha

end Two

end Change

end TreeReplica
