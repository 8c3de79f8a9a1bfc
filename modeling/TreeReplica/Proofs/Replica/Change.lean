/-
What one event asks of a replica, as a change of its view. A location
without the payload name in it is open: it can be the place of a node. A
location with the payload name at its end is the slot of the location
above. `Change.place` and `Change.slot` say what stands in every open
location and in every slot once a change is made, and `Change.Makes` that
a view is the outcome of a change. These two equations are all that later
proofs know about an event.
-/
import TreeReplica.Proofs.Replica.Chain
import TreeReplica.Remote.Node

namespace TreeReplica

-- ============================================================== one node

namespace Node

/-- Is the node kept as a directory at `l`? The root always is. -/
def opens (n : Node) (l : Location) : Bool := n.isContainer || l = []

/-- The bytes of a node as a dated file. -/
def file (n : Node) : Shape := .file n.bytes (.dated n.modifiedAt)

/-- What stands at the place `l` of a node. -/
def form (n : Node) (l : Location) : Shape :=
  if n.opens l then .directory else n.file

/-- What is in the payload slot of the place `l` of a node. -/
def inSlot (n : Node) (l : Location) : Option Shape :=
  if n.opens l && n.hasData then some n.file else none

end Node

-- =============================================================== changes

/-- What an event asks for: keep a node at a place, or keep nothing
there. -/
inductive Change
  | keep (node : Node) (l : Location)
  | clear (l : Location)
  deriving DecidableEq, Repr, Inhabited

namespace Change

/-- Does the change make sure that something stands at `m`: is a node
kept there or below? -/
def Writes : Change → Location → Prop
  | .keep _ l, m => m <+: l
  | .clear _, _ => False

/-- Does the change take away what stands at `m`, and all below it? A
place that is cleared loses everything, and a leaf has nothing below. The
root itself is never taken away. -/
def Wipes : Change → Location → Prop
  | .keep node l, m => l <+: m ∧ m ≠ l ∧ node.opens l = false
  | .clear l, m => l <+: m ∧ l ≠ []

instance (c : Change) (m : Location) : Decidable (c.Writes m) := by
  cases c <;> unfold Writes <;> infer_instance

instance (c : Change) (m : Location) : Decidable (c.Wipes m) := by
  cases c <;> unfold Wipes <;> infer_instance

/-- What stands at an open location after a change of the view `v`. -/
def place (v : View) : Change → Location → Option Shape
  | .keep node l, m =>
      if m = l then some (node.form l)
      else if m <+: l then some .directory
      else if (keep node l).Wipes m then none
      else v m
  | .clear l, m => if (clear l).Wipes m then none else v m

/-- What is in the slot of an open location after a change of the view
`v`. -/
def slot (payload : String) (v : View) : Change → Location → Option Shape
  | .keep node l, q =>
      if q = l then node.inSlot l
      else if q <+: l then v.slotAfter payload q
      else if (keep node l).Wipes q then none
      else v (q ++ [payload])
  | .clear l, q =>
      if (clear l).Wipes q ∨ (l = [] ∧ q = []) then none
      else v (q ++ [payload])

theorem wipes_keep {node : Node} {l m : Location} :
    (keep node l).Wipes m ↔ l <+: m ∧ m ≠ l ∧ node.opens l = false :=
  Iff.rfl

theorem wipes_clear {l m : Location} :
    (clear l).Wipes m ↔ l <+: m ∧ l ≠ [] :=
  Iff.rfl

theorem place_keep (v : View) (node : Node) (l m : Location) :
    (keep node l).place v m
      = if m = l then some (node.form l)
        else if m <+: l then some .directory
        else if (keep node l).Wipes m then none
        else v m := rfl

theorem slot_keep (payload : String) (v : View) (node : Node)
    (l q : Location) :
    (keep node l).slot payload v q
      = if q = l then node.inSlot l
        else if q <+: l then v.slotAfter payload q
        else if (keep node l).Wipes q then none
        else v (q ++ [payload]) := rfl

theorem place_clear (v : View) (l m : Location) :
    (clear l).place v m = if (clear l).Wipes m then none else v m := rfl

theorem slot_clear (payload : String) (v : View) (l q : Location) :
    (clear l).slot payload v q
      = if (clear l).Wipes q ∨ (l = [] ∧ q = []) then none
        else v (q ++ [payload]) := rfl

/-- The view `v'` is what the change makes of `v`. -/
structure Makes (payload : String) (c : Change) (v v' : View) : Prop where
  place : ∀ m, payload ∉ m → v' m = c.place v m
  slot : ∀ q, payload ∉ q → v' (q ++ [payload]) = c.slot payload v q

end Change

namespace View

variable {payload : String} {v w : View} {a : Location}

-- ================================================= open places and slots

theorem append_payload_ne {l q : Location} (hl : payload ∉ l) :
    q ++ [payload] ≠ l := by
  intro heq
  subst heq
  simp at hl

/-- What an open location is a prefix of, among slots, are the slots at
and below it. -/
theorem prefix_slot {l q : Location} (hl : payload ∉ l) :
    l <+: q ++ [payload] ↔ l <+: q := by
  rw [List.prefix_concat_iff]
  constructor
  · intro hcase
    rcases hcase with h | h
    · exact absurd h.symm (append_payload_ne hl)
    · exact h
  · exact Or.inr

/-- A slot is the only slot at or below it. -/
theorem slot_prefix_slot {l q : Location} (hq : payload ∉ q) :
    l ++ [payload] <+: q ++ [payload] ↔ q = l := by
  rw [List.prefix_concat_iff]
  constructor
  · intro hcase
    rcases hcase with h | h
    · exact (List.append_cancel_right h).symm
    · exact absurd (h.subset (by simp)) hq
  · intro heq
    subst heq
    exact Or.inl rfl

theorem slot_outside {l m : Location} (hm : payload ∉ m) :
    ¬ l ++ [payload] <+: m :=
  fun h => hm (h.subset (by simp))

/-- After a chain the places on the way are directories and all other
open locations are as before. -/
theorem Chained.place (h : Chained payload v [] a w)
    (hroot : v [] = some .directory) {m : Location} (hm : payload ∉ m) :
    w m = if m <+: a then some .directory else v m := by
  by_cases hp : m <+: a
  · rw [if_pos hp]
    by_cases hnil : m = []
    · rw [hnil, h.kept [] (fun p _ hne => by simp [Ne.symm hne]), hroot]
    · exact h.made m hp hnil
  · rw [if_neg hp]
    refine h.kept m fun p hpre _ => ⟨?_, fun e => ?_⟩
    · intro heq
      subst heq
      exact hp hpre
    · exact append_payload_ne hm e.symm

/-- After a chain the slots of the places on the way have what stood
there, and all other slots are as before. -/
theorem Chained.slot_of (h : Chained payload v [] a w)
    (hroot : v [] = some .directory) (ha : payload ∉ a) {q : Location} :
    w (q ++ [payload])
      = if q <+: a then v.slotAfter payload q else v (q ++ [payload]) := by
  have hopen : ∀ p : Location, p <+: a → q ++ [payload] ≠ p := by
    intro p hp heq
    subst heq
    exact slot_outside ha hp
  by_cases hp : q <+: a
  · rw [if_pos hp]
    by_cases hnil : q = []
    · subst hnil
      rw [h.kept _ fun p hpre hne => ⟨hopen p hpre, by simpa using hne⟩]
      unfold slotAfter
      rw [hroot]
    · exact h.slot q hp hnil
  · rw [if_neg hp]
    refine h.kept _ fun p hpre _ => ⟨hopen p hpre, fun e => ?_⟩
    exact hp (List.append_cancel_right e ▸ hpre)

/-- The view with the payload of a node in the slot of `l`. -/
def fill (payload : String) (v : View) (node : Node) (l : Location) :
    View :=
  if node.hasData then v.set (l ++ [payload]) node.file
  else v.cut (l ++ [payload])

/-- Filling a slot leaves open locations alone. -/
theorem fill_place {node : Node} {l m : Location} (hm : payload ∉ m) :
    v.fill payload node l m = v m := by
  unfold fill
  split
  · exact set_outside (slot_outside hm) _
  · exact cut_outside (slot_outside hm)

/-- Filling a slot fills that slot and leaves the others alone. -/
theorem fill_slot {node : Node} {l q : Location} (hl : node.opens l)
    (hq : payload ∉ q) :
    v.fill payload node l (q ++ [payload])
      = if q = l then node.inSlot l else v (q ++ [payload]) := by
  unfold fill Node.inSlot
  rw [hl, Bool.true_and]
  by_cases h : q = l
  · rw [if_pos h, h]
    split
    · exact set_self ..
    · exact cut_within (List.prefix_refl _)
  · rw [if_neg h]
    have hnot : ¬ l ++ [payload] <+: q ++ [payload] :=
      fun hp => h ((slot_prefix_slot hq).mp hp)
    split
    · exact set_outside hnot _
    · exact cut_outside hnot

/-- The view with a directory at `l`, which stays as it is if there is
one. -/
def ensure (v : View) (l : Location) : View :=
  if v l = some .directory then v else v.set l .directory

theorem ensure_self (v : View) (l : Location) :
    v.ensure l l = some .directory := by
  unfold ensure
  split
  · assumption
  · exact set_self ..

theorem ensure_outside {l m : Location} (h : ¬ l <+: m) :
    v.ensure l m = v m := by
  unfold ensure
  split
  · rfl
  · exact set_outside h _

/-- Making sure of a directory changes nothing below it. -/
theorem Linkless.ensure_below (h : v.Linkless) {l m : Location} (hm : m ≠ l) :
    v.ensure l m = v m := by
  by_cases hp : l <+: m
  · unfold ensure
    split
    · rfl
    · next hl => rw [set_below hp hm, h.below hl hp hm]
  · exact ensure_outside hp

end View

namespace Site

open View

variable {s : Site} {v w : View} {payload : String} {node : Node}
  {a l : Location} {n : String}

theorem prefix_concat_of_ne {m : Location} (hne : m ≠ a ++ [n]) :
    m <+: a ++ [n] ↔ m <+: a := by
  rw [List.prefix_concat_iff, or_iff_right hne]

-- ========================================================= the outcomes

/-- A leaf kept at its place, once its parents are directories. -/
theorem Sound.makes_leaf (h : s.Sound v) (hpay : payload ∉ a ++ [n])
    (hc : Chained payload v [] a w) (hl : node.opens (a ++ [n]) = false) :
    (Change.keep node (a ++ [n])).Makes payload v
      (w.set (a ++ [n]) node.file) := by
  have ha : payload ∉ a := fun hm => hpay (by simp [hm])
  constructor
  · intro m hm
    rw [Change.place_keep, Node.form]
    by_cases he : m = a ++ [n]
    · rw [if_pos he, he, set_self, hl]
      rfl
    rw [if_neg he]
    by_cases hp : a ++ [n] <+: m
    · have hnot : ¬ m <+: a ++ [n] :=
        fun hq => he (hq.eq_of_length_le hp.length_le)
      rw [if_neg hnot, if_pos (Change.wipes_keep.mpr ⟨hp, he, hl⟩),
        set_below hp he]
    · have hno : ¬ (Change.keep node (a ++ [n])).Wipes m :=
        fun hw => hp hw.1
      rw [set_outside hp, hc.place h.base hm, if_neg hno]
      simp only [prefix_concat_of_ne he]
  · intro q hq
    rw [Change.slot_keep, Node.inSlot]
    by_cases he : q = a ++ [n]
    · rw [if_pos he, he, hl, set_below (List.prefix_append _ _) (by simp)]
      rfl
    rw [if_neg he]
    by_cases hp : a ++ [n] <+: q
    · have hnot : ¬ q <+: a ++ [n] :=
        fun hq => he (hq.eq_of_length_le hp.length_le)
      rw [if_neg hnot, if_pos (Change.wipes_keep.mpr ⟨hp, he, hl⟩),
        set_below (hp.trans (List.prefix_append _ _))
          (append_payload_ne hpay)]
    · have hno : ¬ (Change.keep node (a ++ [n])).Wipes q :=
        fun hw => hp hw.1
      rw [set_outside (mt (prefix_slot hpay).mp hp),
        hc.slot_of h.base ha, if_neg hno]
      simp only [prefix_concat_of_ne he]

/-- A container kept at its place, once its parents are directories. -/
theorem Sound.makes_container (h : s.Sound v) (hw : s.Sound w)
    (hpay : payload ∉ a ++ [n]) (hc : Chained payload v [] a w)
    (ho : node.opens (a ++ [n])) :
    (Change.keep node (a ++ [n])).Makes payload v
      ((w.ensure (a ++ [n])).fill payload node (a ++ [n])) := by
  have ha : payload ∉ a := fun hm => hpay (by simp [hm])
  have hnowipe : ∀ m, ¬ (Change.keep node (a ++ [n])).Wipes m :=
    fun m hm => by simp [hm.2.2] at ho
  constructor
  · intro m hm
    rw [Change.place_keep, Node.form]
    rw [fill_place hm]
    by_cases he : m = a ++ [n]
    · rw [if_pos he, he, ensure_self, if_pos ho]
    · rw [if_neg he, if_neg (hnowipe m), hw.linkless.ensure_below he,
        hc.place h.base hm]
      simp only [prefix_concat_of_ne he]
  · intro q hq
    rw [Change.slot_keep, fill_slot ho hq]
    by_cases he : q = a ++ [n]
    · rw [if_pos he, if_pos he]
    · rw [if_neg he, if_neg he, if_neg (hnowipe q),
        hw.linkless.ensure_below (append_payload_ne hpay), hc.slot_of h.base ha]
      simp only [prefix_concat_of_ne he]

/-- The root kept: only its slot changes. -/
theorem Sound.makes_root (h : s.Sound v) :
    (Change.keep node []).Makes payload v (v.fill payload node []) := by
  have ho : node.opens [] := by simp [Node.opens]
  have hnowipe : ∀ m, ¬ (Change.keep node []).Wipes m :=
    fun m hm => by simp [hm.2.2] at ho
  constructor
  · intro m hm
    rw [Change.place_keep, Node.form]
    rw [fill_place hm, if_neg (hnowipe m)]
    by_cases he : m = []
    · rw [if_pos he, he, h.base, if_pos ho]
    · rw [if_neg he, if_neg (fun hp => he (List.prefix_nil.mp hp))]
  · intro q hq
    rw [Change.slot_keep, fill_slot ho hq, if_neg (hnowipe q)]
    by_cases he : q = []
    · rw [if_pos he, if_pos he]
    · rw [if_neg he, if_neg he, if_neg (fun hp => he (List.prefix_nil.mp hp))]

/-- A place cleared. -/
theorem makes_clear (hl : l ≠ []) (hpay : payload ∉ l) :
    (Change.clear l).Makes payload v (v.cut l) := by
  constructor
  · intro m _
    simp only [Change.place_clear, Change.wipes_clear, View.cut, hl, ne_eq,
      not_false_eq_true, and_true]
  · intro q _
    simp only [Change.slot_clear, Change.wipes_clear, View.cut,
      prefix_slot hpay, hl, ne_eq, not_false_eq_true, and_true, false_and,
      or_false]

/-- The root cleared: only its slot is emptied. -/
theorem makes_clear_root :
    (Change.clear []).Makes payload v (v.cut [payload]) := by
  constructor
  · intro m hm
    rw [Change.place_clear, if_neg (fun h => h.2 rfl)]
    exact cut_outside (slot_outside (l := []) hm)
  · intro q hq
    have hpre := slot_prefix_slot (l := []) hq
    rw [List.nil_append] at hpre
    simp only [Change.slot_clear, Change.wipes_clear, View.cut, hpre, ne_eq,
      not_true_eq_false, and_false, true_and, false_or]

/-- Taking away an entry of the other kind first makes no difference. -/
theorem Sound.makes_of_cut (h : s.Sound v) (hpay : payload ∉ l)
    (hkind : node.opens l → v l ≠ some .directory)
    (hm : (Change.keep node l).Makes payload (v.cut l) w) :
    (Change.keep node l).Makes payload v w := by
  -- what the change leaves below the place was not there before
  have hbelow : ∀ m, l <+: m → m ≠ l →
      ¬ (Change.keep node l).Wipes m → v m = none := by
    intro m hp hne hwipe
    refine h.linkless.below (hkind ?_) hp hne
    exact Decidable.byContradiction fun ho =>
      hwipe ⟨hp, hne, by simpa using ho⟩
  have heq : ∀ m, m ≠ l → ¬ (Change.keep node l).Wipes m →
      v.cut l m = v m := by
    intro m hne hwipe
    by_cases hp : l <+: m
    · rw [cut_within hp, hbelow m hp hne hwipe]
    · exact cut_outside hp
  constructor
  · intro m hopen
    rw [hm.place m hopen, Change.place_keep, Change.place_keep]
    by_cases he : m = l
    · rw [if_pos he, if_pos he]
    rw [if_neg he, if_neg he]
    by_cases hwipe : (Change.keep node l).Wipes m
    · rw [if_pos hwipe, if_pos hwipe]
    · rw [heq m he hwipe]
  · intro q hopen
    rw [hm.slot q hopen, Change.slot_keep, Change.slot_keep]
    by_cases he : q = l
    · rw [if_pos he, if_pos he]
    rw [if_neg he, if_neg he]
    by_cases hp : q <+: l
    · have hnot : ¬ l <+: q := fun hl => he (hp.eq_of_length_le hl.length_le)
      rw [if_pos hp, if_pos hp]
      unfold slotAfter
      rw [cut_outside hnot,
        cut_outside (mt (prefix_slot hpay).mp hnot)]
    rw [if_neg hp, if_neg hp]
    by_cases hwipe : (Change.keep node l).Wipes q
    · rw [if_pos hwipe, if_pos hwipe]
    rw [if_neg hwipe, if_neg hwipe]
    by_cases hq : l <+: q
    · rw [cut_within (hq.trans (List.prefix_append _ _)),
        h.linkless.below (l := l) (m := q ++ [payload]) (hkind ?_)
          (hq.trans (List.prefix_append _ _)) (append_payload_ne hpay)]
      exact Decidable.byContradiction fun ho =>
        hwipe ⟨hq, he, by simpa using ho⟩
    · exact cut_outside (mt (prefix_slot hpay).mp hq)

end Site

end TreeReplica
