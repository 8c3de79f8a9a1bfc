/-
Convergence of histories. Which events came, and in which order, does not
matter in the end: what counts for a place is the last event that could
have written, converted or destroyed it, be it through an ancestor or
through the repair of parents for a descendant.

Two facts about one change carry this over a whole history. A place and
its slot stay as they are under every change that is not about the place,
does not wipe it and, for a leaf, writes nothing below it
(`Makes.stays`); and what stands at a place was written there or below
after the last change that wiped it (`AfterAll.written`).
-/
import TreeReplica.Proofs.Replica.Mirror

namespace TreeReplica

namespace Change

-- ===================================================== about one change

/-- The place that a change is about. -/
def target : Change → Location
  | .keep _ l => l
  | .clear l => l

/-- Does the change put data into the slot of the root? -/
def FillsRoot : Change → Prop
  | .keep node l => l = [] ∧ node.hasData = true
  | .clear _ => False

/-- Does the change empty the slot of the root? -/
def EmptiesRoot : Change → Prop
  | .keep node l => l = [] ∧ node.hasData = false
  | .clear l => l = []

variable {payload : String} {c : Change} {v w : View} {node : Node}
  {l q : Location}

/-- A node just kept stands at its place, and its data in its slot. -/
theorem Makes.kept (h : (keep node l).Makes payload v w)
    (hl : payload ∉ l) :
    w l = some (node.form l) ∧ w (l ++ [payload]) = node.inSlot l := by
  rw [h.place l hl, h.slot l hl, place_keep, slot_keep, if_pos rfl,
    if_pos rfl]
  exact ⟨rfl, rfl⟩

/-- A node stays as it is kept under a change that is not about its place,
does not wipe it and, if the node is a leaf, keeps nothing below it. -/
theorem Makes.stays (h : c.Makes payload v w) (hl : payload ∉ l)
    (htarget : c.target ≠ l) (hwipe : ¬ c.Wipes l)
    (hwrite : node.opens l = false → ¬ c.Writes l)
    (hplace : v l = some (node.form l))
    (hslot : v (l ++ [payload]) = node.inSlot l) :
    w l = some (node.form l) ∧ w (l ++ [payload]) = node.inSlot l := by
  rw [h.place l hl, h.slot l hl]
  cases c with
  | clear m =>
      have hroot : ¬ (m = [] ∧ l = []) :=
        fun hm => htarget (hm.1.trans hm.2.symm)
      rw [place_clear, slot_clear, if_neg hwipe,
        if_neg (not_or.mpr ⟨hwipe, hroot⟩)]
      exact ⟨hplace, hslot⟩
  | keep other m =>
      have hne : l ≠ m := fun heq => htarget heq.symm
      rw [place_keep, slot_keep, if_neg hne, if_neg hne, if_neg hwipe,
        if_neg hwipe]
      by_cases hp : l <+: m
      · -- a node is kept below, so this one is a directory
        have ho : node.opens l = true := by
          cases hopen : node.opens l with
          | true => rfl
          | false => exact absurd hp (hwrite hopen)
        have hform : node.form l = .directory := by simp [Node.form, ho]
        rw [if_pos hp, if_pos hp, hform]
        unfold View.slotAfter
        rw [hplace, hform]
        exact ⟨rfl, hslot⟩
      · rw [if_neg hp, if_neg hp]
        exact ⟨hplace, hslot⟩

/-- What stands at a place after a change was written by it or was there
and was not wiped. -/
theorem Makes.written (h : c.Makes payload v w) (hq : payload ∉ q)
    (hw : w q ≠ none) : c.Writes q ∨ (v q ≠ none ∧ ¬ c.Wipes q) := by
  rw [h.place q hq] at hw
  cases c with
  | clear l =>
      rw [place_clear] at hw
      split at hw
      · exact absurd rfl hw
      · next hwipe => exact Or.inr ⟨hw, hwipe⟩
  | keep node l =>
      by_cases hp : q <+: l
      · exact Or.inl hp
      · have hne : q ≠ l := by
          intro heq
          exact hp (heq ▸ List.prefix_refl q)
        rw [place_keep, if_neg hne, if_neg hp] at hw
        split at hw
        · exact absurd rfl hw
        · next hwipe => exact Or.inr ⟨hw, hwipe⟩

/-- The root stays a directory. -/
theorem Makes.root (h : c.Makes payload v w) (hv : v [] = some .directory) :
    w [] = some .directory := by
  rw [h.place [] (by simp)]
  cases c with
  | clear l =>
      rw [place_clear, if_neg, hv]
      exact fun hwipe => hwipe.2 (List.prefix_nil.mp hwipe.1)
  | keep node l =>
      rw [place_keep]
      by_cases hl : [] = l
      · rw [if_pos hl, ← hl]
        simp [Node.form, Node.opens]
      · rw [if_neg hl, if_pos List.nil_prefix]

/-- What is in the root's slot after a change was put there by it or was
there and was not taken out. -/
theorem Makes.rootSlot (h : c.Makes payload v w)
    (hv : v [] = some .directory) (hw : w [payload] ≠ none) :
    c.FillsRoot ∨ (v [payload] ≠ none ∧ ¬ c.EmptiesRoot) := by
  rw [← List.nil_append [payload], h.slot [] (by simp)] at hw
  cases c with
  | clear l =>
      rw [slot_clear] at hw
      split at hw
      · exact absurd rfl hw
      · next hnot =>
          exact Or.inr ⟨hw, fun hl => hnot (Or.inr ⟨hl, rfl⟩)⟩
  | keep node l =>
      rw [slot_keep] at hw
      by_cases hl : [] = l
      · subst hl
        rw [if_pos rfl, Node.inSlot] at hw
        cases hd : node.hasData with
        | true => exact Or.inl ⟨rfl, hd⟩
        | false => simp [hd] at hw
      · have hslot : v.slotAfter payload [] = v [payload] := by
          unfold View.slotAfter
          rw [hv]
          rfl
        rw [if_neg hl, if_pos List.nil_prefix, hslot] at hw
        exact Or.inr ⟨hw, fun he => hl he.1.symm⟩

end Change

namespace View

open Change

variable {payload : String} {v v' : View} {changes : List Change}
  {node : Node} {l q : Location}

-- =================================================== about a whole history

/-- A node stays as it is kept as long as no change takes it away. -/
theorem AfterAll.stays (h : AfterAll payload changes v v')
    (hl : payload ∉ l)
    (hsafe : ∀ c ∈ changes, c.target ≠ l ∧ ¬ c.Wipes l
      ∧ (node.opens l = false → ¬ c.Writes l))
    (hplace : v l = some (node.form l))
    (hslot : v (l ++ [payload]) = node.inSlot l) :
    v' l = some (node.form l) ∧ v' (l ++ [payload]) = node.inSlot l := by
  induction changes generalizing v with
  | nil =>
      cases h
      exact ⟨hplace, hslot⟩
  | cons c rest ih =>
      obtain ⟨w, hc, hrest⟩ := h
      obtain ⟨htarget, hwipe, hwrite⟩ := hsafe c (List.mem_cons_self ..)
      obtain ⟨hp, hs⟩ := hc.stays hl htarget hwipe hwrite hplace hslot
      exact ih hrest (fun c hc => hsafe c (List.mem_cons_of_mem _ hc)) hp hs

/-- Something that holds only where a change has just brought it about, or
where it held before the change and was not undone, holds in the end since
a change that brought it about, or from the start. `I` is what all the
changes keep. -/
theorem AfterAll.since {I P : View → Prop} {brings undoes : Change → Prop}
    (hkeeps : ∀ {c v w}, Makes payload c v w → I v → I w)
    (hstep : ∀ {c v w}, Makes payload c v w → I v → P w →
      brings c ∨ P v ∧ ¬ undoes c)
    (h : AfterAll payload changes v v') (hv : I v) (hP : P v') :
    (P v ∧ ∀ c ∈ changes, ¬ undoes c)
    ∨ ∃ before c after, changes = before ++ c :: after ∧ brings c
      ∧ ∀ c' ∈ after, ¬ undoes c' := by
  induction changes generalizing v with
  | nil =>
      cases h
      exact Or.inl ⟨hP, by simp⟩
  | cons c rest ih =>
      obtain ⟨w, hc, hrest⟩ := h
      rcases ih hrest (hkeeps hc hv)
        with ⟨hw, hnone⟩ | ⟨before, c', after, heq, hbrings, hno⟩
      · rcases hstep hc hv hw with hbrings | ⟨hv, hundoes⟩
        · exact Or.inr ⟨[], c, rest, rfl, hbrings, hnone⟩
        · exact Or.inl ⟨hv, List.forall_mem_cons.mpr ⟨hundoes, hnone⟩⟩
      · exact Or.inr ⟨c :: before, c', after, by rw [heq]; rfl, hbrings, hno⟩

/-- What stands at a place in the end was written after the last change
that wiped it, or was there from the start and never wiped. -/
theorem AfterAll.written (h : AfterAll payload changes v v')
    (hq : payload ∉ q) (hv : v' q ≠ none) :
    (v q ≠ none ∧ ∀ c ∈ changes, ¬ c.Wipes q)
    ∨ ∃ before c after, changes = before ++ c :: after ∧ c.Writes q
      ∧ ∀ c' ∈ after, ¬ c'.Wipes q :=
  since (I := fun _ => True) (P := fun v => v q ≠ none)
    (fun _ _ => trivial) (fun hc _ hw => hc.written hq hw) h trivial hv

/-- What is in the root's slot in the end was put there after the last
change that emptied it, or was there from the start. -/
theorem AfterAll.rootSlot (h : AfterAll payload changes v v')
    (hroot : v [] = some .directory) (hv : v' [payload] ≠ none) :
    v [payload] ≠ none
    ∨ ∃ before c after, changes = before ++ c :: after ∧ c.FillsRoot
      ∧ ∀ c' ∈ after, ¬ c'.EmptiesRoot :=
  (since (I := fun v => v [] = some .directory)
    (P := fun v => v [payload] ≠ none) (fun hc hv => hc.root hv)
    (fun hc hv hw => hc.rootSlot hv hw) h hroot hv).imp_left And.left

/-- What an empty root becomes when the changes leave the nodes of `kept`
as they are and everything else wiped. -/
theorem AfterAll.mirrors {kept : Location → Option Node}
    (h : AfterAll payload changes v v') (hroot : v [] = some .directory)
    (hempty : ∀ m, m ≠ [] → v m = none)
    (hopen : ∀ l n, kept l = some n → payload ∉ l)
    (hlast : ∀ l n, kept l = some n → ∃ before after,
      changes = before ++ .keep n l :: after
      ∧ ∀ c ∈ after, c.target ≠ l ∧ ¬ c.Wipes l
        ∧ (n.opens l = false → ¬ c.Writes l))
    (hstray : ∀ q, q ≠ [] → kept q = none → ∀ before c after,
      changes = before ++ c :: after → c.Writes q →
      ∃ c' ∈ after, c'.Wipes q)
    (hdata : kept [] = none → ∀ before c after,
      changes = before ++ c :: after → c.FillsRoot →
      ∃ c' ∈ after, c'.EmptiesRoot) :
    v'.Mirrors payload kept := by
  have hat : ∀ l n, kept l = some n →
      v' l = some (n.form l) ∧ v' (l ++ [payload]) = n.inSlot l := by
    intro l n hk
    obtain ⟨before, after, heq, hsafe⟩ := hlast l n hk
    rw [heq] at h
    obtain ⟨w, -, u, hkeep, hafter⟩ := AfterAll.append.mp h
    obtain ⟨hp, hs⟩ := hkeep.kept (hopen l n hk)
    exact hafter.stays (hopen l n hk) hsafe hp hs
  constructor
  · exact fun l n hk => (hat l n hk).1
  · exact fun l n hk => (hat l n hk).2
  · intro q hq hne hk
    apply Decidable.byContradiction
    intro hv
    rcases h.written hq hv with ⟨hstart, -⟩
      | ⟨before, c, after, heq, hwrites, hno⟩
    · exact hstart (hempty q hne)
    · obtain ⟨c', hmem, hwipe⟩ := hstray q hne hk before c after heq hwrites
      exact hno c' hmem hwipe
  · intro hk
    apply Decidable.byContradiction
    intro hv
    rcases h.rootSlot hroot hv with hstart
      | ⟨before, c, after, heq, hfills, hno⟩
    · exact hstart (hempty [payload] (by simp))
    · obtain ⟨c', hmem, hempties⟩ := hdata hk before c after heq hfills
      exact hno c' hmem hempties

end View

namespace Site

-- ============================================================ the start

/-- An empty directory is a site of a replica that is kept there. -/
theorem exists_start {r : Replica} {h : Host} (hp : IsSegment r.payload)
    (hroot : h.disk.status r.root = .ok (.directory [])) :
    ∃ s : Site, s.Keeps r.payload r
      ∧ s.Shows h.log (Entry.directory []).view h
      ∧ s.Clean r.payload (Entry.directory []).view := by
  unfold Disk.status at hroot
  cases hf : h.disk.find true r.root with
  | error f =>
      rw [hf] at hroot
      cases hroot
  | ok found =>
      obtain ⟨l, e⟩ := found
      rw [hf] at hroot
      cases hroot
      obtain ⟨s, hd, hpath, -, hholds⟩ := exists_of_find hf
      refine ⟨s, ⟨hpath.symm, rfl, hp⟩,
        ⟨⟨_, hholds.symm, rfl, Entry.tidy_empty⟩, sound_empty, .refl _⟩,
        clean_empty r.payload⟩

/-- Nothing is in an empty directory. -/
theorem view_empty {m : Location} (hm : m ≠ []) :
    (Entry.directory []).view m = none := by
  cases m with
  | nil => exact absurd rfl hm
  | cons n l => rfl

end Site

namespace Replica

-- ========================================================= the statement

/-- The changes that events ask for, in order. -/
def changes (r : Replica) (events : List Event) : List Change :=
  events.filterMap r.change?

/-- A history ends with some nodes. The last change about the place of
each of them keeps just this node, and after it nothing wipes the place
and, if the node is a leaf, nothing is kept below. Whatever else was
written is wiped later, and so is the data of a root that is not among
the nodes. -/
structure EndsWith (r : Replica) (nodes : List Node)
    (changes : List Change) : Prop where
  last : ∀ node ∈ nodes, ∀ l, r.place? node.path = some l →
    ∃ before after, changes = before ++ .keep node l :: after
      ∧ ∀ c ∈ after, c.target ≠ l ∧ ¬ c.Wipes l
        ∧ (node.opens l = false → ¬ c.Writes l)
  stray : ∀ q, q ≠ [] → (∀ node ∈ nodes, r.place? node.path ≠ some q) →
    ∀ before c after, changes = before ++ c :: after → c.Writes q →
      ∃ c' ∈ after, c'.Wipes q
  rootData : (∀ node ∈ nodes, r.place? node.path ≠ some []) →
    ∀ before c after, changes = before ++ c :: after → c.FillsRoot →
      ∃ c' ∈ after, c'.EmptiesRoot

variable {r : Replica} {nodes : List Node} {events : List Event}
  {h h' : Host}

/-- Events in any order, applied to an empty root without a failure or an
error report, leave the root in sync with the nodes that the history ends
with. -/
theorem follow?_inSync (hb : Remote.validate r.base = .ok r.base)
    (hp : IsSegment r.payload)
    (hroot : h.disk.status r.root = .ok (.directory []))
    (hn : (nodes.map (·.path)).Nodup)
    (hends : r.EndsWith nodes (r.changes events))
    (hf : r.follow? events h = some h') : r.InSync nodes h'.disk := by
  obtain ⟨s, hr, hs, hc⟩ := Site.exists_start hp hroot
  obtain ⟨v', hs', hc', hall⟩ := Site.follow?_shows hr hc hs hf
  have hat : ∀ l node, r.nodeAt nodes l = some node
      ↔ node ∈ nodes ∧ r.place? node.path = some l :=
    fun _ _ => nodeAt_eq_some hb hn
  have hnone : ∀ l, r.nodeAt nodes l = none →
      ∀ node ∈ nodes, r.place? node.path ≠ some l := by
    intro l hk node hmem hplace
    rw [(hat l node).mpr ⟨hmem, hplace⟩] at hk
    cases hk
  refine hs'.inSync hc' hr hb hn (hall.mirrors rfl
    (fun m hm => Site.view_empty hm) ?_ ?_ ?_ ?_)
  · intro l node hk
    exact (Remote.place?_names ((hat l node).mp hk).2).2
  · intro l node hk
    obtain ⟨hmem, hplace⟩ := (hat l node).mp hk
    exact hends.last node hmem l hplace
  · exact fun q hq hk => hends.stray q hq (hnone q hk)
  · exact fun hk => hends.rootData (hnone [] hk)

end Replica

end TreeReplica
