/-
The exact effect of an event on any replica without links in it. If an
event is applied and no error is reported, the place of its node is what
the node asks for, the places above it are directories that hold what
stood in their way, and nothing else has changed (`apply_exact`). The
whole disk is accounted for: another directory stands at the root and all
that is not below it is the same.
-/
import TreeReplica.Proofs.Replica.Rough.Apply
import TreeReplica.Proofs.Replica.Rough.Lossless
import TreeReplica.Proofs.Replica.Rough.Null

namespace TreeReplica

open Work

namespace View

variable {payload : String} {node : Node} {v w : View} {l m : Location}

-- ========================================================== what is asked

/-- The way to the place `l` is made: the places above it are directories.
One that was missing or an empty file has no payload, one that was a file
with bytes has them for its payload, with their time. Nothing has changed
that is neither on the way nor at or below the place, but for the slots of
these. -/
structure Led (payload : String) (l : Location) (v w : View) : Prop where
  made : ∀ q, q <+: l → q ≠ l → w q = some .directory
  bare : ∀ q, q <+: l → q ≠ l → (v q = none ∨ ∃ t, v q = some (.file [] t)) →
    w (q ++ [payload]) = none
  moved : ∀ q c t, q <+: l → q ≠ l → v q = some (.file c t) → c ≠ [] →
    w (q ++ [payload]) = some (.file c t)
  kept : ∀ m, ¬ l <+: m → ¬ m <+: l →
    (∀ q, q <+: l → v q ≠ some .directory → m ≠ q ++ [payload]) → w m = v m

/-- A leaf is kept at `l`: a file with the bytes and the time of the node,
and nothing below it. -/
structure KeptLeaf (payload : String) (node : Node) (l : Location)
    (v w : View) : Prop where
  way : Led payload l v w
  file : w l = some (.file node.bytes (.dated node.modifiedAt))
  alone : ∀ m, l <+: m → m ≠ l → w m = none

/-- A container is kept at `l`, or the root: a directory whose slot is a
file with the bytes and the time of the node, if it has any bytes, and
free otherwise. What else was below it still is. -/
structure KeptDirectory (payload : String) (node : Node) (l : Location)
    (v w : View) : Prop where
  way : Led payload l v w
  directory : w l = some .directory
  slot : w (l ++ [payload])
    = if node.bytes = [] then none
      else some (.file node.bytes (.dated node.modifiedAt))
  inside : ∀ m, l <+: m → m ≠ l → m ≠ l ++ [payload] → w m = v m

/-- Nothing is left at and below `l`, and nothing else has changed. -/
structure Cleared (l : Location) (v w : View) : Prop where
  gone : ∀ m, l <+: m → w m = none
  rest : ∀ m, ¬ l <+: m → w m = v m

/-- What is left of the view `v` by an event of some kind about a node
whose place is `l`. -/
inductive Settled (payload : String) (node : Node) (l : Location)
    (v w : View) : EventKind → Prop
  | leaf {kind : EventKind} (keeps : kind = .added ∨ kind = .updated)
      (inner : l ≠ []) (isLeaf : node.isContainer = false)
      (kept : KeptLeaf payload node l v w) :
      Settled payload node l v w kind
  | directory {kind : EventKind} (keeps : kind = .added ∨ kind = .updated)
      (opens : node.isContainer = true ∨ l = [])
      (kept : KeptDirectory payload node l v w) :
      Settled payload node l v w kind
  | removed (inner : l ≠ []) (cleared : Cleared l v w) :
      Settled payload node l v w .removed
  | emptied (base : l = []) (cleared : Cleared [payload] v w) :
      Settled payload node l v w .removed

-- ============================================================ the changes

/-- What keeping a node does on the way to its place. -/
theorem led_outcome (hl : v.Linkless) (hpay : payload ∉ l) :
    Led payload l v ((Change.keep node l).outcome payload v) := by
  have hslot : ∀ q, q <+: l → q ≠ l → q ≠ [] →
      (Change.keep node l).outcome payload v (q ++ [payload])
        = v.slotAfter payload q := by
    intro q hq hne hnil
    rw [Change.outcome_apply, Change.effect_slot hpay hq hne hnil]
    simp [Effect.at]
  -- the root was a directory before, so these are other places
  have hinner : ∀ q, v q ≠ some .directory → q ≠ [] :=
    fun q hq hnil => hq (hnil ▸ hl.base)
  refine ⟨fun q hq hne => ?_, fun q hq hne hwas => ?_,
    fun q c t hq hne hwas hc => ?_, fun m hm hup hother => ?_⟩
  · rw [Change.outcome_apply, Change.effect_way hq hne]
    rfl
  · rw [hslot q hq hne (hinner q ?_), slotAfter]
    · rcases hwas with hwas | ⟨t, hwas⟩
      · rw [hwas]
        exact hl.below (by simp [hwas]) (List.prefix_append q _) (by simp)
      · rw [hwas]
        rfl
    · rcases hwas with hwas | ⟨t, hwas⟩ <;> simp [hwas]
  · rw [hslot q hq hne (hinner q (by simp [hwas])), slotAfter, hwas]
    exact if_neg fun hlen => hc (List.length_eq_zero_iff.mp hlen)
  · rw [Change.outcome_apply, Change.effect_keep, if_neg hm, wayEffect,
      if_neg hup]
    split
    · next hon =>
        obtain ⟨hq, -, heq⟩ := hon
        have hdir : v m.dropLast = some .directory :=
          Decidable.byContradiction fun hno => hother _ hq hno heq
        rw [Effect.at, slotAfter, hdir, ← heq]
    · rfl

theorem keptLeaf_outcome (hl : v.Linkless) (hpay : payload ∉ l)
    (hopens : node.opens l = false) :
    KeptLeaf payload node l v ((Change.keep node l).outcome payload v) where
  way := led_outcome hl hpay
  file := by
    rw [Change.outcome_apply, Change.effect_keep,
      if_pos (List.prefix_refl l), if_pos rfl, Node.form, hopens]
    rfl
  alone m hm hne := by
    rw [Change.outcome_apply, Change.effect_keep, if_pos hm, if_neg hne,
      if_pos hopens]
    rfl

theorem keptDirectory_outcome (hl : v.Linkless) (hpay : payload ∉ l)
    (hopens : node.opens l = true) :
    KeptDirectory payload node l v
      ((Change.keep node l).outcome payload v) where
  way := led_outcome hl hpay
  directory := by
    rw [Change.outcome_apply, Change.effect_keep,
      if_pos (List.prefix_refl l), if_pos rfl, Node.form, hopens]
    rfl
  slot := by
    rw [Change.outcome_apply, Change.effect_keep,
      if_pos (List.prefix_append l _), if_neg (by simp),
      if_neg (by simp [hopens]), if_pos rfl]
    simp only [Effect.at, Node.inSlot, hopens, Node.hasData, Node.file]
    cases node.bytes <;> simp
  inside m hm hne hslot := by
    rw [Change.outcome_apply, Change.effect_keep, if_pos hm, if_neg hne,
      if_neg (by simp [hopens]), if_neg hslot]
    rfl

theorem cleared_cut (v : View) (l : Location) : Cleared l v (v.cut l) where
  gone _ hm := cut_within hm
  rest _ hm := cut_outside hm

/-- What the change of an event leaves. -/
theorem settled_outcome (hl : v.Linkless) (hpay : payload ∉ l)
    {kind : EventKind} (hkind : kind ≠ .initialized) :
    Settled payload node l v
      (Footing.Outcome payload v (kind.change? node l)) kind := by
  have hkept : ∀ kind, kind = .added ∨ kind = .updated →
      Settled payload node l v
        ((Change.keep node l).outcome payload v) kind := by
    intro kind hkind
    cases hopens : node.opens l with
    | true =>
        refine .directory hkind ?_ (keptDirectory_outcome hl hpay hopens)
        simpa [Node.opens] using hopens
    | false =>
        have hboth : node.isContainer = false ∧ l ≠ [] := by
          simpa [Node.opens] using hopens
        exact .leaf hkind hboth.2 hboth.1 (keptLeaf_outcome hl hpay hopens)
  cases kind with
  | added => exact hkept _ (Or.inl rfl)
  | updated => exact hkept _ (Or.inr rfl)
  | initialized => exact absurd rfl hkind
  | removed =>
      by_cases hnil : l = []
      · refine .emptied hnil ?_
        rw [hnil, EventKind.change?, Footing.Outcome, ← outcome_clear_root]
        exact cleared_cut v [payload]
      · refine .removed hnil ?_
        rw [EventKind.change?, Footing.Outcome, ← outcome_clear hnil]
        exact cleared_cut v l

end View

-- =============================================================== an event

namespace Replica

variable {r : Replica} {e : Event} {node : Node} {place : Path}
  {h h' : Host} {l : Location} {cs : List (String × Entry)}

/-- The exact effect of an event about a node that is kept at `place`, if
it is applied and no error is reported. No name on a disk has a null
character in it. -/
theorem apply_exact (hp : IsSegment r.payload)
    (hroot : h.disk.find true r.root = .ok (l, .directory cs))
    (hlinks : ∀ m t, (Entry.directory cs).view m ≠ some (.link t))
    (hclear : ∀ m, (Entry.directory cs).view m ≠ none →
      m.any Disk.hasNull = false)
    (hkind : e.kind ≠ .initialized) (hnode : e.node = some node)
    (haccepted : Remote.toLocal node.path r.root r.base r.payload
      = .ok place)
    (htime : Disk.representable node.modifiedAt = true)
    (happly : r.apply e h = .ok () h') (hcalm : h.log.Calm h'.log) :
    ∃ a cs', place = r.root.descend a
      ∧ h'.disk = h.disk.put l (.directory cs')
      ∧ View.Settled r.payload node a (Entry.directory cs).view
          (Entry.directory cs').view e.kind := by
  obtain ⟨s, hpath, rfl, hholding, hopen, hs⟩ :=
    Footing.exists_bears hroot hlinks
  have hr : s.Keeps r.payload r := ⟨hpath.symm, rfl, hp⟩
  have hl := hs.linkless
  obtain ⟨a, hplace, rfl⟩ : ∃ a, r.place? node.path = some a
      ∧ place = r.root.descend a := by
    cases hplace : r.place? node.path with
    | none =>
        obtain ⟨rejection, hrej⟩ := Remote.toLocal_of_none hplace r.root
        rw [haccepted] at hrej
        cases hrej
    | some a =>
        have hlocal := Remote.toLocal_of_place hplace r.root
        rw [haccepted] at hlocal
        exact ⟨a, rfl, Except.ok.inj hlocal⟩
  obtain ⟨hnames, hpay⟩ := Remote.place?_names hplace
  have hsettled : View.Settled r.payload node a _ _ e.kind :=
    View.settled_outcome hl hpay hkind
  refine ⟨a, ?_⟩
  cases hnull : a.any Disk.hasNull with
  | false =>
      have hn : AllSegments a := fun n hn => ⟨hnames n hn, by
        simpa using List.any_eq_false.mp hnull n hn⟩
      have happ := Footing.applies_at hopen hr hkind hnode hplace hn htime hs
      rw [happly] at happ
      cases happ with
      | made whole bears =>
          obtain ⟨cs', hview, hdisk⟩ := bears.directory
          refine ⟨cs', rfl, hdisk.trans (hholding _), ?_⟩
          rw [hview]
          simpa only [change?, hnode, hplace] using hsettled
      | refused text kind about place bears stems within =>
          exact absurd hcalm (Log.not_calm_error bears.calm text)
  | true =>
      obtain ⟨hremoved, hsame⟩ := Footing.apply_null hopen hr hkind hnode
        hplace hnull hs happly hcalm
      obtain ⟨cs', hview, hdisk⟩ := hs.directory
      refine ⟨cs', rfl, (hsame.trans hdisk).trans (hholding _), ?_⟩
      rw [hview, hremoved]
      refine .removed (fun hnil => by simp [hnil] at hnull)
        ⟨fun m hm => ?_, fun m hm => rfl⟩
      refine Decidable.byContradiction fun hthere => ?_
      obtain ⟨n, hn, hbad⟩ := List.any_eq_true.mp hnull
      have hclean := List.any_eq_false.mp (hclear m hthere) n (hm.subset hn)
      exact hclean hbad

/-- A leaf below what was the file of a leaf: the file has moved to the
slot, and the leaf is kept. -/
theorem apply_exact_below :
    let r : Replica := { root := ⟨.here, ["m"]⟩, payload := "data" }
    let h : Host := { disk := ⟨.directory [("m", .directory
      [("a", .file [1] (.dated 5))])], []⟩ }
    let e : Event := ⟨.updated, some ⟨"/a/b", some [2], 0, 6⟩⟩
    ∃ cs, (∃ h', r.apply e h = .ok () h'
        ∧ h'.disk = h.disk.put ["m"] (.directory cs))
      ∧ (Entry.directory cs).view ["a", "data"] = some (.file [1] (.dated 5))
      ∧ (Entry.directory cs).view ["a", "b"]
          = some (.file [2] (.dated 6)) := by
  intro r h e
  have hroot : Disk.find ⟨.directory [("m", .directory
      [("a", .file [1] (.dated 5))])], []⟩ true ⟨.here, ["m"]⟩
      = .ok (["m"], .directory [("a", .file [1] (.dated 5))]) := rfl
  have hwell : endsWell (fun h' => decide (h.log.Calm h'.log))
      (r.apply e h) = true := by decide +kernel
  obtain ⟨u, h', happly, hcalm⟩ := exists_of_endsWell hwell
  obtain ⟨a, cs, hplace, hdisk, hsettled⟩ := apply_exact
    (r := r) (e := e) (h := h) (l := ["m"]) (by decide)
    hroot
    (Entry.noLinks_of_linkFree rfl)
    (by
      intro m hm
      rcases m with _ | ⟨n, _ | ⟨k, m⟩⟩
      · rfl
      · by_cases hn : "a" = n
        · subst hn
          decide
        · simp [Entry.view_cons, Children.get?, hn] at hm
      · by_cases hn : "a" = n <;>
          simp [Entry.view, Entry.get?, Entry.child?, Children.get?, hn]
            at hm)
    (by decide) rfl
    (rfl : Remote.toLocal "/a/b" _ "/" "data"
      = .ok ⟨.here, ["m", "a", "b"]⟩)
    (by decide +kernel) happly (of_decide_eq_true hcalm)
  obtain rfl : a = ["a", "b"] := by
    simpa [Path.descend, r] using hplace.symm
  refine ⟨cs, ⟨h', happly, hdisk⟩, ?_⟩
  cases hsettled with
  | leaf keeps inner isLeaf kept =>
      exact ⟨kept.way.moved ["a"] [1] (.dated 5) ⟨["b"], rfl⟩ (by simp)
        rfl (by simp), kept.file⟩
  | directory keeps opens kept => simp [Node.isContainer] at opens

end Replica

end TreeReplica
