/-
A live tree. After the nodes of a remote tree have been listed, every edit
of the tree is followed by its news: the events about the node and about
its parent, in either order. Each of the two events alone leaves the root
in line with some set of nodes, and both together leave it in line with
the tree after the edit (`leads_news`); over a whole run the root stays in
sync with the tree (`live_inSync`).
-/
import TreeReplica.Proofs.Replica.Listing

namespace TreeReplica

open Remote (Tree Edit Content pathOf)

-- ============================================================ one change

namespace View

variable {payload : String} {v w : View} {l : Location} {n : Node}
  {kept kept' : Location → Option Node}

/-- From nodes that are in line with a replica to nodes that are in line
after a change. Above the place of a kept node every node has become a
container and holds what it held before. -/
inductive Leads (kept kept' : Location → Option Node) :
    Option Change → Prop
  | still (same : kept' = kept) : Leads kept kept' none
  | keep (n : Node) (l : Location) (there : kept' l = some n)
      (above : ∀ q, q <+: l → q ≠ l → ∃ a a', kept q = some a
        ∧ kept' q = some a' ∧ a'.isContainer = true
        ∧ a'.data = a.data ∧ a'.modifiedAt = a.modifiedAt)
      (others : ∀ q, q ≠ l → ¬ q <+: l →
        kept' q = if l <+: q ∧ n.opens l = false then none else kept q) :
      Leads kept kept' (some (.keep n l))
  | clear (l : Location) (gone : kept' l = none)
      (others : ∀ q, q ≠ l →
        kept' q = if l <+: q ∧ l ≠ [] then none else kept q) :
      Leads kept kept' (some (.clear l))

/-- What a node that has become a container finds in its slot. -/
private theorem Mirrors.slotAfter_eq (hm : v.Mirrors payload kept)
    {a a' : Node} (ha : kept l = some a) (hopen : a'.opens l = true)
    (hdata : a'.data = a.data) (htime : a'.modifiedAt = a.modifiedAt) :
    v.slotAfter payload l = a'.inSlot l := by
  have hbytes : a'.bytes = a.bytes := by simp [Node.bytes, hdata]
  have hfile : a'.file = a.file := by simp [Node.file, hbytes, htime]
  have hhas : a'.hasData = a.hasData := by simp [Node.hasData, hbytes]
  have hslot : a'.inSlot l = if a.hasData then some a.file else none := by
    simp [Node.inSlot, hopen, hhas, hfile]
  unfold View.slotAfter
  rw [hm.place l a ha, hslot, Node.form]
  cases ho : a.opens l with
  | true =>
      rw [if_pos rfl, hm.slot l a ha]
      simp [Node.inSlot, ho]
  | false =>
      rw [if_neg (by simp), Node.file]
      by_cases hlen : a.bytes = []
      · simp [Node.hasData, hlen]
      · simp [Node.hasData, hlen]

/-- A mirror stays one when a node is kept. -/
private theorem Mirrors.keep (hm : v.Mirrors payload kept)
    (hw : (Change.keep n l).Makes payload v w)
    (hopen : ∀ m a, kept' m = some a → payload ∉ m)
    (hthere : kept' l = some n)
    (habove : ∀ q, q <+: l → q ≠ l → ∃ a a', kept q = some a
      ∧ kept' q = some a' ∧ a'.isContainer = true
      ∧ a'.data = a.data ∧ a'.modifiedAt = a.modifiedAt)
    (hothers : ∀ q, q ≠ l → ¬ q <+: l →
      kept' q = if l <+: q ∧ n.opens l = false then none else kept q) :
    w.Mirrors payload kept' := by
  -- what is wiped is not kept, and what is not wiped is kept as before
  have hwiped : ∀ m, m ≠ l → ¬ m <+: l → kept' m
      = if (Change.keep n l).Wipes m then none else kept m := by
    intro m hne hp
    rw [hothers m hne hp]
    simp only [Change.wipes_keep, hne, ne_eq, not_false_eq_true, true_and]
  -- a node is kept at the place, above it, or where nothing has changed
  have hkept : ∀ m a', kept' m = some a' →
      (m = l ∧ a' = n)
      ∨ (m ≠ l ∧ m <+: l ∧ a'.isContainer = true ∧ ∃ a, kept m = some a
        ∧ a'.data = a.data ∧ a'.modifiedAt = a.modifiedAt)
      ∨ (m ≠ l ∧ ¬ m <+: l ∧ ¬ (Change.keep n l).Wipes m
        ∧ kept m = some a') := by
    intro m a' ha'
    by_cases he : m = l
    · subst he
      exact Or.inl ⟨rfl, Option.some.inj (ha'.symm.trans hthere)⟩
    by_cases hp : m <+: l
    · obtain ⟨a, b', ha, hb', hcont, hdata, htime⟩ := habove m hp he
      obtain rfl := Option.some.inj (ha'.symm.trans hb')
      exact Or.inr (Or.inl ⟨he, hp, hcont, a, ha, hdata, htime⟩)
    rw [hwiped m he hp] at ha'
    split at ha'
    · cases ha'
    next hno => exact Or.inr (Or.inr ⟨he, hp, hno, ha'⟩)
  constructor
  · intro m a' ha'
    rw [hw.place m (hopen m a' ha'), Change.place_keep]
    obtain ⟨rfl, rfl⟩ | ⟨he, hp, hcont, -⟩ | ⟨he, hp, hno, ha⟩ := hkept m a' ha'
    · rw [if_pos rfl]
    · rw [if_neg he, if_pos hp]
      simp [Node.form, Node.opens, hcont]
    · rw [if_neg he, if_neg hp, if_neg hno]
      exact hm.place m a' ha
  · intro m a' ha'
    rw [hw.slot m (hopen m a' ha'), Change.slot_keep]
    obtain ⟨rfl, rfl⟩ | ⟨he, hp, hcont, a, ha, hdata, htime⟩
      | ⟨he, hp, hno, ha⟩ := hkept m a' ha'
    · rw [if_pos rfl]
    · rw [if_neg he, if_pos hp]
      exact hm.slotAfter_eq ha (by simp [Node.opens, hcont]) hdata htime
    · rw [if_neg he, if_neg hp, if_neg hno]
      exact hm.slot m a' ha
  · intro m hpay hne hnone
    rw [hw.place m hpay, Change.place_keep]
    by_cases he : m = l
    · rw [he, hthere] at hnone
      cases hnone
    rw [if_neg he]
    by_cases hp : m <+: l
    · obtain ⟨a, b', -, hb', -⟩ := habove m hp he
      rw [hnone] at hb'
      cases hb'
    rw [if_neg hp]
    rw [hwiped m he hp] at hnone
    split
    · rfl
    · next hno =>
        rw [if_neg hno] at hnone
        exact hm.bare m hpay hne hnone
  · intro hnone
    -- the root is the place itself or above it, so it is kept
    by_cases he : [] = l
    · subst he
      rw [hthere] at hnone
      cases hnone
    · obtain ⟨a, b', -, hb', -⟩ := habove [] List.nil_prefix he
      rw [hnone] at hb'
      cases hb'

/-- A mirror stays one when a place is cleared. -/
private theorem Mirrors.clear (hm : v.Mirrors payload kept)
    (hw : (Change.clear l).Makes payload v w)
    (hopen : ∀ m a, kept' m = some a → payload ∉ m)
    (hgone : kept' l = none)
    (hothers : ∀ q, q ≠ l →
      kept' q = if l <+: q ∧ l ≠ [] then none else kept q) :
    w.Mirrors payload kept' := by
  have hwiped : ∀ m, m ≠ l → kept' m
      = if (Change.clear l).Wipes m then none else kept m := by
    intro m hne
    rw [hothers m hne]
    simp only [Change.wipes_clear]
  have hkept : ∀ m a, kept' m = some a →
      m ≠ l ∧ ¬ (Change.clear l).Wipes m ∧ kept m = some a := by
    intro m a ha
    have hne : m ≠ l := by
      intro he
      rw [he, hgone] at ha
      cases ha
    rw [hwiped m hne] at ha
    split at ha
    · cases ha
    · next hno => exact ⟨hne, hno, ha⟩
  constructor
  · intro m a ha
    obtain ⟨-, hno, hk⟩ := hkept m a ha
    rw [hw.place m (hopen m a ha), Change.place_clear, if_neg hno]
    exact hm.place m a hk
  · intro m a ha
    obtain ⟨hne, hno, hk⟩ := hkept m a ha
    have hroot : ¬ (l = [] ∧ m = []) := fun h => hne (h.2.trans h.1.symm)
    rw [hw.slot m (hopen m a ha), Change.slot_clear,
      if_neg (not_or.mpr ⟨hno, hroot⟩)]
    exact hm.slot m a hk
  · intro m hpay hne hnone
    rw [hw.place m hpay, Change.place_clear]
    split
    · rfl
    · next hno =>
        have hml : m ≠ l := by
          intro he
          subst he
          exact hno (Change.wipes_clear.mpr ⟨List.prefix_refl _, hne⟩)
        rw [hwiped m hml, if_neg hno] at hnone
        exact hm.bare m hpay hne hnone
  · intro hnone
    rw [← List.nil_append [payload], hw.slot [] (by simp),
      Change.slot_clear]
    by_cases hl : l = []
    · rw [if_pos (Or.inr ⟨hl, rfl⟩)]
    · have hno : ¬ (Change.clear l).Wipes [] :=
        fun h => h.2 (List.prefix_nil.mp h.1)
      rw [hwiped [] fun h => hl h.symm, if_neg hno] at hnone
      rw [if_neg (not_or.mpr ⟨hno, fun h => hl h.1⟩)]
      exact hm.root hnone

/-- A mirror stays one over a change, of the nodes to which the change
leads. -/
theorem Mirrors.after (hm : v.Mirrors payload kept) {c : Option Change}
    (hl : Leads kept kept' c)
    (hopen : ∀ m a, kept' m = some a → payload ∉ m)
    (hw : v.After payload c w) : w.Mirrors payload kept' := by
  cases hl with
  | still same =>
      cases hw
      exact same ▸ hm
  | keep n l there above others =>
      exact hm.keep hw hopen there above others
  | clear l gone others => exact hm.clear hw hopen gone others

end View

-- ============================================================ the events

/-- The event can be applied where a replica mirrors some nodes. -/
structure Event.Suits (r : Replica) (kept : Location → Option Node)
    (e : Event) : Prop where
  known : e.node ≠ none
  clear : ∀ node l, e.node = some node → r.place? node.path = some l →
    l.any Disk.hasNull = false
  timely : ∀ node l, e.node = some node → r.place? node.path = some l →
    Disk.representable node.modifiedAt = true
  free : e.kind = .added → ∀ node l, e.node = some node →
    r.place? node.path = some l → l ≠ [] → kept l = none

theorem Event.Suits.fair {r : Replica} {e : Event} {v : View}
    {kept : Location → Option Node} (h : e.Suits r kept)
    (hm : v.Mirrors r.payload kept) : e.Fair r v where
  known _ := h.known
  clear := h.clear
  timely := h.timely
  free hkind node l hnode hplace hl x hx := by
    have hnone := h.free hkind node l hnode hplace hl
    rw [hm.bare l (Remote.place?_names hplace).2 hl hnone] at hx
    cases hx

/-- Events that lead from some nodes to others, each one suited to where
the events before it lead. -/
inductive Leads (r : Replica) :
    (Location → Option Node) → List Event → (Location → Option Node) → Prop
  | done (kept : Location → Option Node) : Leads r kept [] kept
  | step {kept mid kept' : Location → Option Node} {e : Event}
      {rest : List Event} (suits : e.Suits r kept)
      (leads : View.Leads kept mid (r.change? e))
      (opened : ∀ m a, mid m = some a → r.payload ∉ m)
      (run : Leads r mid rest kept') : Leads r kept (e :: rest) kept'

theorem Leads.append {r : Replica}
    {kept mid kept' : Location → Option Node} {first second : List Event}
    (h : Leads r kept first mid) (h' : Leads r mid second kept') :
    Leads r kept (first ++ second) kept' := by
  induction h with
  | done kept => exact h'
  | step suits leads opened run ih => exact .step suits leads opened (ih h')

/-- Events that lead from what a root mirrors are applied without a
failure or an error report, unless a name was too long, and the root then
mirrors what they lead to. -/
theorem Site.leads_mirrors {s : Site} {v : View} {r : Replica}
    {before : Log} {h : Host} {kept kept' : Location → Option Node}
    (hr : s.Keeps r.payload r) (hc : s.Clean r.payload v)
    (hs : s.Shows before v h) (hm : v.Mirrors r.payload kept)
    {events : List Event} (hl : Leads r kept events kept')
    (hroom : r.roomy events h = true) :
    ∃ h' v', r.follow? events h = some h' ∧ s.Shows before v' h'
      ∧ s.Clean r.payload v' ∧ v'.Mirrors r.payload kept' := by
  have hstep : ∀ e rest (v : View),
      (∃ mid, v.Mirrors r.payload mid ∧ Leads r mid (e :: rest) kept') →
      e.Fair r v ∧ ∀ w, v.After r.payload (r.change? e) w →
        ∃ mid, w.Mirrors r.payload mid ∧ Leads r mid rest kept' := by
    intro e rest v hmid
    obtain ⟨mid, hm, hl⟩ := hmid
    cases hl with
    | step suits leads opened run =>
        exact ⟨suits.fair hm, fun w hw =>
          ⟨_, hm.after leads opened hw, run⟩⟩
  rw [← List.append_nil events] at hroom
  obtain ⟨h', v', hfollow, hs', hc', ⟨mid, hm', hend⟩, -, -⟩ :=
    follow?_fair (I := fun events v => ∃ mid, v.Mirrors r.payload mid
      ∧ Leads r mid events kept') hr hstep hc hs ⟨kept, hm, hl⟩ hroom
  cases hend
  exact ⟨h', v', hfollow, hs', hc', hm'⟩

-- ============================================================== one edit

namespace Remote.Tree

variable {t t' : Tree} {b l : Location} {payload : String} {n : Node}
  {kept kept' : Location → Option Node}

/-- Keeping a node of a tree leads to the nodes of the tree, as far as
the place of the node goes. -/
private theorem WellFormed.leads_keep (h : t'.WellFormed b)
    (hn : t'.node? (b ++ l) = some n) (hpay : payload ∉ l)
    (hupto : ∀ q, q <+: l → kept' q = t'.kept b payload q)
    (habove : ∀ q a', q <+: l → q ≠ l → t'.kept b payload q = some a' →
      ∃ a, kept q = some a ∧ a'.data = a.data
        ∧ a'.modifiedAt = a.modifiedAt)
    (hothers : ∀ q, q ≠ l → ¬ q <+: l →
      kept' q = if l <+: q ∧ n.opens l = false then none else kept q) :
    View.Leads kept kept' (some (.keep n l)) := by
  refine .keep n l ?_ (fun q hp hne => ?_) hothers
  · rw [hupto l (List.prefix_refl l)]
    exact kept_eq_some.mpr ⟨hpay, hn⟩
  · obtain ⟨k, rfl⟩ := hp
    have hk : k ≠ [] := by
      intro he
      subst he
      simp at hne
    have hmem := mem_of_node? hn
    obtain ⟨c, hc⟩ := exists_content? (h.above hmem)
    have hq : t'.kept b payload q = some (t'.node (b ++ q) c) :=
      kept_eq_some.mpr ⟨fun hp => hpay (by simp [hp]),
        node?_eq_some.mpr ⟨c, hc, rfl⟩⟩
    obtain ⟨a, ha, hdata, htime⟩ :=
      habove q _ (List.prefix_append _ _) hne hq
    exact ⟨a, _, ha, (hupto q (List.prefix_append _ _)).trans hq,
      h.isContainer hk hmem c, hdata, htime⟩

/-- Below the place of a leaf nothing is kept. -/
private theorem WellFormed.below_leaf (h : t.WellFormed b)
    (hn : t.node? (b ++ l) = some n) {q : Location} (hne : q ≠ l)
    (hleaf : l <+: q ∧ n.opens l = false) : t.kept b payload q = none := by
  obtain ⟨hp, hopens⟩ := hleaf
  rw [Node.opens, Bool.or_eq_false_iff] at hopens
  exact h.kept_below hn hopens.1 hp hne

/-- Keeping a node of a tree leads to the nodes of the tree from nodes
that differ at its place only. -/
private theorem WellFormed.leads_at (h : t'.WellFormed b)
    (hn : t'.node? (b ++ l) = some n) (hpay : payload ∉ l)
    (hkept : ∀ q, q ≠ l → kept q = t'.kept b payload q) :
    View.Leads kept (t'.kept b payload) (some (.keep n l)) := by
  refine h.leads_keep hn hpay (fun _ _ => rfl) ?_ ?_
  · intro q a' _ hne ha'
    exact ⟨a', (hkept q hne).trans ha', rfl, rfl⟩
  · intro q hne _
    rw [hkept q hne]
    split
    · next hleaf => exact h.below_leaf hn hne hleaf
    · rfl

/-- A node of a tree is the content that is found with the number of its
children. -/
theorem kept_of_content (hc : t'.content? (b ++ l) = t.content? (b ++ l))
    {a' : Node} (ha' : t'.kept b payload l = some a') :
    ∃ a, t.kept b payload l = some a ∧ a'.data = a.data
      ∧ a'.modifiedAt = a.modifiedAt := by
  obtain ⟨hpay, ha'⟩ := kept_eq_some.mp ha'
  obtain ⟨c, hcontent, rfl⟩ := node?_eq_some.mp ha'
  rw [hc] at hcontent
  exact ⟨t.node (b ++ l) c, kept_eq_some.mpr ⟨hpay,
    node?_eq_some.mpr ⟨c, hcontent, rfl⟩⟩, rfl, rfl⟩

/-- Keeping a node leads to the nodes of a tree from those of another one
that holds the same above the node, and elsewhere shows the same nodes but
below a leaf. -/
private theorem WellFormed.leads_to (h : t'.WellFormed b)
    (hn : t'.node? (b ++ l) = some n) (hpay : payload ∉ l)
    (hcontent : ∀ q, q <+: l → q ≠ l →
      t'.content? (b ++ q) = t.content? (b ++ q))
    (habove : ∀ q, q <+: l → q ≠ l → kept q = t.kept b payload q)
    (hothers : ∀ q, q ≠ l → ¬ q <+: l → t'.kept b payload q = kept q
      ∨ (l <+: q ∧ n.opens l = false)) :
    View.Leads kept (t'.kept b payload) (some (.keep n l)) := by
  refine h.leads_keep hn hpay (fun _ _ => rfl) ?_ ?_
  · intro q a' hp hne ha'
    rw [habove q hp hne]
    exact kept_of_content (hcontent q hp hne) ha'
  · intro q hne hp
    split
    · next hleaf => exact h.below_leaf hn hne hleaf
    · next hopen => exact (hothers q hne hp).resolve_right hopen

theorem kept_congr {q : Location}
    (h : payload ∉ q → t'.node? (b ++ q) = t.node? (b ++ q)) :
    t'.kept b payload q = t.kept b payload q := by
  unfold kept
  by_cases hp : payload ∈ q
  · rw [if_pos hp, if_pos hp]
  · rw [if_neg hp, if_neg hp, h hp]

end Remote.Tree

/-- An edit of a well-formed tree, and a replica of what is below `b`. -/
private structure Edited (r : Replica) (b : Location) (t : Tree)
    (edit : Edit) : Prop where
  tree : t.WellFormed b
  names : AllNames b
  base : r.base = pathOf b
  allowed : edit.Allowed t

namespace Edited

variable {r : Replica} {b : Location} {t : Tree} {edit : Edit}
  {l q a : Location} {n : Node}

/-- A child of a location is neither the location nor above it. -/
private theorem ne_child_of_above (hp : q <+: l) (k : String) :
    q ≠ l ++ [k] := by
  intro he
  subst he
  simp at hp

private theorem append_ne_child (hp : q <+: l) (k : String) :
    b ++ q ≠ b ++ l ++ [k] := by
  rw [List.append_assoc, Ne, List.append_cancel_left_eq]
  exact ne_child_of_above hp k

private theorem next (h : Edited r b t edit) :
    (edit.after t).WellFormed b :=
  h.tree.after h.allowed

/-- A node that is not kept has no place, and a kept one has its own. -/
private theorem place {t' : Tree} (h : Edited r b t edit)
    (ht' : t'.WellFormed b) {m : Location} (hn : t'.node? m = some n) :
    (r.place? n.path = none ∧ ∀ q, m = b ++ q → r.payload ∈ q)
    ∨ ∃ l, r.place? n.path = some l ∧ m = b ++ l ∧ r.payload ∉ l := by
  have hiff := fun l => ht'.place?_iff (l := l) h.names h.base hn
  cases hp : r.place? n.path with
  | none =>
      refine Or.inl ⟨rfl, fun q hq => ?_⟩
      apply Decidable.byContradiction
      intro hpay
      have hsome := (hiff q).mpr ⟨hq, hpay⟩
      rw [hp] at hsome
      cases hsome
  | some l =>
      obtain ⟨hm, hpay⟩ := (hiff l).mp hp
      exact Or.inr ⟨l, rfl, hm, hpay⟩

/-- What the edit does not touch is kept as before. -/
private theorem same (h : Edited r b t edit)
    (hq : r.payload ∉ q → b ++ q ∉ edit.touched) :
    (edit.after t).kept b r.payload q = t.kept b r.payload q :=
  Tree.kept_congr fun hpay => Edit.node?_after h.allowed (hq hpay)

private theorem kept_eq (h : Edited r b t edit)
    (hq : ∀ q, r.payload ∉ q → b ++ q ∉ edit.touched) :
    (edit.after t).kept b r.payload = t.kept b r.payload :=
  funext fun q => h.same (hq q)

/-- An event about a node of the tree before or after the edit suits
every replica in which an added node has nothing in its place. -/
private theorem suits {t' : Tree} (h : Edited r b t edit)
    (ht' : t'.WellFormed b) {m : Location} (hn : t'.node? m = some n)
    {kind : EventKind} {kept : Location → Option Node}
    (hfree : kind = .added → ∀ l, r.place? n.path = some l →
      m = b ++ l → kept l = none) :
    Event.Suits r kept ⟨kind, some n⟩ := by
  have hboth := fun l (hp : r.place? n.path = some l) =>
    ht'.clear_and_timely h.names h.base hn hp
  constructor
  · simp
  · intro node l hnode hplace
    cases hnode
    exact (hboth l hplace).1
  · intro node l hnode hplace
    cases hnode
    exact (hboth l hplace).2
  · intro hkind node l hnode hplace _
    cases hnode
    exact hfree hkind l hplace
      ((ht'.place?_iff h.names h.base hn).mp hplace).1

/-- An event about a node that is not kept leads nowhere. -/
private theorem still (hplace : r.place? n.path = none)
    (kind : EventKind) (kept : Location → Option Node) :
    View.Leads kept kept (r.change? ⟨kind, some n⟩) := by
  rw [Replica.change?_mk, hplace]
  exact .still rfl

/-- The change that an event about a kept node leads to. -/
private theorem moved {m : Location} (hplace : r.place? n.path = some m)
    (kind : EventKind) {kept kept' : Location → Option Node}
    (hl : View.Leads kept kept' (kind.change? n m)) :
    View.Leads kept kept' (r.change? ⟨kind, some n⟩) := by
  rw [Replica.change?_mk, hplace]
  exact hl

private theorem opened {t' : Tree} (m : Location) (x : Node)
    (hx : t'.kept b r.payload m = some x) : r.payload ∉ m :=
  (Tree.kept_eq_some.mp hx).1

-- -------------------------------------------------------------- a write

/-- The news of a written node lead to the tree after it. -/
private theorem leads_write {c : Content} (h : Edited r b t (.write a c)) :
    Leads r (t.kept b r.payload) (Edit.news t (.write a c))
      ((Edit.after t (.write a c)).kept b r.payload) := by
  have ht' := h.next
  generalize ht : Edit.after t (.write a c) = t' at ht'
  have hcontent : ∀ q, q ≠ a → t'.content? q = t.content? q := by
    intro q hq
    rw [← ht, Edit.content?_write h.allowed.1, if_neg hq]
  have hn : t'.node? a = some (t'.node a c) := by
    refine Tree.node?_eq_some.mpr ⟨c, ?_, rfl⟩
    rw [← ht, Edit.content?_write h.allowed.1, if_pos rfl]
  have hnews : Edit.news t (.write a c)
      = [⟨.updated, some (t'.node a c)⟩] := by
    simp [Edit.news, Tree.news, ht, hn]
  have hsame : ∀ q, (r.payload ∉ q → b ++ q ≠ a) →
      t'.kept b r.payload q = t.kept b r.payload q := by
    intro q hq
    rw [← ht]
    exact h.same fun hpay => by simpa [Edit.touched] using hq hpay
  rw [hnews]
  have hfinal : Leads r (t'.kept b r.payload) [] (t'.kept b r.payload) :=
    .done _
  refine .step (h.suits ht' hn (by simp)) ?_ opened hfinal
  rcases h.place ht' hn with ⟨hplace, hnone⟩ | ⟨l, hplace, rfl, hpay⟩
  · have heq : t'.kept b r.payload = t.kept b r.payload :=
      funext fun q => hsame q fun hq he => hq (hnone q he.symm)
    rw [heq]
    exact still hplace .updated _
  · refine moved hplace _ (ht'.leads_to hn hpay (fun q _ hne => ?_)
      (fun _ _ _ => rfl) fun q hne _ => Or.inl ?_)
    · exact hcontent _ fun he => hne (List.append_cancel_left he)
    · exact hsame q fun _ he => hne (List.append_cancel_left he)

-- ------------------------------------------------------------- creation

section Create

variable {k : String} {c : Content}

/-- The new node asks to be kept, and with it the parent has become a
container: its event leads to the tree after the edit. -/
private theorem leads_added (h : Edited r b t (.create a k c))
    (hn : (Edit.after t (.create a k c)).node? (b ++ l) = some n)
    (hl : a ++ [k] = b ++ l) (hpay : r.payload ∉ l) :
    View.Leads (t.kept b r.payload)
      ((Edit.after t (.create a k c)).kept b r.payload)
      (some (.keep n l)) := by
  refine h.next.leads_to hn hpay (fun q _ hne => ?_) (fun _ _ _ => rfl)
    fun q hne hp => Or.inl (h.same fun _ => ?_)
  · rw [Edit.content?_create h.allowed.2.1, hl,
      if_neg fun he => hne (List.append_cancel_left he)]
  · simp only [Edit.touched, List.mem_cons, List.not_mem_nil, or_false,
      not_or]
    refine ⟨fun he => hne (List.append_cancel_left (he.trans hl)), ?_⟩
    intro he
    refine hp ((List.prefix_append_right_inj b).mp ?_)
    rw [he, ← hl]
    exact List.prefix_append _ _

/-- Until the new node is kept itself, the event about its parent leads to
the tree after the edit without it. -/
private theorem leads_parent_first (h : Edited r b t (.create a k c))
    (hn : (Edit.after t (.create a k c)).node? a = some n)
    (hl : a = b ++ l) (hpay : r.payload ∉ l) :
    View.Leads (t.kept b r.payload)
      (fun q => if q = l ++ [k] then none
        else (Edit.after t (.create a k c)).kept b r.payload q)
      (some (.keep n l)) := by
  subst hl
  have hopen : n.opens l = true := by
    obtain ⟨d, -, rfl⟩ := Tree.node?_eq_some.mp hn
    have hcont : ((Edit.after t (.create (b ++ l) k c)).node (b ++ l)
        d).isContainer = true := by
      refine Tree.isContainer_node.mpr ⟨k, ?_⟩
      rw [Edit.locations_create]
      simp
    simp [Node.opens, hcont]
  refine h.next.leads_keep hn hpay (fun q hp => ?_) ?_ ?_
  · rw [if_neg (ne_child_of_above hp k)]
  · intro q a' hp _ ha'
    refine Tree.kept_of_content ?_ ha'
    rw [Edit.content?_create h.allowed.2.1,
      if_neg (append_ne_child hp k)]
  · intro q hne _
    have hno : ¬ (l <+: q ∧ n.opens l = false) := by
      intro hleaf
      rw [hopen] at hleaf
      cases hleaf.2
    rw [if_neg hno]
    split
    · next he =>
        subst he
        unfold Tree.kept
        split
        · rfl
        · rw [← List.append_assoc,
            Tree.node?_eq_none.mpr h.allowed.2.1]
    · next he =>
        refine h.same fun _ => ?_
        simp only [Edit.touched, List.mem_cons, List.not_mem_nil, or_false,
          not_or, List.append_assoc]
        exact ⟨fun heq => he (List.append_cancel_left heq),
          fun heq => hne (List.append_cancel_left heq)⟩

/-- If the new node is not kept, the event about its parent is all. -/
private theorem leads_parent_alone (h : Edited r b t (.create a k c))
    (hn : (Edit.after t (.create a k c)).node? a = some n)
    (hout : ∀ q, a ++ [k] = b ++ q → r.payload ∈ q) :
    View.Leads (t.kept b r.payload)
      ((Edit.after t (.create a k c)).kept b r.payload)
      (r.change? ⟨.updated, some n⟩) := by
  rcases h.place h.next hn with ⟨hnp, hanone⟩ | ⟨x, hnp, rfl, hxpay⟩
  · rw [← h.kept_eq fun q hq => by
      simp only [Edit.touched, List.mem_cons, List.not_mem_nil, or_false]
      intro he
      rcases he with he | he
      · exact hq (hout q he.symm)
      · exact hq (hanone q he.symm)]
    exact still hnp .updated _
  · refine moved hnp _ (h.next.leads_to hn hxpay (fun q hp hne => ?_)
      (fun _ _ _ => rfl) fun q hne _ => Or.inl (h.same fun hq => ?_))
    · rw [Edit.content?_create h.allowed.2.1, if_neg (append_ne_child hp k)]
    · simp only [Edit.touched, List.mem_cons, List.not_mem_nil,
        or_false, not_or]
      exact ⟨fun he => hq (hout q he.symm),
        fun he => hne (List.append_cancel_left he)⟩

/-- The news of a new node lead to the tree after it, in either order. -/
private theorem leads_create (h : Edited r b t (.create a k c))
    {events : List Event} (he : events = Edit.news t (.create a k c)
      ∨ events = (Edit.news t (.create a k c)).reverse) :
    Leads r (t.kept b r.payload) events
      ((Edit.after t (.create a k c)).kept b r.payload) := by
  obtain ⟨hparent, hnew, -⟩ := h.allowed
  have ht' := h.next
  have hnone : ∀ l, a ++ [k] = b ++ l → t.kept b r.payload l = none := by
    intro l hl
    unfold Tree.kept
    split
    · rfl
    · exact Tree.node?_eq_none.mpr (hl ▸ hnew)
  obtain ⟨p, hp⟩ : ∃ p, (Edit.after t (.create a k c)).node? (a ++ [k])
      = some p :=
    ⟨_, Tree.node?_eq_some.mpr ⟨c, by
      rw [Edit.content?_create hnew, if_pos rfl], rfl⟩⟩
  obtain ⟨d, hd⟩ := Tree.exists_content? hparent
  obtain ⟨n, hn⟩ : ∃ n, (Edit.after t (.create a k c)).node? a = some n :=
    ⟨_, Tree.node?_eq_some.mpr ⟨d, by
      rw [Edit.content?_create hnew, if_neg (by simp), hd], rfl⟩⟩
  have hnews : Edit.news t (.create a k c)
      = [⟨.added, some p⟩, ⟨.updated, some n⟩] := by
    simp [Edit.news, Tree.news, hp, hn]
  rw [hnews] at he
  have hup : ∀ kept, Event.Suits r kept ⟨.updated, some n⟩ :=
    fun kept => h.suits ht' hn (by simp)
  have hadd : Event.Suits r (t.kept b r.payload) ⟨.added, some p⟩ :=
    h.suits ht' hp fun _ l _ hl => hnone l hl
  rcases h.place ht' hp with ⟨hpp, hout⟩ | ⟨l, hpp, hl, hpay⟩
  · -- only the parent can be kept
    have hparent := h.leads_parent_alone hn hout
    rcases he with rfl | rfl
    · exact .step hadd (still hpp .added _) opened
        (.step (hup _) hparent opened (.done _))
    · refine .step (hup _) hparent opened (.step (h.suits ht' hp ?_)
        (still hpp .added _) opened (.done _))
      intro _ l hplace
      rw [hpp] at hplace
      cases hplace
  · have hadded := moved hpp .added (h.leads_added (hl ▸ hp) hl hpay)
    rcases h.place ht' hn with ⟨hnp, -⟩ | ⟨x, hnp, hx, hxpay⟩
    · rcases he with rfl | rfl
      · exact .step hadd hadded opened
          (.step (hup _) (still hnp .updated _) opened (.done _))
      · exact .step (hup _) (still hnp .updated _) opened
          (.step hadd hadded opened (.done _))
    · rcases he with rfl | rfl
      · exact .step hadd hadded opened (.step (hup _)
          (moved hnp _ (ht'.leads_at (hx ▸ hn) hxpay fun _ _ => rfl))
          opened (.done _))
      · have hlx : l = x ++ [k] := by
          rw [hx, List.append_assoc] at hl
          exact (List.append_cancel_left hl).symm
        subst hlx
        refine .step (hup _) (moved hnp _ (h.leads_parent_first hn hx hxpay))
          ?_ (.step (h.suits ht' hp ?_) (moved hpp _ (ht'.leads_at (hl ▸ hp)
            hpay fun q hq => if_neg hq)) opened (.done _))
        · intro m y hy
          split at hy
          · cases hy
          · exact opened m y hy
        · intro _ l' _ hl'
          rw [if_pos (List.append_cancel_left (hl'.symm.trans hl))]

end Create

-- ------------------------------------------------------------- deletion

section Delete

variable {k : String}

private theorem gone (_h : Edited r b t (.delete a k)) :
    a ++ [k] ∉ (Edit.after t (.delete a k)).locations := by
  rw [Edit.locations_delete]
  simp

/-- At and below the place of the deleted node nothing is kept. -/
private theorem none_below (h : Edited r b t (.delete a k))
    (hl : a ++ [k] = b ++ l) (hp : l <+: q) :
    (Edit.after t (.delete a k)).kept b r.payload q = none := by
  obtain ⟨below, rfl⟩ := hp
  cases hk : (Edit.after t (.delete a k)).kept b r.payload (l ++ below) with
  | none => rfl
  | some other =>
      have hmem := Tree.mem_of_node? (Tree.kept_eq_some.mp hk).2
      exact absurd (hl ▸ h.next.above hmem) h.gone

/-- What is neither the deleted node nor a parent that is there is kept as
before. -/
private theorem same_delete (h : Edited r b t (.delete a k))
    (hnode : r.payload ∉ q → b ++ q ≠ a ++ [k])
    (hparent : r.payload ∉ q → b ++ q = a →
      (Edit.after t (.delete a k)).node? a = none) :
    (Edit.after t (.delete a k)).kept b r.payload q
      = t.kept b r.payload q := by
  refine Tree.kept_congr fun hq => ?_
  by_cases hqa : b ++ q = a
  · have hnone := hparent hq hqa
    rw [Tree.node?_eq_none, Edit.locations_delete, List.mem_filter] at hnone
    rw [hqa, hparent hq hqa]
    exact (Tree.node?_eq_none.mpr fun hmem => hnone ⟨hmem, by simp⟩).symm
  · refine Edit.node?_after h.allowed ?_
    simp only [Edit.touched, List.mem_cons, List.not_mem_nil, or_false,
      not_or]
    exact ⟨hnode hq, hqa⟩

/-- The deleted node asks to be taken away. -/
private theorem leads_removed (h : Edited r b t (.delete a k))
    (hn : t.node? (a ++ [k]) = some n) (hl : a ++ [k] = b ++ l) :
    View.Leads (t.kept b r.payload)
      (fun q => if q = l then none else t.kept b r.payload q)
      (some (.clear l)) := by
  have hleaf : n.isContainer = false := by
    obtain ⟨c, -, rfl⟩ := Tree.node?_eq_some.mp hn
    simp [Remote.Tree.node, Node.isContainer, h.allowed.2]
  refine .clear l (if_pos rfl) fun q hne => ?_
  rw [if_neg hne]
  split
  · next hp => exact h.tree.kept_below (hl ▸ hn) hleaf hp.1 hne
  · rfl

/-- Once the deleted node is taken away, the event about its parent leads
to the tree after the edit. -/
private theorem leads_parent_last (h : Edited r b t (.delete a k))
    (hn : (Edit.after t (.delete a k)).node? a = some n)
    (hx : a = b ++ l) (hpay : r.payload ∉ l)
    {kept : Location → Option Node}
    (hkept : ∀ q, q ≠ l ++ [k] → kept q = t.kept b r.payload q)
    (hnone : kept (l ++ [k]) = none) :
    View.Leads kept ((Edit.after t (.delete a k)).kept b r.payload)
      (some (.keep n l)) := by
  subst hx
  refine h.next.leads_to hn hpay (fun q hp _ => ?_)
    (fun q hp _ => hkept q (ne_child_of_above hp k)) fun q hql _ => Or.inl ?_
  · rw [Edit.content?_delete, if_neg (append_ne_child hp k)]
  · by_cases hq : q = l ++ [k]
    · rw [hq, hnone]
      exact h.none_below (List.append_assoc _ _ _) (List.prefix_refl _)
    · rw [hkept q hq]
      refine h.same_delete (fun _ he => hq ?_) fun _ he =>
        absurd (List.append_cancel_left he) hql
      rw [List.append_assoc] at he
      exact List.append_cancel_left he

/-- Before the deleted node is taken away, the event about its parent
leads to the tree after the edit, with the deleted node in it as long as
the parent is a container. -/
private theorem leads_parent_before (h : Edited r b t (.delete a k))
    (hn : (Edit.after t (.delete a k)).node? a = some n)
    (hx : a = b ++ l) (hpay : r.payload ∉ l) :
    View.Leads (t.kept b r.payload)
      (fun q => if q = l ++ [k] ∧ n.opens l = true
        then t.kept b r.payload q
        else (Edit.after t (.delete a k)).kept b r.payload q)
      (some (.keep n l)) := by
  subst hx
  refine h.next.leads_keep hn hpay (fun q hp => ?_) ?_ ?_
  · rw [if_neg fun he => ne_child_of_above hp k he.1]
  · intro q a' hp _ ha'
    refine Tree.kept_of_content ?_ ha'
    rw [Edit.content?_delete, if_neg (append_ne_child hp k)]
  · intro q hql _
    by_cases hleaf : l <+: q ∧ n.opens l = false
    · rw [if_pos hleaf, if_neg (by simp [hleaf.2])]
      exact h.next.below_leaf hn hql hleaf
    rw [if_neg hleaf]
    split
    · rfl
    · next hno =>
        refine h.same_delete (fun _ he => ?_) fun _ he =>
          absurd (List.append_cancel_left he) hql
        rw [List.append_assoc] at he
        have hq := List.append_cancel_left he
        subst hq
        cases ho : n.opens l with
        | true => exact hno ⟨rfl, ho⟩
        | false => exact hleaf ⟨List.prefix_append _ _, ho⟩

/-- If the parent is not kept, taking the deleted node away is all. -/
private theorem leads_orphan (h : Edited r b t (.delete a k))
    (hp : t.node? (a ++ [k]) = some n)
    (hparent : ∀ q, r.payload ∉ q → b ++ q = a →
      (Edit.after t (.delete a k)).node? a = none) :
    View.Leads (t.kept b r.payload)
      ((Edit.after t (.delete a k)).kept b r.payload)
      (r.change? ⟨.removed, some n⟩) := by
  rcases h.place h.tree hp with ⟨hpp, hout⟩ | ⟨l, hpp, hl, hpay⟩
  · have heq : (Edit.after t (.delete a k)).kept b r.payload
        = t.kept b r.payload :=
      funext fun q => h.same_delete
        (fun hq he => hq (hout q he.symm)) (hparent q)
    rw [heq]
    exact still hpp .removed _
  · have heq : (Edit.after t (.delete a k)).kept b r.payload
        = fun q => if q = l then none else t.kept b r.payload q := by
      funext q
      split
      · next he =>
          subst he
          exact h.none_below hl (List.prefix_refl _)
      · next hne =>
          refine h.same_delete (fun _ he => hne ?_) (hparent q)
          rw [hl] at he
          exact List.append_cancel_left he
    rw [heq]
    exact moved hpp _ (h.leads_removed hp hl)

/-- If the parent is kept but the deleted node is not, the event about the
parent is all. -/
private theorem leads_unkept (h : Edited r b t (.delete a k))
    (hn : (Edit.after t (.delete a k)).node? a = some n)
    (hx : a = b ++ l) (hpay : r.payload ∉ l)
    (hout : ∀ q, a ++ [k] = b ++ q → r.payload ∈ q) :
    View.Leads (t.kept b r.payload)
      ((Edit.after t (.delete a k)).kept b r.payload)
      (some (.keep n l)) := by
  refine h.leads_parent_last hn hx hpay (fun _ _ => rfl) ?_
  have hin := hout (l ++ [k]) (by rw [hx, List.append_assoc])
  unfold Tree.kept
  rw [if_pos hin]

/-- The news of a deleted node lead to the tree after it, in either
order. -/
private theorem leads_delete (h : Edited r b t (.delete a k))
    {events : List Event} (he : events = Edit.news t (.delete a k)
      ∨ events = (Edit.news t (.delete a k)).reverse) :
    Leads r (t.kept b r.payload) events
      ((Edit.after t (.delete a k)).kept b r.payload) := by
  have ht' := h.next
  obtain ⟨c, hc⟩ := Tree.exists_content? h.allowed.1
  obtain ⟨p, hp⟩ : ∃ p, t.node? (a ++ [k]) = some p :=
    ⟨_, Tree.node?_eq_some.mpr ⟨c, hc, rfl⟩⟩
  have hrem : ∀ kept, Event.Suits r kept ⟨.removed, some p⟩ :=
    fun kept => h.suits h.tree hp (by simp)
  cases hn : (Edit.after t (.delete a k)).node? a with
  | none =>
      have hnews : Edit.news t (.delete a k) = [⟨.removed, some p⟩] := by
        simp [Edit.news, Tree.news, hp, hn]
      rw [hnews, List.reverse_singleton, or_self] at he
      subst he
      exact .step (hrem _) (h.leads_orphan hp fun _ _ _ => hn) opened
        (.done _)
  | some n =>
      have hnews : Edit.news t (.delete a k)
          = [⟨.removed, some p⟩, ⟨.updated, some n⟩] := by
        simp [Edit.news, Tree.news, hp, hn]
      rw [hnews] at he
      have hup : ∀ kept, Event.Suits r kept ⟨.updated, some n⟩ :=
        fun kept => h.suits ht' hn (by simp)
      rcases h.place ht' hn with ⟨hnp, hanone⟩ | ⟨x, hnp, hx, hxpay⟩
      · have horphan := h.leads_orphan hp fun q hq hqa =>
          absurd (hanone q hqa.symm) hq
        rcases he with rfl | rfl
        · exact .step (hrem _) horphan opened
            (.step (hup _) (still hnp .updated _) opened (.done _))
        · exact .step (hup _) (still hnp .updated _) opened
            (.step (hrem _) horphan opened (.done _))
      rcases h.place h.tree hp with ⟨hpp, hout⟩ | ⟨l, hpp, hl, -⟩
      · have hparent := moved hnp .updated
          (h.leads_unkept hn hx hxpay hout)
        rcases he with rfl | rfl
        · exact .step (hrem _) (still hpp .removed _) opened
            (.step (hup _) hparent opened (.done _))
        · exact .step (hup _) hparent opened
            (.step (hrem _) (still hpp .removed _) opened (.done _))
      have hlx : l = x ++ [k] := by
        rw [hx, List.append_assoc] at hl
        exact (List.append_cancel_left hl).symm
      subst hlx
      rcases he with rfl | rfl
      · refine .step (hrem _) (moved hpp _ (h.leads_removed hp hl)) ?_
          (.step (hup _) (moved hnp _ (h.leads_parent_last hn hx hxpay
            (fun q hq => if_neg hq) (if_pos rfl))) opened (.done _))
        intro m y hy
        split at hy
        · cases hy
        · exact opened m y hy
      · refine .step (hup _) (moved hnp _ (h.leads_parent_before hn hx hxpay))
          ?_ (.step (hrem _) (moved hpp _ (.clear _ ?_ ?_)) opened (.done _))
        · intro m y hy
          split at hy
          · exact opened m y hy
          · exact opened m y hy
        · exact h.none_below hl (List.prefix_refl _)
        · intro q hq
          split
          · next hbelow => exact h.none_below hl hbelow.1
          · rw [if_neg fun hmid => hq hmid.1]

end Delete

/-- The news of an edit lead from the tree before it to the tree after it,
in either order. -/
private theorem leads_news (h : Edited r b t edit) {events : List Event}
    (he : events = edit.news t ∨ events = (edit.news t).reverse) :
    Leads r (t.kept b r.payload) events
      ((edit.after t).kept b r.payload) := by
  cases edit with
  | create a k c => exact h.leads_create he
  | delete a k => exact h.leads_delete he
  | write a c =>
      have hone : (Edit.news t (.write a c)).reverse
          = Edit.news t (.write a c) := by
        simp only [Edit.news, Tree.news]
        cases (Edit.after t (.write a c)).node? a <;> rfl
      rw [hone, or_self] at he
      subst he
      exact h.leads_write

end Edited

-- ============================================================ a whole run

/-- Over a whole run the news lead from the first tree to the last. -/
private theorem leads_run {r : Replica} {b : Location} {t t' : Tree}
    {events : List Event} (hb : AllNames b) (hbase : r.base = pathOf b)
    (hrun : Tree.Run t events t') (ht : t.WellFormed b) :
    t'.WellFormed b
      ∧ Leads r (t.kept b r.payload) events (t'.kept b r.payload) := by
  induction hrun with
  | done t => exact ⟨ht, .done _⟩
  | step edit allowed tells run ih =>
      have hedited : Edited r b _ edit := ⟨ht, hb, hbase, allowed⟩
      obtain ⟨ht', hrest⟩ := ih hedited.next
      exact ⟨ht', (hedited.leads_news tells).append hrest⟩

namespace Replica

variable {r : Replica} {b : Location} {t t' : Tree}
  {listed live : List Event} {h : Host}

/-- A live tree is kept in sync. An empty root is told of every node of a
tree, in any order, and then of every edit, with the two events about one
edit in either order. Unless a name is too long for the system, all the
events are applied without a failure or an error report, and in the end
the root is in sync with the tree as it is then. -/
theorem live_inSync (hb : Remote.validate r.base = .ok r.base)
    (hp : IsSegment r.payload)
    (hroot : h.disk.status r.root = .ok (.directory []))
    (hnames : AllNames b) (hbase : r.base = pathOf b)
    (ht : t.WellFormed b) (hl : t.Listed listed)
    (hrun : Tree.Run t live t') (hroom : r.roomy (listed ++ live) h = true) :
    ∃ h', r.follow? (listed ++ live) h = some h'
      ∧ r.InSync t'.nodes h'.disk := by
  obtain ⟨s, hr, hs, hc⟩ := Site.exists_start hp hroot
  obtain ⟨h₁, v₁, hlisted, hs₁, hc₁, hm₁, hmore⟩ :=
    Site.listed_mirrors ht hnames hbase hr hc hs
      (fun m hm => Site.view_empty hm) hl hroom
  obtain ⟨ht', hleads⟩ := leads_run hnames hbase hrun ht
  obtain ⟨h', v', hlive, hs', hc', hm'⟩ :=
    Site.leads_mirrors hr hc₁ hs₁ hm₁ hleads hmore
  refine ⟨h', follow?_append.mpr ⟨h₁, hlisted, hlive⟩, ?_⟩
  have hnodes := fun n => Tree.mem_nodes (n := n) ht'.distinct
  rw [← ht'.nodeAt_eq hnames hbase hb ht'.paths_nodup
    (fun n => (hnodes n).mp) fun n l hl => (hnodes n).mpr ⟨_, hl⟩] at hm'
  exact hs'.inSync hc' hr hb ht'.paths_nodup hm'

/-- A leaf with data that gets a child, told of by its parent first, and
loses it again. -/
theorem live_inSync_reopened :
    let r : Replica := { root := ⟨.top, ["m"]⟩, payload := "data" }
    let t : Tree := ⟨[([], {}), (["a"], { data := some [7] })]⟩
    let grown := Edit.after t (.create ["a"] "b" {})
    let h : Host := { disk := ⟨.directory [("m", .directory [])], []⟩ }
    ∃ h', r.follow? ([⟨.added, some (t.node ["a"] { data := some [7] })⟩,
        ⟨.added, some (t.node [] {})⟩]
        ++ ((Edit.news t (.create ["a"] "b" {})).reverse
          ++ (Edit.news grown (.delete ["a"] "b") ++ []))) h = some h'
      ∧ r.InSync (Edit.after grown (.delete ["a"] "b")).nodes h'.disk := by
  intro r t grown h
  have ht : t.WellFormed [] := by decide +kernel
  refine live_inSync (b := []) (t := t) (by decide +kernel) (by decide)
    (show Disk.status ⟨.directory [("m", .directory [])], []⟩ ⟨.top, ["m"]⟩
      = .ok (.directory []) from rfl)
    (by decide) (by decide +kernel) ht ⟨?_, ?_⟩
    (.step (.create ["a"] "b" {})
      ⟨by decide, by decide, by decide +kernel, by decide⟩
      (Or.inr rfl) (.step (.delete ["a"] "b") ⟨by decide, by decide⟩
        (Or.inl rfl) (.done _)))
    (by decide +kernel)
  · intro e he
    simp only [List.mem_cons, List.not_mem_nil, or_false] at he
    rcases he with rfl | rfl
    · exact ⟨_, by simp [t, Tree.nodes], rfl⟩
    · exact ⟨_, by simp [t, Tree.nodes], rfl⟩
  · intro n hn
    simp [t, Tree.nodes] at hn
    rcases hn with rfl | rfl
    · simp [t]
    · simp [t]

end Replica

end TreeReplica
