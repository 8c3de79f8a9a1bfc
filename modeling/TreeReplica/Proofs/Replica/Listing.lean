/-
A remote tree listed. When a watch begins, every node of the tree is
reported as added, in any order and possibly more than once. However the
nodes come, nothing but a name that is too long can hinder the work, and
in the end the root mirrors the tree (`listed_mirrors`).

On the way a place holds what its node asks for, or nothing: a directory
that was made early for a child is what the parent asks for anyway.
-/
import TreeReplica.Proofs.Remote.Tree
import TreeReplica.Proofs.Replica.Converge
import TreeReplica.Proofs.Replica.Fair

namespace TreeReplica

open Remote (Tree pathOf)

namespace Remote.Tree

-- ======================================================== what is kept

/-- The node of a tree that is kept at a location below the root, where
the root stands for the node at `b`. -/
def kept (t : Tree) (b : Location) (payload : String) (l : Location) :
    Option Node :=
  if payload ∈ l then none else t.node? (b ++ l)

variable {t : Tree} {b l q : Location} {payload : String} {n : Node}

theorem kept_eq_some : t.kept b payload l = some n
    ↔ payload ∉ l ∧ t.node? (b ++ l) = some n := by
  unfold kept
  by_cases h : payload ∈ l
  · simp [h]
  · simp [h]

theorem Legal.clear (h : Legal l) : l.any Disk.hasNull = false := by
  obtain ⟨m, -, hpath, hm⟩ := exists_of_validate h.valid
  rw [← hasNull_pathOf, hpath, hasNull_pathOf, hm]

/-- A leaf has no nodes below it. -/
theorem WellFormed.kept_below (h : t.WellFormed b)
    (hn : t.node? (b ++ l) = some n) (hleaf : n.isContainer = false)
    (hpre : l <+: q) (hne : q ≠ l) : t.kept b payload q = none := by
  obtain ⟨r, rfl⟩ := hpre
  have hr : r ≠ [] := by
    intro heq
    subst heq
    simp at hne
  cases hk : t.kept b payload (l ++ r) with
  | none => rfl
  | some other =>
      obtain ⟨c, -, hc⟩ := node?_eq_some.mp hn
      have hmem := mem_of_node? (kept_eq_some.mp hk).2
      rw [hc, h.isContainer hr hmem c] at hleaf
      cases hleaf

/-- The place of a node is told by its location. -/
theorem WellFormed.place?_iff {r : Replica} (h : t.WellFormed b)
    (hb : AllNames b) (hbase : r.base = pathOf b) {m : Location}
    (hn : t.node? m = some n) :
    r.place? n.path = some l ↔ m = b ++ l ∧ r.payload ∉ l := by
  unfold Replica.place?
  rw [path_of_node? hn, hbase]
  exact place?_eq_some hb (h.legal m (mem_of_node? hn)).names

/-- The nodes of a well-formed tree have different paths. -/
theorem WellFormed.paths_nodup (h : t.WellFormed b) :
    (t.nodes.map (·.path)).Nodup := by
  have hpaths : t.nodes.map (·.path) = t.locations.map pathOf := by
    simp [nodes, locations, node, Function.comp_def]
  rw [hpaths]
  refine List.Nodup.map_on ?_ h.distinct
  intro x hx y hy
  exact pathOf_inj (h.legal x hx).names (h.legal y hy).names

/-- Among nodes of the tree, with all of those below the base, the node at
a place is the one that is kept there. -/
theorem WellFormed.nodeAt_eq {r : Replica} {nodes : List Node}
    (h : t.WellFormed b) (hb : AllNames b) (hbase : r.base = pathOf b)
    (hvalid : validate r.base = .ok r.base)
    (hdistinct : (nodes.map (·.path)).Nodup)
    (honly : ∀ n ∈ nodes, ∃ m, t.node? m = some n)
    (hall : ∀ n l, t.node? (b ++ l) = some n → n ∈ nodes) :
    r.nodeAt nodes = t.kept b r.payload := by
  funext l
  refine Option.ext fun n => ?_
  rw [Replica.nodeAt_eq_some hvalid hdistinct, kept_eq_some]
  constructor
  · intro hmid
    obtain ⟨hn, hplace⟩ := hmid
    obtain ⟨m, hm⟩ := honly n hn
    obtain ⟨rfl, hpay⟩ := (h.place?_iff hb hbase hm).mp hplace
    exact ⟨hpay, hm⟩
  · intro hmid
    obtain ⟨hpay, hm⟩ := hmid
    exact ⟨hall n l hm, (h.place?_iff hb hbase hm).mpr ⟨rfl, hpay⟩⟩

/-- A kept node can be passed to the system. -/
theorem WellFormed.clear_and_timely {r : Replica} (h : t.WellFormed b)
    (hb : AllNames b) (hbase : r.base = pathOf b) {m : Location}
    (hn : t.node? m = some n) (hplace : r.place? n.path = some l) :
    l.any Disk.hasNull = false
      ∧ Disk.representable n.modifiedAt = true := by
  obtain ⟨rfl, -⟩ := (h.place?_iff hb hbase hn).mp hplace
  have hclear := (h.legal _ (mem_of_node? hn)).clear
  rw [List.any_append, Bool.or_eq_false_iff] at hclear
  obtain ⟨c, hc, rfl⟩ := node?_eq_some.mp hn
  exact ⟨hclear.2, h.timely _ c hc⟩

end Remote.Tree

namespace View

/-- Where a node is kept there is nothing yet, or what the node asks
for. -/
def Grows (kept : Location → Option Node) (v : View) : Prop :=
  ∀ l n, kept l = some n → v l = none ∨ v l = some (n.form l)

variable {t : Tree} {b l : Location} {payload : String} {n : Node}
  {v w : View}

/-- Keeping a node of a tree leaves everything as the tree asks for, or
not there yet. -/
theorem Grows.keep (h : t.WellFormed b) (hn : t.kept b payload l = some n)
    (hg : v.Grows (t.kept b payload))
    (hw : (Change.keep n l).Makes payload v w) :
    w.Grows (t.kept b payload) := by
  intro m other hm
  obtain ⟨hpay, hother⟩ := Tree.kept_eq_some.mp hm
  rw [hw.place m hpay, Change.place_keep]
  by_cases he : m = l
  · subst he
    rw [hm, Option.some.injEq] at hn
    rw [if_pos rfl, hn]
    exact Or.inr rfl
  rw [if_neg he]
  by_cases hp : m <+: l
  · -- what is above a node of the tree is a container
    obtain ⟨r, rfl⟩ := hp
    have hr : r ≠ [] := by
      intro heq
      subst heq
      simp at he
    obtain ⟨c, -, rfl⟩ := Tree.node?_eq_some.mp hother
    have hmem := Tree.mem_of_node? (Tree.kept_eq_some.mp hn).2
    rw [if_pos (List.prefix_append _ _), Node.form, Node.opens,
      h.isContainer hr hmem c]
    exact Or.inr rfl
  rw [if_neg hp]
  split
  · exact Or.inl rfl
  · exact hg m other hm

end View

namespace Site

variable {s : Site} {v : View} {payload : String} {r : Replica}
  {before : Log} {h : Host} {t : Tree} {b : Location}

/-- The change that a listed node asks for is to keep it. -/
private theorem change?_listed {n : Node} :
    r.change? ⟨.added, some n⟩
      = (r.place? n.path).map fun l => .keep n l := by
  rw [Replica.change?_mk]
  cases r.place? n.path <;> rfl

/-- A listed node is fair where everything is as the tree asks for or not
there yet. -/
private theorem fair_listed (ht : t.WellFormed b) (hb : AllNames b)
    (hbase : r.base = pathOf b) (hg : v.Grows (t.kept b r.payload))
    {n : Node} {m : Location} (hn : t.node? m = some n) :
    Event.Fair r v ⟨.added, some n⟩ := by
  constructor
  · simp
  · intro node l hnode hplace
    cases hnode
    exact (ht.clear_and_timely hb hbase hn hplace).1
  · intro node l hnode hplace
    cases hnode
    exact (ht.clear_and_timely hb hbase hn hplace).2
  · intro _ node l hnode hplace hl x hx
    cases hnode
    obtain ⟨rfl, hpay⟩ := (ht.place?_iff hb hbase hn).mp hplace
    rcases hg l n (Tree.kept_eq_some.mpr ⟨hpay, hn⟩) with hnone | hform
    · rw [hnone] at hx
      cases hx
    · rw [hform, Option.some.injEq] at hx
      rw [← hx, Node.form, Node.opens]
      cases hc : n.isContainer with
      | true => simp
      | false => simp [hl, Node.file]

/-- A list with an element has a last one. -/
private theorem exists_last {α : Type} [DecidableEq α] {x : α}
    {xs : List α} (h : x ∈ xs) :
    ∃ before after, xs = before ++ x :: after ∧ x ∉ after := by
  obtain ⟨front, back, heq, hnot⟩ :=
    List.eq_append_cons_of_mem (List.mem_reverse.mpr h)
  refine ⟨back.reverse, front.reverse, ?_, by simpa using hnot⟩
  rw [← List.reverse_reverse xs, heq]
  simp

/-- The events of a list of nodes of a tree. -/
private theorem exists_node (ht : t.WellFormed b) {listed : List Event}
    (hl : t.Listed listed) {e : Event} (he : e ∈ listed) :
    ∃ n m, e = ⟨.added, some n⟩ ∧ t.node? m = some n := by
  obtain ⟨n, hn, heq⟩ := hl.only e he
  obtain ⟨m, hm⟩ := (Tree.mem_nodes ht.distinct).mp hn
  exact ⟨n, m, heq, hm⟩

/-- A listed node finds its place as it should be, and leaves all places
so. -/
private theorem listed_step (ht : t.WellFormed b) (hb : AllNames b)
    (hbase : r.base = pathOf b) (hg : v.Grows (t.kept b r.payload))
    {listed : List Event} (hl : t.Listed listed) {e : Event}
    (he : e ∈ listed) :
    e.Fair r v ∧ ∀ w, v.After r.payload (r.change? e) w →
      w.Grows (t.kept b r.payload) := by
  obtain ⟨n, m, rfl, hn⟩ := exists_node ht hl he
  refine ⟨fair_listed ht hb hbase hg hn, fun w hw => ?_⟩
  rw [change?_listed] at hw
  cases hplace : r.place? n.path with
  | none =>
      rw [hplace] at hw
      cases hw
      exact hg
  | some l =>
      rw [hplace] at hw
      obtain ⟨rfl, hpay⟩ := (ht.place?_iff hb hbase hn).mp hplace
      exact hg.keep ht (Tree.kept_eq_some.mpr ⟨hpay, hn⟩) hw

/-- Once all nodes of a tree were kept where nothing was, in any order,
the tree is mirrored. -/
private theorem mirrors_of_listed (ht : t.WellFormed b) (hb : AllNames b)
    (hbase : r.base = pathOf b) {listed : List Event}
    (hl : t.Listed listed) (hroot : v [] = some .directory)
    (hempty : ∀ m, m ≠ [] → v m = none) {v' : View}
    (hall : v.AfterAll r.payload (listed.filterMap r.change?) v') :
    v'.Mirrors r.payload (t.kept b r.payload) := by
  have hkeep : ∀ c ∈ listed.filterMap r.change?, ∃ n l,
      c = .keep n l ∧ t.kept b r.payload l = some n := by
    intro c hmem
    obtain ⟨e, he, hch⟩ := List.mem_filterMap.mp hmem
    obtain ⟨n, m, rfl, hn⟩ := exists_node ht hl he
    rw [change?_listed, Option.map_eq_some_iff] at hch
    obtain ⟨l, hplace, rfl⟩ := hch
    obtain ⟨rfl, hpay⟩ := (ht.place?_iff hb hbase hn).mp hplace
    exact ⟨n, l, rfl, Tree.kept_eq_some.mpr ⟨hpay, hn⟩⟩
  -- no leaf is above another node
  have hleaf : ∀ {n m l q}, t.kept b r.payload l = some n →
      n.opens l = false → l <+: q → q ≠ l →
      t.kept b r.payload q ≠ some m := by
    intro n m l q hk hopens hpre hne hq
    rw [Node.opens, Bool.or_eq_false_iff] at hopens
    rw [ht.kept_below (Tree.kept_eq_some.mp hk).2 hopens.1 hpre hne] at hq
    cases hq
  refine hall.mirrors hroot hempty ?_ ?_ ?_ ?_
  · exact fun l n hk => (Tree.kept_eq_some.mp hk).1
  · intro l n hk
    obtain ⟨hpay, hn⟩ := Tree.kept_eq_some.mp hk
    have hmem : Change.keep n l ∈ listed.filterMap r.change? := by
      refine List.mem_filterMap.mpr ⟨⟨.added, some n⟩,
        hl.every n ((Tree.mem_nodes ht.distinct).mpr ⟨_, hn⟩), ?_⟩
      rw [change?_listed, (ht.place?_iff hb hbase hn).mpr ⟨rfl, hpay⟩]
      rfl
    obtain ⟨first, last, heq, hnot⟩ := exists_last hmem
    refine ⟨first, last, heq, fun c hlast => ?_⟩
    obtain ⟨n', l', rfl, hk'⟩ := hkeep c (heq ▸ by simp [hlast])
    have hne : l' ≠ l := by
      intro he
      subst he
      rw [hk, Option.some.injEq] at hk'
      subst hk'
      exact hnot hlast
    refine ⟨hne, fun hwipe => ?_, fun hopens hwrite => ?_⟩
    · exact hleaf hk' hwipe.2.2 hwipe.1 hwipe.2.1 hk
    · exact hleaf hk hopens hwrite hne hk'
  · intro q hq hk first c last heq hwrites
    obtain ⟨n, l, rfl, hk'⟩ := hkeep c (heq ▸ by simp)
    obtain ⟨hpay, hn⟩ := Tree.kept_eq_some.mp hk'
    obtain ⟨below, rfl⟩ := hwrites
    obtain ⟨other, hother⟩ := Tree.exists_content?
      (ht.above (Tree.mem_of_node? hn))
    have hsome : t.kept b r.payload q = some (t.node (b ++ q) other) :=
      Tree.kept_eq_some.mpr ⟨fun hp => hpay (by simp [hp]),
        Tree.node?_eq_some.mpr ⟨other, hother, rfl⟩⟩
    rw [hk] at hsome
    cases hsome
  · intro hk first c last heq hfills
    obtain ⟨n, l, rfl, hk'⟩ := hkeep c (heq ▸ by simp)
    obtain ⟨rfl, -⟩ := hfills
    rw [hk] at hk'
    cases hk'

/-- A listed tree is mirrored by a root that was empty, unless a name was
too long. -/
theorem listed_mirrors (ht : t.WellFormed b) (hb : AllNames b)
    (hbase : r.base = pathOf b) (hr : s.Keeps r.payload r)
    (hc : s.Clean r.payload v) (hs : s.Shows before v h)
    (hempty : ∀ m, m ≠ [] → v m = none) {listed more : List Event}
    (hl : t.Listed listed) (hroom : r.roomy (listed ++ more) h = true) :
    ∃ h' v', r.follow? listed h = some h' ∧ s.Shows before v' h'
      ∧ s.Clean r.payload v' ∧ v'.Mirrors r.payload (t.kept b r.payload)
      ∧ r.roomy more h' = true := by
  have hstart : v.Grows (t.kept b r.payload) := by
    intro l n _
    by_cases hnil : l = []
    · subst hnil
      rw [hc.base]
      exact Or.inr (by simp [Node.form, Node.opens])
    · exact Or.inl (hempty l hnil)
  have hstep : ∀ e rest (v : View),
      (v.Grows (t.kept b r.payload) ∧ ∀ e' ∈ e :: rest, e' ∈ listed) →
      e.Fair r v ∧ ∀ w, v.After r.payload (r.change? e) w →
        w.Grows (t.kept b r.payload) ∧ ∀ e' ∈ rest, e' ∈ listed := by
    intro e rest v hI
    obtain ⟨hg, hmem⟩ := hI
    obtain ⟨hfair, hnext⟩ :=
      listed_step ht hb hbase hg hl (hmem e (List.mem_cons_self ..))
    exact ⟨hfair, fun w hw => ⟨hnext w hw,
      fun e' he' => hmem e' (List.mem_cons_of_mem _ he')⟩⟩
  obtain ⟨h', v', hfollow, hs', hc', -, hmore, hall⟩ :=
    follow?_fair (I := fun events v => v.Grows (t.kept b r.payload)
      ∧ ∀ e ∈ events, e ∈ listed) hr hstep hc hs ⟨hstart, fun _ he => he⟩
      hroom
  exact ⟨h', v', hfollow, hs', hc',
    mirrors_of_listed ht hb hbase hl hc.base hempty hall, hmore⟩

end Site

end TreeReplica
