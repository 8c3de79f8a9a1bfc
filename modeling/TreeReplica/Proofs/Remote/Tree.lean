/-
The remote tree and the edits on it. A tree is a list of locations
with what the nodes there hold; how many children a node has is counted,
not stored. An edit creates a node, writes one or deletes one, and
its news are the events about the node and about its parent, whose number
of children has changed.

A tree that is well formed stays so under every edit that is allowed
(`WellFormed.after`).
-/
import Mathlib.Data.List.Nodup
import TreeReplica.Proofs.Remote.Path
import TreeReplica.Remote.Node

namespace TreeReplica.Remote

-- ================================================================= trees

/-- What a node of the remote tree holds. -/
structure Content where
  data : Option Bytes := none
  modifiedAt : Int := 0
  deriving DecidableEq, Repr, Inhabited

/-- The remote tree: its nodes, by location. -/
structure Tree where
  held : List (Location × Content)
  deriving DecidableEq, Repr, Inhabited

namespace Tree

/-- The locations of the nodes. -/
def locations (t : Tree) : List Location := t.held.map (·.1)

/-- What the node at a location holds. -/
def content? (t : Tree) (l : Location) : Option Content :=
  (t.held.find? fun e => e.1 = l).map (·.2)

/-- The number of nodes directly below a location. -/
def childCount (t : Tree) (l : Location) : Nat :=
  t.locations.countP fun m => decide (m ≠ [] ∧ m.dropLast = l)

/-- The node at a location that holds `c`, as an event shows it. -/
def node (t : Tree) (l : Location) (c : Content) : Node :=
  { path := pathOf l, data := c.data, childCount := t.childCount l
    modifiedAt := c.modifiedAt }

/-- The node at a location, if there is one. -/
def node? (t : Tree) (l : Location) : Option Node :=
  (t.content? l).map (t.node l)

/-- All nodes. -/
def nodes (t : Tree) : List Node := t.held.map fun e => t.node e.1 e.2

/-- A location whose path is a proper remote path. -/
structure Legal (l : Location) : Prop where
  names : AllNames l
  valid : validate (pathOf l) = .ok (pathOf l)

instance (l : Location) : Decidable (Legal l) :=
  decidable_of_iff (AllNames l ∧ validate (pathOf l) = .ok (pathOf l))
    ⟨fun ⟨names, valid⟩ => ⟨names, valid⟩, fun h => ⟨h.names, h.valid⟩⟩

/-- The nodes are at different legal places, and their times can be kept.
Every node below `b` has a parent. -/
structure WellFormed (b : Location) (t : Tree) : Prop where
  distinct : t.locations.Nodup
  legal : ∀ l ∈ t.locations, Legal l
  timely : ∀ l c, t.content? l = some c →
    Disk.representable c.modifiedAt = true
  closed : ∀ l n, b <+: l → l ++ [n] ∈ t.locations → l ∈ t.locations

variable {t : Tree} {b l : Location} {c : Content} {n : Node}

-- ============================================================ looking up

theorem mem_locations : l ∈ t.locations ↔ ∃ c, (l, c) ∈ t.held := by
  simp [locations]

theorem content?_eq_none : t.content? l = none ↔ l ∉ t.locations := by
  rw [content?, Option.map_eq_none_iff, List.find?_eq_none]
  constructor
  · intro h hmem
    obtain ⟨c, hc⟩ := mem_locations.mp hmem
    exact h _ hc (by simp)
  · intro h e he heq
    refine h (mem_locations.mpr ⟨e.2, ?_⟩)
    rwa [← of_decide_eq_true heq]

theorem mem_of_content? (h : t.content? l = some c) : l ∈ t.locations := by
  apply Decidable.byContradiction
  intro hnot
  rw [content?_eq_none.mpr hnot] at h
  cases h

/-- Whether a tree is well formed can be told from its nodes, one by
one. -/
theorem wellFormed_iff : t.WellFormed b
    ↔ t.locations.Nodup ∧ (∀ l ∈ t.locations, Legal l)
      ∧ (∀ l ∈ t.locations, ∀ c ∈ t.content? l,
        Disk.representable c.modifiedAt = true)
      ∧ ∀ l ∈ t.locations, l ≠ [] → b <+: l.dropLast →
        l.dropLast ∈ t.locations := by
  constructor
  · intro h
    refine ⟨h.distinct, h.legal, fun l _ => h.timely l,
      fun l hl hne hb => h.closed _ (l.getLast hne) hb ?_⟩
    rwa [List.dropLast_concat_getLast]
  · rintro ⟨hdistinct, hlegal, htimely, hclosed⟩
    refine ⟨hdistinct, hlegal,
      fun l c hc => htimely l (mem_of_content? hc) c hc, fun l n hb hl => ?_⟩
    have habove := hclosed _ hl (by simp)
    rw [List.dropLast_concat] at habove
    exact habove hb

instance (t : Tree) (b : Location) : Decidable (t.WellFormed b) :=
  decidable_of_iff' _ wellFormed_iff

theorem exists_content? (h : l ∈ t.locations) :
    ∃ c, t.content? l = some c := by
  cases hc : t.content? l with
  | none => exact absurd h (content?_eq_none.mp hc)
  | some c => exact ⟨c, rfl⟩

/-- Where the locations are distinct, what is held is what is found. -/
theorem content?_eq_some (hd : t.locations.Nodup) :
    t.content? l = some c ↔ (l, c) ∈ t.held := by
  unfold content?
  rw [Option.map_eq_some_iff]
  constructor
  · intro h
    obtain ⟨e, he, hc⟩ := h
    have hl : e.1 = l := by simpa using List.find?_some he
    rw [← hl, ← hc]
    exact List.mem_of_find?_eq_some he
  · intro hmem
    cases hf : t.held.find? fun e => e.1 = l with
    | none =>
        exact absurd (decide_eq_true rfl)
          (List.find?_eq_none.mp hf _ hmem)
    | some e =>
        have hl : e.1 = l := by simpa using List.find?_some hf
        have he := List.inj_on_of_nodup_map hd
          (List.mem_of_find?_eq_some hf) hmem hl
        exact ⟨e, rfl, by rw [he]⟩

theorem node?_eq_some :
    t.node? l = some n ↔ ∃ c, t.content? l = some c ∧ n = t.node l c := by
  rw [node?, Option.map_eq_some_iff]
  constructor
  · intro h
    obtain ⟨c, hc, hn⟩ := h
    exact ⟨c, hc, hn.symm⟩
  · intro h
    obtain ⟨c, hc, hn⟩ := h
    exact ⟨c, hc, hn.symm⟩

theorem node?_eq_none : t.node? l = none ↔ l ∉ t.locations := by
  rw [node?, Option.map_eq_none_iff, content?_eq_none]

theorem mem_of_node? (h : t.node? l = some n) : l ∈ t.locations := by
  obtain ⟨c, hc, -⟩ := node?_eq_some.mp h
  exact mem_of_content? hc

/-- A node is known by its path. -/
theorem path_of_node? (h : t.node? l = some n) : n.path = pathOf l := by
  obtain ⟨c, -, rfl⟩ := node?_eq_some.mp h
  rfl

/-- The nodes are those that are found at the locations. -/
theorem mem_nodes (hd : t.locations.Nodup) :
    n ∈ t.nodes ↔ ∃ l, t.node? l = some n := by
  unfold nodes
  rw [List.mem_map]
  constructor
  · intro h
    obtain ⟨e, he, hn⟩ := h
    exact ⟨e.1, node?_eq_some.mpr ⟨e.2, (content?_eq_some hd).mpr he,
      hn.symm⟩⟩
  · intro h
    obtain ⟨l, hl⟩ := h
    obtain ⟨c, hc, hn⟩ := node?_eq_some.mp hl
    exact ⟨(l, c), (content?_eq_some hd).mp hc, hn.symm⟩

-- ============================================================== children

/-- The locations directly below another one. -/
theorem isChild_iff {m : Location} :
    (m ≠ [] ∧ m.dropLast = l) ↔ ∃ k, m = l ++ [k] := by
  constructor
  · intro h
    obtain ⟨hne, hdrop⟩ := h
    exact ⟨m.getLast hne, by rw [← hdrop, List.dropLast_concat_getLast]⟩
  · intro h
    obtain ⟨k, rfl⟩ := h
    exact ⟨by simp, by simp⟩

/-- A node is a container when a node is directly below it. -/
theorem isContainer_node :
    (t.node l c).isContainer = true ↔ ∃ k, l ++ [k] ∈ t.locations := by
  unfold Node.isContainer node childCount
  simp only [Int.natCast_pos, List.countP_pos_iff, decide_eq_true_eq]
  constructor
  · intro h
    obtain ⟨m, hm, hchild⟩ := h
    obtain ⟨k, rfl⟩ := isChild_iff.mp hchild
    exact ⟨k, hm⟩
  · intro h
    obtain ⟨k, hk⟩ := h
    exact ⟨_, hk, isChild_iff.mpr ⟨k, rfl⟩⟩

/-- Every location from `b` down to a node is that of a node. -/
theorem WellFormed.above (h : t.WellFormed b) {q r : Location}
    (hmem : b ++ (q ++ r) ∈ t.locations) : b ++ q ∈ t.locations := by
  induction r generalizing q with
  | nil => simpa using hmem
  | cons n r ih =>
      have hnext := ih (q := q ++ [n]) (by simpa using hmem)
      exact h.closed _ n (List.prefix_append _ _) (by simpa using hnext)

/-- A node above another one is a container. -/
theorem WellFormed.isContainer (h : t.WellFormed b) {q r : Location}
    (hr : r ≠ []) (hmem : b ++ (q ++ r) ∈ t.locations) (c : Content) :
    (t.node (b ++ q) c).isContainer = true := by
  cases r with
  | nil => exact absurd rfl hr
  | cons k r =>
      refine isContainer_node.mpr ⟨k, ?_⟩
      have habove := h.above (q := q ++ [k]) (r := r) (by simpa using hmem)
      simpa using habove

end Tree

-- ============================================================ edits

/-- What can be done to the remote tree. -/
inductive Edit
  | create (parent : Location) (name : String) (content : Content)
  | write (l : Location) (content : Content)
  | delete (parent : Location) (name : String)
  deriving DecidableEq, Repr, Inhabited

namespace Edit

/-- The tree after an edit. -/
def after (t : Tree) : Edit → Tree
  | .create a n c => ⟨t.held ++ [(a ++ [n], c)]⟩
  | .write l c => ⟨t.held.map fun e => if e.1 = l then (l, c) else e⟩
  | .delete a n => ⟨t.held.filter fun e => e.1 ≠ a ++ [n]⟩

/-- Does the tree allow the edit? A node is created at a new legal
place below another node, and deleted only while it has no children. -/
def Allowed (t : Tree) : Edit → Prop
  | .create a n c => a ∈ t.locations ∧ a ++ [n] ∉ t.locations
      ∧ Tree.Legal (a ++ [n]) ∧ Disk.representable c.modifiedAt = true
  | .write l c => l ∈ t.locations ∧ Disk.representable c.modifiedAt = true
  | .delete a n => a ++ [n] ∈ t.locations ∧ t.childCount (a ++ [n]) = 0

variable {t : Tree} {b a l q : Location} {n : String} {c : Content}

-- ------------------------------------------------- what the nodes hold

theorem content?_create (hnew : a ++ [n] ∉ t.locations) :
    (after t (.create a n c)).content? q
      = if q = a ++ [n] then some c else t.content? q := by
  unfold Tree.content? after
  rw [List.find?_append]
  by_cases hq : q = a ++ [n]
  · have hnone := Tree.content?_eq_none.mpr hnew
    rw [Tree.content?, Option.map_eq_none_iff] at hnone
    rw [if_pos hq, hq, hnone]
    simp
  · have hne : ¬ a ++ [n] = q := fun h => hq h.symm
    rw [if_neg hq]
    simp [hne]

theorem content?_write (hmem : l ∈ t.locations) :
    (after t (.write l c)).content? q
      = if q = l then some c else t.content? q := by
  have hfound : ∀ e : Location × Content,
      (if e.1 = l then (l, c) else e).1 = e.1 := by
    intro e
    split
    · next he => exact he.symm
    · rfl
  have hfind : (after t (.write l c)).content? q
      = (t.held.find? fun e => e.1 = q).map
          fun e => if e.1 = l then c else e.2 := by
    unfold Tree.content? after
    rw [List.find?_map, Option.map_map]
    simp only [Function.comp_def, hfound]
    congr 1
    funext e
    split
    · rfl
    · rfl
  rw [hfind]
  by_cases hq : q = l
  · obtain ⟨d, hd⟩ := Tree.exists_content? hmem
    rw [if_pos hq, hq]
    obtain ⟨e, he, -⟩ := Option.map_eq_some_iff.mp hd
    have hl : e.1 = l := by simpa using List.find?_some he
    rw [he, Option.map_some, if_pos hl]
  · rw [if_neg hq]
    unfold Tree.content?
    cases he : t.held.find? fun e => e.1 = q with
    | none => rfl
    | some e =>
        have hl : e.1 = q := by simpa using List.find?_some he
        rw [Option.map_some, if_neg (hl ▸ hq)]
        rfl

theorem content?_delete :
    (after t (.delete a n)).content? q
      = if q = a ++ [n] then none else t.content? q := by
  unfold Tree.content? after
  rw [List.find?_filter]
  by_cases hq : q = a ++ [n]
  · rw [if_pos hq, Option.map_eq_none_iff, List.find?_eq_none]
    intro e _
    simp [hq]
  · rw [if_neg hq]
    congr 2
    funext e
    by_cases he : e.1 = q
    · simp [he, hq]
    · simp [he]

-- ---------------------------------------------------------- locations

theorem locations_create :
    (after t (.create a n c)).locations = t.locations ++ [a ++ [n]] := by
  simp [Tree.locations, after]

theorem locations_write :
    (after t (.write l c)).locations = t.locations := by
  unfold Tree.locations after
  rw [List.map_map]
  refine List.map_congr_left fun e _ => ?_
  rw [Function.comp_apply]
  split
  · next he => exact he.symm
  · rfl

theorem locations_delete :
    (after t (.delete a n)).locations
      = t.locations.filter fun m => m ≠ a ++ [n] := by
  unfold Tree.locations after
  rw [List.filter_map]
  rfl

-- ----------------------------------------------------------- children

/-- Creating a node changes the number of children of its parent only. -/
theorem childCount_create (hq : q ≠ a) :
    (after t (.create a n c)).childCount q = t.childCount q := by
  have hne : a ≠ q := fun h => hq h.symm
  unfold Tree.childCount
  rw [locations_create, List.countP_append]
  simp [hne]

theorem childCount_write :
    (after t (.write l c)).childCount q = t.childCount q := by
  unfold Tree.childCount
  rw [locations_write]

/-- Deleting a node changes the number of children of its parent only. -/
theorem childCount_delete (hq : q ≠ a) :
    (after t (.delete a n)).childCount q = t.childCount q := by
  unfold Tree.childCount
  rw [locations_delete, List.countP_filter]
  refine List.countP_congr fun m _ => ?_
  have hkeep : m.dropLast = q → m ≠ a ++ [n] := by
    intro hdrop heq
    subst heq
    exact hq (by simpa using hdrop.symm)
  by_cases hdrop : m.dropLast = q
  · simp [hdrop, hkeep hdrop]
  · simp [hdrop]

/-- The locations at which an edit changes the node. -/
def touched : Edit → List Location
  | .create a n _ => [a ++ [n], a]
  | .write l _ => [l]
  | .delete a n => [a ++ [n], a]

/-- An edit leaves all other nodes as they are. -/
theorem node?_after {edit : Edit} (ho : edit.Allowed t)
    (hq : q ∉ edit.touched) : (after t edit).node? q = t.node? q := by
  have hsame : ∀ {t' : Tree}, t'.content? q = t.content? q →
      t'.childCount q = t.childCount q → t'.node? q = t.node? q := by
    intro t' hcontent hcount
    unfold Tree.node?
    rw [hcontent]
    refine Option.map_congr fun c _ => ?_
    rw [Tree.node, Tree.node, hcount]
  cases edit with
  | create a n c =>
      simp only [touched, List.mem_cons, List.not_mem_nil, or_false,
        not_or] at hq
      exact hsame (by rw [content?_create ho.2.1, if_neg hq.1])
        (childCount_create hq.2)
  | write l c =>
      simp only [touched, List.mem_cons, List.not_mem_nil, or_false] at hq
      exact hsame (by rw [content?_write ho.1, if_neg hq]) childCount_write
  | delete a n =>
      simp only [touched, List.mem_cons, List.not_mem_nil, or_false,
        not_or] at hq
      exact hsame (by rw [content?_delete, if_neg hq.1])
        (childCount_delete hq.2)

end Edit

namespace Tree

variable {t : Tree} {b : Location} {edit : Edit} {c : Content}

private theorem WellFormed.create {a : Location} {n : String}
    (h : t.WellFormed b) (ho : (Edit.create a n c).Allowed t) :
    (Edit.after t (.create a n c)).WellFormed b := by
  obtain ⟨hparent, hnew, hlegal, htime⟩ := ho
  constructor
  case distinct =>
    rw [Edit.locations_create, List.nodup_append]
    refine ⟨h.distinct, by simp, ?_⟩
    intro l hl m hm heq
    rw [List.mem_singleton.mp hm] at heq
    exact hnew (heq ▸ hl)
  case legal =>
    intro l hl
    rw [Edit.locations_create, List.mem_append, List.mem_singleton] at hl
    rcases hl with hl | rfl
    · exact h.legal l hl
    · exact hlegal
  case timely =>
    intro l d hd
    rw [Edit.content?_create hnew] at hd
    split at hd
    · cases hd
      exact htime
    · exact h.timely l d hd
  case closed =>
    intro l k hb hl
    rw [Edit.locations_create, List.mem_append, List.mem_singleton] at hl
    rw [Edit.locations_create]
    rcases hl with hl | heq
    · exact List.mem_append_left _ (h.closed l k hb hl)
    · obtain ⟨rfl, -⟩ := List.append_inj' heq rfl
      exact List.mem_append_left _ hparent

private theorem WellFormed.write {l : Location} (h : t.WellFormed b)
    (ho : (Edit.write l c).Allowed t) :
    (Edit.after t (.write l c)).WellFormed b := by
  obtain ⟨hmem, htime⟩ := ho
  have hsame : (Edit.after t (.write l c)).locations = t.locations :=
    Edit.locations_write
  constructor
  case distinct => exact hsame ▸ h.distinct
  case legal => exact hsame ▸ h.legal
  case timely =>
    intro m d hd
    rw [Edit.content?_write hmem] at hd
    split at hd
    · cases hd
      exact htime
    · exact h.timely m d hd
  case closed => exact hsame ▸ h.closed

private theorem WellFormed.delete {a : Location} {n : String}
    (h : t.WellFormed b) (ho : (Edit.delete a n).Allowed t) :
    (Edit.after t (.delete a n)).WellFormed b := by
  obtain ⟨hmem, hbare⟩ := ho
  constructor
  case distinct =>
    rw [Edit.locations_delete]
    exact h.distinct.filter _
  case legal =>
    intro l hl
    rw [Edit.locations_delete, List.mem_filter] at hl
    exact h.legal l hl.1
  case timely =>
    intro l d hd
    rw [Edit.content?_delete] at hd
    split at hd
    · cases hd
    · exact h.timely l d hd
  case closed =>
    intro l k hb hl
    rw [Edit.locations_delete, List.mem_filter] at hl ⊢
    refine ⟨h.closed l k hb hl.1, ?_⟩
    -- the deleted node has no children
    simp only [ne_eq, decide_not, Bool.not_eq_true', decide_eq_false_iff_not]
    intro heq
    subst heq
    unfold childCount at hbare
    rw [List.countP_eq_zero] at hbare
    exact hbare _ hl.1 (by simp)

/-- A well-formed tree stays so under every edit that it allows. -/
theorem WellFormed.after (h : t.WellFormed b) (ho : edit.Allowed t) :
    (edit.after t).WellFormed b := by
  cases edit with
  | create a n c => exact h.create ho
  | write l c => exact h.write ho
  | delete a n => exact h.delete ho

-- ================================================================ events

/-- The event of some kind about the node at a location, if there is
one. -/
def news (t : Tree) (kind : EventKind) (l : Location) : List Event :=
  (t.node? l).toList.map fun n => ⟨kind, some n⟩

end Tree

/-- The events that an edit on a tree causes: one about the node,
and, if the number of children of a node has changed, one about that. -/
def Edit.news (t : Tree) (edit : Edit) : List Event :=
  match edit with
  | .create a n _ =>
      (edit.after t).news .added (a ++ [n]) ++ (edit.after t).news .updated a
  | .write l _ => (edit.after t).news .updated l
  | .delete a n =>
      t.news .removed (a ++ [n]) ++ (edit.after t).news .updated a

namespace Tree

/-- Each of the events tells of a node as added, and all nodes are told
of. -/
structure Listed (t : Tree) (events : List Event) : Prop where
  only : ∀ e ∈ events, ∃ n ∈ t.nodes, e = ⟨.added, some n⟩
  every : ∀ n ∈ t.nodes, ⟨.added, some n⟩ ∈ events

/-- Edits lead from one tree to another and cause some events. The
two events about one edit may come in either order. -/
inductive Run : Tree → List Event → Tree → Prop
  | done (t : Tree) : Run t [] t
  | step {t t' : Tree} (edit : Edit) (allowed : edit.Allowed t)
      {events rest : List Event}
      (tells : events = edit.news t ∨ events = (edit.news t).reverse)
      (run : Run (edit.after t) rest t') : Run t (events ++ rest) t'

end Tree

end TreeReplica.Remote
