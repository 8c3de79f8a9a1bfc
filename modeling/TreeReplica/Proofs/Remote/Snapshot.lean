/-
Reading a tree from a server. A server that answers for every node below
a base as the tree has it is read completely: a snapshot at the base does
not fail and has just the nodes of the tree there, each once
(`snapshot_reads`). A node that is gone when it is read ends nothing
(`Server.Readable.walkFrom`).

The walk is bounded by the number of served nodes. The bound is never
met, since the nodes above a node are all served under paths of their own
(`Serves.shallow`).
-/
import Mathlib.Data.List.Nodup
import TreeReplica.Proofs.Remote.Tree
import TreeReplica.Remote.Snapshot

namespace TreeReplica.Remote

-- =============================================================== serving

/-- What a server has to hold for a node of a tree: its data and status,
and the names of its children, each once and in any order. -/
structure Served.Shows (s : Served) (t : Tree) (l : Location) (n : Node) :
    Prop where
  path : s.path = pathOf l
  data : s.data = n.data
  childCount : s.childCount = n.childCount
  modifiedAt : s.modifiedAt = n.modifiedAt
  distinct : s.names.Nodup
  names : ∀ k, k ∈ s.names ↔ l ++ [k] ∈ t.locations
  dataFault : s.dataFault = none
  childrenFault : s.childrenFault = none

/-- The server answers for every location below `b` as the tree has it. -/
structure Server.Serves (server : Server) (t : Tree) (b : Location) :
    Prop where
  node : ∀ l n, b <+: l → t.node? l = some n →
    ∃ s, server.find? (pathOf l) = some s ∧ s.Shows t l n
  none : t.node? b = none → server.find? (pathOf b) = none

variable {server : Server} {t : Tree} {b l : Location} {n : Node}

/-- The visit of a served node. -/
theorem Server.Serves.visit_eq (h : server.Serves t b) (hl : b <+: l)
    (hn : t.node? l = some n) :
    ∃ names, (server.visit (pathOf l)).outcome = .ok (n, names)
      ∧ names.Nodup ∧ ∀ k, k ∈ names ↔ l ++ [k] ∈ t.locations := by
  obtain ⟨s, hfind, hs⟩ := h.node l n hl hn
  obtain ⟨c, -, rfl⟩ := Tree.node?_eq_some.mp hn
  refine ⟨s.names, ?_, hs.distinct, hs.names⟩
  rw [visit, hfind]
  simp only [hs.dataFault, hs.childrenFault, hs.data, hs.childCount,
    hs.modifiedAt]
  rfl

/-- Below the base a tree is no deeper than there are served nodes. -/
theorem Server.Serves.shallow (h : server.Serves t b)
    (ht : t.WellFormed b) {r : Location} (hr : b ++ r ∈ t.locations) :
    r.length < server.length + 1 := by
  -- the paths of the nodes from the base down are all served
  let above := (List.range (r.length + 1)).map fun i => pathOf (b ++ r.take i)
  have hmem : ∀ i, b ++ r.take i ∈ t.locations := by
    intro i
    refine ht.above (r := r.drop i) ?_
    rwa [List.take_append_drop]
  have hdistinct : above.Nodup := by
    refine List.Nodup.map_on ?_ List.nodup_range
    intro i hi j hj heq
    rw [List.mem_range] at hi hj
    have hsame := pathOf_inj (ht.legal _ (hmem i)).names
      (ht.legal _ (hmem j)).names heq
    have hlen := congrArg List.length (List.append_cancel_left hsame)
    rw [List.length_take, List.length_take] at hlen
    omega
  have hserved : above ⊆ server.map (·.path) := by
    intro path hpath
    obtain ⟨i, -, rfl⟩ := List.mem_map.mp hpath
    obtain ⟨c, hc⟩ := Tree.exists_content? (hmem i)
    obtain ⟨s, hfind, hs⟩ := h.node _ _ (List.prefix_append b _)
      (Tree.node?_eq_some.mpr ⟨c, hc, rfl⟩)
    exact List.mem_map.mpr ⟨s, List.mem_of_find?_eq_some hfind, hs.path⟩
  have hlen := hdistinct.length_le_of_subset hserved
  rw [List.length_map, List.length_map, List.length_range] at hlen
  omega

-- ============================================================== the walk

/-- Walks that do not fail, one after the other, read what each reads. -/
theorem walkEach_eq (walk : String → Walk) (paths : List String)
    (h : ∀ p ∈ paths, (walk p).failure = none) :
    (walkEach walk paths).failure = none
      ∧ (walkEach walk paths).nodes = paths.flatMap fun p => (walk p).nodes := by
  induction paths with
  | nil => exact ⟨rfl, rfl⟩
  | cons p rest ih =>
      obtain ⟨hfail, hnodes⟩ := ih fun q hq => h q (List.mem_cons_of_mem p hq)
      have hp := h p (List.mem_cons_self ..)
      rw [walkEach, Walk.andThen, hp]
      exact ⟨hfail, by rw [List.flatMap_cons, ← hnodes]⟩

/-- Every answer of the server is good or says that the node is gone. -/
def Server.Readable (server : Server) : Prop :=
  ∀ node ∈ server, ∀ fault,
    node.dataFault = some fault ∨ node.childrenFault = some fault →
      fault.kind = .noNode

theorem Server.Readable.visit (h : server.Readable) {path : String}
    {fault : Fault} (hv : (server.visit path).outcome = .error fault) :
    fault.kind = .noNode := by
  unfold Server.visit at hv
  cases hfind : server.find? path with
  | none =>
      rw [hfind] at hv
      cases hv
      rfl
  | some node =>
      have hmem := List.mem_of_find?_eq_some hfind
      rw [hfind] at hv
      cases hdata : node.dataFault with
      | some f =>
          simp only [hdata] at hv
          cases hv
          exact h node hmem _ (Or.inl hdata)
      | none =>
          cases hchildren : node.childrenFault with
          | some f =>
              simp only [hdata, hchildren] at hv
              cases hv
              exact h node hmem _ (Or.inr hchildren)
          | none =>
              simp only [hdata, hchildren] at hv
              cases hv

/-- A walk passes over what is gone, so it does not fail for that. -/
theorem Server.Readable.walkFrom (h : server.Readable) (depth : Nat)
    (path : String) : (walkFrom server depth path).failure = none := by
  induction depth generalizing path with
  | zero => rfl
  | succ depth ih =>
      rw [Remote.walkFrom]
      cases hv : (server.visit path).outcome with
      | error fault => simp only [h.visit hv, if_true]
      | ok answer =>
          obtain ⟨node, names⟩ := answer
          exact (walkEach_eq _ _ fun p _ => ih p).1

/-- A walk has read some nodes of a tree at and below a location: all of
them, each once. -/
structure Walk.Covers (w : Walk) (t : Tree) (l : Location) : Prop where
  succeeds : w.failure = none
  nodes : ∀ n, n ∈ w.nodes ↔ ∃ r, t.node? (l ++ r) = some n
  distinct : (w.nodes.map (·.path)).Nodup

/-- The nodes of walks from different children have different paths. -/
private theorem children_apart (ht : t.WellFormed b) {k k' : String}
    (hk : k ≠ k') {w w' : Walk} (hw : w.Covers t (l ++ [k]))
    (hw' : w'.Covers t (l ++ [k'])) :
    (w.nodes.map (·.path)).Disjoint (w'.nodes.map (·.path)) := by
  intro path hp hp'
  obtain ⟨n, hn, rfl⟩ := List.mem_map.mp hp
  obtain ⟨n', hn', heq⟩ := List.mem_map.mp hp'
  obtain ⟨r, hr⟩ := (hw.nodes n).mp hn
  obtain ⟨r', hr'⟩ := (hw'.nodes n').mp hn'
  rw [Tree.path_of_node? hr, Tree.path_of_node? hr'] at heq
  have hsame := pathOf_inj (ht.legal _ (Tree.mem_of_node? hr')).names
    (ht.legal _ (Tree.mem_of_node? hr)).names heq
  rw [List.append_assoc, List.append_assoc, List.append_right_inj] at hsame
  exact hk (List.cons.inj hsame).1.symm

/-- A node and what walks from its children have read, the last child
first, are what there is at and below the node. -/
private theorem covers_of_children (ht : t.WellFormed b) (hl : b <+: l)
    (hn : t.node? l = some n) {names : List String} (hdistinct : names.Nodup)
    (hchildren : ∀ k, k ∈ names ↔ l ++ [k] ∈ t.locations)
    {walks : String → Walk}
    (h : ∀ k ∈ names, (walks k).Covers t (l ++ [k])) (reads : List Read) :
    Walk.Covers { reads, nodes := n :: names.reverse.flatMap fun k =>
      (walks k).nodes } t l := by
  refine ⟨rfl, fun m => ?_, ?_⟩
  · rw [List.mem_cons, List.mem_flatMap]
    constructor
    · intro hmid
      rcases hmid with rfl | ⟨k, hk, hm⟩
      · exact ⟨[], by rw [List.append_nil, hn]⟩
      · obtain ⟨r, hr⟩ := ((h k (List.mem_reverse.mp hk)).nodes m).mp hm
        exact ⟨k :: r, by simpa using hr⟩
    · intro hmid
      obtain ⟨r, hr⟩ := hmid
      cases r with
      | nil =>
          rw [List.append_nil, hn, Option.some.injEq] at hr
          exact Or.inl hr.symm
      | cons k r =>
          obtain ⟨q, rfl⟩ := hl
          have habove := ht.above (q := q ++ [k]) (r := r)
            (by simpa using Tree.mem_of_node? hr)
          have hk := (hchildren k).mpr (by simpa using habove)
          exact Or.inr ⟨k, List.mem_reverse.mpr hk,
            ((h k hk).nodes m).mpr ⟨r, by simpa using hr⟩⟩
  · rw [List.map_cons, List.nodup_cons, List.map_flatMap,
      List.nodup_flatMap]
    refine ⟨fun hhead => ?_,
      fun k hk => (h k (List.mem_reverse.mp hk)).distinct, ?_⟩
    · -- a node below has a longer location
      obtain ⟨k, hk, hpath⟩ := List.mem_flatMap.mp hhead
      obtain ⟨m, hm, heq⟩ := List.mem_map.mp hpath
      obtain ⟨r, hr⟩ := ((h k (List.mem_reverse.mp hk)).nodes m).mp hm
      rw [Tree.path_of_node? hr, Tree.path_of_node? hn] at heq
      have hsame := pathOf_inj (ht.legal _ (Tree.mem_of_node? hr)).names
        (ht.legal _ (Tree.mem_of_node? hn)).names heq
      simp at hsame
    · refine List.Pairwise.imp_of_mem ?_ (List.nodup_reverse.mpr hdistinct)
      intro k k' hk hk' hne
      exact children_apart ht hne (h k (List.mem_reverse.mp hk))
        (h k' (List.mem_reverse.mp hk'))

/-- A walk that may go deep enough covers the tree below its start. The
induction is on the depth that is left. -/
theorem walkFrom_covers (h : server.Serves t b) (ht : t.WellFormed b)
    {depth : Nat} (hl : b <+: l) (hmem : l ∈ t.locations)
    (hdeep : ∀ r, l ++ r ∈ t.locations → r.length < depth) :
    (walkFrom server depth (pathOf l)).Covers t l := by
  induction depth generalizing l with
  | zero => exact absurd (hdeep [] (by simpa using hmem)) (Nat.not_lt_zero _)
  | succ depth ih =>
      obtain ⟨c, hc⟩ := Tree.exists_content? hmem
      have hn := Tree.node?_eq_some.mpr ⟨c, hc, rfl⟩
      obtain ⟨names, hvisit, hdistinct, hchildren⟩ := h.visit_eq hl hn
      have hcovers : ∀ k ∈ names,
          (walkFrom server depth (pathOf (l ++ [k]))).Covers t
            (l ++ [k]) := by
        intro k hk
        refine ih (hl.trans (List.prefix_append l [k]))
          ((hchildren k).mp hk) fun r hr => ?_
        have hlen := hdeep (k :: r) (by simpa using hr)
        rw [List.length_cons] at hlen
        omega
      have hpaths : (names.map (childPath (pathOf l))).reverse
          = names.reverse.map fun k => pathOf (l ++ [k]) := by
        rw [← List.map_reverse]
        exact List.map_congr_left fun k _ =>
          childPath_pathOf (ht.legal l hmem).names k
      obtain ⟨hfail, hnodes⟩ := walkEach_eq (walkFrom server depth)
        (names.reverse.map fun k => pathOf (l ++ [k])) (by
          intro p hp
          obtain ⟨k, hk, rfl⟩ := List.mem_map.mp hp
          exact (hcovers k (List.mem_reverse.mp hk)).succeeds)
      rw [List.flatMap_map] at hnodes
      have hcover := covers_of_children ht hl hn hdistinct hchildren hcovers
        ((server.visit (pathOf l)).reads
          ++ (walkEach (walkFrom server depth)
            (names.reverse.map fun k => pathOf (l ++ [k]))).reads)
      rw [walkFrom, hvisit]
      simp only [hpaths, Walk.andThen, hfail, hnodes]
      exact hcover

/-- A snapshot of a served tree has its nodes below the base, each once. -/
theorem snapshot_reads (h : server.Serves t b) (ht : t.WellFormed b) :
    (snapshot server (pathOf b)).Covers t b := by
  by_cases hmem : b ∈ t.locations
  · exact walkFrom_covers h ht (List.prefix_refl b) hmem
      fun _ hr => h.shallow ht hr
  · -- without the base there is nothing below it
    have hnone : ∀ r, t.node? (b ++ r) = none := by
      intro r
      refine Tree.node?_eq_none.mpr fun hr => hmem ?_
      simpa using ht.above (q := []) (r := r) (by simpa using hr)
    have hwalk : snapshot server (pathOf b)
        = { reads := [.data (pathOf b)] } := by
      rw [snapshot, walkFrom, Server.visit, h.none (Tree.node?_eq_none.mpr hmem)]
      rfl
    rw [hwalk]
    refine ⟨rfl, fun n => ?_, List.nodup_nil⟩
    simp [hnone]

end TreeReplica.Remote
