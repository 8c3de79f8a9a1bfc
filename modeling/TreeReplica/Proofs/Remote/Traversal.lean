/-
Snapshots are complete and repeat nothing. A snapshot is what a loop
with a list of pending paths does (`Reading.turn`): it reads the first of
them and puts the paths of the listed children in front of the others.

The nodes that a snapshot visits do not depend on failures, so they are
listed first (`itinerary`); the snapshot is the walk along that list, up
to the first failure that is not a missing node (`walkFrom_eq`). That the
list is what is asked for, each path once and none before its parent, is
a matter of names behind paths (`mem_itinerary`, `nodup_itinerary`,
`itinerary_parent`); `snapshot_exact` puts both together.
-/
import Mathlib.Data.List.Flatten
import Mathlib.Logic.Function.Iterate
import TreeReplica.Proofs.Remote.Below
import TreeReplica.Proofs.Remote.Snapshot

namespace TreeReplica.Remote

-- ========================================================= what is served

/-- Both requests about the node are answered. -/
def Served.Answers (s : Served) : Prop :=
  s.dataFault = none ∧ s.childrenFault = none

/-- What a snapshot has of a served node. -/
def Served.node (s : Served) : Node :=
  ⟨s.path, s.data, s.childCount, s.modifiedAt⟩

/-- The nodes have different paths, and each lists different children, by
names that lead one step down. -/
structure Server.Regular (server : Server) : Prop where
  distinct : (server.map (·.path)).Nodup
  once : ∀ s ∈ server, s.names.Nodup
  steps : ∀ s ∈ server, ∀ k ∈ s.names, IsStep k

/-- How a server fails to answer a request, if it does. What it does not
serve is gone. -/
def Server.fault? (server : Server) : Read → Option Fault
  | .data path =>
      match server.find? path with
      | some s => s.dataFault
      | none => some ⟨.noNode, ""⟩
  | .children path =>
      match server.find? path with
      | some s => s.childrenFault
      | none => some ⟨.noNode, ""⟩

/-- The request is answered, or the node is gone. -/
def Server.Passes (server : Server) (r : Read) : Prop :=
  ∀ f, server.fault? r = some f → f.kind = .noNode

/-- The paths that are asked for: the start, and below a node that
answers what it lists. -/
inductive Server.Asked (server : Server) (start : String) : String → Prop
  | start : Asked server start start
  | child {s : Served} {k : String} (above : Asked server start s.path)
      (served : s ∈ server) (answers : s.Answers) (listed : k ∈ s.names) :
      Asked server start (pathBelow s.path [k])

/-- The requests that are made: the data at each path that is asked for,
and the names of the children where there was data. -/
def Server.Due (server : Server) (start : String) : Read → Prop
  | .data path => server.Asked start path
  | .children path => server.Asked start path
      ∧ ∃ s ∈ server, s.path = path ∧ s.dataFault = none

-- ================================================================ the loop

/-- A snapshot that is being taken: the paths that are still to be read,
the next one first, and what was done. -/
structure Reading where
  pending : List String
  done : Walk := {}

/-- One turn: the next path is read. Of the children that are listed the
last is the next to be read. -/
def Reading.turn (server : Server) (r : Reading) : Reading :=
  match r.pending with
  | [] => r
  | path :: rest =>
      let visit := server.visit path
      match visit.outcome with
      | .ok (node, names) =>
          { pending := (names.map (childPath path)).reverse ++ rest
            done := r.done.andThen { reads := visit.reads, nodes := [node] } }
      | .error fault =>
          if fault.kind = .noNode then
            { pending := rest
              done := r.done.andThen { reads := visit.reads } }
          else
            { pending := []
              done := r.done.andThen
                { reads := visit.reads, failure := some fault } }

-- ============================================================ the results

/-- The walk has read the whole subtree below `start`. -/
structure Walk.Complete (w : Walk) (server : Server) (start : String) :
    Prop where
  succeeds : w.failure = none
  nodes : ∀ n, n ∈ w.nodes ↔
    ∃ s ∈ server, server.Asked start s.path ∧ s.Answers ∧ n = s.node
  distinct : (w.nodes.map (·.path)).Nodup
  /-- Before a node comes the node that lists it. -/
  parents : ∀ n ∈ w.nodes, n.path ≠ start → ∃ s ∈ server,
    (∃ k ∈ s.names, n.path = pathBelow s.path [k])
      ∧ [s.node, n].Sublist w.nodes
  requests : ∀ r, r ∈ w.reads ↔ server.Due start r
  single : w.reads.Nodup

/-- The walk ended with the first request that failed other than for a
missing node. -/
structure Walk.CutShort (w : Walk) (server : Server) (start : String) :
    Prop where
  last : ∃ earlier r fault, w.reads = earlier ++ [r]
    ∧ (∀ q ∈ earlier, server.Passes q)
    ∧ server.fault? r = some fault ∧ fault.kind ≠ .noNode
    ∧ w.failure = some fault
  requests : ∀ r ∈ w.reads, server.Due start r
  single : w.reads.Nodup

variable {server : Server} {path start q : String} {l : Location}
  {w v : Walk} {depth : Nat}

-- ================================================================== walks

@[simp]
theorem Walk.andThen_empty (w : Walk) : w.andThen {} = w := by
  unfold andThen
  split
  · rfl
  · next hw => simp [← hw]

@[simp]
theorem Walk.empty_andThen (w : Walk) : Walk.andThen {} w = w := rfl

theorem Walk.andThen_of_failure (h : w.failure ≠ none) (v : Walk) :
    w.andThen v = w := by
  unfold andThen
  cases hw : w.failure with
  | none => exact absurd hw h
  | some f => rfl

theorem Walk.failure_andThen (h : w.failure = none) (v : Walk) :
    (w.andThen v).failure = v.failure := by
  rw [andThen, h]

theorem Walk.andThen_assoc (w v u : Walk) :
    (w.andThen v).andThen u = w.andThen (v.andThen u) := by
  by_cases hw : w.failure = none
  · by_cases hv : v.failure = none
    · simp [andThen, hw, hv, List.append_assoc]
    · have hwv : (w.andThen v).failure ≠ none := by
        rwa [failure_andThen hw]
      rw [andThen_of_failure hwv, andThen_of_failure hv]
  · rw [andThen_of_failure hw, andThen_of_failure hw, andThen_of_failure hw]

theorem walkEach_append (walk : String → Walk) (a b : List String) :
    walkEach walk (a ++ b)
      = (walkEach walk a).andThen (walkEach walk b) := by
  induction a with
  | nil => rfl
  | cons p a ih =>
      rw [List.cons_append, walkEach, ih, walkEach, Walk.andThen_assoc]

/-- Walking from each path along a list of its own is walking along all
these lists. -/
theorem walkEach_flatMap {walk one : String → Walk}
    {along : String → List String} (paths : List String)
    (h : ∀ p, walk p = walkEach one (along p)) :
    walkEach walk paths = walkEach one (paths.flatMap along) := by
  induction paths with
  | nil => rfl
  | cons p paths ih =>
      rw [walkEach, ih, h, List.flatMap_cons, walkEach_append]

/-- Walks that do not fail, one after the other, make the requests of
each. -/
theorem walkEach_reads (walk : String → Walk) (paths : List String)
    (h : ∀ p ∈ paths, (walk p).failure = none) :
    (walkEach walk paths).reads = paths.flatMap fun p => (walk p).reads := by
  induction paths with
  | nil => rfl
  | cons p rest ih =>
      have hp := h p (List.mem_cons_self ..)
      have hrest := ih fun q hq => h q (List.mem_cons_of_mem p hq)
      rw [walkEach, Walk.andThen, hp, List.flatMap_cons, ← hrest]

theorem walkEach_succeeds {walk : String → Walk} {paths : List String}
    (h : (walkEach walk paths).failure = none) :
    ∀ p ∈ paths, (walk p).failure = none := by
  induction paths with
  | nil => simp
  | cons p rest ih =>
      have hp : (walk p).failure = none := Decidable.byContradiction fun hp => by
        rw [walkEach, Walk.andThen_of_failure hp] at h
        exact hp h
      rw [walkEach, Walk.failure_andThen hp] at h
      exact List.forall_mem_cons.mpr ⟨hp, ih h⟩

/-- Walks one after the other fail where the first of them does. -/
theorem walkEach_fails {walk : String → Walk} {paths : List String}
    (h : (walkEach walk paths).failure ≠ none) :
    ∃ before p after, paths = before ++ p :: after
      ∧ (∀ q ∈ before, (walk q).failure = none) ∧ (walk p).failure ≠ none
      ∧ walkEach walk paths = (walkEach walk before).andThen (walk p) := by
  induction paths with
  | nil => exact absurd rfl h
  | cons p rest ih =>
      by_cases hp : (walk p).failure = none
      · rw [walkEach, Walk.failure_andThen hp] at h
        obtain ⟨before, q, after, rfl, hbefore, hq, heq⟩ := ih h
        refine ⟨p :: before, q, after, rfl, ?_, hq, ?_⟩
        · intro r hr
          rcases List.mem_cons.mp hr with rfl | hr
          · exact hp
          · exact hbefore r hr
        · rw [walkEach, heq, walkEach, Walk.andThen_assoc]
      · exact ⟨[], p, rest, rfl, by simp, hp,
          Walk.andThen_of_failure hp (walkEach walk rest)⟩

-- ============================================================== one visit

/-- The fault, unless it says that the node is gone. -/
def Fault.unlessGone (f : Fault) : Option Fault :=
  if f.kind = .noNode then none else some f

/-- The walk that reads one path. -/
def Server.readOne (server : Server) (path : String) : Walk :=
  let visit := server.visit path
  match visit.outcome with
  | .ok (node, _) => { reads := visit.reads, nodes := [node] }
  | .error fault => { reads := visit.reads, failure := fault.unlessGone }

/-- The paths to be read after a path, and because of it. -/
def Server.next (server : Server) (path : String) : List String :=
  match (server.visit path).outcome with
  | .ok (_, names) => (names.map (childPath path)).reverse
  | .error _ => []

/-- Only one node is served at a path. -/
theorem Server.Regular.same (h : server.Regular) {s s' : Served}
    (hs : s ∈ server) (hs' : s' ∈ server) (hpath : s.path = s'.path) :
    s = s' := List.inj_on_of_nodup_map h.distinct hs hs' hpath

theorem Server.Regular.find?_iff (h : server.Regular) {s : Served} :
    server.find? path = some s ↔ s ∈ server ∧ s.path = path := by
  constructor
  · intro hfind
    exact ⟨List.mem_of_find?_eq_some hfind,
      by simpa using List.find?_some hfind⟩
  · intro hmid
    obtain ⟨hs, rfl⟩ := hmid
    cases hfind : server.find? s.path with
    | none =>
        have hno := List.find?_eq_none.mp hfind s hs
        simp at hno
    | some s' =>
        have hpath : s'.path = s.path := by simpa using List.find?_some hfind
        rw [h.same (List.mem_of_find?_eq_some hfind) hs hpath]

/-- How one path is read: there is no data, there are no names, or the
node answers. -/
inductive Server.Reads (server : Server) (path : String) :
    Walk → List String → Prop
  | unread {f : Fault} (fails : server.fault? (.data path) = some f)
      (none : ¬ ∃ s ∈ server, s.path = path ∧ s.dataFault = none) :
      Reads server path
        { reads := [.data path], failure := f.unlessGone } []
  | unlisted {s : Served} {f : Fault} (served : s ∈ server)
      (here : s.path = path) (data : s.dataFault = none)
      (answered : server.fault? (.data path) = none)
      (fails : server.fault? (.children path) = some f)
      (fault : s.childrenFault = some f) :
      Reads server path
        { reads := [.data path, .children path], failure := f.unlessGone } []
  | full {s : Served} (served : s ∈ server) (here : s.path = path)
      (answers : s.Answers) (answered : server.fault? (.data path) = none)
      (listed : server.fault? (.children path) = none) :
      Reads server path
        { reads := [.data path, .children path], nodes := [s.node] }
        (s.names.map (childPath path)).reverse

theorem Server.Regular.reads (h : server.Regular) (path : String) :
    server.Reads path (server.readOne path) (server.next path) := by
  unfold readOne next visit
  cases hfind : server.find? path with
  | none =>
      refine .unread (f := ⟨.noNode, ""⟩) (by simp [fault?, hfind]) ?_
      rintro ⟨s, hs, hpath, -⟩
      rw [h.find?_iff.mpr ⟨hs, hpath⟩] at hfind
      cases hfind
  | some s =>
      obtain ⟨hs, rfl⟩ := h.find?_iff.mp hfind
      cases hdata : s.dataFault with
      | some f =>
          simp only [hdata]
          refine .unread (by simp [fault?, hfind, hdata]) ?_
          rintro ⟨s', hs', hpath, hnone⟩
          rw [h.find?_iff.mpr ⟨hs', hpath⟩] at hfind
          cases hfind
          rw [hnone] at hdata
          cases hdata
      | none =>
          cases hchildren : s.childrenFault with
          | some f =>
              simp only [hdata, hchildren]
              exact .unlisted hs rfl hdata (by simp [fault?, hfind, hdata])
                (by simp [fault?, hfind, hchildren]) hchildren
          | none =>
              simp only [hdata, hchildren]
              exact .full hs rfl ⟨hdata, hchildren⟩
                (by simp [fault?, hfind, hdata])
                (by simp [fault?, hfind, hchildren])

/-- What is read next are the listed children of a node that answers. -/
theorem Server.Regular.mem_next (h : server.Regular) (hpath : IsStart path) :
    q ∈ server.next path ↔ ∃ s ∈ server, s.path = path ∧ s.Answers
      ∧ ∃ k ∈ s.names, q = pathBelow path [k] := by
  have hreads := h.reads path
  generalize server.readOne path = w, server.next path = next at hreads
  cases hreads with
  | unread _ none =>
      refine iff_of_false List.not_mem_nil ?_
      rintro ⟨s, hs, hat, hanswers, -⟩
      exact none ⟨s, hs, hat, hanswers.1⟩
  | unlisted served here _ _ _ fault =>
      refine iff_of_false List.not_mem_nil ?_
      rintro ⟨s, hs, hat, hanswers, -⟩
      rw [h.same hs served (hat.trans here.symm)] at hanswers
      rw [hanswers.2] at fault
      cases fault
  | full served here answers _ _ =>
      rw [List.mem_reverse, List.mem_map]
      constructor
      · rintro ⟨k, hk, rfl⟩
        exact ⟨_, served, here, answers, k, hk, childPath_eq hpath k⟩
      · rintro ⟨s, hs, hat, -, k, hk, rfl⟩
        rw [h.same hs served (hat.trans here.symm)] at hk
        exact ⟨k, hk, childPath_eq hpath k⟩

/-- Different children are read at different paths. -/
theorem Server.Regular.nodup_next (h : server.Regular)
    (hpath : IsStart path) : (server.next path).Nodup := by
  have hreads := h.reads path
  generalize server.readOne path = w, server.next path = next at hreads
  cases hreads with
  | unread => exact List.nodup_nil
  | unlisted => exact List.nodup_nil
  | full served =>
      rw [List.nodup_reverse]
      refine List.Nodup.map_on ?_ (h.once _ served)
      intro k hk k' hk' heq
      rw [childPath_eq hpath, childPath_eq hpath] at heq
      have hsteps := h.steps _ served
      have hsame := pathBelow_inj path (l := [k]) (m := [k'])
        (by simpa using hsteps k hk) (by simpa using hsteps k' hk') heq
      exact (List.cons.inj hsame).1

-- ============================================================ the itinerary

/-- The paths that are visited from `path` on, if nothing fails but by a
missing node, at most `depth` levels down. -/
def Server.itinerary (server : Server) : Nat → String → List String
  | 0, _ => []
  | depth + 1, path =>
      path :: (server.next path).flatMap (server.itinerary depth)

theorem walkFrom_succ (server : Server) (depth : Nat) (path : String) :
    walkFrom server (depth + 1) path
      = (server.readOne path).andThen
          (walkEach (walkFrom server depth) (server.next path)) := by
  rw [walkFrom, Server.readOne, Server.next]
  cases (server.visit path).outcome with
  | error fault => simp [Fault.unlessGone, walkEach]
  | ok answer => rfl

/-- A walk visits its itinerary, up to the first failure. -/
theorem walkFrom_eq (server : Server) (depth : Nat) (path : String) :
    walkFrom server depth path
      = walkEach server.readOne (server.itinerary depth path) := by
  induction depth generalizing path with
  | zero => rfl
  | succ depth ih =>
      rw [walkFrom_succ, Server.itinerary, walkEach, walkEach_flatMap _ ih]

/-- From the node at `path` the steps lead on, each listed by a node that
answers; the path that they lead to may be served or not. -/
def Server.Leads (server : Server) (path : String) : Location → Prop
  | [] => True
  | k :: l => (∃ s ∈ server, s.path = path ∧ s.Answers ∧ k ∈ s.names)
      ∧ server.Leads (pathBelow path [k]) l

theorem Server.Leads.steps (h : server.Regular)
    (hl : server.Leads path l) : ∀ k ∈ l, IsStep k := by
  induction l generalizing path with
  | nil => simp
  | cons n l ih =>
      obtain ⟨⟨s, hs, -, -, hn⟩, hrest⟩ := hl
      exact List.forall_mem_cons.mpr ⟨h.steps s hs n hn, ih hrest⟩

/-- The itinerary has every path to which steps lead, as far down as it
goes. -/
theorem mem_itinerary (h : server.Regular) (hpath : IsStart path) :
    q ∈ server.itinerary depth path
      ↔ ∃ l, server.Leads path l ∧ l.length < depth
        ∧ q = pathBelow path l := by
  induction depth generalizing path with
  | zero => simp [Server.itinerary]
  | succ depth ih =>
      rw [Server.itinerary, List.mem_cons, List.mem_flatMap]
      constructor
      · rintro (rfl | ⟨p, hp, hq⟩)
        · exact ⟨[], trivial, Nat.succ_pos depth, by simp⟩
        · obtain ⟨s, hs, hat, hanswers, k, hk, rfl⟩ :=
            (h.mem_next hpath).mp hp
          have hstep := h.steps s hs k hk
          obtain ⟨l, hl, hlen, rfl⟩ := (ih (isStart_step path hstep).1).mp hq
          exact ⟨k :: l, ⟨⟨s, hs, hat, hanswers, hk⟩, hl⟩,
            Nat.succ_lt_succ hlen, pathBelow_step path hstep l⟩
      · rintro ⟨l, hl, hlen, rfl⟩
        cases l with
        | nil => exact Or.inl (pathBelow_nil path)
        | cons k l =>
            obtain ⟨⟨s, hs, hat, hanswers, hk⟩, hrest⟩ := hl
            have hstep := h.steps s hs k hk
            refine Or.inr ⟨pathBelow path [k], (h.mem_next hpath).mpr
              ⟨s, hs, hat, hanswers, k, hk, rfl⟩, ?_⟩
            exact (ih (isStart_step path hstep).1).mpr
              ⟨l, hrest, Nat.lt_of_succ_lt_succ hlen,
                (pathBelow_step path hstep l).symm⟩

/-- What is visited below a child starts with its step. -/
theorem itinerary_below (h : server.Regular) (hpath : IsStart path)
    {p : String} (hp : p ∈ server.next path)
    (hq : q ∈ server.itinerary depth p) :
    ∃ k l, p = pathBelow path [k] ∧ q = pathBelow path (k :: l)
      ∧ ∀ n ∈ k :: l, IsStep n := by
  obtain ⟨s, hs, -, -, k, hk, rfl⟩ := (h.mem_next hpath).mp hp
  have hstep := h.steps s hs k hk
  obtain ⟨l, hl, -, rfl⟩ := (mem_itinerary h (isStart_step path hstep).1).mp hq
  exact ⟨k, l, rfl, pathBelow_step path hstep l,
    List.forall_mem_cons.mpr ⟨hstep, hl.steps h⟩⟩

/-- No path is visited twice. -/
theorem nodup_itinerary (h : server.Regular) (hpath : IsStart path) :
    (server.itinerary depth path).Nodup := by
  induction depth generalizing path with
  | zero => exact List.nodup_nil
  | succ depth ih =>
      rw [Server.itinerary, List.nodup_cons, List.nodup_flatMap]
      refine ⟨fun hmem => ?_, fun p hp => ?_, ?_⟩
      · obtain ⟨p, hp, hq⟩ := List.mem_flatMap.mp hmem
        obtain ⟨k, l, -, heq, hsteps⟩ := itinerary_below h hpath hp hq
        exact pathBelow_ne path hsteps heq.symm
      · obtain ⟨s, hs, -, -, k, hk, rfl⟩ := (h.mem_next hpath).mp hp
        exact ih (isStart_step path (h.steps s hs k hk)).1
      · refine List.Pairwise.imp_of_mem ?_ (h.nodup_next hpath)
        intro p p' hp hp' hne q hq hq'
        obtain ⟨k, l, rfl, heq, hsteps⟩ := itinerary_below h hpath hp hq
        obtain ⟨k', l', rfl, heq', hsteps'⟩ := itinerary_below h hpath hp' hq'
        have hsame := pathBelow_inj path hsteps hsteps' (heq.symm.trans heq')
        rw [(List.cons.inj hsame).1] at hne
        exact hne rfl

/-- Before a path the node is visited that lists it. -/
theorem itinerary_parent (h : server.Regular) (hpath : IsStart path)
    (hq : q ∈ server.itinerary depth path) (hne : q ≠ path) :
    ∃ s ∈ server, s.Answers ∧ (∃ k ∈ s.names, q = pathBelow s.path [k])
      ∧ [s.path, q].Sublist (server.itinerary depth path) := by
  induction depth generalizing path with
  | zero => cases hq
  | succ depth ih =>
      rw [Server.itinerary] at hq ⊢
      rcases List.mem_cons.mp hq with rfl | hbelow
      · exact absurd rfl hne
      obtain ⟨p, hp, hmem⟩ := List.mem_flatMap.mp hbelow
      obtain ⟨s, hs, hat, hanswers, k, hk, rfl⟩ := (h.mem_next hpath).mp hp
      by_cases hchild : q = pathBelow path [k]
      · subst hchild
        refine ⟨s, hs, hanswers, ⟨k, hk, by rw [hat]⟩, ?_⟩
        rw [hat]
        exact (List.singleton_sublist.mpr hbelow).cons_cons path
      · obtain ⟨s', hs', hanswers', hlists, hsub⟩ :=
          ih (isStart_step path (h.steps s hs k hk)).1 hmem hchild
        have hpart : (server.itinerary depth (pathBelow path [k])).Sublist
            ((server.next path).flatMap (server.itinerary depth)) :=
          List.sublist_flatten_of_mem (List.mem_map_of_mem hp)
        exact ⟨s', hs', hanswers', hlists, (hsub.trans hpart).cons path⟩

/-- Steps that lead on start at served nodes. -/
theorem Server.Leads.served (h : server.Regular) (hl : server.Leads path l)
    {i : Nat} (hi : i < l.length) :
    pathBelow path (l.take i) ∈ server.map (·.path) := by
  induction l generalizing path i with
  | nil => cases hi
  | cons k l ih =>
      obtain ⟨⟨s, hs, hat, -, hk⟩, hrest⟩ := hl
      cases i with
      | zero => exact List.mem_map.mpr ⟨s, hs, by simp [hat]⟩
      | succ i =>
          rw [List.take_succ_cons, ← pathBelow_step path (h.steps s hs k hk)]
          exact ih hrest (Nat.lt_of_succ_lt_succ hi)

/-- The served nodes at which steps start have different paths, so there
are no more steps than served nodes. -/
theorem Server.Leads.length_le (h : server.Regular)
    (hl : server.Leads path l) : l.length ≤ server.length := by
  let above := (List.range l.length).map fun i => pathBelow path (l.take i)
  have hsteps := hl.steps h
  have hdistinct : above.Nodup := by
    refine List.Nodup.map_on ?_ List.nodup_range
    intro i hi j hj heq
    have hsame := pathBelow_inj path
      (fun k hk => hsteps k (List.mem_of_mem_take hk))
      (fun k hk => hsteps k (List.mem_of_mem_take hk)) heq
    have hlen := congrArg List.length hsame
    rw [List.mem_range] at hi hj
    rw [List.length_take, List.length_take] at hlen
    omega
  have hsub : above ⊆ server.map (·.path) := by
    intro p hp
    obtain ⟨i, hi, rfl⟩ := List.mem_map.mp hp
    exact hl.served h (List.mem_range.mp hi)
  have hlen := hdistinct.length_le_of_subset hsub
  rwa [List.length_map, List.length_map, List.length_range] at hlen

-- ====================================================== what is asked for

/-- One more step leads on where the node reached lists it. -/
theorem Server.Leads.concat (h : server.Regular)
    (hl : server.Leads path l) {s : Served} (hs : s ∈ server)
    (hat : s.path = pathBelow path l) (hanswers : s.Answers) {k : String}
    (hk : k ∈ s.names) :
    server.Leads path (l ++ [k])
      ∧ pathBelow s.path [k] = pathBelow path (l ++ [k]) := by
  induction l generalizing path with
  | nil =>
      rw [pathBelow_nil] at hat
      exact ⟨⟨⟨s, hs, hat, hanswers, hk⟩, trivial⟩, by rw [hat, List.nil_append]⟩
  | cons n l ih =>
      obtain ⟨⟨s', hs', hat', hanswers', hn⟩, hrest⟩ := hl
      have hstep := h.steps s' hs' n hn
      rw [← pathBelow_step path hstep] at hat
      obtain ⟨hleads, heq⟩ := ih hrest hat
      exact ⟨⟨⟨s', hs', hat', hanswers', hn⟩, hleads⟩,
        heq.trans (pathBelow_step path hstep _)⟩

theorem Server.Asked.lead (h : server.Regular)
    (hpath : server.Asked start path) (hl : server.Leads path l) :
    server.Asked start (pathBelow path l) := by
  induction l generalizing path with
  | nil => rwa [pathBelow_nil]
  | cons k l ih =>
      obtain ⟨⟨s, hs, rfl, hanswers, hk⟩, hrest⟩ := hl
      rw [← pathBelow_step s.path (h.steps s hs k hk)]
      exact ih (.child hpath hs hanswers hk) hrest

/-- What is asked for is what steps lead to. -/
theorem asked_iff (h : server.Regular) :
    server.Asked start q
      ↔ ∃ l, server.Leads start l ∧ q = pathBelow start l := by
  constructor
  · intro hasked
    induction hasked with
    | start => exact ⟨[], trivial, (pathBelow_nil start).symm⟩
    | child _ served answers listed ih =>
        obtain ⟨l, hl, hat⟩ := ih
        exact ⟨_, hl.concat h served hat answers listed⟩
  · rintro ⟨l, hl, rfl⟩
    exact Server.Asked.start.lead h hl

/-- The paths that a snapshot visits, if nothing fails but by a missing
node. -/
def Server.visited (server : Server) (start : String) : List String :=
  server.itinerary (server.length + 1) start

/-- A snapshot visits what is asked for. -/
theorem mem_visited (h : server.Regular) (hstart : IsStart start) :
    q ∈ server.visited start ↔ server.Asked start q := by
  rw [Server.visited, mem_itinerary h hstart, asked_iff h]
  constructor
  · rintro ⟨l, hl, -, heq⟩
    exact ⟨l, hl, heq⟩
  · rintro ⟨l, hl, heq⟩
    exact ⟨l, hl, Nat.lt_succ_of_le (hl.length_le h), heq⟩

-- ======================================================= what a visit does

theorem mem_reads_readOne (h : server.Regular) {r : Read} :
    r ∈ (server.readOne path).reads ↔ r = .data path
      ∨ r = .children path ∧ ∃ s ∈ server, s.path = path
        ∧ s.dataFault = none := by
  have hreads := h.reads path
  generalize server.readOne path = w, server.next path = next at hreads
  cases hreads with
  | unread _ none => simp [none]
  | unlisted served here data =>
      have hserved : ∃ s ∈ server, s.path = path ∧ s.dataFault = none :=
        ⟨_, served, here, data⟩
      simp [hserved]
  | full served here answers =>
      have hserved : ∃ s ∈ server, s.path = path ∧ s.dataFault = none :=
        ⟨_, served, here, answers.1⟩
      simp [hserved]

theorem nodup_reads_readOne (h : server.Regular) (path : String) :
    (server.readOne path).reads.Nodup := by
  have hreads := h.reads path
  generalize server.readOne path = w, server.next path = next at hreads
  cases hreads with
  | unread => exact List.nodup_singleton _
  | unlisted => simp
  | full => simp

/-- A node that answers is read. -/
theorem nodes_readOne (h : server.Regular) {s : Served} (hs : s ∈ server)
    (hanswers : s.Answers) : (server.readOne s.path).nodes = [s.node] := by
  have hreads := h.reads s.path
  generalize server.readOne s.path = w, server.next s.path = next at hreads
  cases hreads with
  | unread _ none => exact absurd ⟨s, hs, rfl, hanswers.1⟩ none
  | unlisted served here _ _ _ fault =>
      rw [h.same served hs here, hanswers.2] at fault
      cases fault
  | full served here => rw [h.same served hs here]

/-- What is read at a path is the node that answers there. -/
theorem of_mem_nodes_readOne (h : server.Regular) {n : Node}
    (hn : n ∈ (server.readOne path).nodes) :
    ∃ s ∈ server, s.path = path ∧ s.Answers ∧ n = s.node := by
  have hreads := h.reads path
  generalize server.readOne path = w, server.next path = next at hreads hn
  cases hreads with
  | unread => cases hn
  | unlisted => cases hn
  | full served here answers =>
      exact ⟨_, served, here, answers, List.mem_singleton.mp hn⟩

theorem paths_readOne (h : server.Regular) (path : String) :
    ((server.readOne path).nodes.map (·.path)).Sublist [path] := by
  have hreads := h.reads path
  generalize server.readOne path = w, server.next path = next at hreads
  cases hreads with
  | unread => exact List.nil_sublist _
  | unlisted => exact List.nil_sublist _
  | full _ here => simp [Served.node, here]

/-- Reading a path fails with the first request that does not pass, which
is then the last. -/
theorem failure_readOne (h : server.Regular) (path : String) :
    ((server.readOne path).failure = none
      ∧ ∀ r ∈ (server.readOne path).reads, server.Passes r)
    ∨ ∃ earlier r fault, (server.readOne path).reads = earlier ++ [r]
      ∧ (∀ q ∈ earlier, server.Passes q) ∧ server.fault? r = some fault
      ∧ fault.kind ≠ .noNode
      ∧ (server.readOne path).failure = some fault := by
  have hanswered : ∀ {r : Read}, server.fault? r = none →
      server.Passes r := fun hr f hf => nomatch hr.symm.trans hf
  have hgone : ∀ {r : Read} {f : Fault}, server.fault? r = some f →
      f.kind = .noNode → server.Passes r := fun hr hkind f hf => by
    rwa [← Option.some.inj (hr.symm.trans hf)]
  have hreads := h.reads path
  generalize server.readOne path = w, server.next path = next at hreads
  cases hreads with
  | @unread f fails =>
      by_cases hkind : f.kind = .noNode
      · left
        simp [Fault.unlessGone, hkind, hgone fails hkind]
      · right
        exact ⟨[], _, f, rfl, by simp, fails, hkind,
          by simp [Fault.unlessGone, hkind]⟩
  | @unlisted s f _ _ _ answered fails =>
      by_cases hkind : f.kind = .noNode
      · left
        simp [Fault.unlessGone, hkind, hgone fails hkind,
          hanswered answered]
      · right
        exact ⟨[.data path], _, f, rfl, by simp [hanswered answered], fails,
          hkind, by simp [Fault.unlessGone, hkind]⟩
  | full _ _ _ answered listed =>
      left
      simp [hanswered answered, hanswered listed]

-- ================================================================ the loop

/-- A turn reads the first path that is pending. -/
theorem turn_cons (done : Walk) (rest : List String) :
    Reading.turn server ⟨path :: rest, done⟩
      = ⟨if (server.readOne path).failure = none
            then server.next path ++ rest else [],
          done.andThen (server.readOne path)⟩ := by
  unfold Reading.turn Server.readOne Server.next
  cases hv : (server.visit path).outcome with
  | ok answer => simp [hv]
  | error fault =>
      by_cases hkind : fault.kind = .noNode
      · simp [hv, Fault.unlessGone, hkind]
      · simp [hv, Fault.unlessGone, hkind]

/-- Some turns take the loop through `paths`, and do what `w` does: then
the paths pending behind them are next, unless `w` failed. -/
def Server.Takes (server : Server) (paths : List String) (w : Walk) : Prop :=
  ∀ rest done, done.failure = none →
    ∃ n, (Reading.turn server)^[n] ⟨paths ++ rest, done⟩
      = ⟨if w.failure = none then rest else [], done.andThen w⟩

theorem Server.Takes.nil : server.Takes [] {} :=
  fun _ _ _ => ⟨0, by simp⟩

theorem Server.Takes.append {a b : List String} (hw : server.Takes a w)
    (hv : server.Takes b v) : server.Takes (a ++ b) (w.andThen v) := by
  intro rest done hdone
  obtain ⟨n, hn⟩ := hw (b ++ rest) done hdone
  rw [← List.append_assoc] at hn
  by_cases hfail : w.failure = none
  · rw [if_pos hfail] at hn
    obtain ⟨m, hm⟩ := hv rest (done.andThen w)
      ((Walk.failure_andThen hdone w).trans hfail)
    refine ⟨m + n, ?_⟩
    rw [Function.iterate_add_apply, hn, hm, Walk.failure_andThen hfail,
      Walk.andThen_assoc]
  · rw [if_neg hfail] at hn
    refine ⟨n, ?_⟩
    rw [Walk.andThen_of_failure hfail, if_neg hfail, hn]

/-- A path is taken by one turn, and then what it puts in front. -/
theorem Server.Takes.cons (hw : server.Takes (server.next path) w) :
    server.Takes [path] ((server.readOne path).andThen w) := by
  intro rest done hdone
  have hturn : (Reading.turn server)^[1] ⟨path :: rest, done⟩ = _ :=
    turn_cons done rest
  by_cases hfail : (server.readOne path).failure = none
  · rw [if_pos hfail] at hturn
    obtain ⟨n, hn⟩ := hw rest (done.andThen (server.readOne path))
      ((Walk.failure_andThen hdone _).trans hfail)
    refine ⟨n + 1, ?_⟩
    rw [Function.iterate_add_apply, List.singleton_append, hturn, hn,
      Walk.failure_andThen hfail, Walk.andThen_assoc]
  · rw [if_neg hfail] at hturn
    refine ⟨1, ?_⟩
    rw [Walk.andThen_of_failure hfail, if_neg hfail]
    exact hturn

theorem Server.Takes.each {walk : String → Walk} {paths : List String}
    (h : ∀ p ∈ paths, server.Takes [p] (walk p)) :
    server.Takes paths (walkEach walk paths) := by
  induction paths with
  | nil => exact .nil
  | cons p paths ih =>
      exact (h p (List.mem_cons_self ..)).append
        (ih fun q hq => h q (List.mem_cons_of_mem p hq))

/-- The loop does what the walk does, if the walk goes deep enough. The
induction is on the depth that is left. -/
theorem takes_walkFrom (h : server.Regular) (hpath : IsStart path)
    (hdeep : ∀ l, server.Leads path l → l.length < depth) :
    server.Takes [path] (walkFrom server depth path) := by
  induction depth generalizing path with
  | zero => exact absurd (hdeep [] trivial) (Nat.not_lt_zero _)
  | succ depth ih =>
      rw [walkFrom_succ]
      refine .cons (.each fun p hp => ?_)
      obtain ⟨s, hs, hat, hanswers, k, hk, rfl⟩ := (h.mem_next hpath).mp hp
      refine ih (isStart_step path (h.steps s hs k hk)).1 fun l hl => ?_
      have hlen := hdeep (k :: l) ⟨⟨s, hs, hat, hanswers, hk⟩, hl⟩
      exact Nat.lt_of_succ_lt_succ hlen

-- ============================================================ the snapshot

/-- The requests of a list of visits are the requests of each. -/
theorem nodup_flatMap_reads (h : server.Regular) {paths : List String}
    (hdistinct : paths.Nodup) :
    (paths.flatMap fun p => (server.readOne p).reads).Nodup := by
  rw [List.nodup_flatMap]
  refine ⟨fun p _ => nodup_reads_readOne h p, hdistinct.imp ?_⟩
  intro p p' hne r hr hr'
  rw [mem_reads_readOne h] at hr hr'
  rcases hr with rfl | ⟨rfl, -⟩
  · rcases hr' with heq | ⟨heq, -⟩
    · exact hne (Read.data.inj heq)
    · cases heq
  · rcases hr' with heq | ⟨heq, -⟩
    · cases heq
    · exact hne (Read.children.inj heq)

theorem due_iff {r : Read} (h : server.Regular) (hstart : IsStart start) :
    server.Due start r
      ↔ ∃ p ∈ server.visited start, r ∈ (server.readOne p).reads := by
  simp only [mem_visited h hstart, mem_reads_readOne h]
  cases r with
  | data path => simp [Server.Due]
  | children path => simp [Server.Due]

theorem snapshot_eq (server : Server) (start : String) :
    snapshot server start
      = walkEach server.readOne (server.visited start) :=
  walkFrom_eq server (server.length + 1) start

/-- A snapshot that does not fail is complete. -/
theorem complete_of_succeeds (h : server.Regular) (hstart : IsStart start)
    (hok : (snapshot server start).failure = none) :
    (snapshot server start).Complete server start := by
  rw [snapshot_eq] at hok ⊢
  have hall := walkEach_succeeds hok
  have hnodes := (walkEach_eq server.readOne _ hall).2
  have hreads := walkEach_reads server.readOne _ hall
  have hdistinct : (server.visited start).Nodup := nodup_itinerary h hstart
  refine
    { succeeds := hok
      nodes := fun n => ?nodes
      distinct := ?distinct
      parents := fun n hn hne => ?parents
      requests := fun r => ?requests
      single := ?single }
  case nodes =>
    rw [hnodes, List.mem_flatMap]
    constructor
    · rintro ⟨p, hp, hn⟩
      obtain ⟨s, hs, rfl, hanswers, rfl⟩ := of_mem_nodes_readOne h hn
      exact ⟨s, hs, (mem_visited h hstart).mp hp, hanswers, rfl⟩
    · rintro ⟨s, hs, hasked, hanswers, rfl⟩
      exact ⟨s.path, (mem_visited h hstart).mpr hasked,
        by simp [nodes_readOne h hs hanswers]⟩
  case distinct =>
    have hpaths := List.Sublist.flatMap_right (server.visited start)
      fun p _ => paths_readOne h p
    rw [List.flatMap_singleton'] at hpaths
    rw [hnodes, List.map_flatMap]
    exact hdistinct.sublist hpaths
  case parents =>
    rw [hnodes, List.mem_flatMap] at hn
    obtain ⟨p, hp, hn⟩ := hn
    obtain ⟨s, hs, rfl, hanswers, rfl⟩ := of_mem_nodes_readOne h hn
    obtain ⟨s', hs', hanswers', hlists, hsub⟩ :=
      itinerary_parent h hstart hp hne
    refine ⟨s', hs', hlists, ?_⟩
    have hpair := hsub.flatMap fun p => (server.readOne p).nodes
    rw [hnodes]
    simpa [Server.visited, nodes_readOne h hs hanswers,
      nodes_readOne h hs' hanswers'] using hpair
  case requests => rw [hreads, List.mem_flatMap, due_iff h hstart]
  case single =>
    rw [hreads]
    exact nodup_flatMap_reads h hdistinct

/-- A snapshot that fails is cut short. -/
theorem cutShort_of_fails (h : server.Regular) (hstart : IsStart start)
    (hfail : (snapshot server start).failure ≠ none) :
    (snapshot server start).CutShort server start := by
  rw [snapshot_eq] at hfail ⊢
  obtain ⟨before, p, after, hvisited, hbefore, hp, hwalk⟩ :=
    walkEach_fails hfail
  have hvisits : (before ++ [p]).Sublist (server.visited start) := by
    rw [hvisited]
    simp
  obtain ⟨hok, -⟩ := walkEach_eq server.readOne before hbefore
  have hreads : (walkEach server.readOne before).reads
      = before.flatMap fun q => (server.readOne q).reads :=
    walkEach_reads server.readOne before hbefore
  have hrequests : ((walkEach server.readOne before).andThen
      (server.readOne p)).reads
      = (before ++ [p]).flatMap fun q => (server.readOne q).reads := by
    rw [Walk.andThen, hok]
    simp [hreads]
  rw [hwalk]
  refine
    { last := ?last
      requests := fun r hr => ?requests
      single := ?single }
  case last =>
    obtain ⟨hnone, -⟩ | ⟨earlier, r, fault, hlast, hearlier, hr, hkind,
      hfault⟩ := failure_readOne h p
    · exact absurd hnone hp
    refine ⟨before.flatMap (fun q => (server.readOne q).reads) ++ earlier, r,
      fault, ?_, ?_, hr, hkind, ?_⟩
    · rw [hrequests]
      simp [hlast]
    · intro q hq
      rcases List.mem_append.mp hq with hq | hq
      · obtain ⟨p', hp', hq⟩ := List.mem_flatMap.mp hq
        obtain ⟨-, hpass⟩ | ⟨-, -, f, -, -, -, -, hf⟩ :=
          failure_readOne h p'
        · exact hpass q hq
        · rw [hbefore p' hp'] at hf
          cases hf
      · exact hearlier q hq
    · rw [Walk.failure_andThen hok, hfault]
  case requests =>
    rw [hrequests, List.mem_flatMap] at hr
    obtain ⟨q, hq, hr⟩ := hr
    exact (due_iff h hstart).mpr ⟨q, hvisits.subset hq, hr⟩
  case single =>
    rw [hrequests]
    exact nodup_flatMap_reads h
      ((nodup_itinerary h hstart).sublist hvisits)

/-- A snapshot fails if one of the requests that are due does. -/
theorem failure_snapshot (h : server.Regular) (hstart : IsStart start) :
    (snapshot server start).failure = none
      ↔ ∀ r, server.Due start r → server.Passes r := by
  constructor
  · intro hok r hr
    obtain ⟨p, hp, hr⟩ := (due_iff h hstart).mp hr
    have hnone : (server.readOne p).failure = none := by
      rw [snapshot_eq] at hok
      exact walkEach_succeeds hok p hp
    obtain ⟨-, hpass⟩ | ⟨-, -, f, -, -, -, -, hf⟩ := failure_readOne h p
    · exact hpass r hr
    · rw [hnone] at hf
      cases hf
  · intro hpass
    refine Decidable.byContradiction fun hfail => ?_
    have hcut := cutShort_of_fails h hstart hfail
    obtain ⟨earlier, r, fault, hreads, -, hr, hkind, -⟩ := hcut.last
    exact hkind (hpass r (hcut.requests r (by simp [hreads])) fault hr)

/-- The loop ends, and a snapshot is what it did: the whole subtree if
each request that is due passes, and all up to the first that does not
otherwise. -/
theorem snapshot_exact (h : server.Regular) (hstart : IsStart start) :
    (∃ n, (Reading.turn server)^[n] { pending := [start] }
        = { pending := [], done := snapshot server start })
      ∧ ((∀ r, server.Due start r → server.Passes r) →
        (snapshot server start).Complete server start)
      ∧ (¬ (∀ r, server.Due start r → server.Passes r) →
        (snapshot server start).CutShort server start) := by
  refine ⟨?_, fun hpass => ?_, fun hno => ?_⟩
  · have htakes : server.Takes [start] (snapshot server start) :=
      takes_walkFrom h hstart fun l hl => Nat.lt_succ_of_le (hl.length_le h)
    obtain ⟨n, hn⟩ := htakes [] {} rfl
    exact ⟨n, by simpa using hn⟩
  · exact complete_of_succeeds h hstart
      ((failure_snapshot h hstart).mpr hpass)
  · exact cutShort_of_fails h hstart
      fun hok => hno ((failure_snapshot h hstart).mp hok)

/-- The root lists three children: one is not served, one has gone when
its children are asked for, and one answers. What is left is complete. If
instead the connection is lost, that request is the last. -/
theorem snapshot_exact_vanished :
    let server (kind : FaultKind) : Server :=
      [{ path := "/", data := some [1], names := ["a", "b", "c"]
         childCount := 3, modifiedAt := 5 },
        { path := "/a", data := none, names := [], childCount := 0
          modifiedAt := 6 },
        { path := "/b", data := some [], names := ["d"], childCount := 1
          modifiedAt := 7, childrenFault := some ⟨kind, ""⟩ }]
    (∀ kind, (server kind).Regular) ∧ IsStart "/"
      ∧ (∀ r, (server .noNode).Due "/" r → (server .noNode).Passes r)
      ∧ (snapshot (server .noNode) "/").Complete (server .noNode) "/"
      ∧ (snapshot (server .noNode) "/").nodes
        = [⟨"/", some [1], 3, 5⟩, ⟨"/a", none, 0, 6⟩]
      ∧ ¬ (∀ r, (server .connectionLoss).Due "/" r →
        (server .connectionLoss).Passes r)
      ∧ (snapshot (server .connectionLoss) "/").CutShort
        (server .connectionLoss) "/"
      ∧ (snapshot (server .connectionLoss) "/").reads
        = [.data "/", .children "/", .data "/c", .data "/b",
          .children "/b"] := by
  intro server
  have hregular : ∀ kind, (server kind).Regular := by
    intro kind
    refine ⟨?_, ?_, ?_⟩
    · show ["/", "/a", "/b"].Nodup
      decide
    · simp [server]
    · have hsteps : ∀ k ∈ ["a", "b", "c", "d"], IsStep k := by decide +kernel
      simpa [server, and_assoc] using hsteps
  have hstart : IsStart "/" := Or.inl rfl
  have hpass : ∀ r, (server .noNode).Due "/" r →
      (server .noNode).Passes r :=
    (failure_snapshot (hregular _) hstart).mp (by decide +kernel)
  obtain ⟨-, hcomplete, -⟩ := snapshot_exact (hregular .noNode) hstart
  obtain ⟨-, -, hcut⟩ := snapshot_exact (hregular .connectionLoss) hstart
  have hlost : ¬ ∀ r, (server .connectionLoss).Due "/" r →
      (server .connectionLoss).Passes r := by
    rw [← failure_snapshot (hregular _) hstart]
    decide +kernel
  exact ⟨hregular, hstart, hpass, hcomplete hpass, by decide +kernel, hlost,
    hcut hlost, by decide +kernel⟩

end TreeReplica.Remote
