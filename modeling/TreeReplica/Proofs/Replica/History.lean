/-
Out-of-order histories. A history settles on some nodes when the last
event about each of them reports it as it is, no later event takes it
away, and whatever else was reported on the way is taken away again. The
root is then in sync with these nodes, however the events were ordered
(`history_converges`), as long as each of them was applied without a
failure and without an error report.

Settling is about all paths, but only those at and above the reported
nodes can be astray, so that it can be decided (`settlesOn_iff`).
-/
import Mathlib.Data.List.Infix
import TreeReplica.Proofs.Remote.Ancestor
import TreeReplica.Proofs.Replica.Converge

namespace TreeReplica

-- ================================================================ events

namespace Event

/-- The event reports a node as it is. -/
def Reports (e : Event) (node : Node) : Prop :=
  (e.kind = .added ∨ e.kind = .updated) ∧ e.node = some node

/-- The event reports that a node is gone. -/
def Removes (e : Event) (node : Node) : Prop :=
  e.kind = .removed ∧ e.node = some node

instance (e : Event) (node : Node) : Decidable (e.Reports node) :=
  inferInstanceAs (Decidable (_ ∧ _))

instance (e : Event) (node : Node) : Decidable (e.Removes node) :=
  inferInstanceAs (Decidable (_ ∧ _))

end Event

namespace Replica

variable {r : Replica} {nodes : List Node} {node : Node}
  {events : List Event} {e : Event} {l q : Location} {h h' : Host}

/-- An event about `n`, kept at `m`, leaves a node that is kept at `l`
alone. It is about another path. It does not remove anything above `l` and
reports no leaf there, the root apart; and if the node is a leaf other
than the root, the event reports nothing below it. -/
structure Spares (node : Node) (l : Location) (e : Event) (n : Node)
    (m : Location) : Prop where
  other : n.path ≠ node.path
  removed : e.kind = .removed → m <+: l → m = []
  leaf : e.kind ≠ .removed → m <+: l → m = [] ∨ n.isContainer = true
  below : e.kind ≠ .removed → l <+: m → l = [] ∨ node.isContainer = true

/-- An event about `n`, kept at `m`, takes away what is kept at `q`: it
removes it or something above it, or reports a leaf above it, the root
apart. -/
structure TakesAway (q : Location) (e : Event) (n : Node) (m : Location) :
    Prop where
  inside : m ≠ []
  above : m <+: q
  gone : e.Removes n ∨ (e.Reports n ∧ m ≠ q ∧ n.isContainer = false)

/-- A history settles on some nodes. An event and what comes after it are
a suffix of the history. -/
structure SettlesOn (r : Replica) (nodes : List Node)
    (events : List Event) : Prop where
  /-- The last event about a node reports it, and no later one takes it
  away. -/
  reported : ∀ node ∈ nodes, ∀ l, r.place? node.path = some l →
    ∃ e after, e :: after <:+ events ∧ e.Reports node
      ∧ ∀ e' ∈ after, ∀ n m, (e'.Reports n ∨ e'.Removes n) →
        r.place? n.path = some m → Spares node l e' n m
  /-- What was reported at or below the place of another path is taken
  away there later. -/
  strayed : ∀ path q, r.place? path = some q → q ≠ [] →
    (∀ node ∈ nodes, node.path ≠ path) →
    ∀ e after, e :: after <:+ events →
      ∀ n m, e.Reports n → r.place? n.path = some m → q <+: m →
        ∃ e' ∈ after, ∃ n' m', r.place? n'.path = some m'
          ∧ TakesAway q e' n' m'
  /-- If the base is none of the nodes, its data is dropped later. -/
  dropped : (∀ node ∈ nodes, node.path ≠ r.base) →
    ∀ e after, e :: after <:+ events →
      ∀ n, e.Reports n → n.path = r.base → n.hasData = true →
        ∃ e' ∈ after, ∃ n', n'.path = r.base
          ∧ (e'.Removes n' ∨ (e'.Reports n' ∧ n'.hasData = false))

-- ============================================================= deciding it

instance (node : Node) (l : Location) (e : Event) (n : Node) (m : Location) :
    Decidable (Spares node l e n m) :=
  decidable_of_iff (n.path ≠ node.path ∧ (e.kind = .removed → m <+: l → m = [])
      ∧ (e.kind ≠ .removed → m <+: l → m = [] ∨ n.isContainer = true)
      ∧ (e.kind ≠ .removed → l <+: m → l = [] ∨ node.isContainer = true))
    ⟨fun ⟨a, b, c, d⟩ => ⟨a, b, c, d⟩, fun ⟨a, b, c, d⟩ => ⟨a, b, c, d⟩⟩

instance (q : Location) (e : Event) (n : Node) (m : Location) :
    Decidable (TakesAway q e n m) :=
  decidable_of_iff (m ≠ [] ∧ m <+: q
      ∧ (e.Removes n ∨ (e.Reports n ∧ m ≠ q ∧ n.isContainer = false)))
    ⟨fun ⟨a, b, c⟩ => ⟨a, b, c⟩, fun ⟨a, b, c⟩ => ⟨a, b, c⟩⟩

/-- What stands above the place of a path is the place of a path above. -/
theorem place?_above (hb : Remote.validate r.base = .ok r.base)
    {path : String} {l m : Location} (hl : r.place? path = some l)
    (hm : m <+: l) :
    ∃ p, r.place? p = some m ∧ Remote.IsAbove p path := by
  obtain ⟨b, hnames, hbase, -⟩ := Remote.exists_of_validate hb
  unfold place? at hl ⊢
  rw [hbase] at hl ⊢
  obtain ⟨hlnames, hpay⟩ := Remote.place?_names hl
  have hmnames : AllNames m := fun n hn => hlnames n (hm.subset hn)
  refine ⟨Remote.pathOf (b ++ m), Remote.place?_append hnames hmnames
    fun hn => hpay (hm.subset hn), ?_⟩
  rw [Remote.path_of_place hnames hl]
  exact (Remote.isAbove_pathOf (allNames_append.mpr ⟨hnames, hmnames⟩)
    (allNames_append.mpr ⟨hnames, hlnames⟩)).mpr
    ((List.prefix_append_right_inj b).mpr hm)

/-- One of the events takes away what is kept at `q`. -/
def TakenAway (r : Replica) (q : Location) (events : List Event) : Prop :=
  ∃ e ∈ events, ∃ n ∈ e.node, ∃ m ∈ r.place? n.path, TakesAway q e n m

instance (r : Replica) (q : Location) (events : List Event) :
    Decidable (r.TakenAway q events) :=
  inferInstanceAs (Decidable (∃ e ∈ events, _))

/-- Where the event reports a node, every place at or above it is that of
one of the nodes, or is taken away by the events behind it. -/
def LeavesNoStray (r : Replica) (nodes : List Node) (e : Event)
    (after : List Event) : Prop :=
  ∀ n ∈ e.node, e.Reports n → ∀ m ∈ r.place? n.path, ∀ q ∈ m.inits,
    q ≠ [] → (∃ node ∈ nodes, r.place? node.path = some q)
      ∨ r.TakenAway q after

instance (r : Replica) (nodes : List Node) (e : Event)
    (after : List Event) : Decidable (r.LeavesNoStray nodes e after) :=
  inferInstanceAs (Decidable (∀ n ∈ e.node, _))

/-- Whether a history settles on some nodes can be told from its events:
below the base only the places at and above theirs count. -/
theorem settlesOn_iff (hb : Remote.validate r.base = .ok r.base) :
    r.SettlesOn nodes events
      ↔ (∀ node ∈ nodes, ∀ l ∈ r.place? node.path,
          ∃ s ∈ events.tails, ∃ e ∈ s.head?, e.Reports node
            ∧ ∀ e' ∈ s.tail, ∀ n ∈ e'.node, e'.Reports n ∨ e'.Removes n →
              ∀ m ∈ r.place? n.path, Spares node l e' n m)
        ∧ (∀ s ∈ events.tails, ∀ e ∈ s.head?, r.LeavesNoStray nodes e s.tail)
        ∧ ((∀ node ∈ nodes, node.path ≠ r.base) →
          ∀ s ∈ events.tails, ∀ e ∈ s.head?, ∀ n ∈ e.node, e.Reports n →
            n.path = r.base → n.hasData = true →
            ∃ e' ∈ s.tail, ∃ n' ∈ e'.node, n'.path = r.base
              ∧ (e'.Removes n' ∨ (e'.Reports n' ∧ n'.hasData = false))) := by
  have hsuffix : ∀ {s e}, s ∈ events.tails → e ∈ s.head? →
      ∃ after, s = e :: after ∧ e :: after <:+ events := by
    intro s e hs he
    obtain ⟨after, rfl⟩ := List.head?_eq_some_iff.mp he
    exact ⟨after, rfl, (List.mem_tails _ _).mp hs⟩
  have hnode : ∀ {e : Event} {n}, e.Reports n ∨ e.Removes n →
      e.node = some n := fun h => h.elim And.right And.right
  constructor
  · intro h
    refine ⟨fun node hmem l hl => ?_, ?_, ?_⟩
    · obtain ⟨e, after, hafter, hrep, hspares⟩ := h.reported node hmem l hl
      exact ⟨_, (List.mem_tails _ _).mpr hafter, e, rfl, hrep,
        fun e' he' n _ hev m hm => hspares e' he' n m hev hm⟩
    · intro s hs e he n _ hrep m hm q hq hne
      obtain ⟨after, rfl, hafter⟩ := hsuffix hs he
      have hpre := (List.mem_inits _ _).mp hq
      obtain ⟨path, hpath, -⟩ := place?_above hb hm hpre
      by_cases hkept : ∃ node ∈ nodes, r.place? node.path = some q
      · exact Or.inl hkept
      obtain ⟨e', he', n', m', hm', htakes⟩ := h.strayed path q hpath hne
        (fun node hmem heq => hkept ⟨node, hmem, heq ▸ hpath⟩)
        e after hafter n m hrep hm hpre
      exact Or.inr ⟨e', he', n',
        hnode (htakes.gone.elim Or.inr fun h => Or.inl h.1), m', hm', htakes⟩
    · intro hno s hs e he n _ hrep hpath hdata
      obtain ⟨after, rfl, hafter⟩ := hsuffix hs he
      obtain ⟨e', he', n', hpath', hcase⟩ :=
        h.dropped hno e after hafter n hrep hpath hdata
      exact ⟨e', he', n', hnode (hcase.elim Or.inr fun h => Or.inl h.1),
        hpath', hcase⟩
  · rintro ⟨hreported, hstrayed, hdropped⟩
    constructor
    case reported =>
      intro node hmem l hl
      obtain ⟨s, hs, e, he, hrep, hspares⟩ := hreported node hmem l hl
      obtain ⟨after, rfl, hafter⟩ := hsuffix hs he
      exact ⟨e, after, hafter, hrep,
        fun e' he' n m hev hm => hspares e' he' n (hnode hev) hev m hm⟩
    case strayed =>
      intro path q hpath hne hno e after hafter n m hrep hm hpre
      rcases hstrayed _ ((List.mem_tails _ _).mpr hafter) e rfl n hrep.2 hrep
          m hm q ((List.mem_inits _ _).mpr hpre) hne
        with ⟨node, hmem, hplace⟩ | ⟨e', he', n', -, m', hm', htakes⟩
      · exact absurd (path_unique hb hplace hpath) (hno node hmem)
      · exact ⟨e', he', n', m', hm', htakes⟩
    case dropped =>
      intro hno e after hafter n hrep hpath hdata
      obtain ⟨e', he', n', -, hcase⟩ :=
        hdropped hno _ ((List.mem_tails _ _).mpr hafter) e rfl n hrep.2 hrep
          hpath hdata
      exact ⟨e', he', n', hcase⟩

-- ============================================================== as changes

/-- An event that reports a kept node asks to keep it. -/
theorem change?_of_reports (he : e.Reports node)
    (hl : r.place? node.path = some l) :
    r.change? e = some (.keep node l) := by
  obtain ⟨hkind, hnode⟩ := he
  unfold change?
  simp only [hnode, hl]
  rcases hkind with hk | hk
  · rw [hk]
    rfl
  · rw [hk]
    rfl

/-- An event that removes a kept node asks to clear its place. -/
theorem change?_of_removes (he : e.Removes node)
    (hl : r.place? node.path = some l) : r.change? e = some (.clear l) := by
  obtain ⟨hkind, hnode⟩ := he
  unfold change?
  simp only [hnode, hl, hkind]
  rfl

/-- Every change is asked for by an event that reports or removes a kept
node. -/
theorem of_change? {c : Change} (hc : r.change? e = some c) :
    ∃ n m, r.place? n.path = some m
      ∧ ((e.Reports n ∧ c = .keep n m) ∨ (e.Removes n ∧ c = .clear m)) := by
  unfold change? at hc
  cases hnode : e.node with
  | none =>
      rw [hnode] at hc
      cases hc
  | some n =>
      simp only [hnode] at hc
      cases hplace : r.place? n.path with
      | none =>
          rw [hplace] at hc
          cases hc
      | some m =>
          simp only [hplace] at hc
          refine ⟨n, m, hplace, ?_⟩
          cases hk : e.kind with
          | added =>
              rw [hk] at hc
              cases hc
              exact Or.inl ⟨⟨Or.inl hk, hnode⟩, rfl⟩
          | updated =>
              rw [hk] at hc
              cases hc
              exact Or.inl ⟨⟨Or.inr hk, hnode⟩, rfl⟩
          | removed =>
              rw [hk] at hc
              cases hc
              exact Or.inr ⟨⟨hk, hnode⟩, rfl⟩
          | initialized =>
              rw [hk] at hc
              cases hc

/-- The changes before and after one event. -/
theorem changes_append_cons {before after : List Event} {c : Change}
    (hc : r.change? e = some c) :
    r.changes (before ++ e :: after)
      = r.changes before ++ c :: r.changes after := by
  rw [changes, List.filterMap_append, List.filterMap_cons, hc]
  rfl

/-- Where a list of changes is cut, the list of events can be cut. -/
theorem exists_of_changes {before after : List Change} {c : Change}
    (hc : r.changes events = before ++ c :: after) :
    ∃ e after', e :: after' <:+ events ∧ r.change? e = some c
      ∧ r.changes after' = after := by
  obtain ⟨first, second, heq, -, hsecond⟩ :=
    List.filterMap_eq_append_iff.mp hc
  obtain ⟨skipped, e, after', heq', -, hchange, hafter⟩ :=
    List.filterMap_eq_cons_iff.mp hsecond
  exact ⟨e, after', ⟨first ++ skipped, by rw [heq, heq', List.append_assoc]⟩,
    hchange, hafter⟩

/-- An event that leaves a node alone asks for a change that does. -/
theorem Spares.change (hb : Remote.validate r.base = .ok r.base)
    (hl : r.place? node.path = some l)
    (hs : ∀ n m, (e.Reports n ∨ e.Removes n) → r.place? n.path = some m →
      Spares node l e n m) {c : Change} (hc : r.change? e = some c) :
    c.target ≠ l ∧ ¬ c.Wipes l ∧ (node.opens l = false → ¬ c.Writes l) := by
  obtain ⟨n, m, hplace, hcase⟩ := of_change? hc
  have hspares : Spares node l e n m := by
    refine hs n m ?_ hplace
    rcases hcase with ⟨hrep, -⟩ | ⟨hrem, -⟩
    · exact Or.inl hrep
    · exact Or.inr hrem
  have hne : m ≠ l := by
    intro heq
    subst heq
    exact hspares.other (path_unique hb hplace hl)
  rcases hcase with ⟨hrep, hc⟩ | ⟨hrem, hc⟩
  · subst hc
    have hkind : e.kind ≠ .removed := by
      rcases hrep.1 with hk | hk
      · simp [hk]
      · simp [hk]
    refine ⟨hne, fun hwipe => ?_, fun hleaf hwrite => ?_⟩
    · obtain ⟨hpre, -, hopens⟩ := hwipe
      rcases hspares.leaf hkind hpre with hnil | hcont
      · simp [Node.opens, hnil] at hopens
      · simp [Node.opens, hcont] at hopens
    · rcases hspares.below hkind hwrite with hnil | hcont
      · simp [Node.opens, hnil] at hleaf
      · simp [Node.opens, hcont] at hleaf
  · subst hc
    refine ⟨hne, fun hwipe => ?_, fun _ hwrite => hwrite⟩
    exact hwipe.2 (hspares.removed hrem.1 hwipe.1)

/-- An event that takes something away asks for a change that wipes
it. -/
theorem TakesAway.change {n : Node} {m : Location}
    (hplace : r.place? n.path = some m) (ht : TakesAway q e n m) :
    ∃ c, r.change? e = some c ∧ c.Wipes q := by
  rcases ht.gone with hrem | ⟨hrep, hother, hleaf⟩
  · exact ⟨_, change?_of_removes hrem hplace, ht.above, ht.inside⟩
  · refine ⟨_, change?_of_reports hrep hplace, ht.above,
      fun heq => hother heq.symm, ?_⟩
    simp [Node.opens, hleaf, ht.inside]

/-- A history that settles on some nodes ends with them. -/
theorem SettlesOn.endsWith (hb : Remote.validate r.base = .ok r.base)
    (hs : r.SettlesOn nodes events) :
    r.EndsWith nodes (r.changes events) := by
  obtain ⟨b, hnames, hbase, -⟩ := Remote.exists_of_validate hb
  have hbaseplace : r.place? r.base = some [] := by
    unfold place?
    rw [hbase]
    have hself : Remote.place? (Remote.pathOf b) r.payload
        (Remote.pathOf (b ++ [])) = some [] :=
      Remote.place?_append hnames allNames_nil (by simp)
    simpa using hself
  constructor
  · intro node hmem l hl
    obtain ⟨e, after, hsuffix, hrep, hspares⟩ := hs.reported node hmem l hl
    obtain ⟨before, heq⟩ := hsuffix
    refine ⟨r.changes before, r.changes after, ?_, fun c hc => ?_⟩
    · rw [← heq, changes_append_cons (change?_of_reports hrep hl)]
    · obtain ⟨e', he', hchange⟩ := List.mem_filterMap.mp hc
      exact Spares.change hb hl (hspares e' he') hchange
  · intro q hq hnone before c after heq hwrites
    obtain ⟨e, after', hsuffix, hchange, hafter⟩ := exists_of_changes heq
    obtain ⟨n, m, hplace, hcase⟩ := of_change? hchange
    rcases hcase with ⟨hrep, hc⟩ | ⟨-, hc⟩
    · subst hc
      -- the place above a kept node is the place of a path
      obtain ⟨path, hpath, -⟩ := place?_above hb hplace hwrites
      obtain ⟨e', he', n', m', hplace', htakes⟩ := hs.strayed _ q hpath hq
        (fun node hmem heq => hnone node hmem (heq ▸ hpath))
        e after' hsuffix n m hrep hplace hwrites
      obtain ⟨c', hc', hwipes⟩ := htakes.change hplace'
      rw [← hafter]
      exact ⟨c', List.mem_filterMap.mpr ⟨e', he', hc'⟩, hwipes⟩
    · subst hc
      exact hwrites.elim
  · intro hnone before c after heq hfills
    obtain ⟨e, after', hsuffix, hchange, hafter⟩ := exists_of_changes heq
    obtain ⟨n, m, hplace, hcase⟩ := of_change? hchange
    rcases hcase with ⟨hrep, hc⟩ | ⟨-, hc⟩
    · subst hc
      obtain ⟨hnil, hdata⟩ := hfills
      rw [hnil] at hplace
      obtain ⟨e', he', n', hpath, hcase⟩ := hs.dropped
        (fun node hmem heq => hnone node hmem (heq ▸ hbaseplace))
        e after' hsuffix n hrep (path_unique hb hplace hbaseplace) hdata
      have hplace' : r.place? n'.path = some [] := hpath ▸ hbaseplace
      rw [← hafter]
      rcases hcase with hrem | ⟨hrep', hdata'⟩
      · exact ⟨.clear [], List.mem_filterMap.mpr
          ⟨e', he', change?_of_removes hrem hplace'⟩, rfl⟩
      · exact ⟨.keep n' [], List.mem_filterMap.mpr
          ⟨e', he', change?_of_reports hrep' hplace'⟩, rfl, hdata'⟩
    · subst hc
      exact hfills.elim

-- ============================================================= convergence

/-- A history that settles on some nodes leaves an empty root in sync
with them: a scan finds the layout expected of the nodes, and the files
have their times. -/
theorem history_converges (hb : Remote.validate r.base = .ok r.base)
    (hp : IsSegment r.payload)
    (hroot : h.disk.status r.root = .ok (.directory []))
    (hn : (nodes.map (·.path)).Nodup) (hs : r.SettlesOn nodes events)
    (hf : r.follow? events h = some h') : r.InSync nodes h'.disk :=
  follow?_inSync hb hp hroot hn (hs.endsWith hb) hf

/-- A leaf whose parent is repaired before it is reported, and a stray
leaf that is removed again. -/
theorem history_converges_repaired :
    let r : Replica := { root := ⟨.top, ["m"]⟩, payload := "data" }
    let c : Node := ⟨"/a/c", some [1], 0, 5⟩
    let b : Node := ⟨"/b", none, 0, 3⟩
    let a : Node := ⟨"/a", some [7], 1, 6⟩
    let h : Host := { disk := ⟨.directory [("m", .directory [])], []⟩ }
    ∃ h', r.follow? [⟨.added, some c⟩, ⟨.added, some b⟩, ⟨.added, some a⟩,
        ⟨.removed, some b⟩] h = some h' ∧ r.InSync [a, c] h'.disk := by
  intro r c b a h
  have hok : (r.follow? [⟨.added, some c⟩, ⟨.added, some b⟩,
      ⟨.added, some a⟩, ⟨.removed, some b⟩] h).isSome = true := by
    decide +kernel
  have hbase : Remote.validate r.base = .ok r.base := by decide +kernel
  have hsettles : r.SettlesOn [a, c] [⟨.added, some c⟩, ⟨.added, some b⟩,
      ⟨.added, some a⟩, ⟨.removed, some b⟩] :=
    (settlesOn_iff hbase).mpr
      ⟨by decide +kernel, by decide +kernel, by decide +kernel⟩
  refine ⟨_, (Option.some_get hok).symm, ?_⟩
  exact history_converges hbase (by decide)
    (show Disk.status ⟨.directory [("m", .directory [])], []⟩ ⟨.top, ["m"]⟩
      = .ok (.directory []) from rfl)
    (by decide +kernel) hsettles (Option.some_get hok).symm

end Replica

end TreeReplica
