/-
When a replica is in line with a list of nodes. `Mirrors` says it of a
view, place by place: what a node asks for stands at its place and in its
slot, and nothing stands at other places. `InSync` says it of a disk, as
any reader sees it: a scan finds the layout that is expected of the nodes
and the files have the nodes' times. A site whose view mirrors the nodes
is in sync with them (`Shows.inSync`).
-/
import Mathlib.Data.List.Nodup
import TreeReplica.Proofs.Layout.Expected
import TreeReplica.Proofs.Replica.Follow

namespace TreeReplica

-- ============================================================== on a disk

/-- What is kept under the root is what is expected of the nodes, and
every file has the time of its node. -/
structure Replica.InSync (r : Replica) (nodes : List Node) (d : Disk) :
    Prop where
  layout : ∃ layout, d.scan r.root = .ok layout ∧ ∀ path,
    layout.get? path
      = (Layout.expected nodes r.base r.payload).1.get? path
  leaves : ∀ node ∈ nodes, ∀ place,
    Remote.toLocal node.path r.root r.base r.payload = .ok place →
    node.isContainer = false → place ≠ r.root →
    d.status place = .ok (.file node.bytes (.dated node.modifiedAt))
  payloads : ∀ node ∈ nodes, ∀ place,
    Remote.toLocal node.path r.root r.base r.payload = .ok place →
    (node.isContainer = true ∨ place = r.root) → node.hasData = true →
    d.status (Remote.payloadSlot place r.payload)
      = .ok (.file node.bytes (.dated node.modifiedAt))

-- ============================================================== on a view

/-- The view holds just what the nodes ask for; `kept` is the node at
each place. -/
structure View.Mirrors (payload : String) (kept : Location → Option Node)
    (v : View) : Prop where
  place : ∀ l n, kept l = some n → v l = some (n.form l)
  slot : ∀ l n, kept l = some n → v (l ++ [payload]) = n.inSlot l
  bare : ∀ l, payload ∉ l → l ≠ [] → kept l = none → v l = none
  root : kept [] = none → v [payload] = none

namespace Replica

variable {r : Replica} {nodes : List Node} {node : Node} {l : Location}

/-- The node of a list that is kept at a place. -/
def nodeAt (r : Replica) (nodes : List Node) (l : Location) : Option Node :=
  nodes.find? fun n => r.place? n.path = some l

/-- A local path at which a remote path is kept is below the root. -/
theorem place?_of_toLocal {path : String} {place : Path}
    (h : Remote.toLocal path r.root r.base r.payload = .ok place) :
    ∃ l, r.place? path = some l ∧ place = r.root.descend l := by
  cases hp : r.place? path with
  | none =>
      obtain ⟨rejection, hr⟩ := Remote.toLocal_of_none hp r.root
      rw [hr] at h
      cases h
  | some l =>
      rw [Remote.toLocal_of_place hp] at h
      cases h
      exact ⟨l, rfl, rfl⟩

/-- The paths that are kept at one place are one path. -/
theorem path_unique (hb : Remote.validate r.base = .ok r.base)
    {p q : String} (hp : r.place? p = some l) (hq : r.place? q = some l) :
    p = q := by
  obtain ⟨b, hnames, hbase, -⟩ := Remote.exists_of_validate hb
  unfold place? at hp hq
  rw [hbase] at hp hq
  rw [Remote.path_of_place hnames hp, Remote.path_of_place hnames hq]

/-- Nodes with distinct paths have distinct places. -/
theorem places_distinct (hb : Remote.validate r.base = .ok r.base)
    (hn : (nodes.map (·.path)).Nodup) :
    nodes.Pairwise fun a b =>
      ∀ l, r.place? a.path = some l → r.place? b.path ≠ some l := by
  refine List.Pairwise.imp ?_ (List.pairwise_map.mp hn)
  intro a b hne l ha hb'
  exact hne (path_unique hb ha hb')

/-- The node at a place, found in a list of nodes with distinct paths. -/
theorem nodeAt_eq_some (hb : Remote.validate r.base = .ok r.base)
    (hn : (nodes.map (·.path)).Nodup) :
    r.nodeAt nodes l = some node
      ↔ node ∈ nodes ∧ r.place? node.path = some l := by
  unfold nodeAt
  constructor
  · intro h
    exact ⟨List.mem_of_find?_eq_some h, by simpa using List.find?_some h⟩
  · intro h
    obtain ⟨hmem, hplace⟩ := h
    cases hf : nodes.find? fun n => r.place? n.path = some l with
    | none =>
        exact absurd (decide_eq_true hplace)
          (List.find?_eq_none.mp hf node hmem)
    | some other =>
        have hother : r.place? other.path = some l := by
          simpa using List.find?_some hf
        have hpath := path_unique hb hother hplace
        have hmem' := List.mem_of_find?_eq_some hf
        rw [List.inj_on_of_nodup_map hn hmem' hmem hpath]

end Replica

namespace Site

variable {s : Site} {v : View} {payload : String} {r : Replica}
  {nodes : List Node} {before : Log} {h : Host}

/-- An entry of a view that follows the rule of slots is at an open place
or in the slot of one that is a directory. -/
theorem Clean.open_or_slot (hc : s.Clean payload v) {m : Location}
    (hm : v m ≠ none) :
    payload ∉ m ∨ ∃ q, payload ∉ q ∧ m = q ++ [payload]
      ∧ v q = some .directory := by
  by_cases hopen : payload ∈ m
  · obtain ⟨q, below, heq, hq⟩ := List.eq_append_cons_of_mem hopen
    have hslot : m = q ++ [payload] ++ below := by simp [heq]
    by_cases hnil : below = []
    · rw [hnil, List.append_nil] at hslot
      exact Or.inr ⟨q, hq, hslot, hc.above q [payload] (by simp) (hslot ▸ hm)⟩
    · have hdir := hc.above (q ++ [payload]) below hnil (hslot ▸ hm)
      exact absurd hdir (hc.slots q)
  · exact Or.inl hopen

/-- What a mirror has at a location is given by a node. -/
theorem Clean.gives_of_mirrors (hc : s.Clean payload v)
    {kept : Location → Option Node} (hm : v.Mirrors payload kept)
    {m : Location} (hne : m ≠ []) {x : Shape} (hx : v m = some x) :
    ∃ l node, kept l = some node
      ∧ Layout.Gives payload node l (Layout.key m) x.item := by
  have hsome : v m ≠ none := by simp [hx]
  rcases hc.open_or_slot hsome with hopen | ⟨q, hq, heq, hdir⟩
  · cases hk : kept m with
    | none => exact absurd (hm.bare m hopen hne hk) hsome
    | some node =>
        have hform := hm.place m node hk
        rw [hx, Option.some.injEq] at hform
        exact ⟨m, node, hk, Or.inl ⟨hne, rfl, by rw [hform]⟩⟩
  · subst heq
    cases hk : kept q with
    | none =>
        by_cases hnil : q = []
        · subst hnil
          exact absurd (hm.root hk) hsome
        · rw [hm.bare q hq hnil hk] at hdir
          cases hdir
    | some node =>
        have hslot := hm.slot q node hk
        exact ⟨q, node, hk, Or.inr ⟨x, hslot.symm.trans hx, rfl, rfl⟩⟩

/-- What a node gives a text stands in a mirror at the location of the
text. -/
theorem at_of_gives {kept : Location → Option Node}
    (hm : v.Mirrors payload kept) {l : Location} {node : Node}
    (hk : kept l = some node) {t : String} {item : Item}
    (h : Layout.Gives payload node l t item) :
    ∃ m x, m ≠ [] ∧ t = Layout.key m ∧ v m = some x ∧ item = x.item := by
  rcases h with ⟨hl, ht, hi⟩ | ⟨x, hx, ht, hi⟩
  · exact ⟨l, _, hl, ht, hm.place l node hk, hi⟩
  · exact ⟨l ++ [payload], x, by simp, ht, (hm.slot l node hk).trans hx, hi⟩

/-- The status of a file in what a host shows. -/
theorem Shows.status (hs : s.Shows before v h) {l : Location} {c : Bytes}
    {t : Stamp} (hx : v l = some (.file c t)) :
    h.disk.status (s.path.descend l) = .ok (.file c t) := by
  obtain ⟨m, hd, hv, -⟩ := hs.tree
  subst hv
  rw [hd]
  exact status_eq hs.sound (Entry.view_eq_file.mp hx)

/-- A site that shows a mirror of the nodes is in sync with them. -/
theorem Shows.inSync (hs : s.Shows before v h) (hc : s.Clean payload v)
    (hr : s.Keeps payload r) (hb : Remote.validate r.base = .ok r.base)
    (hn : (nodes.map (·.path)).Nodup)
    (hm : v.Mirrors payload (r.nodeAt nodes)) : r.InSync nodes h.disk := by
  have hslot := hr.slot
  subst hslot
  have hp := hr.segment.toIsName
  have hat : ∀ l node, r.nodeAt nodes l = some node
      ↔ node ∈ nodes ∧ r.place? node.path = some l :=
    fun _ _ => Replica.nodeAt_eq_some hb hn
  constructor
  · obtain ⟨m, hd, hv, htidy⟩ := hs.tree
    subst hv
    obtain ⟨layout, hscan, -, hin, hout⟩ := hs.sound.sees.scan_yields htidy
    refine ⟨layout, by rw [hd, hr.root]; exact hscan, fun t => ?_⟩
    have hdistinct := Replica.places_distinct hb hn
    cases hL : layout.get? t with
    | some item =>
        obtain ⟨l, hl, hv, ht⟩ := hout t (by simp [hL])
        obtain ⟨x, hx⟩ := Option.ne_none_iff_exists'.mp hv
        obtain ⟨q, node, hk, hgives⟩ := hc.gives_of_mirrors hm hl hx
        obtain ⟨hmem, hplace⟩ := (hat q node).mp hk
        have hitem := hin l hl hv
        rw [← ht, hL, hx, Option.map_some, Option.some.injEq] at hitem
        rw [← ht, ← hitem] at hgives
        exact (Layout.get?_expectedFrom_of_gives hp hdistinct hmem hplace
          hgives).symm
    | none =>
        refine ((Layout.get?_expectedFrom_of_not hp ?_).trans
          (Layout.get?_empty t)).symm
        intro node hmem l hplace item hgives
        obtain ⟨q, x, hq, ht, hx, -⟩ :=
          at_of_gives hm ((hat l node).mpr ⟨hmem, hplace⟩) hgives
        have hitem := hin q hq (by simp [hx])
        rw [← ht, hL, hx] at hitem
        cases hitem
  · intro node hmem place hlocal hleaf hroot
    obtain ⟨l, hplace, heq⟩ := Replica.place?_of_toLocal hlocal
    have hv := hm.place l node ((hat l node).mpr ⟨hmem, hplace⟩)
    have hl : l ≠ [] := by
      intro hnil
      rw [heq, hnil, Path.descend_nil] at hroot
      exact hroot rfl
    rw [heq, hr.root]
    refine hs.status ?_
    simpa [Node.form, Node.opens, Node.file, hleaf, hl] using hv
  · intro node hmem place hlocal hkind hdata
    obtain ⟨l, hplace, heq⟩ := Replica.place?_of_toLocal hlocal
    have hv := hm.slot l node ((hat l node).mpr ⟨hmem, hplace⟩)
    have ho : node.opens l = true := by
      rcases hkind with hk | hk
      · simp [Node.opens, hk]
      · rw [heq] at hk
        simp [Node.opens, Path.descend_eq_self.mp hk]
    rw [heq, hr.root, Remote.payloadSlot_descend hp]
    exact hs.status (by simpa [Node.inSlot, Node.file, ho, hdata] using hv)

end Site

end TreeReplica
