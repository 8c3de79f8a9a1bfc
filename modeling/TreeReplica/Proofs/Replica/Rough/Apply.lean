/-
Events one at a time, where nothing is known of a replica but that no link
is in it. Applying an event makes the change it asks for, or breaks
the contract and changes nothing, or is refused a step by the system,
which is reported and leaves nothing behind but what work towards the
place leaves (`applies`).
-/
import Mathlib.Control.Monad.Basic
import TreeReplica.Proofs.Remote.Ancestor
import TreeReplica.Proofs.Replica.Follow
import TreeReplica.Proofs.Replica.Rough.Settle

namespace TreeReplica

open Work

/-- A path that was validated is kept at a place whose names can be passed
to the system. -/
theorem Remote.place?_segments {base payload path : String} {l : Location}
    (hpath : validate path = .ok path)
    (h : place? base payload path = some l) : AllSegments l := by
  rcases place?_split h with ⟨-, rfl⟩ | ⟨-, hl, hsplit⟩
  · exact fun n hn => absurd hn (by simp)
  obtain ⟨a, ha, rfl, hclear⟩ := exists_of_validate hpath
  refine fun n hn => ⟨(place?_names h).1 n hn, ?_⟩
  by_cases hnil : a = []
  · -- every piece of the root's path is empty
    have hroot : splitSlashes (pathOf []).toList = [[], []] := by decide
    rw [hnil, hroot] at hsplit
    have hmem : n.toList ∈ ([[], []] : List (List Char)) := by
      rw [hsplit]
      exact List.mem_append_right _ (List.mem_map_of_mem hn)
    have hempty : n.toList = [] := by simpa using hmem
    exact absurd (String.toList_inj.mp hempty)
      ((place?_names h).1 n hn).nonempty
  · rw [splitSlashes_pathOf ha hnil] at hsplit
    have hmem : n.toList ∈ [] :: a.map String.toList := by
      rw [hsplit]
      exact List.mem_append_right _ (List.mem_map_of_mem hn)
    rcases List.mem_cons.mp hmem with hempty | hmem
    · exact absurd (String.toList_inj.mp hempty)
        ((place?_names h).1 n hn).nonempty
    · obtain ⟨k, hk, heq⟩ := List.mem_map.mp hmem
      rw [← String.toList_inj.mp heq]
      simpa using List.any_eq_false.mp hclear k hk

/-- The node that an event is about, if any, has a path that was validated
and a time that a file can have. -/
def Event.Proper (e : Event) : Prop :=
  ∀ node, e.node = some node →
    Remote.validate node.path = .ok node.path
    ∧ Disk.representable node.modifiedAt = true

instance (e : Event) : Decidable e.Proper :=
  inferInstanceAs (Decidable (∀ node ∈ e.node,
    Remote.validate node.path = .ok node.path
    ∧ Disk.representable node.modifiedAt = true))

namespace Footing

open View

variable {s : Footing} {v w : View} {r : Replica} {before : Host} {h : Host}
  {e : Event}

/-- Anything that was reported is the start of what is reported next. -/
theorem Bears.restart (hs : s.Bears before v h) : s.Bears h v h :=
  ⟨hs.tree, hs.linkless, .refl _, rfl⟩

/-- A report does not change what is borne. -/
theorem Bears.reported (hs : s.Bears before v h) (record : Record) :
    s.Bears { h with log := h.log ++ [record] } v
      { h with log := h.log ++ [record] } :=
  ⟨hs.tree, hs.linkless, .refl _, rfl⟩

/-- A report that is no error keeps what is borne. -/
theorem Bears.said (hs : s.Bears before v h) {level : Level}
    (hl : level ≠ .error) (text : String) :
    s.Bears before v { h with log := h.log ++ [⟨level, text⟩] } :=
  ⟨hs.tree, hs.linkless, hs.calm.report hl text, hs.drawn⟩

/-- An event breaks the contract: it has no node, or an added node clashes
with what stands at its place. -/
def Breaks (s : Footing) (r : Replica) (e : Event) (v : View) : Prop :=
  (e.kind ≠ .initialized ∧ e.node = none)
  ∨ ∃ node l, e.node = some node ∧ r.place? node.path = some l
    ∧ s.Clashes e.kind node l v

/-- An event about a node breaks the contract where the node clashes. -/
theorem breaks_iff {node : Node} (hnode : e.node = some node) :
    s.Breaks r e v ↔ ∃ l, r.place? node.path = some l
      ∧ s.Clashes e.kind node l v := by
  unfold Breaks
  rw [hnode]
  constructor
  · rintro (⟨-, hno⟩ | ⟨node', l, heq, h⟩)
    · cases hno
    · cases heq
      exact ⟨l, h⟩
  · rintro ⟨l, h⟩
    exact Or.inr ⟨node, l, rfl, h⟩

/-- How the application of an event may end where the footing holds a
tree that looks like `v`. -/
inductive Applies (s : Footing) (r : Replica) (before : Host) (e : Event)
    (v : View) : EStateM.Result Halt Host Unit → Prop
  | made {h' : Host} (whole : ¬ s.Breaks r e v)
      (bears : s.Bears before (Outcome r.payload v (r.change? e)) h') :
      Applies s r before e v (.ok () h')
  | broken {x : Violation} {h' : Host} (breaks : s.Breaks r e v)
      (bears : s.Bears before v h') :
      Applies s r before e v (.error (.violation x) h')
  | refused {node : Node} {l : Location} {w : View} {h' : Host}
      (text : String) (kind : e.kind ≠ .initialized)
      (about : e.node = some node)
      (place : r.place? node.path = some l) (bears : s.Bears before w h')
      (stems : Stems r.payload l v w)
      (within : e.kind = .removed → w.Within v) :
      Applies s r before e v
        (.ok () { h' with log := h'.log ++ [⟨.error, text⟩] })

/-- An event about a node that is kept at a place whose names can be passed
to the system. -/
theorem applies_at {node : Node} {l : Location} (ho : s.Open v)
    (hr : s.Keeps r.payload r) (hk : e.kind ≠ .initialized)
    (hnode : e.node = some node) (hplace : r.place? node.path = some l)
    (hn : AllSegments l)
    (htime : Disk.representable node.modifiedAt = true)
    (hs : s.Bears before v h) : s.Applies r before e v (r.apply e h) := by
  have hsaid : s.Bears before v (e.announced h) := hs.said (by simp) e.text
  have hlocal := Remote.toLocal_of_place hplace r.root
  have hsettle : Carries (s.Bears before)
      (r.settle e.kind node (s.path.descend l)) v _ _ :=
    bears_settle ho hr hn (Remote.place?_names hplace).2 htime e.kind
  have hwork := hsettle (e.announced h) hsaid
  rw [← hr.root] at hwork
  rw [Replica.apply_eq hk hnode hlocal]
  have hbreaks : s.Breaks r e v ↔ s.Clashes e.kind node l v := by
    rw [breaks_iff hnode, hplace]
    simp
  generalize r.settle e.kind node (r.root.descend l) (e.announced h)
    = result at hwork
  cases result with
  | ok u h' =>
      obtain ⟨w, hw, rfl, hwhole, -⟩ := hwork
      refine .made (mt hbreaks.mp hwhole) ?_
      simpa only [Replica.change?, hnode, hplace] using hw
  | error setback h' =>
      obtain ⟨w, hw, hcase⟩ := hwork
      rcases hcase with ⟨rfl, hclash, x, rfl⟩
        | ⟨f, rfl, hf, hstems, hwithin⟩
      · exact .broken (hbreaks.mpr hclash) hw
      · rcases f with cause | reason | reason
        · exact .refused _ hk hnode hplace hw hstems hwithin
        · exact .refused _ hk hnode hplace hw hstems hwithin
        · exact absurd rfl (hf reason)

theorem applies (ho : s.Open v) (hr : s.Keeps r.payload r) (he : e.Proper)
    (hs : s.Bears before v h) : s.Applies r before e v (r.apply e h) := by
  have hsaid : s.Bears before v (e.announced h) := hs.said (by simp) e.text
  by_cases hk : e.kind = .initialized
  · rw [Replica.apply_initialized hk]
    refine .made ?_ (by rwa [Replica.change?_initialized hk])
    rintro (⟨hno, -⟩ | ⟨node, l, -, -, hclash⟩)
    · exact hno hk
    · rw [hclash.added] at hk
      cases hk
  cases hnode : e.node with
  | none =>
      rw [Replica.apply_without hk hnode]
      exact .broken (Or.inl ⟨hk, hnode⟩) hsaid
  | some node =>
      obtain ⟨hpath, htime⟩ := he node hnode
      cases hplace : r.place? node.path with
      | none =>
          obtain ⟨rejection, hrej⟩ := Remote.toLocal_of_none hplace r.root
          rw [Replica.apply_skipped hk hnode hrej]
          refine .made ?_ ?_
          · rw [breaks_iff hnode, hplace]
            rintro ⟨l, hno, -⟩
            cases hno
          · simp only [Replica.change?, hnode, hplace]
            exact hsaid.said (by simp) _
      | some l =>
          exact applies_at ho hr hk hnode hplace
            (Remote.place?_segments hpath hplace) htime hs

end Footing

end TreeReplica
