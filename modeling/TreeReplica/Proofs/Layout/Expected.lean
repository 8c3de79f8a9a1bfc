/-
What an expected layout holds. A node that is kept at a place gives an
item for the place, unless that is the root, and one for its payload slot
if it has data and children (`Gives`). Where the nodes have distinct
places the layout has just the items that the nodes give.
-/
import TreeReplica.Proofs.Layout.Scan
import TreeReplica.Proofs.Remote.Path
import TreeReplica.Proofs.Replica.Change
import TreeReplica.Layout.Expected

namespace TreeReplica.Layout

variable {payload : String} {node : Node} {l : Location} {t : String}
  {item : Item}

/-- The node, kept at `l`, gives the text `t` this item. -/
def Gives (payload : String) (node : Node) (l : Location) (t : String)
    (item : Item) : Prop :=
  (l ≠ [] ∧ t = key l ∧ item = (node.form l).item)
    ∨ ∃ x, node.inSlot l = some x ∧ t = key (l ++ [payload])
      ∧ item = x.item

/-- Different places give items to different texts, and a place gives one
item to a text. -/
theorem Gives.unique {other : Node} {m : Location} {item' : Item}
    (hp : IsName payload) (hl : AllNames l) (hlp : payload ∉ l)
    (hm : AllNames m) (hmp : payload ∉ m)
    (h : Gives payload node l t item) (h' : Gives payload other m t item') :
    l = m := by
  rcases h with ⟨-, ht, -⟩ | ⟨x, -, ht, -⟩
  · rcases h' with ⟨-, ht', -⟩ | ⟨y, -, ht', -⟩
    · exact Path.text_inj hl hm (ht.symm.trans ht')
    · have heq := Path.text_inj hl (hm.concat hp) (ht.symm.trans ht')
      subst heq
      simp at hlp
  · rcases h' with ⟨-, ht', -⟩ | ⟨y, -, ht', -⟩
    · have heq := Path.text_inj (hl.concat hp) hm (ht.symm.trans ht')
      subst heq
      simp at hmp
    · have heq := Path.text_inj (hl.concat hp) (hm.concat hp)
        (ht.symm.trans ht')
      exact List.append_cancel_right heq

-- ============================================================ one node

/-- Entering a node puts what it gives. -/
theorem enter_eq (hp : IsName payload) (layout : Layout) (node : Node)
    (l : Location) :
    layout.enter node ⟨.here, l⟩ payload
      = let placed :=
          if l = [] then layout else layout.put (key l) (node.form l).item
        match node.inSlot l with
        | some x => placed.put (key (l ++ [payload])) x.item
        | none => placed := by
  have hdrawn : (⟨.here, l⟩ : Path) = drawnAt ↔ l = [] := by
    simp [drawnAt]
  have hslot : Remote.payloadSlot ⟨.here, l⟩ payload
      = ⟨.here, l ++ [payload]⟩ := by
    rw [Remote.payloadSlot, Path.join_name hp]
    rfl
  unfold enter Node.form Node.inSlot Node.opens key
  rw [hslot]
  simp only [hdrawn]
  by_cases hl : l = []
  · subst hl
    cases hd : node.hasData <;> simp [Node.file, Shape.item]
  · cases hk : node.isContainer with
    | false => simp [hl, Node.file, Shape.item]
    | true => cases hd : node.hasData <;> simp [hl, Node.file, Shape.item]

/-- A node entered has what it gives. -/
theorem get?_enter_of_gives (hp : IsName payload) (hl : AllNames l)
    (layout : Layout) (h : Gives payload node l t item) :
    (layout.enter node ⟨.here, l⟩ payload).get? t = some item := by
  have hne : key (l ++ [payload]) ≠ key l := by
    intro heq
    have happ := Path.text_inj (hl.concat hp) hl heq
    exact absurd (List.append_right_eq_self.mp happ) (by simp)
  rw [enter_eq hp]
  rcases h with ⟨hroot, ht, hi⟩ | ⟨x, hx, ht, hi⟩
  · simp only [if_neg hroot]
    cases node.inSlot l with
    | none => simp only [get?_put, ht, hi, if_true]
    | some x => simp only [get?_put, ht, hi, hne, if_true, if_false]
  · simp only [hx, get?_put, ht, hi, if_true]

/-- Entering a node leaves all other texts alone. -/
theorem get?_enter_of_not (hp : IsName payload) (layout : Layout)
    (h : ∀ item, ¬ Gives payload node l t item) :
    (layout.enter node ⟨.here, l⟩ payload).get? t = layout.get? t := by
  have hplaced : (if l = [] then layout
      else layout.put (key l) (node.form l).item).get? t
        = layout.get? t := by
    split
    · rfl
    · next hl =>
        rw [get?_put, if_neg]
        exact fun heq => h _ (Or.inl ⟨hl, heq.symm, rfl⟩)
  rw [enter_eq hp]
  cases hx : node.inSlot l with
  | none => exact hplaced
  | some x =>
      simp only
      rw [get?_put, if_neg, hplaced]
      exact fun heq => h _ (Or.inr ⟨x, hx, heq.symm, rfl⟩)

/-- Whatever node is entered, each path comes once. -/
theorem Distinct.enter {layout : Layout} (h : layout.Distinct)
    (node : Node) (place : Path) (payload : String) :
    (layout.enter node place payload).Distinct := by
  unfold Layout.enter
  split
  · have hplaced : (if place = drawnAt then layout
        else layout.put place.text .directory).Distinct := by
      split
      · exact h
      · exact h.put _ _
    simp only
    split
    · exact hplaced.put _ _
    · exact hplaced
  · exact h.put _ _

-- ============================================================ all nodes

variable {base : String} {nodes : List Node}

/-- The nodes that have a place are entered in order. -/
theorem expectedFrom_cons (layout : Layout) (node : Node)
    (rest : List Node) :
    (expectedFrom base payload layout (node :: rest)).1
      = match Remote.place? base payload node.path with
        | some l =>
            (expectedFrom base payload
              (layout.enter node ⟨.here, l⟩ payload) rest).1
        | none => (expectedFrom base payload layout rest).1 := by
  cases hplace : Remote.place? base payload node.path with
  | none =>
      obtain ⟨r, hr⟩ := Remote.toLocal_of_none hplace drawnAt
      simp only [expectedFrom, hr]
  | some l =>
      have hlocal := Remote.toLocal_of_place hplace drawnAt
      have hpath : drawnAt.descend l = ⟨.here, l⟩ := by
        simp [drawnAt, Path.descend]
      rw [hpath] at hlocal
      simp only [expectedFrom, hlocal]

theorem Distinct.expectedFrom {layout : Layout} (h : layout.Distinct)
    (base payload : String) (nodes : List Node) :
    (Layout.expectedFrom base payload layout nodes).1.Distinct := by
  induction nodes generalizing layout with
  | nil => exact h
  | cons node rest ih =>
      rw [Layout.expectedFrom]
      cases Remote.toLocal node.path drawnAt base payload with
      | ok place => exact ih (h.enter node place payload)
      | error rejection => exact ih h

theorem distinct_expected (nodes : List Node) (base payload : String) :
    (expected nodes base payload).1.Distinct :=
  distinct_empty.expectedFrom base payload nodes

/-- A text that no node gives an item stays as it is. -/
theorem get?_expectedFrom_of_not (hp : IsName payload) {layout : Layout}
    (h : ∀ node ∈ nodes, ∀ l, Remote.place? base payload node.path = some l →
      ∀ item, ¬ Gives payload node l t item) :
    (expectedFrom base payload layout nodes).1.get? t = layout.get? t := by
  induction nodes generalizing layout with
  | nil => rfl
  | cons node rest ih =>
      have hrest := fun n hn => h n (List.mem_cons_of_mem node hn)
      rw [expectedFrom_cons]
      cases hplace : Remote.place? base payload node.path with
      | none => exact ih hrest
      | some l =>
          simp only
          rw [ih hrest, get?_enter_of_not hp]
          exact h node (List.mem_cons_self ..) l hplace

/-- A text has the item that a node gives it, if the nodes have distinct
places. -/
theorem get?_expectedFrom_of_gives (hp : IsName payload) {layout : Layout}
    (hdistinct : nodes.Pairwise fun a b =>
      ∀ l, Remote.place? base payload a.path = some l →
        Remote.place? base payload b.path ≠ some l)
    (hn : node ∈ nodes)
    (hplace : Remote.place? base payload node.path = some l)
    (h : Gives payload node l t item) :
    (expectedFrom base payload layout nodes).1.get? t = some item := by
  obtain ⟨hl, hlp⟩ := Remote.place?_names hplace
  induction nodes generalizing layout with
  | nil => cases hn
  | cons first rest ih =>
      obtain ⟨hfirst, hrest⟩ := List.pairwise_cons.mp hdistinct
      rw [expectedFrom_cons]
      rcases List.mem_cons.mp hn with heq | hn
      · subst heq
        rw [hplace]
        simp only
        rw [get?_expectedFrom_of_not hp]
        · exact get?_enter_of_gives hp hl layout h
        · intro other hother m hm item' hgives
          obtain ⟨hm', hmp⟩ := Remote.place?_names hm
          have hlm := h.unique hp hl hlp hm' hmp hgives
          exact hfirst other hother l hplace (hlm ▸ hm)
      · cases Remote.place? base payload first.path with
        | none => exact ih hrest hn
        | some m => exact ih hrest hn

end TreeReplica.Layout
