/-
Events that can always be applied. An event is fair to a view when its
node can be passed to the system and when, if the node was added, nothing
of the other kind is in its place. Only a name that is too long can hinder
the work on such an event, so a list of events that are fair one after the
other is applied to its end (`follow?_fair`); what makes them fair is an
invariant of the view and the events that are left.
-/
import TreeReplica.Proofs.Replica.Follow

namespace TreeReplica

open Work

/-- The event can be applied where a replica shows `v`, up to names that
are too long. -/
structure Event.Fair (r : Replica) (v : View) (e : Event) : Prop where
  known : e.kind ≠ .initialized → e.node ≠ none
  clear : ∀ node l, e.node = some node → r.place? node.path = some l →
    l.any Disk.hasNull = false
  timely : ∀ node l, e.node = some node → r.place? node.path = some l →
    Disk.representable node.modifiedAt = true
  free : e.kind = .added → ∀ node l, e.node = some node →
    r.place? node.path = some l → l ≠ [] → ∀ x, v l = some x →
    (x = .directory ↔ node.isContainer = true)

namespace Site

open View

variable {s : Site} {v : View} {payload : String} {r : Replica}
  {before : Log} {h : Host} {e : Event}

/-- What hinders the work on a fair event is a name that is too long. -/
theorem tooLong_of_hinders (hf : e.Fair r v) {node : Node} {l : Location}
    {setback : Setback} (hnode : e.node = some node)
    (hplace : r.place? node.path = some l)
    (hh : Hinders v e.kind node l setback) : setback.isTooLong = true := by
  cases hh with
  | occupied added inside there other violation =>
      have hkind := hf.free added node l hnode hplace inside _ there
      cases hc : node.isContainer with
      | true => simp [hc] at hkind other; exact absurd hkind other
      | false => simp [hc] at hkind other; exact absurd other hkind
  | strained cause strains =>
      cases strains with
      | tooLong subject =>
          unfold Setback.isTooLong
          rw [cause]
      | null hnull =>
          rw [hf.clear node l hnode hplace] at hnull
          cases hnull
      | time out =>
          rw [hf.timely node l hnode hplace] at out
          cases out

/-- A fair event is applied without a failure or an error report, unless
a name was too long. -/
theorem apply_fair (hr : s.Keeps payload r) (hc : s.Clean payload v)
    (hs : s.Shows before v h) (hf : e.Fair r v)
    (hroom : (r.setback? e h).any Setback.isTooLong = false) :
    ∃ h' v', r.apply e h = .ok () h' ∧ h.log.Calm h'.log
      ∧ s.Shows before v' h' ∧ s.Clean payload v'
      ∧ v.After payload (r.change? e) v' := by
  rcases apply_cases hr hc hs e with hgood | ⟨hbad, -⟩
  · exact hgood
  · exfalso
    rcases hbad with ⟨hkind, hnone⟩
      | ⟨node, l, setback, hnode, hplace, hset, hh⟩
    · exact hf.known hkind hnone
    · rw [hset, Option.any_some, tooLong_of_hinders hf hnode hplace hh]
        at hroom
      cases hroom

/-- Events that an invariant makes fair, one after the other, are all
applied without a failure or an error report. -/
theorem follow?_fair {I : List Event → View → Prop}
    (hr : s.Keeps payload r)
    (hstep : ∀ e rest v, I (e :: rest) v → e.Fair r v
      ∧ ∀ w, v.After payload (r.change? e) w → I rest w)
    {events more : List Event} (hc : s.Clean payload v)
    (hs : s.Shows before v h) (hI : I events v)
    (hroom : r.roomy (events ++ more) h = true) :
    ∃ h' v', r.follow? events h = some h' ∧ s.Shows before v' h'
      ∧ s.Clean payload v' ∧ I [] v' ∧ r.roomy more h' = true
      ∧ v.AfterAll payload (events.filterMap r.change?) v' := by
  induction events generalizing h v with
  | nil => exact ⟨h, v, rfl, hs, hc, hI, hroom, rfl⟩
  | cons e rest ih =>
      obtain ⟨hf, hnext⟩ := hstep e rest v hI
      rw [List.cons_append, Replica.roomy, Bool.and_eq_true,
        Bool.not_eq_true'] at hroom
      obtain ⟨hfirst, hrest⟩ := hroom
      obtain ⟨h₁, v₁, hok, hcalm, hs₁, hc₁, hafter⟩ :=
        apply_fair hr hc hs hf hfirst
      rw [hok] at hrest
      obtain ⟨h', v', hfollow, hs', hc', hI', hmore, hall⟩ :=
        ih hc₁ hs₁ (hnext v₁ hafter) hrest
      exact ⟨h', v', Replica.follow?_cons.mpr ⟨h₁, hok, hcalm, hfollow⟩,
        hs', hc', hI', hmore, hafter.andThen hall⟩

end Site

end TreeReplica
