/-
Events applied one after the other, seen through views. `Replica.change?`
is the change that an event asks for: none, if it is about no node or
about a node that the replica does not keep. Applying an event without an
error makes that change, and an error can only come from what hinders the
work (`apply_cases`); a list of events applied without an error makes its
changes in order (`follow?_shows`).
-/
import TreeReplica.Proofs.Remote.Path
import TreeReplica.Proofs.Replica.Settle

namespace TreeReplica

open Work

namespace Setback

/-- Was a name too long for the system? -/
def isTooLong (setback : Setback) : Bool :=
  match setback.fault? with
  | some (.system (.refused .nameTooLong _)) => true
  | _ => false

end Setback

/-- The host once an event was announced. -/
def Event.announced (e : Event) (h : Host) : Host :=
  { h with log := h.log ++ [⟨.info, e.text⟩] }

namespace Replica

-- ====================================================== one event at a time

/-- The location below the root at which a remote path is kept, if it
is. -/
def place? (r : Replica) (path : String) : Option Location :=
  Remote.place? r.base r.payload path

/-- The change that an event asks for, if it asks for one. -/
def change? (r : Replica) (e : Event) : Option Change :=
  match e.node with
  | none => none
  | some node =>
      match r.place? node.path with
      | none => none
      | some l => e.kind.change? node l

/-- The change that an event about a node asks for is about the node's
place. -/
theorem change?_mk (r : Replica) (kind : EventKind) (node : Node) :
    r.change? ⟨kind, some node⟩
      = (r.place? node.path).bind (kind.change? node) := by
  unfold change?
  cases hplace : r.place? node.path with
  | none => simp [hplace]
  | some l => simp [hplace]

/-- What stops the work on an event, if anything does. -/
def setback? (r : Replica) (e : Event) (h : Host) : Option Setback :=
  match e.node with
  | none => none
  | some node =>
      match Remote.toLocal node.path r.root r.base r.payload with
      | .error _ => none
      | .ok path =>
          match r.settle e.kind node path
            { h with log := h.log ++ [⟨.info, e.text⟩] } with
          | .ok _ _ => none
          | .error setback _ => some setback

/-- Apply events in order, as long as each of them is applied without a
failure and without an error report. -/
def follow? (r : Replica) : List Event → Host → Option Host
  | [], h => some h
  | e :: rest, h =>
      match r.apply e h with
      | .ok _ h' => if h.log.Calm h'.log then r.follow? rest h' else none
      | .error _ _ => none

/-- While the events are applied, up to the first failure, no event is
dropped for a name that is too long. -/
def roomy (r : Replica) : List Event → Host → Bool
  | [], _ => true
  | e :: rest, h =>
      !(r.setback? e h).any Setback.isTooLong
        && match r.apply e h with
          | .ok _ h' => r.roomy rest h'
          | .error _ _ => true

theorem follow?_cons {r : Replica} {e : Event} {rest : List Event}
    {h h' : Host} :
    r.follow? (e :: rest) h = some h' ↔ ∃ h₁, r.apply e h = .ok () h₁
      ∧ h.log.Calm h₁.log ∧ r.follow? rest h₁ = some h' := by
  rw [follow?]
  cases r.apply e h with
  | error halt h₁ => simp
  | ok u h₁ => by_cases hc : h.log.Calm h₁.log <;> simp [hc]

theorem follow?_append {r : Replica} {first second : List Event}
    {h h' : Host} :
    r.follow? (first ++ second) h = some h' ↔ ∃ h₁,
      r.follow? first h = some h₁ ∧ r.follow? second h₁ = some h' := by
  induction first generalizing h with
  | nil => simp [follow?]
  | cons e first ih =>
      rw [List.cons_append, follow?_cons]
      constructor
      · intro hmid
        obtain ⟨h₁, happ, hcalm, hrest⟩ := hmid
        obtain ⟨h₂, hfirst, hsecond⟩ := ih.mp hrest
        exact ⟨h₂, follow?_cons.mpr ⟨h₁, happ, hcalm, hfirst⟩, hsecond⟩
      · intro hmid
        obtain ⟨h₂, hfirst, hsecond⟩ := hmid
        obtain ⟨h₁, happ, hcalm, hfirst⟩ := follow?_cons.mp hfirst
        exact ⟨h₁, happ, hcalm, ih.mpr ⟨h₂, hfirst, hsecond⟩⟩

/-- The last kind of event asks for nothing. -/
theorem change?_initialized {r : Replica} {e : Event}
    (hk : e.kind = .initialized) : r.change? e = none := by
  rw [change?, hk]
  cases e.node with
  | none => rfl
  | some node =>
      simp only
      cases r.place? node.path <;> rfl

/-- The last kind of event is announced and that is all. -/
theorem apply_initialized {e : Event} (hk : e.kind = .initialized)
    (r : Replica) (h : Host) : r.apply e h = .ok () (e.announced h) := by
  unfold Event.announced apply
  simp only [bind, EStateM.bind, say]
  rw [if_pos hk]
  rfl

/-- Every other event without a node breaks the contract. -/
theorem apply_without {e : Event} (hk : e.kind ≠ .initialized)
    (hnode : e.node = none) (r : Replica) (h : Host) :
    r.apply e h
      = .error (.violation (.withoutNode e.kind)) (e.announced h) := by
  unfold Event.announced apply
  simp only [bind, EStateM.bind, say]
  rw [if_neg hk, hnode]
  rfl

/-- An event about a node that is not kept is skipped. -/
theorem apply_skipped {r : Replica} {e : Event} {node : Node}
    {rejection : Remote.Rejection} (hk : e.kind ≠ .initialized)
    (hnode : e.node = some node)
    (hrej : Remote.toLocal node.path r.root r.base r.payload
      = .error rejection) (h : Host) :
    r.apply e h = .ok () { e.announced h with log := (e.announced h).log
      ++ [⟨.info, s!"Skipping {e}: {rejection.message}"⟩] } := by
  unfold Event.announced apply
  simp only [bind, EStateM.bind, say]
  rw [if_neg hk, hnode]
  simp only [hrej]
  rfl

/-- The application of an event about a node that is kept: what becomes of
a setback of the work on it. -/
theorem apply_eq {r : Replica} {e : Event} {h : Host}
    (hk : e.kind ≠ .initialized) {node : Node} (hnode : e.node = some node)
    {path : Path}
    (hlocal : Remote.toLocal node.path r.root r.base r.payload = .ok path) :
    r.apply e h = match r.settle e.kind node path (e.announced h) with
      | .ok _ h' => .ok () h'
      | .error (.violation v) h' => .error (.violation v) h'
      | .error (.repair (.unusable cause)) h' => .ok () { h' with
          log := h'.log ++ [⟨.error,
            s!"Failed to repair parents for {e}: {cause.message}"⟩] }
      | .error (.repair (.disk (.system x))) h' => .ok () { h' with
          log := h'.log ++ [⟨.error,
            s!"Failed to apply {e}: {x.message}"⟩] }
      | .error (.repair (.disk (.argument x))) h' =>
          .error (.argument x) h' := by
  unfold Event.announced apply
  simp only [bind, EStateM.bind, say]
  rw [if_neg hk, hnode]
  simp only [hlocal]
  unfold rescue
  cases r.settle e.kind node path
      { h with log := h.log ++ [⟨.info, e.text⟩] } with
  | ok u h' => rfl
  | error setback h' => rcases setback with viol | cause | reason | reason <;> rfl

end Replica

namespace View

/-- The view `v'` is what some changes, one after the other, make of
`v`. -/
def AfterAll (payload : String) : List Change → View → View → Prop
  | [], v, v' => v' = v
  | c :: rest, v, v' => ∃ w, c.Makes payload v w ∧ AfterAll payload rest w v'

theorem AfterAll.append {payload : String} {first second : List Change}
    {v v' : View} :
    AfterAll payload (first ++ second) v v' ↔ ∃ w,
      AfterAll payload first v w ∧ AfterAll payload second w v' := by
  induction first generalizing v with
  | nil => simp [AfterAll]
  | cons c first ih =>
      simp only [List.cons_append, AfterAll, ih]
      constructor
      · intro hmid
        obtain ⟨w, hw, u, hu, hv⟩ := hmid
        exact ⟨u, ⟨w, hw, hu⟩, hv⟩
      · intro hmid
        obtain ⟨u, ⟨w, hw, hu⟩, hv⟩ := hmid
        exact ⟨w, hw, u, hu, hv⟩

/-- The change of an event, and then those of the events behind it. -/
theorem After.andThen {payload : String} {r : Replica} {e : Event}
    {rest : List Event} {v w v' : View}
    (h : v.After payload (r.change? e) w)
    (hrest : w.AfterAll payload (rest.filterMap r.change?) v') :
    v.AfterAll payload ((e :: rest).filterMap r.change?) v' := by
  rw [List.filterMap_cons]
  cases hch : r.change? e with
  | none =>
      rw [hch] at h
      cases h
      exact hrest
  | some c =>
      rw [hch] at h
      exact ⟨w, h, hrest⟩

end View

namespace Site

open View

variable {s : Site} {v : View} {payload : String} {r : Replica}
  {before : Log} {h h' : Host}

/-- The work on an event about a kept node is hindered. -/
def Hindered (r : Replica) (e : Event) (h : Host) (v : View) : Prop :=
  ∃ node l setback, e.node = some node ∧ r.place? node.path = some l
    ∧ r.setback? e h = some setback ∧ Hinders v e.kind node l setback

/-- A report that is no error keeps what is shown. -/
private theorem Shows.said (hs : s.Shows before v h) (level : Level)
    (hl : level ≠ .error) (text : String) :
    s.Shows before v { h with log := h.log ++ [⟨level, text⟩] } where
  tree := hs.tree
  sound := hs.sound
  calm := hs.calm.report hl text

/-- How the application of an event ends when the work on it ends well,
and how when a setback stops the work. -/
private theorem apply_kept {e : Event} (hk : e.kind ≠ .initialized)
    {node : Node} (hnode : e.node = some node) {path : Path}
    (hlocal : Remote.toLocal node.path r.root r.base r.payload = .ok path) :
    (∀ h', r.settle e.kind node path (e.announced h) = .ok () h' →
      r.apply e h = .ok () h')
    ∧ ∀ setback h', r.settle e.kind node path (e.announced h)
        = .error setback h' →
      (∃ halt, r.apply e h = .error halt h')
        ∨ ∃ text, r.apply e h
          = .ok () { h' with log := h'.log ++ [⟨.error, text⟩] } := by
  rw [Replica.apply_eq hk hnode hlocal]
  constructor
  · intro h' hres
    rw [hres]
  · intro setback h' hres
    rw [hres]
    rcases setback with viol | cause | reason | reason
    · exact Or.inl ⟨_, rfl⟩
    · exact Or.inr ⟨_, rfl⟩
    · exact Or.inr ⟨_, rfl⟩
    · exact Or.inl ⟨_, rfl⟩

/-- An event is applied without a failure or an error report, and makes
the change it asks for, or it breaks the contract or is hindered. -/
theorem apply_cases (hr : s.Keeps payload r) (hc : s.Clean payload v)
    (hs : s.Shows before v h) (e : Event) :
    (∃ h' v', r.apply e h = .ok () h' ∧ h.log.Calm h'.log
      ∧ s.Shows before v' h' ∧ s.Clean payload v'
      ∧ v.After payload (r.change? e) v')
    ∨ ((e.kind ≠ .initialized ∧ e.node = none) ∨ Hindered r e h v)
      ∧ ∀ h', r.apply e h = .ok () h' → ¬ h.log.Calm h'.log := by
  have hself : s.Shows h.log v h := ⟨hs.tree, hs.sound, .refl _⟩
  have hsaid : s.Shows before v (e.announced h) :=
    hs.said .info (by simp) e.text
  have hcalmed : s.Shows h.log v (e.announced h) :=
    hself.said .info (by simp) e.text
  by_cases hk : e.kind = .initialized
  · refine Or.inl ⟨e.announced h, v, Replica.apply_initialized hk r h,
      hcalmed.calm, hsaid, hc, ?_⟩
    rw [Replica.change?_initialized hk]
    rfl
  cases hnode : e.node with
  | none =>
      refine Or.inr ⟨Or.inl ⟨hk, rfl⟩, fun h' hok => ?_⟩
      rw [Replica.apply_without hk hnode] at hok
      cases hok
  | some node =>
      cases hplace : r.place? node.path with
      | none =>
          obtain ⟨rejection, hrej⟩ := Remote.toLocal_of_none hplace r.root
          refine Or.inl ⟨_, v, Replica.apply_skipped hk hnode hrej h,
            (hcalmed.said .info (by simp) _).calm,
            hsaid.said .info (by simp) _, hc, ?_⟩
          simp only [Replica.change?, hnode, hplace]
          rfl
      | some l =>
          have hlocal := Remote.toLocal_of_place hplace r.root
          obtain ⟨hn, hpay⟩ := Remote.place?_names hplace
          rw [hr.slot] at hpay
          have hset := turns_settle hr hc e.kind node hn hpay
          rw [← hr.root] at hset
          have hwork := hset before _ hsaid
          have hcalmwork := hset h.log _ hcalmed
          obtain ⟨hgood, hbad⟩ := apply_kept (h := h) hk hnode hlocal
          cases hres : r.settle e.kind node (r.root.descend l)
            (e.announced h) with
          | ok u h' =>
              rw [hres] at hwork hcalmwork
              obtain ⟨v', hs', hafter, hclean⟩ := hwork
              obtain ⟨_, hcalm, -⟩ := hcalmwork
              refine Or.inl ⟨h', v', hgood h' hres, hcalm.calm, hs', hclean,
                ?_⟩
              simpa only [Replica.change?, hnode, hplace] using hafter
          | error setback h' =>
              rw [hres] at hwork hcalmwork
              obtain ⟨_, -, hind⟩ := hwork
              obtain ⟨_, hcalm, -⟩ := hcalmwork
              have hsetback : r.setback? e h = some setback := by
                unfold Replica.setback?
                simp only [hnode, hlocal]
                rw [show r.settle e.kind node (r.root.descend l)
                  { h with log := h.log ++ [⟨.info, e.text⟩] }
                    = .error setback h' from hres]
              refine Or.inr ⟨Or.inr ⟨node, l, setback, hnode, hplace,
                hsetback, hind⟩, fun h'' hok => ?_⟩
              rcases hbad setback h' hres with ⟨halt, herr⟩ | ⟨text, herr⟩
              · rw [herr] at hok
                cases hok
              · rw [herr] at hok
                cases hok
                exact Log.not_calm_error hcalm.calm text

/-- An event that was applied without a failure or an error report has
made the change it asks for. -/
theorem apply_shows (hr : s.Keeps payload r) (hc : s.Clean payload v)
    (hs : s.Shows before v h) {e : Event} (hok : r.apply e h = .ok () h')
    (hcalm : h.log.Calm h'.log) :
    ∃ v', s.Shows before v' h' ∧ s.Clean payload v'
      ∧ v.After payload (r.change? e) v' := by
  rcases apply_cases hr hc hs e with ⟨h₁, v', hok', -, hrest⟩ | ⟨-, hno⟩
  · rw [hok'] at hok
    cases hok
    exact ⟨v', hrest⟩
  · exact absurd hcalm (hno h' hok)

/-- Events that were applied without a failure or an error report have
made their changes in order. -/
theorem follow?_shows (hr : s.Keeps payload r) (hc : s.Clean payload v)
    (hs : s.Shows before v h) {events : List Event}
    (hf : r.follow? events h = some h') :
    ∃ v', s.Shows before v' h' ∧ s.Clean payload v'
      ∧ v.AfterAll payload (events.filterMap r.change?) v' := by
  induction events generalizing h v with
  | nil =>
      cases hf
      exact ⟨v, hs, hc, rfl⟩
  | cons e rest ih =>
      obtain ⟨h₁, hok, hcalm, hf⟩ := Replica.follow?_cons.mp hf
      obtain ⟨v₁, hs₁, hc₁, hafter⟩ := apply_shows hr hc hs hok hcalm
      obtain ⟨v', hs', hc', hall⟩ := ih hc₁ hs₁ hf
      exact ⟨v', hs', hc', hafter.andThen hall⟩

end Site

end TreeReplica
