/-
Where everything in a replica comes from. Whatever events are applied,
those included that break the contract or are refused by the system, each
file holds the data of the last event that reported its path and was
applied, as that event had it, at the place of the path or in its slot;
and each directory is on the way to a path that was reported, or is an
empty staging directory that was left over (`after_accounted`). The
payload name must be told from the names of staging directories: one that
was left over could stand in a slot (`after_accounted_staging`).

The invariant is `Accounted`. A file can be written, move to the slot of
its place, be dropped with a directory above it and come again as another
kind of entry, so the step looks at how each entry came about (`Source`):
it was there, it is on the way, it moved to its slot, or it is the node's
own.
-/
import Mathlib.Data.List.Induction
import TreeReplica.Proofs.Disk.Detour
import TreeReplica.Proofs.Replica.History
import TreeReplica.Proofs.Replica.Applied
import TreeReplica.Proofs.Replica.Rough.Apply
import TreeReplica.Proofs.Replica.Rough.Strand

namespace TreeReplica

-- ================================================================ reports

/-- An event about a node that is none of the two other kinds reports it. -/
theorem Event.reports_of_kind {e : Event} {node : Node}
    (hi : e.kind ≠ .initialized) (hr : e.kind ≠ .removed)
    (hnode : e.node = some node) : e.Reports node := by
  refine ⟨?_, hnode⟩
  cases hk : e.kind with
  | added => exact Or.inl rfl
  | updated => exact Or.inr rfl
  | removed => exact absurd hk hr
  | initialized => exact absurd hk hi

/-- The event reports the path, or a path below it. -/
def Event.Names (e : Event) (path : String) : Prop :=
  ∃ node, e.Reports node ∧ Remote.IsAbove path node.path

namespace Replica

/-- The node that an event reports, if the event is applied without a
failure and without an error report. -/
def settled? (r : Replica) (h : Host) (e : Event) : Option Node :=
  match r.apply e h with
  | .ok _ h' =>
      if h.log.Calm h'.log ∧ (e.kind = .added ∨ e.kind = .updated) then
        e.node
      else none
  | .error _ _ => none

/-- The node that was reported for a path by the last of the events about
the path that were applied without a failure and without an error
report. -/
def lastReport (r : Replica) : List Event → Host → String → Option Node
  | [], _, _ => none
  | e :: rest, h, path =>
      (r.lastReport rest (r.leave h e) path).or
        ((r.settled? h e).filter (·.path = path))

/-- The nodes that were reported last, with one more report, if any. -/
def noting (last : String → Option Node) (settled : Option Node)
    (path : String) : Option Node :=
  (settled.filter (·.path = path)).or (last path)

variable {r : Replica} {h h' : Host} {e : Event} {events : List Event}
  {node : Node} {last : String → Option Node} {path : String}

theorem noting_none : noting last none = last := rfl

theorem noting_self : noting last (some node) node.path = some node := by
  simp [noting, Option.filter_some]

theorem noting_other (h : node.path ≠ path) :
    noting last (some node) path = last path := by
  simp [noting, Option.filter_some, h]

/-- An event that was applied settles the node that it reports. -/
theorem settled?_of_ok (hok : r.apply e h = .ok () h')
    (hcalm : h.log.Calm h'.log) :
    r.settled? h e = some node ↔ e.Reports node := by
  unfold settled?
  rw [hok]
  simp only
  constructor
  · intro hs
    split at hs
    · next hcond => exact ⟨hcond.2, hs⟩
    · cases hs
  · intro he
    rw [if_pos ⟨hcalm, he.1⟩, he.2]

/-- An event that stopped or was reported as an error settles nothing. -/
theorem settled?_of_not_calm (hno : ∀ h', r.apply e h = .ok () h' →
    ¬ h.log.Calm h'.log) : r.settled? h e = none := by
  unfold settled?
  split
  · next h' hok => rw [if_neg fun hcond => hno h' hok hcond.1]
  · rfl

/-- One more event is the last one, if it settles a node at the path. -/
theorem lastReport_concat (path : String) :
    r.lastReport (events ++ [e]) h path
      = noting (r.lastReport events h) (r.settled? (r.after events h) e)
          path := by
  unfold noting
  induction events generalizing h with
  | nil => simp [lastReport, after]
  | cons e' rest ih =>
      rw [List.cons_append, lastReport, ih, lastReport, Option.or_assoc]
      rfl

end Replica

-- ================================================================ sources

namespace Node

variable {node : Node} {l : Location} {c : Bytes} {t : Stamp} {x : Shape}

/-- Only off the root is a node kept as a file. -/
theorem of_form (h : node.form l = .file c t) :
    l ≠ [] ∧ node.file = .file c t := by
  unfold form at h
  split at h
  · cases h
  · next ho =>
      refine ⟨fun hl => ho ?_, h⟩
      simp [opens, hl]

/-- In its slot a node is kept as a file that is not empty. -/
theorem of_inSlot (h : node.inSlot l = some x) :
    x = node.file ∧ node.bytes ≠ [] := by
  unfold inSlot at h
  split at h
  · next hcond =>
      cases h
      have hdata := (Bool.and_eq_true_iff.mp hcond).2
      exact ⟨rfl, by simpa [hasData] using hdata⟩
  · cases h

end Node

namespace View

variable {payload : String} {node : Node} {l m : Location} {v w : View}
  {x : Shape} {done : Prop}

/-- An empty staging directory. -/
def Leftover (v : View) (l : Location) : Prop :=
  ∃ a k, l = a ++ [Disk.stagingName k] ∧ v l = some .directory
    ∧ ∀ n, v (l ++ [n]) = none

/-- A file at `m` that holds the data of what is kept at `q`: it stands
there, the root apart, or in the slot of the directory there. -/
def IsHome (payload : String) (v : View) (q m : Location) : Prop :=
  (m = q ∧ q ≠ []) ∨ (m = q ++ [payload] ∧ v q = some .directory)

/-- Above a slot there is a directory. -/
theorem isHome_slot (hv : v.Linkless) (hm : v m ≠ none)
    (hslot : m = l ++ [payload]) : IsHome payload v l m :=
  Or.inr ⟨hslot, hv.above l [payload] (by simp) (hslot ▸ hm)⟩

/-- In a view that shows the file as well, its home is the same. -/
theorem IsHome.keeps {q : Location} (h : IsHome payload v q m)
    (hw : w.Linkless) (hm : w m ≠ none) : IsHome payload w q m := by
  rcases h with hplace | ⟨hslot, -⟩
  · exact Or.inl hplace
  · exact isHome_slot hw hm hslot

/-- How an entry at `m` came about in `w`, where `v` was before, when an
event about a node kept at `l` was worked on. If the work was `done`, what
stands at the place and in its slot is the node's own. -/
inductive Source (payload : String) (node : Node) (l : Location)
    (done : Prop) (v w : View) (m : Location) : Shape → Prop
  | stem {x : Shape} (stem : Stem payload l v w m x)
      (away : done → m ≠ l ∧ m ≠ l ++ [payload]) :
      Source payload node l done v w m x
  | place (finished : done) (here : m = l) :
      Source payload node l done v w m (node.form l)
  | slot {x : Shape} (finished : done) (here : m = l ++ [payload])
      (holds : node.inSlot l = some x) :
      Source payload node l done v w m x

/-- All that is there when a node is kept. -/
theorem source_of_keep
    (h : (Change.keep node l).outcome payload v m = some x) :
    Source payload node l True v ((Change.keep node l).outcome payload v) m
      x := by
  have hx := h
  rw [Change.outcome_apply, Change.effect_keep] at h
  by_cases hp : l <+: m
  · rw [if_pos hp] at h
    by_cases hm : m = l
    · rw [if_pos hm] at h
      cases h
      exact .place trivial hm
    rw [if_neg hm] at h
    by_cases ho : node.opens l = false
    · rw [if_pos ho] at h
      cases h
    rw [if_neg ho] at h
    by_cases hs : m = l ++ [payload]
    · rw [if_pos hs] at h
      exact .slot trivial hs h
    · rw [if_neg hs] at h
      exact .stem (.stays h) fun _ => ⟨hm, hs⟩
  rw [if_neg hp] at h
  have haway : True → m ≠ l ∧ m ≠ l ++ [payload] := fun _ =>
    ⟨fun hm => hp (hm ▸ List.prefix_refl l),
      fun hm => hp (hm ▸ List.prefix_append l _)⟩
  unfold wayEffect at h
  by_cases hway : m <+: l
  · rw [if_pos hway] at h
    cases h
    exact .stem (.way hway) haway
  rw [if_neg hway] at h
  by_cases hs : IsSlotOn payload l m
  · rw [if_pos hs] at h
    obtain ⟨hq, -, heq⟩ := hs
    simp only [Effect.at, slotAfter, ← heq] at h
    split at h
    · next c t hfile =>
        split at h
        · cases h
        · next hc =>
            cases h
            exact .stem (.slot hq heq hc hfile) haway
    · exact .stem (.stays h) haway
  · rw [if_neg hs] at h
    exact .stem (.stays h) haway

/-- Clearing a place adds nothing. -/
theorem within_clear (payload : String) (l : Location) (v : View) :
    ((Change.clear l).outcome payload v).Within v := by
  intro m
  rw [Change.outcome_apply, Change.effect_clear]
  by_cases hm : (if l = [] then [payload] else l) <+: m
  · rw [if_pos hm]
    exact Or.inl rfl
  · rw [if_neg hm]
    exact Or.inr rfl

theorem Leftover.directory (hl : v.Leftover m) : v m = some .directory := by
  obtain ⟨-, -, -, hm, -⟩ := hl
  exact hm

/-- Taking away puts nothing into a staging directory. -/
theorem Leftover.within (hl : v.Leftover m) (hw : w.Within v)
    (hm : w m = some .directory) : w.Leftover m := by
  obtain ⟨a, n, heq, -, hempty⟩ := hl
  refine ⟨a, n, heq, hm, fun k => ?_⟩
  rcases hw (m ++ [k]) with hno | hsame
  · exact hno
  · rw [hsame, hempty k]

/-- A staging directory that was left over is still that, or is on the way
to the place. -/
theorem Leftover.keeps (hl : v.Leftover m) (hm : w m = some .directory)
    (hsrc : ∀ k x, w (m ++ [k]) = some x →
      Source payload node l done v w (m ++ [k]) x) :
    w.Leftover m ∨ m <+: l := by
  obtain ⟨a, n, heq, -, hempty⟩ := hl
  by_cases hfull : ∃ k x, w (m ++ [k]) = some x
  · right
    obtain ⟨k, x, hx⟩ := hfull
    cases hsrc k x hx with
    | place finished here =>
        rw [← here]
        exact List.prefix_append m [k]
    | slot finished here holds =>
        obtain rfl := (List.append_inj' here rfl).1
        exact List.prefix_refl m
    | stem stem away =>
        cases stem with
        | stays was =>
            rw [hempty k] at was
            cases was
        | way above => exact (List.prefix_append m [k]).trans above
        | slot above inSlot full was =>
            rwa [(List.append_inj' inSlot rfl).1]
        | staging above inside empty =>
            rwa [(List.append_inj' inside rfl).1]
  · refine Or.inl ⟨a, n, heq, hm, fun k => ?_⟩
    cases hk : w (m ++ [k]) with
    | none => rfl
    | some x => exact absurd ⟨k, x, hk⟩ hfull

end View

-- ============================================================== invariant

open View

/-- Everything in a view is accounted for: by the node that was reported
`last` for a path, and by the paths that were `named`, which are the paths
reported and those above them. -/
structure Accounted (r : Replica) (last : String → Option Node)
    (named : String → Prop) (v : View) : Prop where
  /-- There are no links. -/
  linkless : v.Linkless
  /-- An entry of the payload name is a file that is not empty. -/
  slots : ∀ a x, v (a ++ [r.payload]) = some x →
    ∃ c t, x = .file c t ∧ c ≠ []
  /-- A file stands at the place of a path, the base apart, or in the slot
  of the place, and holds what was reported last for the path. -/
  files : ∀ l c t, v l = some (.file c t) → ∃ p q n,
    Remote.validate p = .ok p ∧ r.place? p = some q
      ∧ IsHome r.payload v q l ∧ last p = some n ∧ c = n.bytes
      ∧ t = .dated n.modifiedAt
  /-- A directory stands at the place of a path that was named. -/
  directories : ∀ l, l ≠ [] → v l = some .directory →
    v.Leftover l ∨ ∃ p, r.place? p = some l ∧ named p

namespace Accounted

variable {r : Replica} {last last' : String → Option Node}
  {named named' : String → Prop} {v w : View} {node : Node} {l : Location}
  {done : Prop}

/-- An empty replica is accounted for. -/
theorem empty : Accounted r last named (Entry.directory []).view := by
  have hnone : ∀ {m : Location} {x : Shape},
      (Entry.directory []).view m = some x → m = [] ∧ x = .directory := by
    intro m x hm
    cases m with
    | nil =>
        cases hm
        exact ⟨rfl, rfl⟩
    | cons n m => cases hm
  refine ⟨Entry.linkless_view rfl fun m t hm => ?_, fun a x hx => ?_,
    fun m c t hm => ?_, fun m hne hm => ?_⟩
  · cases (hnone hm).2
  · exact absurd (hnone hx).1 (by simp)
  · cases (hnone hm).2
  · exact absurd (hnone hm).1 hne

/-- What is reported for paths that are not kept does not matter. -/
theorem mono (h : Accounted r last named v)
    (hlast : ∀ p q, r.place? p = some q → last' p = last p)
    (hnamed : ∀ p, named p → named' p) : Accounted r last' named' v where
  linkless := h.linkless
  slots := h.slots
  files m c t hm := by
    obtain ⟨p, q, n, hp, hq, hhome, hn, hrest⟩ := h.files m c t hm
    exact ⟨p, q, n, hp, hq, hhome, (hlast p q hq).trans hn, hrest⟩
  directories m hne hm := by
    rcases h.directories m hne hm with hleft | ⟨p, hp, hname⟩
    · exact Or.inl hleft
    · exact Or.inr ⟨p, hp, hnamed p hname⟩

/-- Taking away leaves the rest accounted for. -/
theorem within (h : Accounted r last named v) (hw : w.Linkless)
    (hwithin : w.Within v) : Accounted r last named w where
  linkless := hw
  slots a x hx := h.slots a x (hwithin.of_some hx)
  files m c t hm := by
    obtain ⟨p, q, n, hp, hq, hhome, hrest⟩ :=
      h.files m c t (hwithin.of_some hm)
    exact ⟨p, q, n, hp, hq, hhome.keeps hw (by simp [hm]), hrest⟩
  directories m hne hm := by
    rcases h.directories m hne (hwithin.of_some hm) with hleft | hplace
    · exact Or.inl (hleft.within hwithin hm)
    · exact Or.inr hplace

section Grow

variable (hplace : r.place? node.path = some l)
  (h : Accounted r last named v)
  (hsrc : ∀ m x, w m = some x → Source r.payload node l done v w m x)

include hplace h hsrc

/-- What has the payload name after work on an event. -/
theorem grow_slots (hfree : ∀ k, r.payload ≠ Disk.stagingName k)
    (a : Location) (x : Shape) (hx : w (a ++ [r.payload]) = some x) :
    ∃ c t, x = .file c t ∧ c ≠ [] := by
  have hopen : ¬ a ++ [r.payload] <+: l := fun hpre =>
    (Remote.place?_names hplace).2 (hpre.subset (by simp))
  cases hsrc _ x hx with
  | place finished here =>
      subst here
      exact absurd (List.prefix_refl _) hopen
  | slot finished here holds =>
      obtain ⟨rfl, hdata⟩ := Node.of_inSlot holds
      exact ⟨_, _, rfl, hdata⟩
  | stem stem away =>
      cases stem with
      | stays was => exact h.slots a x was
      | way above => exact absurd above hopen
      | slot above inSlot full was =>
          exact ⟨_, _, rfl, fun hc => full (by rw [hc]; rfl)⟩
      | staging above inside empty =>
          exact absurd
            (List.singleton_inj.mp (List.append_inj' inside rfl).2) (hfree _)

/-- The files after work on an event. If the work was done, the node is
the last report for its path. -/
theorem grow_files (hpath : Remote.validate node.path = .ok node.path)
    (hw : w.Linkless)
    (hlast : ∀ p, last' p = last p ∨ (done ∧ p = node.path))
    (hnode : done → last' node.path = some node) (m : Location) (c : Bytes)
    (t : Stamp) (hm : w m = some (.file c t)) :
    ∃ p q n, Remote.validate p = .ok p ∧ r.place? p = some q
      ∧ IsHome r.payload w q m ∧ last' p = some n ∧ c = n.bytes
      ∧ t = .dated n.modifiedAt := by
  -- the home of the node holds the node if the work was done
  have hkept : ∀ {q : Location} {p : String}, r.place? p = some q →
      m = q ∨ m = q ++ [r.payload] →
      (done → m ≠ l ∧ m ≠ l ++ [r.payload]) → last' p = last p := by
    intro q p hq hhome haway
    rcases hlast p with heq | ⟨hdone, rfl⟩
    · exact heq
    rw [hplace] at hq
    cases hq
    rcases hhome with hm | hm
    · exact absurd hm (haway hdone).1
    · exact absurd hm (haway hdone).2
  have hsource := hsrc m _ hm
  have hthere : w m ≠ none := by simp [hm]
  generalize hx : Shape.file c t = x at hsource
  cases hsource with
  | place finished here =>
      obtain ⟨hne, hform⟩ := Node.of_form hx.symm
      cases hform
      exact ⟨node.path, l, node, hpath, hplace, Or.inl ⟨here, hne⟩,
        hnode finished, rfl, rfl⟩
  | slot finished here holds =>
      obtain ⟨rfl, -⟩ := Node.of_inSlot holds
      cases hx
      exact ⟨node.path, l, node, hpath, hplace,
        isHome_slot hw hthere here, hnode finished, rfl, rfl⟩
  | stem stem away =>
      subst hx
      cases stem with
      | stays was =>
          obtain ⟨p, q, n, hp, hq, hhome, hn, hrest⟩ := h.files m c t was
          refine ⟨p, q, n, hp, hq, hhome.keeps hw hthere, ?_, hrest⟩
          rw [hkept hq (hhome.imp (·.1) (·.1)) away, hn]
      | slot above inSlot full was =>
          -- the file stood at a place, for its location is open
          obtain ⟨p, q, n, hp, hq, hhome, hn, hrest⟩ := h.files _ c t was
          obtain ⟨rfl, -⟩ := hhome.resolve_right fun hslot =>
            (Remote.place?_names hplace).2
              ((hslot.1 ▸ above).subset (by simp))
          refine ⟨p, _, n, hp, hq, isHome_slot hw hthere inSlot, ?_, hrest⟩
          rw [hkept hq (Or.inr inSlot) away, hn]

/-- The directories after work on an event: those on the way to its node
are named by the event. -/
theorem grow_directories (hb : Remote.validate r.base = .ok r.base)
    (hnamed : ∀ p, named p ∨ Remote.IsAbove p node.path → named' p)
    (m : Location) (hne : m ≠ []) (hm : w m = some .directory) :
    w.Leftover m ∨ ∃ p, r.place? p = some m ∧ named' p := by
  have hway : m <+: l → ∃ p, r.place? p = some m ∧ named' p := by
    intro hpre
    obtain ⟨p, hp, habove⟩ := Replica.place?_above hb hplace hpre
    exact ⟨p, hp, hnamed p (Or.inr habove)⟩
  have hsource := hsrc m _ hm
  generalize hx : Shape.directory = x at hsource
  cases hsource with
  | place finished here =>
      subst here
      exact Or.inr (hway (List.prefix_refl m))
  | slot finished here holds =>
      obtain ⟨rfl, -⟩ := Node.of_inSlot holds
      cases hx
  | stem stem away =>
      subst hx
      cases stem with
      | way above => exact Or.inr (hway above)
      | staging above inside empty =>
          exact Or.inl ⟨_, _, inside, hm, empty⟩
      | stays was =>
          rcases h.directories m hne was with hleft | ⟨p, hp, hname⟩
          · exact (hleft.keeps hm fun k y hy => hsrc _ y hy).imp_right hway
          · exact Or.inr ⟨p, hp, hnamed p (Or.inl hname)⟩

/-- Work on an event about a node leaves everything accounted for: by the
reports before, if it was not done, and if it was, with the node as the
last report for its path. -/
theorem grow (hb : Remote.validate r.base = .ok r.base)
    (hfree : ∀ k, r.payload ≠ Disk.stagingName k)
    (hpath : Remote.validate node.path = .ok node.path) (hw : w.Linkless)
    (hlast : ∀ p, last' p = last p ∨ (done ∧ p = node.path))
    (hnode : done → last' node.path = some node)
    (hnamed : ∀ p, named p ∨ Remote.IsAbove p node.path → named' p) :
    Accounted r last' named' w where
  linkless := hw
  slots := grow_slots hplace h hsrc hfree
  files := grow_files hplace h hsrc hpath hw hlast hnode
  directories := grow_directories hplace h hsrc hb hnamed

end Grow

/-- An event that was refused a step leaves everything accounted for, with
nothing reported. -/
theorem refused {e : Event} (hb : Remote.validate r.base = .ok r.base)
    (hfree : ∀ k, r.payload ≠ Disk.stagingName k)
    (hpath : Remote.validate node.path = .ok node.path)
    (hplace : r.place? node.path = some l)
    (h : Accounted r last named v) (hw : w.Linkless)
    (hkind : e.kind ≠ .initialized) (hnode : e.node = some node)
    (hstems : Stems r.payload l v w)
    (hwithin : e.kind = .removed → w.Within v) :
    Accounted r last (fun p => named p ∨ e.Names p) w := by
  by_cases hk : e.kind = .removed
  · exact (h.within hw (hwithin hk)).mono (fun _ _ _ => rfl)
      fun _ hp => Or.inl hp
  have hrep : e.Reports node := Event.reports_of_kind hkind hk hnode
  have hsrc : ∀ m x, w m = some x → Source r.payload node l False v w m x :=
    fun m x hx => .stem (hstems m x hx) False.elim
  exact grow hplace h hsrc hb hfree hpath hw (fun _ => Or.inl rfl) False.elim
    fun p hp => hp.imp_right fun habove => ⟨node, hrep, habove⟩

/-- An event that made its change leaves everything accounted for, with
the node it reports, if any. -/
theorem made {e : Event} {settled : Option Node}
    (hb : Remote.validate r.base = .ok r.base)
    (hfree : ∀ k, r.payload ≠ Disk.stagingName k) (he : e.Proper)
    (h : Accounted r last named v)
    (hw : (Footing.Outcome r.payload v (r.change? e)).Linkless)
    (hset : ∀ n, settled = some n ↔ e.Reports n) :
    Accounted r (Replica.noting last settled)
      (fun p => named p ∨ e.Names p)
      (Footing.Outcome r.payload v (r.change? e)) := by
  cases hc : r.change? e with
  | none =>
      -- a node that is reported all the same is not kept
      refine h.mono (fun p q hq => ?_) fun _ hp => Or.inl hp
      cases hn : settled with
      | none => rfl
      | some n =>
          refine Replica.noting_other fun heq => ?_
          have hchange := Replica.change?_of_reports ((hset n).mp hn)
            (heq ▸ hq)
          rw [hc] at hchange
          cases hchange
  | some c =>
      rw [hc] at hw
      obtain ⟨n, l, hplace, ⟨hrep, rfl⟩ | ⟨hrem, rfl⟩⟩ :=
        Replica.of_change? hc
      · rw [(hset n).mpr hrep]
        refine grow hplace h (fun m x => source_of_keep) hb hfree
          (he n hrep.2).1 hw (fun p => ?_) (fun _ => Replica.noting_self)
          fun p hp => hp.imp_right fun habove => ⟨n, hrep, habove⟩
        by_cases hp : n.path = p
        · exact Or.inr ⟨trivial, hp.symm⟩
        · exact Or.inl (Replica.noting_other hp)
      · have hnone : settled = none := by
          cases hn : settled with
          | none => rfl
          | some n' =>
              have hkind := ((hset n').mp hn).1
              rw [hrem.1] at hkind
              simp at hkind
        rw [hnone, Replica.noting_none]
        exact (h.within hw (within_clear _ l v)).mono (fun _ _ _ => rfl)
          fun _ hp => Or.inl hp

end Accounted

-- ================================================================= events

namespace Site

variable {s : Site} {r : Replica} {before : Host} {h : Host} {e : Event}
  {last : String → Option Node} {named : String → Prop} {v : View}

/-- One event, however it ends, leaves everything accounted for. -/
theorem leave_accounted (hb : Remote.validate r.base = .ok r.base)
    (hfree : ∀ k, r.payload ≠ Disk.stagingName k)
    (hr : s.Keeps r.payload r) (he : e.Proper) (hs : s.Bears before v h)
    (ha : Accounted r last named v) :
    ∃ w, s.Bears (r.leave h e) w (r.leave h e)
      ∧ Accounted r (Replica.noting last (r.settled? h e))
          (fun p => named p ∨ e.Names p) w := by
  have happ := Footing.applies (s.isOpen _) hr he hs.restart
  unfold Replica.leave
  cases hres : r.apply e h with
  | error halt h' =>
      rw [hres] at happ
      have hnone : r.settled? h e = none :=
        Replica.settled?_of_not_calm fun h'' hok => by
          rw [hres] at hok
          cases hok
      rw [hnone, Replica.noting_none]
      cases happ with
      | broken breaks bears =>
          exact ⟨v, bears.restart,
            ha.mono (fun _ _ _ => rfl) fun _ hp => Or.inl hp⟩
  | ok u h' =>
      rw [hres] at happ
      cases happ with
      | made whole bears =>
          exact ⟨_, bears.restart, ha.made hb hfree he bears.linkless
            fun n => Replica.settled?_of_ok hres bears.calm⟩
      | @refused node l w h' text kind about place bears stems within =>
          have hnone : r.settled? h e = none :=
            Replica.settled?_of_not_calm fun h'' hok => by
              rw [hres] at hok
              cases hok
              exact Log.not_calm_error bears.calm text
          rw [hnone, Replica.noting_none]
          exact ⟨w, bears.reported _, ha.refused hb hfree
            (he node about).1 place bears.linkless kind about stems within⟩

/-- Events, however they end, leave everything accounted for. -/
theorem after_bears (hb : Remote.validate r.base = .ok r.base)
    (hfree : ∀ k, r.payload ≠ Disk.stagingName k)
    (hr : s.Keeps r.payload r)
    (hs : s.Bears before (Entry.directory []).view h) {events : List Event}
    (he : ∀ e ∈ events, e.Proper) :
    ∃ w, s.Bears (r.after events h) w (r.after events h)
      ∧ Accounted r (r.lastReport events h)
          (fun p => ∃ e ∈ events, e.Names p) w := by
  induction events using List.reverseRecOn with
  | nil => exact ⟨_, hs.restart, .empty⟩
  | append_singleton events e ih =>
      obtain ⟨w, hw, ha⟩ := ih fun e' he' => he e' (by simp [he'])
      obtain ⟨w', hw', ha'⟩ :=
        leave_accounted hb hfree hr (he e (by simp)) hw ha
      have hafter : r.after (events ++ [e]) h
          = r.leave (r.after events h) e := by simp [Replica.after]
      rw [hafter]
      refine ⟨w', hw', ha'.mono (fun p _ _ => Replica.lastReport_concat p) ?_⟩
      rintro p (⟨e', he', hname⟩ | hname)
      · exact ⟨e', by simp [he'], hname⟩
      · exact ⟨e, by simp, hname⟩

end Site

namespace Replica

variable {r : Replica} {h : Host} {l : Location}

/-- Whatever events are applied to a replica with an empty root, everything
below the root is accounted for. -/
theorem after_accounted (hb : Remote.validate r.base = .ok r.base)
    (hp : IsSegment r.payload)
    (hfree : ∀ k, r.payload ≠ Disk.stagingName k)
    (hroot : h.disk.find true r.root = .ok (l, .directory []))
    (events : List Event) (he : ∀ e ∈ events, e.Proper) :
    Accounted r (r.lastReport events h)
      (fun p => ∃ e ∈ events, e.Names p)
      fun m => (r.after events h).disk.root.view (l ++ m) := by
  obtain ⟨s, -, hpath, rfl, hholds⟩ := Site.exists_of_find hroot
  have hs : s.Bears h (Entry.directory []).view h :=
    ⟨⟨_, hholds.symm, rfl⟩, Site.sound_empty (s := s) |>.linkless, .refl _, rfl⟩
  obtain ⟨w, hw, ha⟩ := Site.after_bears hb hfree ⟨hpath.symm, rfl, hp⟩ hs he
  obtain ⟨m, hm, rfl⟩ := hw.tree
  have hview : (fun k => (r.after events h).disk.root.view
      (s.location ++ k)) = m.view := by
    funext k
    rw [hm, s.holding_view]
  rwa [hview]

/-- A file that moved to its slot when a child came, and stayed when an
event about it broke the contract: it is the data of the last event that
was applied. -/
theorem after_accounted_moved :
    let r : Replica := { root := ⟨.here, ["m"]⟩, payload := "data" }
    let h : Host := { disk := ⟨.directory [("m", .directory [])], []⟩ }
    let events : List Event := [⟨.updated, some ⟨"/a", some [1], 0, 5⟩⟩,
      ⟨.added, some ⟨"/a/b", none, 0, 6⟩⟩,
      ⟨.added, some ⟨"/a", some [2], 0, 7⟩⟩]
    ∃ p q n, Remote.validate p = .ok p ∧ r.place? p = some q
      ∧ IsHome "data" (fun m => (r.after events h).disk.root.view ("m" :: m))
          q ["a", "data"]
      ∧ r.lastReport events h p = some n ∧ [1] = n.bytes
      ∧ Stamp.dated 5 = .dated n.modifiedAt :=
  (after_accounted (r := { root := ⟨.here, ["m"]⟩, payload := "data" })
    (h := { disk := ⟨.directory [("m", .directory [])], []⟩ }) (l := ["m"])
    (by decide +kernel) (by decide)
    (fun k hk => by
      have hstart := congrArg String.toList hk
      rw [Disk.toList_stagingName] at hstart
      cases hstart)
    rfl
    [⟨.updated, some ⟨"/a", some [1], 0, 5⟩⟩,
      ⟨.added, some ⟨"/a/b", none, 0, 6⟩⟩,
      ⟨.added, some ⟨"/a", some [2], 0, 7⟩⟩]
    (by decide +kernel)).files
    ["a", "data"] [1] (.dated 5) (by decide +kernel)

/-- A file, and a node below it, below a root so deep that the path of the
file in its staging directory does not fit: that directory stays. -/
theorem after_stranding {size : Nat}
    (hroot : h.disk.find true r.root = .ok (l, .directory []))
    (hdraw : h.draw = fun _ => 0)
    (hsize : ∀ m, (r.root.descend m).text.utf8ByteSize
      = size + Path.extent m)
    (hlow : size + 17 < pathLimit) (hhigh : pathLimit ≤ size + 20)
    (hp : IsSegment r.payload) (hab : r.place? "/ab" = some ["ab"])
    (habc : r.place? "/ab/c" = some ["ab", "c"]) :
    (r.after [⟨.added, some ⟨"/ab", some [1], 0, 5⟩⟩,
        ⟨.added, some ⟨"/ab/c", some [2], 0, 6⟩⟩] h).disk.root.view
      (l ++ [Disk.stagingName 0]) = some .directory := by
  obtain ⟨s, hpath, rfl, -, hopen, hs⟩ :=
    Footing.exists_bears hroot (Entry.noLinks_of_linkFree rfl)
  have hr : s.Keeps r.payload r := ⟨hpath.symm, rfl, hp⟩
  rw [← hpath] at hsize
  have hfits : ∀ n, IsSegment n → n.utf8ByteSize ≤ 16 → s.Fits [n] := by
    intro n hn hshort
    refine AllSegments.fits (fun k hk => List.mem_singleton.mp hk ▸ hn) ?_
      fun k hk => List.mem_singleton.mp hk ▸ hshort.trans (by decide)
    rw [hsize, Path.extent_cons, Path.extent_nil]
    omega
  have hself : s.Fits [Disk.stagingName 0] :=
    hfits _ (isSegment_stagingName 0) (by decide +kernel)
  have hcramped : ¬ s.Fits [Disk.stagingName 0, "ab"] := by
    intro hfit
    have hshort := hfit.short
    have hlong : Path.extent [Disk.stagingName 0, "ab"] = 20 := by
      decide +kernel
    rw [hsize, hlong] at hshort
    omega
  obtain ⟨h₁, hfirst, hs₁⟩ := Footing.apply_plants hopen hr hs
    (e := ⟨.added, some ⟨"/ab", some [1], 0, 5⟩⟩) rfl rfl hab
    (by decide) rfl (by decide +kernel) (hfits "ab" (by decide) (by decide))
    rfl
  have hopen₁ := hopen.set hs.linkless (l := ["ab"])
    (by simp [Entry.view_cons, Children.get?]) (.file [1] (.dated 5))
  have hn : AllSegments ([] ++ "ab" :: [] ++ ["c"]) := by
    unfold AllSegments
    decide
  obtain ⟨h₂, hsecond, hs₂⟩ := Footing.apply_strands (k := 0)
    (e := ⟨.added, some ⟨"/ab/c", some [2], 0, 6⟩⟩) (hs₁.drawn.trans hdraw)
    (by decide) hopen₁ hr hs₁ (View.set_self ..) (by simp)
    (View.set_outside (by decide +kernel) _) hself hcramped
    (hfits "ab" (by decide) (by decide)) hn rfl rfl habc
  obtain ⟨m, hdisk, hview⟩ := hs₂.tree
  simp only [after, List.foldl, leave, hfirst, hsecond]
  rw [hdisk, s.holding_view, hview]
  exact View.set_self ..

/-- So the payload name has to be no staging name: a staging directory that
stays would have the name of a slot. -/
theorem after_accounted_staging :
    let r : Replica :=
      { root := ⟨.here, Disk.crossing 815⟩, payload := Disk.stagingName 0 }
    let h : Host := { disk := Disk.crossed [] }
    let events : List Event := [⟨.added, some ⟨"/ab", some [1], 0, 5⟩⟩,
      ⟨.added, some ⟨"/ab/c", some [2], 0, 6⟩⟩]
    Remote.validate r.base = .ok r.base ∧ IsSegment r.payload
      ∧ h.disk.find true r.root = .ok (["m"], .directory [])
      ∧ (∀ e ∈ events, e.Proper)
      ∧ (r.after events h).disk.root.view (["m"] ++ [r.payload])
        = some .directory := by
  have hroot : (Disk.crossed []).find true ⟨.here, Disk.crossing 815⟩
      = .ok (["m"], .directory []) := Disk.find_crossing [] (by decide)
  exact ⟨by decide +kernel, isSegment_stagingName 0, hroot,
    by decide +kernel, after_stranding (h := { disk := Disk.crossed [] })
      hroot rfl (Disk.size_descend_crossing 815) (by decide) (by decide)
      (isSegment_stagingName 0) (by decide +kernel) (by decide +kernel)⟩

end Replica

end TreeReplica
