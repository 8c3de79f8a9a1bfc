/-
Where paths lead when a tree changes. A walk in a tree with fewer entries
goes the same way or finds nothing (`walk_within`), and what is below a
path that leads to nothing is not there either (`walk_append_misses`). A
walk that ends in a name passed through a directory just before
(`walk_concat`), and it ends the same whether a last link is followed or
not, unless it ends at one (`walk_stay`). Where a walk ends, the location
that the path names is the same (`resolveFrom_of_walk`).
-/
import TreeReplica.Proofs.Disk.Walk
import TreeReplica.Disk.Call

namespace TreeReplica

-- ==================================================== trees with less

/-- The view shows nothing that the other one does not show as well. -/
def View.Within (v v' : View) : Prop := ∀ m, v m = none ∨ v m = v' m

theorem View.Within.refl (v : View) : v.Within v := fun _ => Or.inr rfl

theorem View.Within.trans {u v w : View} (h : u.Within v)
    (h' : v.Within w) : u.Within w := by
  intro m
  rcases h m with hu | hu
  · exact Or.inl hu
  · rcases h' m with hv | hv
    · exact Or.inl (hu.trans hv)
    · exact Or.inr (hu.trans hv)

theorem Entry.view_erase_within (e : Entry) {l : Location} (hl : l ≠ []) :
    (e.erase l).view.Within e.view := by
  intro m
  rw [Entry.view_erase e hl]
  split
  · exact Or.inl rfl
  · exact Or.inr rfl

/-- The trace ends where it cannot go on, for a reason. -/
inductive Trace.Stuck (e : Entry) : Errno → Trace → Prop
  | stopped (reason : Errno) : Trace.Stuck e reason (.stopped reason)
  | nowhere (place : Place) (nothing : e.view place.location = none) :
      Trace.Stuck e .noEntry (.arrived place)
  | barred (place : Place) {x : Shape}
      (there : e.view place.location = some x) (other : x ≠ .directory) :
      Trace.Stuck e .notDirectory (.arrived place)

/-- The walk ends where it cannot go on, for a reason. -/
inductive Stuck (e : Entry) : Errno → Except Errno Place → Prop
  | stopped (reason : Errno) : Stuck e reason (.error reason)
  | nowhere (place : Place) (nothing : e.view place.location = none) :
      Stuck e .noEntry (.ok place)
  | barred (place : Place) {x : Shape}
      (there : e.view place.location = some x) (other : x ≠ .directory) :
      Stuck e .notDirectory (.ok place)

variable {e e' : Entry} {follow : Bool} {links : Nat}
  {start here : Location} {parts : List String} {place : Place}

/-- With less in a view a part asks for the same, or finds nothing. -/
theorem turn_within {v v' : View} (h : v'.Within v) (here : Location)
    (name : String) :
    turn v here name = turn v' here name
      ∨ turn v' here name = .stop .noEntry
      ∨ turn v' here name = .entry none := by
  rcases h here with hnone | hsame
  · exact Or.inr (Or.inl (turn_none hnone name))
  by_cases hv : v here = some .directory
  · rw [turn_directory hv, turn_directory (hsame.trans hv)]
    rcases h (here ++ [name]) with hnone | hnext
    · rw [hnone]
      split
      · exact Or.inl rfl
      split
      · exact Or.inl rfl
      split
      · exact Or.inl rfl
      · exact Or.inr (Or.inr rfl)
    · rw [hnext]
      exact Or.inl rfl
  · left
    cases hx : v here with
    | none => rw [turn_none hx, turn_none (hsame.trans hx)]
    | some x =>
        have hother : x ≠ .directory := fun heq => hv (heq ▸ hx)
        rw [turn_other hx hother, turn_other (hsame.trans hx) hother]

theorem trace_within (h : e'.view.Within e.view) (follow : Bool)
    (here : Location) (parts : List String) :
    trace e' follow here parts = trace e follow here parts
      ∨ Trace.Stuck e' .noEntry (trace e' follow here parts) := by
  have htr := traced e' follow here parts
  generalize trace e' follow here parts = tr at htr ⊢
  induction htr with
  | done => exact Or.inl rfl
  | stop asks =>
      rcases asks ▸ turn_within h _ _ with hsame | hnone | hmiss
      · exact Or.inl (trace_stop hsame).symm
      · cases hnone
        exact Or.inr (.stopped _)
      · cases hmiss
  | go asks _ ih =>
      rcases asks ▸ turn_within h _ _ with hsame | hnone | hmiss
      · rw [trace_go hsame]
        exact ih
      · cases hnone
      · cases hmiss
  | last asks ends =>
      rcases asks ▸ turn_within h _ _ with hsame | hnone | hmiss
      · exact Or.inl (trace_last hsame ends).symm
      · cases hnone
      · cases hmiss
        obtain ⟨-, -, -, -, hthere⟩ := turn_eq_entry asks
        exact Or.inr (.nowhere _ hthere)
  | missing => exact Or.inr (.stopped _)
  | through asks free on _ ih =>
      rcases asks ▸ turn_within h _ _ with hsame | hnone | hmiss
      · rw [trace_through hsame free on]
        exact ih
      · cases hnone
      · cases hmiss
  | link asks on =>
      rcases asks ▸ turn_within h _ _ with hsame | hnone | hmiss
      · exact Or.inl (trace_link hsame on).symm
      · cases hnone
      · cases hmiss

/-- A walk whose trace cannot go on cannot go on. -/
theorem stuck_of_trace {reason : Errno} (links : Nat)
    (h : Trace.Stuck e reason (trace e follow start parts)) :
    Stuck e reason (walk e follow links start parts) := by
  unfold walk
  generalize trace e follow start parts = tr at h
  cases h with
  | stopped => exact .stopped _
  | nowhere place nothing => exact .nowhere place nothing
  | barred place there other => exact .barred place there other

/-- In a tree with less a walk goes the same way, or it finds nothing. -/
theorem walk_within (h : e'.view.Within e.view) (follow : Bool)
    (links : Nat) (start : Location) (parts : List String) :
    walk e' follow links start parts = walk e follow links start parts
      ∨ Stuck e' .noEntry (walk e' follow links start parts) := by
  induction links generalizing start parts with
  | zero =>
      rcases trace_within h follow start parts with ht | ht
      · unfold walk
        rw [ht]
        exact Or.inl rfl
      · exact Or.inr (stuck_of_trace _ ht)
  | succ links ih =>
      rcases trace_within h follow start parts with ht | ht
      · unfold walk
        rw [ht]
        cases trace e follow start parts with
        | arrived place => exact Or.inl rfl
        | stopped reason => exact Or.inl rfl
        | atLink l target rest => exact ih _ _
      · exact Or.inr (stuck_of_trace _ ht)

/-- What stands at the end of a walk in a tree with less stands at the end
of the same walk in the whole tree. -/
theorem walk_of_within (h : e'.view.Within e.view)
    (hw : walk e' follow links start parts = .ok place)
    (hthere : e'.view place.location ≠ none) :
    walk e follow links start parts = .ok place
      ∧ e.view place.location = e'.view place.location := by
  refine ⟨?_, ((h place.location).resolve_left hthere).symm⟩
  rcases walk_within h follow links start parts with hsame | hstuck
  · exact hsame.symm.trans hw
  · rw [hw] at hstuck
    cases hstuck with
    | nowhere _ nothing => exact absurd nothing hthere

-- ==================================================== one name at a time

/-- There is no way on from a place where a trace is stuck. -/
theorem Trace.Stuck.on {rest : List String} {reason : Errno}
    (h : Trace.Stuck e reason (.arrived place)) (hrest : rest ≠ []) :
    trace e follow place.location rest = .stopped reason := by
  cases h with
  | nowhere _ nothing => exact trace_nowhere nothing hrest
  | barred _ there other => exact trace_other there other hrest

/-- A trace that is stuck goes no further. -/
private theorem trace_append_stuck {rest : List String} (hrest : rest ≠ [])
    {reason : Errno} (here : Location)
    (h : Trace.Stuck e reason (trace e true here parts)) :
    trace e follow here (parts ++ rest) = .stopped reason := by
  have htr := traced e true here parts
  generalize trace e true here parts = tr at h htr
  induction htr with
  | done => exact h.on hrest
  | stop asks =>
      cases h
      exact trace_stop asks
  | go asks _ ih =>
      rw [List.cons_append, trace_go asks]
      exact ih h
  | @last here name there asks ends =>
      obtain ⟨-, -, -, -, hthere⟩ := turn_eq_entry asks
      cases there with
      | none =>
          cases h with
          | nowhere => exact trace_missing asks hrest
          | barred _ there => cases hthere.symm.trans there
      | some x =>
          have hopen : ∀ t, x ≠ .link t := by simpa using ends
          rw [List.singleton_append, trace_through asks hopen hrest]
          exact h.on hrest
  | missing asks on =>
      cases h
      exact trace_missing asks (by simp [on])
  | through asks free on _ ih =>
      rw [List.cons_append, trace_through asks free (by simp [on])]
      exact ih h
  | link => cases h

/-- A walk that is stuck goes no further. -/
theorem walk_append_stuck {rest : List String} (hrest : rest ≠ [])
    {reason : Errno} (h : Stuck e reason (walk e true links start parts)) :
    walk e follow links start (parts ++ rest) = .error reason := by
  fun_induction walk e true links start parts with
  | case1 links start parts reached ht =>
      have hstuck : Trace.Stuck e reason (trace e true start parts) := by
        rw [ht]
        cases h with
        | nowhere _ nothing => exact .nowhere _ nothing
        | barred _ there other => exact .barred _ there other
      rw [walk, trace_append_stuck hrest start hstuck]
  | case2 links start parts _ ht =>
      have hstuck : Trace.Stuck e reason (trace e true start parts) := by
        rw [ht]
        cases h
        exact .stopped _
      rw [walk, trace_append_stuck hrest start hstuck]
  | case3 start parts l target left ht =>
      cases h
      have hmore := trace_append e follow hrest start parts
      rw [ht] at hmore
      rw [walk, hmore]
  | case4 start parts l target left ht links ih =>
      have hmore := trace_append e follow hrest start parts
      rw [ht] at hmore
      rw [walk, hmore]
      simp only
      rw [← List.append_assoc]
      exact ih h

/-- A walk can go on from a directory only. -/
theorem walk_stuck_or (e : Entry) (links : Nat) (start : Location)
    (parts : List String) :
    (∃ place, walk e true links start parts = .ok place
      ∧ e.view place.location = some .directory)
    ∨ ∃ reason, Stuck e reason (walk e true links start parts) := by
  cases hw : walk e true links start parts with
  | error reason => exact Or.inr ⟨reason, .stopped reason⟩
  | ok place =>
      cases hv : e.view place.location with
      | none => exact Or.inr ⟨_, .nowhere place hv⟩
      | some x =>
          by_cases hx : x = .directory
          · exact Or.inl ⟨place, rfl, by rw [hv, hx]⟩
          · exact Or.inr ⟨_, .barred place hv hx⟩

/-- Before its last part every walk that arrives is at a directory. -/
theorem walk_concat {n : String}
    (h : walk e follow links start (parts ++ [n]) = .ok place) :
    ∃ before left, walk e true links start parts = .ok before
      ∧ e.view before.location = some .directory
      ∧ walk e follow left before.location [n] = .ok place := by
  rcases walk_stuck_or e links start parts
    with ⟨before, hw, hd⟩ | ⟨reason, hstuck⟩
  · obtain ⟨left, hleft⟩ := walk_append follow (List.cons_ne_nil n []) hw hd
    exact ⟨before, left, hw, hd, hleft.symm.trans h⟩
  · rw [walk_append_stuck (List.cons_ne_nil n []) hstuck] at h
    cases h

private theorem trace_inside {l : Location} {n : String}
    (h : trace e follow here parts = .arrived (.inside l n)) :
    e.view l = some .directory := by
  have htr := traced e follow here parts
  generalize trace e follow here parts = tr at h htr
  induction htr with
  | done => cases h
  | stop => cases h
  | go _ _ ih => exact ih h
  | last asks =>
      cases h
      exact (turn_eq_entry asks).1
  | missing => cases h
  | through _ _ _ _ ih => exact ih h
  | link => cases h

/-- A name where a walk arrives is in a directory. -/
theorem walk_inside {l : Location} {n : String}
    (h : walk e follow links start parts = .ok (.inside l n)) :
    e.view l = some .directory := by
  fun_induction walk e follow links start parts with
  | case1 links start parts reached ht =>
      cases h
      exact trace_inside ht
  | case2 => cases h
  | case3 => cases h
  | case4 start parts l target left ht links ih => exact ih h

-- ========================================================== a last link

/-- Whether a last link is followed matters only where one is. -/
private theorem trace_stay (here : Location) (parts : List String) :
    trace e false here parts = trace e true here parts
      ∨ ∃ place t, trace e false here parts = .arrived place
        ∧ e.view place.location = some (.link t) := by
  have htr := traced e false here parts
  generalize trace e false here parts = tr at htr ⊢
  induction htr with
  | done => exact Or.inl rfl
  | stop asks => exact Or.inl (trace_stop asks).symm
  | go asks _ ih =>
      rw [trace_go asks]
      exact ih
  | @last here name there asks ends =>
      by_cases hlink : ∃ t, there = some (.link t)
      · obtain ⟨t, rfl⟩ := hlink
        obtain ⟨-, -, -, -, hthere⟩ := turn_eq_entry asks
        exact Or.inr ⟨_, t, rfl, hthere⟩
      · have hends : ∀ t, there ≠ some (.link t) :=
          fun t heq => hlink ⟨t, heq⟩
        exact Or.inl (trace_last asks (Or.inr hends)).symm
  | missing asks on => exact Or.inl (trace_missing asks on).symm
  | through asks free on _ ih =>
      rw [trace_through asks free on]
      exact ih
  | link asks => exact Or.inl (trace_link asks (Or.inl rfl)).symm

theorem walk_stay (links : Nat) (start : Location) (parts : List String) :
    walk e false links start parts = walk e true links start parts
      ∨ ∃ place t, walk e false links start parts = .ok place
        ∧ e.view place.location = some (.link t) := by
  induction links generalizing start parts with
  | zero =>
      unfold walk
      rcases trace_stay start parts with ht | ⟨place, t, ht, hv⟩
      · rw [ht]
        exact Or.inl rfl
      · rw [ht]
        exact Or.inr ⟨place, t, rfl, hv⟩
  | succ links ih =>
      unfold walk
      rcases trace_stay start parts with ht | ⟨place, t, ht, hv⟩
      · rw [ht]
        cases trace e true start parts with
        | arrived place => exact Or.inl rfl
        | stopped reason => exact Or.inl rfl
        | atLink l target rest => exact ih _ _
      · rw [ht]
        exact Or.inr ⟨place, t, rfl, hv⟩

/-- In a tree with less, a path that led to a directory without a last
link leads on as far with and without following one. -/
theorem walk_stay_within {e e' : Entry} {links : Nat} {start : Location}
    {parts : List String} {place : Place}
    (hless : e'.view.Within e.view)
    (hw : walk e false links start parts = .ok place)
    (hd : e.view place.location = some .directory) :
    walk e' false links start parts = walk e' true links start parts := by
  rcases walk_stay (e := e') links start parts
    with hstay | ⟨place', t, hlink, hl⟩
  · exact hstay
  exfalso
  rcases walk_within hless false links start parts with hsame | hstuck
  · rw [hsame, hw] at hlink
    cases hlink
    rcases hless place.location with hv | hv
    · rw [hv] at hl
      cases hl
    · rw [hv, hd] at hl
      cases hl
  · rw [hlink] at hstuck
    cases hstuck with
    | nowhere _ nothing =>
        rw [nothing] at hl
        cases hl

/-- What is above a directory is one, and above the top is the top. -/
theorem directory_dropLast {l : Location} (h : e.view l = some .directory) :
    e.view l.dropLast = some .directory := by
  rcases List.eq_nil_or_concat l with rfl | ⟨a, n, rfl⟩
  · exact h
  · rw [List.concat_eq_append] at h ⊢
    rw [List.dropLast_concat]
    exact Entry.view_above (List.cons_ne_nil n []) (by simp [h])

/-- One name below a directory, a link with that name not followed. -/
theorem walk_single {l : Location} (hv : e.view l = some .directory)
    (links : Nat) (n : String) :
    walk e false links l [n]
      = if n = "." then .ok (.itself l)
        else if n = ".." then .ok (.itself l.dropLast)
        else if nameLimit < n.utf8ByteSize then .error .nameTooLong
        else .ok (.inside l n) := by
  by_cases hdot : n = "."
  · have hturn := (turn_directory hv n).trans (if_pos hdot)
    rw [if_pos hdot, walk, trace_go hturn]
    rfl
  rw [if_neg hdot]
  by_cases hup : n = ".."
  · have hturn := ((turn_directory hv n).trans (if_neg hdot)).trans
      (if_pos hup)
    rw [if_pos hup, walk, trace_go hturn]
    rfl
  rw [if_neg hup]
  by_cases hlong : nameLimit < n.utf8ByteSize
  · rw [if_pos hlong, walk, trace_stop (turn_tooLong hv hdot hup hlong)]
  · have hturn := turn_entry hv hdot hup (Nat.le_of_not_lt hlong)
    rw [if_neg hlong, walk, trace_last hturn (Or.inl rfl)]

-- =============================================================== disks

namespace Entry

theorem view_eq_link {e : Entry} {l : Location} {t : String} :
    e.view l = some (.link t) ↔ e.get? l = some (.link t) := by
  unfold view
  constructor
  · intro h
    obtain ⟨x, hx, hs⟩ := Option.map_eq_some_iff.mp h
    cases x with
    | directory cs => cases hs
    | file c t' => cases hs
    | link t' =>
        cases hs
        exact hx
  · intro h
    rw [h]
    rfl

end Entry

namespace Disk

variable {d d' : Disk} {p : Path}

-- ======================================================= what is reached

/-- A place is reached by a path that the system takes and that leads
there. -/
theorem reach_eq_ok {subject : Subject} :
    d.reach follow p subject = .ok place
      ↔ hasNull p.text = false ∧ p.text.utf8ByteSize < pathLimit
        ∧ walk d.root follow linkLimit (d.start p.anchor) p.parts
          = .ok place := by
  unfold reach
  split
  · next h => simp [h]
  next hclear =>
  split
  · next h => simp [Nat.not_lt.mpr h]
  next hshort =>
  rw [Nat.not_le] at hshort
  simp only [Bool.not_eq_true] at hclear
  cases walk d.root follow linkLimit (d.start p.anchor) p.parts with
  | ok place' => simp [hclear, hshort]
  | error reason => simp

/-- What is found at a path stands where the path leads. -/
theorem find_eq_ok {l : Location} {x : Entry} :
    d.find follow p = .ok (l, x)
      ↔ ∃ place, d.reach follow p (.path p) = .ok place
        ∧ place.location = l ∧ d.root.get? l = some x := by
  unfold find
  cases d.reach follow p (.path p) with
  | error f => simp [bind, Except.bind]
  | ok place =>
      simp only [bind, Except.bind, Except.ok.injEq, exists_eq_left']
      constructor
      · intro h
        split at h
        · cases h
        next hx =>
        cases h
        exact ⟨rfl, hx⟩
      · intro hmid
        obtain ⟨rfl, hx⟩ := hmid
        rw [hx]
        rfl

/-- An entry that is of a kind has been found. -/
theorem find_of_holds {kind : Entry → Bool}
    (h : holds kind (d.status p) = .ok true) :
    ∃ l x, d.find true p = .ok (l, x) ∧ kind x = true := by
  unfold status at h
  cases hf : d.find true p with
  | ok found =>
      rw [hf] at h
      exact ⟨found.1, found.2, rfl, Except.ok.inj h⟩
  | error f =>
      rw [hf] at h
      cases f with
      | argument e => cases h
      | system e =>
          cases e with
          | linkedTree => cases h
          | refused reason subject =>
              simp only [Except.map, holds] at h
              split at h <;> cases h

/-- Below a path that is stuck nothing is reached. -/
theorem not_reached_of_stuck {reason : Errno} (h : Stuck d.root reason
      (walk d.root true linkLimit (d.start p.anchor) p.parts))
    {l : Location} (hl : l ≠ []) {subject : Subject} :
    d.reach follow (p.descend l) subject ≠ .ok place := by
  intro hr
  obtain ⟨-, -, hw⟩ := reach_eq_ok.mp hr
  have hstop : walk d.root follow linkLimit (d.start (p.descend l).anchor)
      (p.descend l).parts = .error reason := walk_append_stuck hl h
  rw [hstop] at hw
  cases hw

/-- On a disk with less a path leads to the same place, or to nothing. -/
theorem reach_within {subject : Subject}
    (hstart : d'.workingDirectory = d.workingDirectory)
    (h : d'.root.view.Within d.root.view)
    (hr : d.reach follow p subject = .ok place) :
    d'.reach follow p subject = .ok place
      ∨ d'.reach follow p subject
        = .error (.system (.refused .noEntry subject))
      ∨ ∃ place', d'.reach follow p subject = .ok place'
        ∧ d'.root.get? place'.location = none := by
  obtain ⟨hclear, hshort, hw⟩ := reach_eq_ok.mp hr
  have hwalk := walk_within h follow linkLimit (d.start p.anchor) p.parts
  have hsame : d'.start p.anchor = d.start p.anchor := by
    rw [start, start, hstart]
  unfold reach
  rw [hclear, if_neg (by simp), if_neg (by omega), hsame]
  rw [hw] at hwalk
  generalize walk d'.root follow linkLimit (d.start p.anchor) p.parts
    = result at hwalk
  rcases hwalk with rfl | hstuck
  · exact Or.inl rfl
  · cases hstuck with
    | stopped => exact Or.inr (Or.inl rfl)
    | nowhere place' nothing =>
        exact Or.inr (Or.inr ⟨place', rfl, Entry.view_eq_none.mp nothing⟩)

-- ======================================================= canonical form

/-- Past a name that is no link the canonical form keeps the name. -/
theorem resolveFrom_cons {links : Nat} {here : Location} {name : String}
    {rest : List String} (hdot : name ≠ ".") (hup : name ≠ "..")
    (hno : ∀ t, d.root.view (here ++ [name]) ≠ some (.link t)) :
    d.resolveFrom links here (name :: rest)
      = d.resolveFrom links (here ++ [name]) rest := by
  rw [resolveFrom, if_neg hdot, if_neg hup]
  split
  · next t heq => exact absurd (Entry.view_eq_link.mpr heq) (hno t)
  · rfl

/-- At a link the canonical form goes on behind it. -/
theorem resolveFrom_link {links : Nat} {here : Location} {name t : String}
    {rest : List String} (hdot : name ≠ ".") (hup : name ≠ "..")
    (h : d.root.view (here ++ [name]) = some (.link t)) :
    d.resolveFrom (links + 1) here (name :: rest)
      = d.resolveFrom links (if t.startsWith "/" then [] else here)
          (targetParts t ++ rest) := by
  rw [resolveFrom, if_neg hdot, if_neg hup, Entry.view_eq_link.mp h]

/-- The location that a path names is the one at which the trace arrives,
or what the path behind the link names that the trace meets. -/
def Names (d : Disk) (links : Nat) (named : Location) : Trace → Prop
  | .arrived place => named = place.location
  | .stopped _ => True
  | .atLink l target rest => ∀ left, links = left + 1 →
      named = d.resolveFrom left (if target.startsWith "/" then [] else l)
        (targetParts target ++ rest)

/-- The canonical form of a location follows what a trace follows. -/
private theorem resolveFrom_of_trace (links : Nat) (here : Location)
    (parts : List String) :
    d.Names links (d.resolveFrom links here parts)
      (trace d.root true here parts) := by
  have htr := traced d.root true here parts
  generalize trace d.root true here parts = tr at htr
  induction htr with
  | done =>
      rw [resolveFrom]
      rfl
  | stop => trivial
  | go asks _ ih =>
      rw [resolveFrom]
      obtain ⟨-, ⟨hdot, rfl⟩ | ⟨hdot, hup, rfl⟩⟩ := turn_eq_go asks
      · rw [if_pos hdot]
        exact ih
      · rw [if_neg hdot, if_pos hup]
        exact ih
  | last asks ends =>
      obtain ⟨-, hdot, hup, -, rfl⟩ := turn_eq_entry asks
      rw [resolveFrom_cons hdot hup (by simpa using ends), resolveFrom]
      rfl
  | missing => trivial
  | through asks free on _ ih =>
      obtain ⟨-, hdot, hup, -, hthere⟩ := turn_eq_entry asks
      rw [resolveFrom_cons hdot hup (by simpa [hthere] using free)]
      exact ih
  | link asks =>
      intro left hleft
      obtain ⟨-, hdot, hup, -, hthere⟩ := turn_eq_entry asks
      rw [hleft]
      exact resolveFrom_link hdot hup hthere

/-- Where a walk arrives is the location that the path names. -/
theorem resolveFrom_of_walk {links : Nat} {start : Location}
    {parts : List String} {place : Place}
    (h : walk d.root true links start parts = .ok place) :
    d.resolveFrom links start parts = place.location := by
  fun_induction walk d.root true links start parts with
  | case1 links start parts reached ht =>
      cases h
      have hnames := resolveFrom_of_trace (d := d) links start parts
      rwa [ht] at hnames
  | case2 => cases h
  | case3 => cases h
  | case4 start parts l target left ht links ih =>
      have hnames := resolveFrom_of_trace (d := d) (links + 1) start parts
      rw [ht] at hnames
      rw [hnames links rfl]
      exact ih h

/-- Disks with the same links name the same locations. -/
theorem resolveFrom_congr
    (h : ∀ l t, d'.root.view l = some (.link t)
      ↔ d.root.view l = some (.link t)) (links : Nat) (start : Location)
    (parts : List String) :
    d'.resolveFrom links start parts = d.resolveFrom links start parts := by
  fun_induction d.resolveFrom links start parts with
  | case1 links here => rw [resolveFrom]
  | case2 links here rest ih => rw [resolveFrom, if_pos rfl, ih]
  | case3 links here rest hdot ih =>
      rw [resolveFrom, if_neg hdot, if_pos rfl, ih]
  | case4 here name rest hdot hup t heq =>
      have hv := (h _ t).mpr (Entry.view_eq_link.mpr heq)
      rw [resolveFrom, if_neg hdot, if_neg hup, Entry.view_eq_link.mp hv]
  | case5 here name rest hdot hup t heq links ih =>
      have hv := (h _ t).mpr (Entry.view_eq_link.mpr heq)
      rw [resolveFrom_link hdot hup hv]
      exact ih
  | case6 links here name rest hdot hup hno ih =>
      rw [resolveFrom_cons hdot hup fun t ht =>
        hno t (Entry.view_eq_link.mp ((h _ t).mp ht))]
      exact ih

/-- Disks with the same links and the same working directory lead a path
to the same location. -/
theorem resolve_congr (hwd : d'.workingDirectory = d.workingDirectory)
    (h : ∀ l t, d'.root.view l = some (.link t)
      ↔ d.root.view l = some (.link t)) (p : Path) :
    d'.resolve p = d.resolve p := by
  unfold resolve start
  rw [hwd]
  exact resolveFrom_congr h _ _ _

end Disk

end TreeReplica
