/-
Ways around an entry that leads to no directory. A path that goes on
behind such an entry leads nowhere, so no way to a directory passes it,
not even as a link (`walk_bypass`): the entry can be taken away, and
another put in its place, and every directory is still reached as it was.

That a link leads to no directory is known from one walk, with some number
of links left to pass; how many are left does not change where a walk
arrives (`walk_unique`).

What else can change without changing a way is what the walk does not look
at: `Looks` is every location that it reads, and on two trees that agree
there it goes the same way (`walk_looks`).
-/
import TreeReplica.Proofs.Disk.Route

namespace TreeReplica

variable {e e' : Entry} {follow : Bool} {links links' : Nat}
  {start here a : Location} {n : String} {parts above rest : List String}
  {place place' before : Place}

-- ======================================================= links to spare

theorem walk_succ (h : walk e follow links start parts = .ok place) :
    walk e follow (links + 1) start parts = .ok place := by
  fun_induction walk e follow links start parts with
  | case1 links start parts reached ht =>
      cases h
      rw [walk, ht]
  | case2 => cases h
  | case3 => cases h
  | case4 start parts l target left ht links ih =>
      rw [walk, ht]
      exact ih h

/-- A walk that arrives goes the same way when it may pass more links. -/
theorem walk_add (h : walk e follow links start parts = .ok place)
    (more : Nat) : walk e follow (links + more) start parts = .ok place := by
  induction more with
  | zero => exact h
  | succ more ih => exact walk_succ ih

/-- The walks that arrive arrive at one place, whatever number of links
they may pass. -/
theorem walk_unique (h : walk e follow links start parts = .ok place)
    (h' : walk e follow links' start parts = .ok place') :
    place = place' := by
  have hall := walk_add h links'
  have hall' := walk_add h' links
  rw [Nat.add_comm] at hall'
  exact Except.ok.inj (hall.symm.trans hall')

-- ======================================================= the last name

/-- A walk that ends at a name below a directory has asked for that
name. -/
theorem turn_of_single {l : Location} {k : String}
    (hd : e.view a = some .directory)
    (h : walk e false links a [n] = .ok (.inside l k)) :
    turn e.view a n = .entry (e.view (a ++ [n])) ∧ l = a ∧ k = n := by
  rw [walk_single hd] at h
  split at h
  · cases h
  next hdot =>
  split at h
  · cases h
  next hup =>
  split at h
  · cases h
  next hshort =>
  cases h
  exact ⟨turn_entry hd hdot hup (Nat.le_of_not_lt hshort), rfl, rfl⟩

/-- From the directory before it a path goes on to its last name. -/
theorem walk_onto {there : Option Shape}
    (hw : walk e true links start above = .ok before)
    (hd : e.view before.location = some .directory)
    (hturn : turn e.view before.location n = .entry there)
    (hends : follow = false ∨ ∀ t, there ≠ some (.link t)) :
    walk e follow links start (above ++ [n])
      = .ok (.inside before.location n) := by
  obtain ⟨left, hleft⟩ := walk_append follow (List.cons_ne_nil n []) hw hd
  rw [hleft, walk, trace_last hturn hends]

-- ======================================================= around an entry

/-- The entry with the name `n` in the directory at `a` leads to no
directory, neither as what it is nor, if it is a link, behind it. -/
structure Bars (e : Entry) (a : Location) (n : String) : Prop where
  other : e.view (a ++ [n]) ≠ some .directory
  behind : ∀ {t links place}, e.view (a ++ [n]) = some (.link t) →
    walk e true links (if t.startsWith "/" then [] else a) (targetParts t)
      = .ok place →
    e.view place.location ≠ some .directory

/-- An entry that is no directory, and from which a walk leads to none. -/
theorem bars_of_walk (hother : e.view (a ++ [n]) ≠ some .directory)
    (hturn : turn e.view a n = .entry (e.view (a ++ [n])))
    (hw : walk e true links a [n] = .ok place)
    (hplace : e.view place.location ≠ some .directory) : Bars e a n := by
  refine ⟨hother, fun {t left reached} ht hreached => ?_⟩
  rw [ht] at hturn
  rw [walk, trace_link hturn (Or.inl rfl)] at hw
  cases links with
  | zero => cases hw
  | succ links =>
      simp only [List.append_nil] at hw
      exact walk_unique hw hreached ▸ hplace

/-- Behind such a link there is no way to a directory. -/
theorem Bars.not_through {t : String} (hb : Bars e a n)
    (ht : e.view (a ++ [n]) = some (.link t))
    (hw : walk e true links (if t.startsWith "/" then [] else a)
      (targetParts t ++ rest) = .ok place) :
    e.view place.location ≠ some .directory := by
  intro hd
  rcases walk_stuck_or e links (if t.startsWith "/" then [] else a)
      (targetParts t) with ⟨before, hbefore, hdir⟩ | ⟨reason, hstuck⟩
  · exact hb.behind ht hbefore hdir
  · by_cases hrest : rest = []
    · rw [hrest, List.append_nil] at hw
      rw [hw] at hstuck
      cases hstuck with
      | nowhere _ nothing => cases nothing.symm.trans hd
      | barred _ there other => exact other (Option.some.inj
          (there.symm.trans hd))
    · rw [walk_append_stuck hrest hstuck] at hw
      cases hw

section Bypass

variable (hb : Bars e a n)
  (hkept : ∀ m x, m ≠ a ++ [n] → e.view m = some x → e'.view m = some x)

include hb hkept

/-- A trace to a directory goes the same way in a tree without the entry,
unless it meets the entry as a link. -/
private theorem trace_bypass
    (h : (trace e true here parts).Lands e (· = .directory)) :
    trace e' true here parts = trace e true here parts
      ∨ ∃ t rest, e.view (a ++ [n]) = some (.link t)
        ∧ trace e true here parts = .atLink a t rest := by
  have hkeep : ∀ m, e.view m = some .directory →
      e'.view m = some .directory :=
    fun m hm => hkept m _ (fun heq => hb.other (heq ▸ hm)) hm
  have htr := traced e true here parts
  generalize trace e true here parts = tr at h htr ⊢
  induction htr with
  | done => exact Or.inl rfl
  | stop => exact h.elim
  | go asks _ ih =>
      rw [trace_go (turn_go_congr asks (hkeep _ (turn_eq_go asks).1))]
      exact ih h
  | last asks ends =>
      obtain ⟨hv, -, -, -, rfl⟩ := turn_eq_entry asks
      obtain ⟨_, hthere, rfl⟩ := h
      have hturn := turn_entry_congr asks (hkeep _ hv)
      rw [Place.location] at hthere
      rw [hkeep _ hthere] at hturn
      exact Or.inl (trace_last hturn (Or.inr (by simp)))
  | missing => exact h.elim
  | @through here name rest x tr asks free on more ih =>
      obtain ⟨hv, -, -, -, hthere⟩ := turn_eq_entry asks
      by_cases hx : x = .directory
      · subst hx
        have hturn := turn_entry_congr asks (hkeep _ hv)
        rw [hkeep _ hthere] at hturn
        rw [trace_through hturn free on]
        exact ih h
      · rw [← more.eq, trace_other hthere hx on] at h
        exact h.elim
  | @link here name rest t asks on =>
      obtain ⟨hv, -, -, -, hthere⟩ := turn_eq_entry asks
      by_cases heq : here ++ [name] = a ++ [n]
      · obtain ⟨rfl, -⟩ := List.append_inj' heq rfl
        exact Or.inr ⟨t, rest, heq ▸ hthere, rfl⟩
      · have hturn := turn_entry_congr asks (hkeep _ hv)
        rw [hkept _ _ heq hthere] at hturn
        exact Or.inl (trace_link hturn on)

/-- A walk to a directory goes the same way without the entry. -/
theorem walk_bypass (h : walk e true links start parts = .ok place)
    (hd : e.view place.location = some .directory) :
    walk e' true links start parts = .ok place := by
  have hway : ∀ {start parts},
      (trace e true start parts).Lands e (· = .directory) →
      trace e' true start parts = trace e true start parts
        ∨ ∃ t rest, e.view (a ++ [n]) = some (.link t)
          ∧ trace e true start parts = .atLink a t rest :=
    trace_bypass hb hkept
  fun_induction walk e true links start parts with
  | case1 links start parts reached ht =>
      cases h
      rcases hway (by rw [ht]; exact ⟨_, hd, rfl⟩)
        with hsame | ⟨t, rest, -, hat⟩
      · rw [walk, hsame, ht]
      · cases ht.symm.trans hat
  | case2 => cases h
  | case3 => cases h
  | case4 start parts l target left ht links ih =>
      rcases hway (by rw [ht]; trivial) with hsame | ⟨t, rest, hlink, hat⟩
      · rw [walk, hsame, ht]
        exact ih h
      · cases ht.symm.trans hat
        exact absurd hd (hb.not_through hlink h)

end Bypass

-- ================================================== what a walk looks at

/-- The walk through the parts from a location looks at a location: at the
directory in which it asks for a name, and at the entry with that name,
and, on its way from there, at what it looks at next. -/
inductive Looks (v : View) : Location → List String → Location → Prop
  | stands {here : Location} {name : String} {rest : List String} :
      Looks v here (name :: rest) here
  | asks {here : Location} {name : String} {rest : List String}
      {there : Option Shape} (named : turn v here name = .entry there) :
      Looks v here (name :: rest) (here ++ [name])
  | go {here next m : Location} {name : String} {rest : List String}
      (goes : turn v here name = .go next) (more : Looks v next rest m) :
      Looks v here (name :: rest) m
  | through {here m : Location} {name : String} {rest : List String}
      {x : Shape} (there : turn v here name = .entry (some x))
      (more : Looks v (here ++ [name]) rest m) :
      Looks v here (name :: rest) m
  | behind {here m : Location} {name t : String} {rest : List String}
      (there : turn v here name = .entry (some (.link t)))
      (more : Looks v (if t.startsWith "/" then [] else here)
        (targetParts t ++ rest) m) :
      Looks v here (name :: rest) m

section Looks

variable {name : String}

/-- A part for which nothing can be asked is judged by its directory. -/
private theorem turn_stop_congr {v v' : View} {reason : Errno}
    (h : turn v here name = .stop reason) (hhere : v' here = v here) :
    turn v' here name = .stop reason := by
  cases hv : v here with
  | none =>
      rw [turn_none hv] at h
      rw [turn_none (hhere.trans hv)]
      exact h
  | some x =>
      by_cases hx : x = .directory
      · subst hx
        rw [turn_directory hv] at h
        rw [turn_directory (hhere.trans hv)]
        split at h
        · cases h
        next hdot =>
        split at h
        · cases h
        next hup =>
        split at h
        · next hlong =>
            rw [if_neg hdot, if_neg hup, if_pos hlong]
            exact h
        · cases h
      · rw [turn_other hv hx] at h
        rw [turn_other (hhere.trans hv) hx]
        exact h

/-- A part asks for the same where the views agree on what is looked at. -/
private theorem turn_looks
    (h : ∀ m, Looks e.view here (name :: rest) m → e'.view m = e.view m) :
    turn e'.view here name = turn e.view here name := by
  have hhere := h here .stands
  cases hturn : turn e.view here name with
  | stop reason => exact turn_stop_congr hturn hhere
  | go next => exact turn_go_congr hturn (hhere.trans (turn_eq_go hturn).1)
  | entry there =>
      obtain ⟨hdir, -, -, -, hthere⟩ := turn_eq_entry hturn
      rw [turn_entry_congr hturn (hhere.trans hdir), h _ (.asks hturn),
        hthere]

/-- Behind the link that a trace meets the walk looks on. -/
private theorem looks_behind {l m : Location} {t : String}
    (ht : trace e follow here parts = .atLink l t rest)
    (hm : Looks e.view (if t.startsWith "/" then [] else l)
      (targetParts t ++ rest) m) : Looks e.view here parts m := by
  have htr := traced e follow here parts
  generalize trace e follow here parts = tr at ht htr
  induction htr with
  | done => cases ht
  | stop => cases ht
  | go asks _ ih => exact .go asks (ih ht)
  | last => cases ht
  | missing => cases ht
  | through asks _ _ _ ih => exact .through asks (ih ht)
  | link asks =>
      cases ht
      exact .behind asks hm

private theorem trace_looks
    (h : ∀ m, Looks e.view here parts m → e'.view m = e.view m) :
    trace e' follow here parts = trace e follow here parts := by
  have htr := traced e follow here parts
  generalize trace e follow here parts = tr at htr ⊢
  induction htr with
  | done => rfl
  | stop asks => exact trace_stop ((turn_looks h).trans asks)
  | go asks _ ih =>
      rw [trace_go ((turn_looks h).trans asks)]
      exact ih fun m hm => h m (.go asks hm)
  | last asks ends => exact trace_last ((turn_looks h).trans asks) ends
  | missing asks on => exact trace_missing ((turn_looks h).trans asks) on
  | through asks free on _ ih =>
      rw [trace_through ((turn_looks h).trans asks) free on]
      exact ih fun m hm => h m (.through asks hm)
  | link asks on => exact trace_link ((turn_looks h).trans asks) on

/-- Where two trees agree on all that it looks at, a walk goes the same
way. -/
theorem walk_looks
    (h : ∀ m, Looks e.view start parts m → e'.view m = e.view m) :
    walk e' follow links start parts = walk e follow links start parts := by
  fun_induction walk e follow links start parts with
  | case1 links start parts reached ht => rw [walk, trace_looks h, ht]
  | case2 links start parts reason ht => rw [walk, trace_looks h, ht]
  | case3 start parts l target left ht => rw [walk, trace_looks h, ht]
  | case4 start parts l target left ht links ih =>
      rw [walk, trace_looks h, ht]
      exact ih fun m hm => h m (looks_behind ht hm)

end Looks

end TreeReplica
