/-
Walks seen through the view of a tree. A walk reads nothing but the
shapes of the entries that it meets. What one part of a path does where a
walk stands is said once (`turn`), and how a whole trace goes is the
relation `Traced`, by induction on which all facts about traces are
proved. Four facts carry what later modules need:

- `walk_append`: a walk that arrives at a directory can be continued from
  there;
- `walk_insert`: a walk that arrives at an empty directory takes the same
  way when the directory is filled, because it cannot have gone below it;
- `walk_kept`: a walk that arrives at a directory takes the same way as
  long as the directories and links on it are kept;
- `trace_below`: below a place without links a walk meets exactly the
  entries of the view, part by part.
-/
import TreeReplica.Disk.Walk
import TreeReplica.Proofs.Disk.View

namespace TreeReplica

-- ========================================================== one part

/-- What one part of a path asks for at a location: nothing can be asked
for there, or the walk goes on at another location, or it is the name of an
entry, which may be there. -/
inductive Turn
  | stop (reason : Errno)
  | go (next : Location)
  | entry (there : Option Shape)

/-- What the part `name` asks for at the location `here`. -/
def turn (v : View) (here : Location) (name : String) : Turn :=
  match v here with
  | none => .stop .noEntry
  | some .directory =>
      if name = "." then .go here
      else if name = ".." then .go here.dropLast
      else if nameLimit < name.utf8ByteSize then .stop .nameTooLong
      else .entry (v (here ++ [name]))
  | some _ => .stop .notDirectory

section Turn

variable {v v' : View} {here next : Location} {name : String}
  {reason : Errno} {there : Option Shape}

/-- In a directory the parts are told apart by their text. -/
theorem turn_directory (hv : v here = some .directory) (name : String) :
    turn v here name
      = if name = "." then .go here
        else if name = ".." then .go here.dropLast
        else if nameLimit < name.utf8ByteSize then .stop .nameTooLong
        else .entry (v (here ++ [name])) := by
  rw [turn, hv]

/-- Only in a directory can anything be asked for. -/
theorem turn_other {x : Shape} (hv : v here = some x)
    (hx : x ≠ .directory) (name : String) :
    turn v here name = .stop .notDirectory := by
  rw [turn, hv]
  cases x with
  | directory => exact absurd rfl hx
  | file c t => rfl
  | link t => rfl

theorem turn_none (hv : v here = none) (name : String) :
    turn v here name = .stop .noEntry := by
  rw [turn, hv]

/-- A part that is not refused starts from a directory. -/
theorem turn_directory_of {t : Turn} (h : turn v here name = t)
    (ht : ∀ reason, t ≠ .stop reason) : v here = some .directory := by
  cases hv : v here with
  | none => exact absurd (h.symm.trans (turn_none hv name)) (ht _)
  | some x =>
      by_cases hx : x = .directory
      · rw [hx]
      · exact absurd (h.symm.trans (turn_other hv hx name)) (ht _)

theorem turn_eq_go (h : turn v here name = .go next) :
    v here = some .directory ∧ ((name = "." ∧ next = here)
      ∨ name ≠ "." ∧ name = ".." ∧ next = here.dropLast) := by
  have hv := turn_directory_of h fun _ hno => by cases hno
  refine ⟨hv, ?_⟩
  rw [turn_directory hv] at h
  split at h
  · next hdot =>
      cases h
      exact Or.inl ⟨hdot, rfl⟩
  next hdot =>
  split at h
  · next hup =>
      cases h
      exact Or.inr ⟨hdot, hup, rfl⟩
  · split at h <;> cases h

theorem turn_eq_entry (h : turn v here name = .entry there) :
    v here = some .directory ∧ name ≠ "." ∧ name ≠ ".."
      ∧ name.utf8ByteSize ≤ nameLimit ∧ v (here ++ [name]) = there := by
  have hv := turn_directory_of h fun _ hno => by cases hno
  refine ⟨hv, ?_⟩
  rw [turn_directory hv] at h
  split at h
  · cases h
  next hdot =>
  split at h
  · cases h
  next hup =>
  split at h
  · cases h
  next hshort =>
  cases h
  exact ⟨hdot, hup, Nat.le_of_not_lt hshort, rfl⟩

/-- A proper name asks for the entry. -/
theorem turn_entry (hv : v here = some .directory) (hdot : name ≠ ".")
    (hup : name ≠ "..") (hshort : name.utf8ByteSize ≤ nameLimit) :
    turn v here name = .entry (v (here ++ [name])) := by
  rw [turn_directory hv, if_neg hdot, if_neg hup,
    if_neg (Nat.not_lt.mpr hshort)]

theorem turn_tooLong (hv : v here = some .directory) (hdot : name ≠ ".")
    (hup : name ≠ "..") (hlong : nameLimit < name.utf8ByteSize) :
    turn v here name = .stop .nameTooLong := by
  rw [turn_directory hv, if_neg hdot, if_neg hup, if_pos hlong]

/-- In another view with the directory the same is asked for. -/
theorem turn_go_congr (h : turn v here name = .go next)
    (hv' : v' here = some .directory) : turn v' here name = .go next := by
  obtain ⟨-, ⟨rfl, rfl⟩ | ⟨hdot, rfl, rfl⟩⟩ := turn_eq_go h
  · rw [turn_directory hv', if_pos rfl]
  · rw [turn_directory hv', if_neg hdot, if_pos rfl]

theorem turn_entry_congr (h : turn v here name = .entry there)
    (hv' : v' here = some .directory) :
    turn v' here name = .entry (v' (here ++ [name])) := by
  obtain ⟨-, hdot, hup, hshort, -⟩ := turn_eq_entry h
  exact turn_entry hv' hdot hup hshort

end Turn

-- ========================================================== all parts

variable {e e' : Entry} {follow : Bool} {here next : Location}
  {name : String} {parts rest : List String} {reason : Errno}
  {there : Option Shape} {tr : Trace}

/-- One step of a trace. -/
theorem trace_cons (e : Entry) (follow : Bool) (here : Location)
    (name : String) (rest : List String) :
    trace e follow here (name :: rest)
      = match turn e.view here name with
        | .stop reason => .stopped reason
        | .go next => trace e follow next rest
        | .entry none =>
            if rest.isEmpty then .arrived (.inside here name)
            else .stopped .noEntry
        | .entry (some (.link target)) =>
            if rest.isEmpty && !follow then .arrived (.inside here name)
            else .atLink here target rest
        | .entry (some _) =>
            if rest.isEmpty then .arrived (.inside here name)
            else trace e follow (here ++ [name]) rest := by
  cases hh : e.get? here with
  | none =>
      rw [turn_none (Entry.view_eq_none.mpr hh)]
      simp only [trace, hh]
  | some x =>
      have hv : e.view here = some x.shape := by simp [Entry.view, hh]
      cases x with
      | file c t =>
          rw [turn_other hv (by simp [Entry.shape])]
          simp only [trace, hh]
      | link t =>
          rw [turn_other hv (by simp [Entry.shape])]
          simp only [trace, hh]
      | directory cs =>
          have hc : e.view (here ++ [name])
              = (Children.get? cs name).map Entry.shape := by
            rw [Entry.view_append hh, Entry.view_cons]
            cases Children.get? cs name <;> simp
          rw [turn_directory hv, hc]
          simp only [trace, hh]
          split
          · rfl
          split
          · rfl
          split
          · rfl
          · cases hg : Children.get? cs name with
            | none => rfl
            | some y => cases y <;> rfl

theorem trace_stop (h : turn e.view here name = .stop reason) :
    trace e follow here (name :: rest) = .stopped reason := by
  rw [trace_cons, h]

theorem trace_go (h : turn e.view here name = .go next) :
    trace e follow here (name :: rest) = trace e follow next rest := by
  rw [trace_cons, h]

/-- The last part arrives at its name, unless that is a link to follow. -/
theorem trace_last (h : turn e.view here name = .entry there)
    (hlink : follow = false ∨ ∀ t, there ≠ some (.link t)) :
    trace e follow here [name] = .arrived (.inside here name) := by
  rw [trace_cons, h]
  cases there with
  | none => rfl
  | some x =>
      cases x with
      | directory => rfl
      | file c t => rfl
      | link t =>
          rcases hlink with rfl | hlink
          · rfl
          · exact absurd rfl (hlink t)

theorem trace_missing (h : turn e.view here name = .entry none)
    (hrest : rest ≠ []) :
    trace e follow here (name :: rest) = .stopped .noEntry := by
  rw [trace_cons, h]
  simp [hrest]

theorem trace_through {x : Shape}
    (h : turn e.view here name = .entry (some x))
    (hlink : ∀ t, x ≠ .link t) (hrest : rest ≠ []) :
    trace e follow here (name :: rest)
      = trace e follow (here ++ [name]) rest := by
  rw [trace_cons, h]
  cases x with
  | link t => exact absurd rfl (hlink t)
  | directory => simp [hrest]
  | file c t => simp [hrest]

theorem trace_link {t : String}
    (h : turn e.view here name = .entry (some (.link t)))
    (hrest : follow = true ∨ rest ≠ []) :
    trace e follow here (name :: rest) = .atLink here t rest := by
  rw [trace_cons, h]
  rcases hrest with rfl | hrest
  · simp
  · simp [hrest]

/-- There is no way on from what is no directory. -/
theorem trace_other {x : Shape} (hv : e.view here = some x)
    (hx : x ≠ .directory) (hparts : parts ≠ []) :
    trace e follow here parts = .stopped .notDirectory := by
  obtain ⟨name, rest, rfl⟩ := List.exists_cons_of_ne_nil hparts
  exact trace_stop (turn_other hv hx name)

theorem trace_nowhere (hv : e.view here = none) (hparts : parts ≠ []) :
    trace e follow here parts = .stopped .noEntry := by
  obtain ⟨name, rest, rfl⟩ := List.exists_cons_of_ne_nil hparts
  exact trace_stop (turn_none hv name)

/-- How a trace goes, part by part. -/
inductive Traced (e : Entry) (follow : Bool) :
    Location → List String → Trace → Prop
  | done {here : Location} : Traced e follow here [] (.arrived (.itself here))
  | stop {here : Location} {name : String} {rest : List String}
      {reason : Errno} (asks : turn e.view here name = .stop reason) :
      Traced e follow here (name :: rest) (.stopped reason)
  | go {here next : Location} {name : String} {rest : List String}
      {tr : Trace} (asks : turn e.view here name = .go next)
      (more : Traced e follow next rest tr) :
      Traced e follow here (name :: rest) tr
  | last {here : Location} {name : String} {there : Option Shape}
      (asks : turn e.view here name = .entry there)
      (ends : follow = false ∨ ∀ t, there ≠ some (.link t)) :
      Traced e follow here [name] (.arrived (.inside here name))
  | missing {here : Location} {name : String} {rest : List String}
      (asks : turn e.view here name = .entry none) (on : rest ≠ []) :
      Traced e follow here (name :: rest) (.stopped .noEntry)
  | through {here : Location} {name : String} {rest : List String}
      {x : Shape} {tr : Trace}
      (asks : turn e.view here name = .entry (some x))
      (free : ∀ t, x ≠ .link t) (on : rest ≠ [])
      (more : Traced e follow (here ++ [name]) rest tr) :
      Traced e follow here (name :: rest) tr
  | link {here : Location} {name : String} {rest : List String}
      {t : String} (asks : turn e.view here name = .entry (some (.link t)))
      (on : follow = true ∨ rest ≠ []) :
      Traced e follow here (name :: rest) (.atLink here t rest)

/-- Every trace goes so. -/
theorem traced (e : Entry) (follow : Bool) (here : Location)
    (parts : List String) :
    Traced e follow here parts (trace e follow here parts) := by
  induction parts generalizing here with
  | nil => exact .done
  | cons name rest ih =>
      cases hturn : turn e.view here name with
      | stop reason =>
          rw [trace_stop hturn]
          exact .stop hturn
      | go next =>
          rw [trace_go hturn]
          exact .go hturn (ih next)
      | entry there =>
          by_cases hlink : ∃ t, there = some (.link t)
          · obtain ⟨t, rfl⟩ := hlink
            by_cases hon : follow = true ∨ rest ≠ []
            · rw [trace_link hturn hon]
              exact .link hturn hon
            · obtain ⟨hfollow, hrest⟩ := not_or.mp hon
              obtain rfl := Decidable.not_not.mp hrest
              have hends : follow = false ∨ ∀ t', some (Shape.link t)
                  ≠ some (.link t') := Or.inl (by simpa using hfollow)
              rw [trace_last hturn hends]
              exact .last hturn hends
          · have hends : ∀ t, there ≠ some (.link t) :=
              fun t heq => hlink ⟨t, heq⟩
            by_cases hrest : rest = []
            · subst hrest
              rw [trace_last hturn (Or.inr hends)]
              exact .last hturn (Or.inr hends)
            · cases there with
              | none =>
                  rw [trace_missing hturn hrest]
                  exact .missing hturn hrest
              | some x =>
                  have hx : ∀ t, x ≠ .link t :=
                    fun t heq => hends t (congrArg some heq)
                  rw [trace_through hturn hx hrest]
                  exact .through hturn hx hrest (ih _)

theorem Traced.eq (h : Traced e follow here parts tr) :
    trace e follow here parts = tr := by
  induction h with
  | done => rfl
  | stop asks => exact trace_stop asks
  | go asks _ ih => exact (trace_go asks).trans ih
  | last asks ends => exact trace_last asks ends
  | missing asks on => exact trace_missing asks on
  | through asks free on _ ih =>
      exact (trace_through asks free on).trans ih
  | link asks on => exact trace_link asks on

-- ======================================================= continuing

/-- How a trace goes on when more parts follow: from the directory at
which it arrives, or behind the link that it meets. -/
def Trace.Continues (e : Entry) (follow : Bool) (rest : List String)
    (whole : Trace) : Trace → Prop
  | .arrived place => e.view place.location = some .directory →
      whole = trace e follow place.location rest
  | .stopped _ => True
  | .atLink l target left => whole = .atLink l target (left ++ rest)

theorem trace_append (e : Entry) (follow : Bool) (hrest : rest ≠ [])
    (here : Location) (parts : List String) :
    Trace.Continues e follow rest (trace e follow here (parts ++ rest))
      (trace e true here parts) := by
  have h := traced e true here parts
  generalize trace e true here parts = tr at h
  induction h with
  | done => exact fun _ => rfl
  | stop => trivial
  | go asks _ ih =>
      rw [List.cons_append, trace_go asks]
      exact ih
  | last asks ends =>
      intro hd
      obtain ⟨-, -, -, -, rfl⟩ := turn_eq_entry asks
      rw [Place.location] at hd
      rw [hd] at asks
      exact trace_through asks (by simp) hrest
  | missing => trivial
  | through asks free on _ ih =>
      rw [List.cons_append, trace_through asks free (by simp [on])]
      exact ih
  | link asks => exact trace_link asks (by simp [hrest])

/-- A walk that arrives at a directory can be continued below it, behind
as many links as are left. -/
theorem walk_append (follow : Bool) (hrest : rest ≠ []) {links : Nat}
    {start : Location} {place : Place}
    (h : walk e true links start parts = .ok place)
    (hd : e.view place.location = some .directory) :
    ∃ left, walk e follow links start (parts ++ rest)
      = walk e follow left place.location rest := by
  fun_induction walk e true links start parts with
  | case1 links start parts reached ht =>
      cases h
      have hmore := trace_append e follow hrest start parts
      rw [ht] at hmore
      refine ⟨links, ?_⟩
      rw [walk, walk, hmore hd]
  | case2 links start parts reason ht => cases h
  | case3 start parts l target left ht => cases h
  | case4 start parts l target left ht links ih =>
      obtain ⟨n, hn⟩ := ih h
      have hmore := trace_append e follow hrest start parts
      rw [ht] at hmore
      refine ⟨n, ?_⟩
      rw [walk, hmore]
      simp only
      rw [← hn, List.append_assoc]

-- ========================================================= the same way

/-- The trace meets a link, or it arrives at an entry of some kind. -/
def Trace.Lands (e : Entry) (kind : Shape → Prop) : Trace → Prop
  | .arrived place => ∃ x, e.view place.location = some x ∧ kind x
  | .stopped _ => False
  | .atLink _ _ _ => True

section Same

variable (kind : Shape → Prop) (hdir : kind .directory)
  (hlink : ∀ t, kind (.link t))
  (hkeep : ∀ m x, e.view m = some x → kind x → e'.view m = some x)

include hdir hlink hkeep

/-- Two trees, the second with all entries of some kind that are in the
first: a trace that arrives at one of them goes the same way in both, since
it passes through directories only. -/
theorem trace_same (h : (trace e follow here parts).Lands e kind) :
    trace e' follow here parts = trace e follow here parts := by
  have htr := traced e follow here parts
  generalize trace e follow here parts = tr at h htr
  induction htr with
  | done => rfl
  | stop => exact h.elim
  | go asks _ ih =>
      have hv := (turn_eq_go asks).1
      rw [trace_go (turn_go_congr asks (hkeep _ _ hv hdir))]
      exact ih h
  | last asks ends =>
      obtain ⟨hv, -, -, -, hthere⟩ := turn_eq_entry asks
      obtain ⟨x, hx, hkind⟩ := h
      have hturn := turn_entry_congr asks (hkeep _ _ hv hdir)
      rw [Place.location] at hx
      rw [hkeep _ _ hx hkind, ← hx, hthere] at hturn
      exact trace_last hturn ends
  | missing => exact h.elim
  | through asks free on more ih =>
      obtain ⟨hv, -, -, -, hthere⟩ := turn_eq_entry asks
      have hturn := turn_entry_congr asks (hkeep _ _ hv hdir)
      rename_i x _
      by_cases hx : x = .directory
      · rw [hkeep _ _ hthere (hx ▸ hdir)] at hturn
        rw [trace_through hturn free on]
        exact ih h
      · rw [← more.eq, trace_other hthere hx on] at h
        exact h.elim
  | link asks on =>
      obtain ⟨hv, -, -, -, hthere⟩ := turn_eq_entry asks
      have hturn := turn_entry_congr asks (hkeep _ _ hv hdir)
      rw [hkeep _ _ hthere (hlink _)] at hturn
      exact trace_link hturn on

/-- A walk that arrives at such an entry takes the same way in both. -/
theorem walk_same {links : Nat} {start : Location} {place : Place}
    {x : Shape} (h : walk e follow links start parts = .ok place)
    (hx : e.view place.location = some x) (hkind : kind x) :
    walk e' follow links start parts = .ok place := by
  have hway : ∀ {start parts},
      (trace e follow start parts).Lands e kind →
      trace e' follow start parts = trace e follow start parts :=
    trace_same kind hdir hlink hkeep
  fun_induction walk e follow links start parts with
  | case1 links start parts reached ht =>
      cases h
      rw [walk, hway (by rw [ht]; exact ⟨x, hx, hkind⟩), ht]
  | case2 links start parts reason ht => cases h
  | case3 start parts l target left ht => cases h
  | case4 start parts l target left ht links ih =>
      rw [walk, hway (by rw [ht]; trivial), ht]
      exact ih h

end Same

/-- A walk that arrives somewhere takes the same way when an empty
directory is filled. -/
theorem walk_insert {l : Location}
    (hl : e.get? l = some (.directory [])) (cs : List (String × Entry))
    {links : Nat} {start : Location} {place : Place}
    (h : walk e follow links start parts = .ok place)
    (hp : e.view place.location ≠ none) :
    walk (e.insert l (.directory cs)) follow links start parts
      = .ok place := by
  have hd : e.view l = some .directory := Entry.view_eq_directory.mpr ⟨[], hl⟩
  have hkeep : ∀ m x, e.view m = some x → True →
      (e.insert l (.directory cs)).view m = some x := by
    intro m x hx _
    rw [Entry.view_insert_over (by simp [hd])]
    split
    · next hbelow =>
        -- in the empty directory there is nothing but itself
        obtain ⟨b, rfl⟩ := hbelow
        rw [Entry.view_append hl] at hx
        cases b with
        | nil =>
            rw [List.append_nil, List.drop_length]
            exact hx
        | cons n b => cases hx
    · exact hx
  obtain ⟨x, hx⟩ := Option.ne_none_iff_exists'.mp hp
  exact walk_same (fun _ => True) trivial (fun _ => trivial) hkeep h hx
    trivial

/-- A walk that arrives at a directory takes the same way when the
directories and links that are there are kept. -/
theorem walk_kept
    (hdir : ∀ m, e.view m = some .directory → e'.view m = some .directory)
    (hlink : ∀ m t, e.view m = some (.link t) → e'.view m = some (.link t))
    {links : Nat} {start : Location} {place : Place}
    (h : walk e follow links start parts = .ok place)
    (hp : e.view place.location = some .directory) :
    walk e' follow links start parts = .ok place := by
  refine walk_same (fun x => x = .directory ∨ ∃ t, x = .link t)
    (Or.inl rfl) (fun t => Or.inr ⟨t, rfl⟩) (fun m x hx hkind => ?_) h hp
    (Or.inl rfl)
  rcases hkind with rfl | ⟨t, rfl⟩
  · exact hdir m hx
  · exact hlink m t hx

-- ================================================ below a clear place

/-- Where a trace through plain names ends when no links are below the
directory at `l` in which it starts: at the last name, if all names
before lead through directories and none is too long; else it stops. -/
theorem trace_below {x : Entry} {l : Location} (hx : e.get? l = some x)
    (hlinks : ∀ m t, x.view m ≠ some (.link t)) (follow : Bool)
    {names : List String} {last : String} {a : Location}
    (hnames : ∀ n ∈ names ++ [last], n ≠ "." ∧ n ≠ "..")
    (ha : x.view a = some .directory) :
    (trace e follow (l ++ a) (names ++ [last])
        = .arrived (.inside (l ++ (a ++ names)) last)
      ∧ x.view (a ++ names) = some .directory
      ∧ ∀ n ∈ names ++ [last], n.utf8ByteSize ≤ nameLimit)
    ∨ (∃ reason, trace e follow (l ++ a) (names ++ [last]) = .stopped reason
      ∧ (reason = .noEntry ∨ reason = .notDirectory)
      ∧ x.view (a ++ names) ≠ some .directory)
    ∨ (trace e follow (l ++ a) (names ++ [last]) = .stopped .nameTooLong
      ∧ ∃ n ∈ names ++ [last], nameLimit < n.utf8ByteSize) := by
  have hview : ∀ b, e.view (l ++ b) = x.view b := Entry.view_append hx
  induction names generalizing a with
  | nil =>
      obtain ⟨hdot, hup⟩ := hnames last (by simp)
      have hv := (hview a).trans ha
      rw [List.nil_append, List.append_nil]
      rcases Nat.lt_or_ge nameLimit last.utf8ByteSize with hlong | hshort
      · exact Or.inr (Or.inr ⟨trace_stop (turn_tooLong hv hdot hup hlong),
          last, by simp, hlong⟩)
      · refine Or.inl ⟨?_, ha, by simpa using hshort⟩
        refine trace_last (turn_entry hv hdot hup hshort) (Or.inr fun t => ?_)
        rw [List.append_assoc, hview]
        exact hlinks _ t
  | cons name names ih =>
      obtain ⟨hdot, hup⟩ := hnames name (by simp)
      have hv := (hview a).trans ha
      rw [List.cons_append]
      rcases Nat.lt_or_ge nameLimit name.utf8ByteSize with hlong | hshort
      · exact Or.inr (Or.inr ⟨trace_stop (turn_tooLong hv hdot hup hlong),
          name, by simp, hlong⟩)
      have hturn := turn_entry hv hdot hup hshort
      rw [List.append_assoc, hview] at hturn
      have hsplit : a ++ name :: names = (a ++ [name]) ++ names := by simp
      -- a name that is no directory ends the trace before the last one
      have hshut : x.view (a ++ [name]) ≠ some .directory →
          x.view (a ++ name :: names) ≠ some .directory := by
        intro hno hyes
        rw [hsplit] at hyes
        cases names with
        | nil => exact hno (by simpa using hyes)
        | cons m names =>
            exact hno (Entry.view_above (List.cons_ne_nil m names)
              (by rw [hyes]; simp))
      cases hs : x.view (a ++ [name]) with
      | none =>
          rw [hs] at hturn
          exact Or.inr (Or.inl ⟨.noEntry, trace_missing hturn (by simp),
            Or.inl rfl, hshut (by simp [hs])⟩)
      | some s =>
          rw [hs] at hturn
          have hon : trace e follow (l ++ a) (name :: (names ++ [last]))
              = trace e follow (l ++ (a ++ [name])) (names ++ [last]) := by
            rw [trace_through hturn (fun t heq => hlinks _ t (heq ▸ hs))
              (by simp), List.append_assoc]
          rw [hon]
          by_cases hdir : s = .directory
          · subst hdir
            have hih := ih (fun n hn => hnames n (List.mem_cons_of_mem _ hn))
              hs
            rw [hsplit]
            rcases hih with ⟨ht, hd, hall⟩ | hstops | ⟨ht, n, hn, hl⟩
            · exact Or.inl ⟨ht, hd, List.forall_mem_cons.mpr ⟨hshort, hall⟩⟩
            · exact Or.inr (Or.inl hstops)
            · exact Or.inr (Or.inr ⟨ht, n, List.mem_cons_of_mem _ hn, hl⟩)
          · refine Or.inr (Or.inl ⟨.notDirectory, ?_, Or.inr rfl,
              hshut (by simpa [hs] using hdir)⟩)
            exact trace_other ((hview _).trans hs) hdir (by simp)

end TreeReplica
