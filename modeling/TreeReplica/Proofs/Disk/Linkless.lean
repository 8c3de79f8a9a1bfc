/-
The calls of a disk where nothing is known of a footing but that no link
is in it: entries may have names that are too long to be reached, and
directories may stand anywhere. What a call does when it goes well is
known all the same, and a call that fails has changed nothing and blames
the system. There is one rule for each call, for work on a host that
bears such a tree (`Footing.Bears`).

A call is about what is below the footing only while the footing is open,
so every rule asks for that first. It does not say that the footing is
open after it.
-/
import TreeReplica.Proofs.Disk.Carry
import TreeReplica.Proofs.Disk.Staging

namespace TreeReplica

open Work

-- ============================================================= segments

/-- All parts of a location are names that can be passed to the system. -/
def AllSegments (l : Location) : Prop := ∀ n ∈ l, IsSegment n

theorem AllSegments.names {l : Location} (h : AllSegments l) : AllNames l :=
  fun n hn => (h n hn).toIsName

theorem AllSegments.clear {l : Location} (h : AllSegments l) :
    l.any Disk.hasNull = false := by
  rw [List.any_eq_false]
  intro n hn
  simp [(h n hn).clear]

theorem allSegments_append {a b : Location} :
    AllSegments (a ++ b) ↔ AllSegments a ∧ AllSegments b := by
  unfold AllSegments
  rw [List.forall_mem_append]

theorem AllSegments.concat {a : Location} {n : String} (ha : AllSegments a)
    (hn : IsSegment n) : AllSegments (a ++ [n]) :=
  allSegments_append.mpr ⟨ha, fun _ hm => List.mem_singleton.mp hm ▸ hn⟩

theorem AllSegments.above {a b : Location} (h : AllSegments b)
    (hab : a <+: b) : AllSegments a :=
  fun n hn => h n (hab.subset hn)

/-- A short path of short names fits. -/
theorem AllSegments.fits {s : Footing} {l : Location} (hn : AllSegments l)
    (hsize : (s.path.descend l).text.utf8ByteSize < pathLimit)
    (hnames : ∀ n ∈ l, n.utf8ByteSize ≤ nameLimit) : s.Fits l where
  clear := by
    rw [Disk.hasNull_descend, s.clear, hn.clear]
    rfl
  short := hsize
  names := hnames

theorem isSegment_stagingName (n : Nat) : IsSegment (Disk.stagingName n) :=
  ⟨Disk.isName_stagingName n, Disk.hasNull_stagingName n⟩

namespace Footing

variable {s : Footing} {m : Entry} {a b l : Location} {n k : String}

-- ============================================================== reaching

/-- Below a footing without links a name is reached, or the system says that
it cannot be. -/
theorem reach_split (ho : s.Open m.view) (h : m.view.Linkless)
    (hn : AllSegments (a ++ [n]))
    (follow : Bool) (subject : Subject) :
    (s.Fits (a ++ [n]) ∧ m.view a = some .directory
      ∧ (s.holding m).reach follow (s.path.descend (a ++ [n])) subject
        = .ok (.inside (s.location ++ a) n))
    ∨ (¬ (s.Fits (a ++ [n]) ∧ m.view a = some .directory)
      ∧ ∃ reason, (s.holding m).reach follow (s.path.descend (a ++ [n]))
          subject = .error (.system (.refused reason subject))
        ∧ (Disk.saysAbsent reason = true → m.view a ≠ some .directory)
        ∧ (Disk.saysAbsent reason = false → ¬ s.Fits (a ++ [n]))) := by
  have hr := reach_of_noLinks ho h.base h.noLinks hn.names follow
    subject
  generalize (s.holding m).reach follow (s.path.descend (a ++ [n])) subject
    = result at hr
  cases hr with
  | inside fits parent => exact Or.inl ⟨fits, parent, rfl⟩
  | absent r hr parent =>
      refine Or.inr ⟨fun hp => parent hp.2, r, rfl, fun _ => parent, ?_⟩
      intro hno
      rcases hr with rfl | rfl <;> cases hno
  | tooLong fits =>
      refine Or.inr ⟨fun hp => fits hp.1, _, rfl, ?_, fun _ => fits⟩
      intro hyes
      cases hyes
  | null some =>
      rw [hn.clear] at some
      cases some

/-- What is found at a location below a footing without links: what stands
there, if its path fits, or the reason that there is nothing to be
found. -/
inductive Found (s : Footing) (m : Entry) (l : Location) :
    Except Fault (Location × Entry) → Prop
  | there {x : Entry} (fits : s.Fits l) (stands : m.get? l = some x) :
      Found s m l (.ok (s.location ++ l, x))
  | absent {reason : Errno} {subject : Subject}
      (tells : Disk.saysAbsent reason = true) (nothing : m.view l = none) :
      Found s m l (.error (.system (.refused reason subject)))
  | unfit {reason : Errno} {subject : Subject}
      (other : Disk.saysAbsent reason = false) (fits : ¬ s.Fits l) :
      Found s m l (.error (.system (.refused reason subject)))

theorem found (ho : s.Open m.view) (h : m.view.Linkless)
    (hn : AllSegments (a ++ [n]))
    (follow : Bool) :
    Found s m (a ++ [n])
      ((s.holding m).find follow (s.path.descend (a ++ [n]))) := by
  unfold Disk.find
  rcases reach_split ho h hn follow
      (.path (s.path.descend (a ++ [n])))
    with ⟨fits, -, hr⟩ | ⟨-, reason, hr, habsent, hunfit⟩
  · rw [hr]
    simp only [bind, Except.bind, Place.location, List.append_assoc]
    rw [s.holding_get?]
    cases hx : m.get? (a ++ [n]) with
    | some x => exact .there fits hx
    | none => exact .absent rfl (Entry.view_eq_none.mpr hx)
  · rw [hr]
    cases ht : Disk.saysAbsent reason with
    | true =>
        refine .absent ht (Decidable.byContradiction fun hsome => ?_)
        exact habsent ht (h.above a [n] (by simp) hsome)
    | false => exact .unfit ht (hunfit ht)

/-- With links followed the footing itself is found as well. -/
theorem found_true (ho : s.Open m.view) (h : m.view.Linkless)
    (hn : AllSegments l) :
    Found s m l ((s.holding m).find true (s.path.descend l)) := by
  rcases List.eq_nil_or_concat l with rfl | ⟨a, n, rfl⟩
  · rw [Path.descend_nil, find_self ho h.base]
    have hthere := Found.there s.fits_nil m.get?_nil
    rwa [List.append_nil] at hthere
  · rw [List.concat_eq_append] at *
    exact found ho h hn true

-- ============================================================== the host

/-- The host has the disk of the footing, which holds a tree without links
that looks like `v`; since it was `before` no error was reported, and the
names that it will draw are the same. -/
structure Bears (s : Footing) (before : Host) (v : View) (h : Host) :
    Prop where
  tree : ∃ m, h.disk = s.holding m ∧ m.view = v
  linkless : v.Linkless
  calm : before.log.Calm h.log
  drawn : h.draw = before.draw

variable {α : Type} {v : View} {before : Host}

/-- What a host bears is a tree without links, whatever the work is. -/
theorem bears_of_tree {ε : Type} {w : Work ε α}
    {g : α → View → Prop} {q : ε → View → Prop}
    (h : ∀ m : Entry, m.view = v → v.Linkless →
      Carries (s.Bears before) w v g q) :
    Carries (s.Bears before) w v g q :=
  fun host hs =>
    have ⟨m, _, hv⟩ := hs.tree
    h m hv hs.linkless host hs

theorem bears_of_linkless {ε : Type} {w : Work ε α}
    {g : α → View → Prop} {q : ε → View → Prop}
    (h : v.Linkless → Carries (s.Bears before) w v g q) :
    Carries (s.Bears before) w v g q :=
  bears_of_tree fun _ _ => h

/-- However work ends, what the host bears then has no links. -/
theorem bears_and_linkless {ε : Type} {w : Work ε α}
    {g : α → View → Prop} {q : ε → View → Prop}
    (hw : Carries (s.Bears before) w v g q) :
    Carries (s.Bears before) w v (fun a w => g a w ∧ w.Linkless) q :=
  .intro
    (fun _ _ _ hs hr =>
      have ⟨w, hw, hg⟩ := hw.of_ok hs hr
      ⟨w, hw, hg, hw.linkless⟩)
    (fun _ _ _ hs hr => hw.of_error hs hr)

/-- What is reported does not change what the host bears. -/
theorem bears_say {ε : Type} {level : Level} (hlevel : level ≠ .error)
    (text : String) {g : Unit → View → Prop} {q : ε → View → Prop} (hg : g () v) :
    Carries (s.Bears before) (say level text : Work ε Unit) v g q :=
  fun _ hx => ⟨v, ⟨hx.tree, hx.linkless, hx.calm.report hlevel text, hx.drawn⟩, hg⟩

theorem bears_ask {question : Disk → Except Fault α}
    {g : α → View → Prop} {q : Fault → View → Prop}
    (hq : ∀ m, m.view = v → m.view.Linkless →
      match question (s.holding m) with
      | .ok a => g a v
      | .error f => q f v) :
    Carries (s.Bears before) (ask question) v g q := by
  intro host hs
  obtain ⟨m, hm, hv⟩ := hs.tree
  have hq := hq m hv (hv ▸ hs.linkless)
  unfold ask
  rw [hm]
  cases hr : question (s.holding m) with
  | ok a =>
      rw [hr] at hq
      exact ⟨v, hs, hq⟩
  | error f =>
      rw [hr] at hq
      exact ⟨v, hs, hq⟩

theorem bears_act {change : Disk → Except Fault Disk}
    {g : Unit → View → Prop} {q : Fault → View → Prop}
    (hc : ∀ m, m.view = v → m.view.Linkless →
      match change (s.holding m) with
      | .ok d => ∃ m', d = s.holding m' ∧ m'.view.Linkless ∧ g () m'.view
      | .error f => q f v) :
    Carries (s.Bears before) (act change) v g q := by
  intro host hs
  obtain ⟨m, hm, hv⟩ := hs.tree
  have hc := hc m hv (hv ▸ hs.linkless)
  unfold act
  rw [hm]
  cases hr : change (s.holding m) with
  | ok d =>
      rw [hr] at hc
      obtain ⟨m', rfl, hlinkless, hg⟩ := hc
      exact ⟨_, ⟨⟨m', rfl, rfl⟩, hlinkless, hs.calm, hs.drawn⟩, hg⟩
  | error f =>
      rw [hr] at hc
      exact ⟨v, hs, hc⟩

-- ============================================================ questions

section Questions

variable {q : Fault → View → Prop} (ho : s.Open v)

include ho

/-- A question about the kind of entry at a location: only what stands at
a location that does not fit has no answer. -/
theorem bears_holds (kind : Entry → Bool) (hn : AllSegments l)
    {g : Bool → View → Prop}
    (hg : ∀ m : Entry, m.view = v → (s.Fits l ∨ v l = none) →
      g ((m.get? l).any kind) v)
    (hb : ∀ e, ¬ s.Fits l → q (.system e) v) :
    Carries (s.Bears before)
      (ask fun d => Disk.holds kind (d.status (s.path.descend l))) v g
      q := by
  refine bears_ask fun m hv hl => ?_
  have hf := found_true (hv ▸ ho) hl hn
  unfold Disk.status
  generalize (s.holding m).find true (s.path.descend l) = result at hf
  have hg := hg m hv
  cases hf with
  | there fits stands =>
      rw [stands] at hg
      exact hg (Or.inl fits)
  | absent tells nothing =>
      replace hg := hg (Or.inr (hv ▸ nothing))
      rw [Entry.view_eq_none.mp nothing] at hg
      simp only [Except.map, Disk.holds, tells, if_true]
      exact hg
  | unfit other fits =>
      simp only [Except.map, Disk.holds, other, Bool.false_eq_true, if_false]
      exact hb _ fits

theorem bears_isDirectory (hn : AllSegments l) {g : Bool → View → Prop}
    (hg : s.Fits l ∨ v l = none → g (decide (v l = some .directory)) v)
    (hb : ∀ e, ¬ s.Fits l → q (.system e) v) :
    Carries (s.Bears before) (ask (·.isDirectory (s.path.descend l))) v g q := by
  refine bears_holds ho Entry.isDirectory hn (fun m hv hf => ?_) hb
  rw [m.any_isDirectory, hv]
  exact hg hf

theorem bears_isFile (hn : AllSegments l) {g : Bool → View → Prop}
    (hg : g (Shape.isFile (v l)) v)
    (hb : ∀ e, ¬ s.Fits l → q (.system e) v) :
    Carries (s.Bears before) (ask (·.isFile (s.path.descend l))) v g q := by
  refine bears_holds ho Entry.isFile hn (fun m hv _ => ?_) hb
  rwa [m.any_isFile, hv]

theorem bears_reaches (hn : AllSegments l) {g : Bool → View → Prop}
    (hg : g (v l).isSome v)
    (hb : ∀ e, ¬ s.Fits l → q (.system e) v) :
    Carries (s.Bears before) (ask (·.reaches (s.path.descend l))) v g q := by
  refine bears_holds ho (fun _ => true) hn (fun m hv _ => ?_) hb
  rwa [m.any_true, hv]

/-- In a directory there is no answer about a path that does not fit. -/
theorem bears_reaches_unfit (hn : AllSegments (a ++ [n]))
    (ha : v a = some .directory) (hunfit : ¬ s.Fits (a ++ [n]))
    {g : Bool → View → Prop} (hb : ∀ e, q (.system e) v) :
    Carries (s.Bears before) (ask (·.reaches (s.path.descend (a ++ [n])))) v
      g q := by
  refine bears_ask fun m hv hl => ?_
  subst hv
  unfold Disk.reaches Disk.status Disk.find
  rcases reach_split ho hl hn true (.path (s.path.descend (a ++ [n])))
    with ⟨fits, -, -⟩ | ⟨-, reason, hr, habsent, -⟩
  · exact absurd fits hunfit
  · rw [hr]
    have htells : Disk.saysAbsent reason = false :=
      Bool.eq_false_iff.mpr fun ht => habsent ht ha
    simp only [bind, Except.bind, Except.map, Disk.holds, htells,
      Bool.false_eq_true, if_false]
    exact hb _

omit ho in
/-- A location is found occupied if something stands there and its path
fits. -/
theorem occupied_iff (ho : s.Open m.view) (h : m.view.Linkless)
    (hl : l ≠ [])
    (hn : AllSegments l) :
    (s.holding m).occupied (s.path.descend l) = true
      ↔ s.Fits l ∧ m.view l ≠ none := by
  rcases List.eq_nil_or_concat l with rfl | ⟨a, n, rfl⟩
  · exact absurd rfl hl
  rw [List.concat_eq_append] at *
  have hf := found ho h hn false
  unfold Disk.occupied Disk.linkStatus
  generalize (s.holding m).find false (s.path.descend (a ++ [n])) = result
    at hf
  cases hf with
  | there fits stands =>
      refine iff_of_true rfl ⟨fits, fun hno => ?_⟩
      simp [Entry.view_eq_none.mp hno] at stands
  | absent tells nothing =>
      exact iff_of_false (by simp [Except.map]) fun hp => hp.2 nothing
  | unfit other fits =>
      exact iff_of_false (by simp [Except.map]) fun hp => fits hp.1

theorem bears_size (hn : AllSegments l) {c : Bytes} {t : Stamp}
    (hx : v l = some (.file c t)) {g : Nat → View → Prop}
    (hg : g c.length v) (hb : ∀ e, ¬ s.Fits l → q (.system e) v) :
    Carries (s.Bears before) (ask (·.size (s.path.descend l))) v g q := by
  refine bears_ask fun m hv hl => ?_
  subst hv
  have hf := found_true ho hl hn
  unfold Disk.size Disk.status
  generalize (s.holding m).find true (s.path.descend l) = result at hf
  cases hf with
  | there fits stands =>
      rw [Entry.view_eq_file.mp hx, Option.some.injEq] at stands
      subst stands
      exact hg
  | absent tells nothing =>
      rw [hx] at nothing
      cases nothing
  | unfit other fits => exact hb _ fits

/-- A listing without names is that of an empty directory. -/
theorem bears_list (hn : AllSegments l) {g : List String → View → Prop}
    (hg : ∀ names, g names v) (hb : ∀ e, q (.system e) v) :
    Carries (s.Bears before) (ask (·.list (s.path.descend l))) v g q := by
  refine bears_ask fun m hv hl => ?_
  have hf := found_true (hv ▸ ho) hl hn
  unfold Disk.list Disk.status
  generalize (s.holding m).find true (s.path.descend l) = result at hf
  cases hf with
  | @there x fits stands =>
      cases x with
      | directory cs => exact hg _
      | file c t => exact hb _
      | link t => exact hb _
  | absent tells nothing => exact hb _
  | unfit other fits => exact hb _

end Questions

-- ============================================================== changes

section Changes

variable {g : Unit → View → Prop} {q : Fault → View → Prop}
  (ho : s.Open v)

include ho

theorem bears_write (hn : AllSegments (a ++ [n])) (c : Bytes)
    (hg : s.Fits (a ++ [n]) → v a = some .directory →
      v (a ++ [n]) ≠ some .directory →
      g () (v.set (a ++ [n]) (.file c .written)))
    (hb : ∀ e, ¬ (s.Fits (a ++ [n]) ∧ v a = some .directory
      ∧ v (a ++ [n]) ≠ some .directory) → q (.system e) v) :
    Carries (s.Bears before) (act (·.write (s.path.descend (a ++ [n])) c)) v g
      q := by
  refine bears_act fun m hv hl => ?_
  subst hv
  rcases reach_split ho hl hn true (.path (s.path.descend (a ++ [n])))
    with ⟨fits, ha, hr⟩ | ⟨hno, reason, hr, -⟩
  · rw [write_of_reach hr]
    split
    · next d hd =>
        split at hd
        · cases hd
        · next hother =>
            cases hd
            have hview := Entry.view_insert_file ha n c .written
            refine ⟨_, rfl, ?_, ?_⟩
            · rw [hview]
              exact hl.set ha (by simp)
            · rw [hview]
              exact hg fits ha hother
    · next f hd =>
        split at hd
        · next hx =>
            cases hd
            exact hb _ fun hp => hp.2.2 hx
        · cases hd
  · unfold Disk.write
    rw [hr]
    exact hb _ fun hp => hno ⟨hp.1, hp.2.1⟩

/-- Dating a file that was just written. -/
theorem bears_setTime (hn : AllSegments (a ++ [n]))
    (hf : s.Fits (a ++ [n])) {c : Bytes} {t : Stamp}
    (hx : v (a ++ [n]) = some (.file c t)) {millis : Int}
    (ht : Disk.representable millis = true)
    (hg : g () (v.set (a ++ [n]) (.file c (.dated millis)))) :
    Carries (s.Bears before) (act (·.setTime (s.path.descend (a ++ [n])) millis)) v
      g q := by
  refine bears_act fun m hv hl => ?_
  subst hv
  have ha := hl.above a [n] (by simp) (by simp [hx])
  rcases reach_split ho hl hn true .unnamed
    with ⟨-, -, hr⟩ | ⟨hno, -⟩
  · have hget : (s.holding m).root.get? (s.location ++ a ++ [n])
        = some (.file c t) := by
      rw [List.append_assoc, s.holding_get?, Entry.view_eq_file.mp hx]
    have hview := Entry.view_insert_file ha n c (.dated millis)
    unfold Disk.setTime
    simp only [ht, Bool.not_true, Bool.false_eq_true, if_false, hr, bind,
      Except.bind, Place.location, hget]
    refine ⟨m.insert (a ++ [n]) (.file c (.dated millis)), ?_, ?_, ?_⟩
    · rw [List.append_assoc, s.holding_put]
    · rw [hview]
      exact hl.set ha (by simp)
    · rw [hview]
      exact hg
  · exact absurd ⟨hf, ha⟩ hno

theorem bears_makeDirectory (hn : AllSegments (a ++ [n]))
    (hg : s.Fits (a ++ [n]) → v a = some .directory → v (a ++ [n]) = none →
      g () (v.set (a ++ [n]) .directory))
    (hb : ∀ e, ¬ (s.Fits (a ++ [n]) ∧ v a = some .directory
      ∧ v (a ++ [n]) = none) → q (.system e) v) :
    Carries (s.Bears before) (act (·.makeDirectory (s.path.descend (a ++ [n])))) v
      g q := by
  refine bears_act fun m hv hl => ?_
  subst hv
  rcases reach_split ho hl hn false
      (.path (s.path.descend (a ++ [n])))
    with ⟨fits, ha, hr⟩ | ⟨hno, reason, hr, -⟩
  · rw [makeDirectory_of_reach hr]
    by_cases hx : m.view (a ++ [n]) = none
    · have hview := Entry.view_insert_directory ha n
      rw [if_pos hx]
      refine ⟨_, rfl, ?_, ?_⟩
      · rw [hview]
        exact hl.set ha (by simp)
      · rw [hview]
        exact hg fits ha hx
    · rw [if_neg hx]
      exact hb _ fun hp => hx hp.2.2
  · unfold Disk.makeDirectory
    rw [hr]
    exact hb _ fun hp => hno ⟨hp.1, hp.2.1⟩

/-- Making a directory unless one is there. -/
theorem bears_ensureDirectory (hn : AllSegments (a ++ [n]))
    (hthere : s.Fits (a ++ [n]) → v (a ++ [n]) = some .directory → g () v)
    (hnew : s.Fits (a ++ [n]) → v a = some .directory →
      v (a ++ [n]) = none → g () (v.set (a ++ [n]) .directory))
    (hb : ∀ e, ¬ (s.Fits (a ++ [n]) ∧ v (a ++ [n]) = some .directory) →
      q (.system e) v) :
    Carries (s.Bears before)
      (act (·.ensureDirectory (s.path.descend (a ++ [n])))) v g q := by
  intro host hs
  have hmake := bears_makeDirectory ho hn
    (g := fun _ w => g () w ∧ v (a ++ [n]) = none)
    (q := fun f w => w = v ∧ ∃ e, f = .system e)
    (fun fits ha hx => ⟨hnew fits ha hx, hx⟩) (fun e _ => ⟨rfl, e, rfl⟩)
    host hs
  have hask := bears_isDirectory ho hn
    (g := fun b w => w = v ∧ (s.Fits (a ++ [n]) ∨ v (a ++ [n]) = none)
      ∧ b = decide (v (a ++ [n]) = some .directory))
    (q := fun f w => w = v ∧ ¬ s.Fits (a ++ [n]) ∧ ∃ e, f = .system e)
    (fun hf => ⟨rfl, hf, rfl⟩) (fun e hno => ⟨rfl, hno, e, rfl⟩) host hs
  simp only [act, Disk.ensureDirectory] at hmake ⊢
  simp only [ask] at hask
  cases hr : host.disk.makeDirectory (s.path.descend (a ++ [n])) with
  | ok d =>
      rw [hr] at hmake
      obtain ⟨w, hw, hgood, -⟩ := hmake
      exact ⟨w, hw, hgood⟩
  | error f =>
      rw [hr] at hmake
      obtain ⟨_, _, _, e, rfl⟩ := hmake
      simp only
      cases hd : host.disk.isDirectory (s.path.descend (a ++ [n])) with
      | ok b =>
          rw [hd] at hask
          obtain ⟨_, _, _, hfits, rfl⟩ := hask
          by_cases hx : v (a ++ [n]) = some .directory
          · simp only [hx, decide_true]
            exact ⟨v, hs, hthere (hfits.resolve_right (by simp [hx])) hx⟩
          · simp only [hx, decide_false]
            exact ⟨v, hs, hb _ fun hp => hx hp.2⟩
      | error f =>
          rw [hd] at hask
          obtain ⟨_, _, _, hno, e, rfl⟩ := hask
          exact ⟨v, hs, hb _ fun hp => hno hp.1⟩

/-- Taking away a file. -/
theorem bears_removeFile (hn : AllSegments (a ++ [n]))
    (hg : v (a ++ [n]) ≠ none → v (a ++ [n]) ≠ some .directory →
      g () (v.cut (a ++ [n])))
    (hb : ∀ e, q (.system e) v) :
    Carries (s.Bears before) (act (·.removeFile (s.path.descend (a ++ [n])))) v g
      q := by
  refine bears_act fun m hv hl => ?_
  subst hv
  rcases reach_split ho hl hn false
      (.path (s.path.descend (a ++ [n])))
    with ⟨fits, ha, hr⟩ | ⟨-, reason, hr, -⟩
  · have hview := Entry.view_erase_eq m (List.concat_ne_nil n a)
    rw [removeFile_of_reach hr]
    cases hx : m.view (a ++ [n]) with
    | none => exact hb _
    | some x =>
        rw [hx] at hg
        cases x with
        | directory => exact hb _
        | link t => exact absurd hx (hl.noLinks _ t)
        | file c t =>
            refine ⟨_, rfl, ?_, ?_⟩
            · rw [hview]
              exact hl.cut (by simp)
            · rw [hview]
              exact hg (by simp) (by simp)
  · unfold Disk.removeFile
    rw [hr]
    exact hb _

/-- Taking away a file if there is one. -/
theorem bears_removeFileIfAny (hn : AllSegments (a ++ [n]))
    (hg : (v a = some .directory → s.Fits (a ++ [n])) →
      v (a ++ [n]) ≠ some .directory → g () (v.cut (a ++ [n])))
    (hb : ∀ e, ¬ (s.Fits (a ++ [n]) ∧ v a = some .directory
      ∧ v (a ++ [n]) ≠ some .directory) → q (.system e) v) :
    Carries (s.Bears before)
      (act (·.removeFileIfAny (s.path.descend (a ++ [n])))) v g q := by
  refine bears_act fun m hv hl => ?_
  subst hv
  unfold Disk.removeFileIfAny
  -- where nothing stands there is nothing to take away
  have hsame : (m.view a = some .directory → s.Fits (a ++ [n])) →
      m.view (a ++ [n]) = none → g () m.view := by
    intro hfits hx
    have h := hg hfits (by simp [hx])
    rwa [hl.cut_of_none hx] at h
  rcases reach_split ho hl hn false
      (.path (s.path.descend (a ++ [n])))
    with ⟨fits, ha, hr⟩ | ⟨hno, reason, hr, habsent, -⟩
  · have hview := Entry.view_erase_eq m (List.concat_ne_nil n a)
    rw [removeFile_of_reach hr]
    cases hx : m.view (a ++ [n]) with
    | none => exact ⟨m, rfl, hl, hsame (fun _ => fits) hx⟩
    | some x =>
        rw [hx] at hg hb
        cases x with
        | directory => exact hb _ fun hp => hp.2.2 rfl
        | link t => exact absurd hx (hl.noLinks _ t)
        | file c t =>
            refine ⟨_, rfl, ?_, ?_⟩
            · rw [hview]
              exact hl.cut (by simp)
            · rw [hview]
              exact hg (fun _ => fits) (by simp)
  · have hfail : ∀ e, q (.system e) m.view :=
      fun e => hb e fun hp => hno ⟨hp.1, hp.2.1⟩
    unfold Disk.removeFile
    rw [hr]
    cases reason with
    | noEntry =>
        refine ⟨m, rfl, hl, hsame (fun ha => absurd ha (habsent rfl))
          (Decidable.byContradiction fun hsome => ?_)⟩
        exact habsent rfl (hl.above a [n] (by simp) hsome)
    | _ => exact hfail _

/-- Taking away a directory with all below it. The directory may be left
empty. -/
theorem bears_removeTree (hn : AllSegments (a ++ [n]))
    (hg : g () (v.cut (a ++ [n]))) (hb : ∀ e, q (.system e) v)
    (hleft : ∀ e, v (a ++ [n]) = some .directory →
      q (.system e) (v.set (a ++ [n]) .directory)) :
    Carries (s.Bears before) (removeTree (s.path.descend (a ++ [n]))) v g
      q := by
  intro host hs
  obtain ⟨m, hm, rfl⟩ := hs.tree
  have hl := hs.linkless
  rcases removeTree_cases (s.path.descend (a ++ [n])) host
    with ⟨f, hempty, hr⟩ | ⟨l, k, cs, hreach, hget, hr⟩
  · -- nothing has happened, and only the system can be to blame
    rw [hr]
    refine ⟨m.view, hs, ?_⟩
    have hf := found ho hl hn false
    rw [hm] at hempty
    unfold Disk.emptyTree Disk.linkStatus at hempty
    generalize (s.holding m).find false (s.path.descend (a ++ [n])) = result
      at hf hempty
    cases hf with
    | absent tells nothing =>
        cases hempty
        exact hb _
    | unfit other fits =>
        cases hempty
        exact hb _
    | @there x fits stands =>
        cases x with
        | file c t =>
            cases hempty
            exact hb _
        | link t =>
            refine absurd ?_ (hl.noLinks (a ++ [n]) t)
            rw [Entry.view, stands]
            rfl
        | directory cs =>
            have hx := Entry.view_eq_directory.mpr ⟨cs, stands⟩
            have hreach := reach_fits ho hl.base hl.noLinks hn.names fits
              (hl.above a [n] (by simp) (by simp [hx])) false
              (.path (s.path.descend (a ++ [n])))
            simp only [Except.map, bind, Except.bind, hreach] at hempty
            cases hempty
  · rw [hm] at hreach hget hr
    rcases reach_split ho hl hn false (.path (s.path.descend (a ++ [n])))
      with ⟨-, ha, hinside⟩ | ⟨-, reason, hno, -⟩
    · cases hinside.symm.trans hreach
      have hx : m.view (a ++ [n]) = some .directory := by
        rw [List.append_assoc, s.holding_get?] at hget
        exact Entry.view_eq_directory.mpr ⟨cs, hget⟩
      rcases hr with hr | ⟨e, hr⟩
      · have hview := Entry.view_erase_eq m (List.concat_ne_nil n a)
        rw [hr, List.append_assoc, s.holding_drop m (List.concat_ne_nil n a)]
        refine ⟨_, ⟨⟨_, rfl, hview⟩, hl.cut (by simp), hs.calm,
          hs.drawn⟩, hg⟩
      · have hview := Entry.view_insert_directory ha n
        rw [hr, List.append_assoc, s.holding_put]
        exact ⟨_, ⟨⟨_, rfl, hview⟩, hl.set ha (by simp), hs.calm,
          hs.drawn⟩, hleft e hx⟩
    · cases hno.symm.trans hreach

/-- Taking away an empty directory. -/
theorem bears_removeDirectory (hn : AllSegments (a ++ [n]))
    (hg : g () (v.cut (a ++ [n])))
    (hb : ∀ e, ¬ (s.Fits (a ++ [n]) ∧ v (a ++ [n]) = some .directory
      ∧ ∀ k, v (a ++ [n] ++ [k]) = none) → q (.system e) v) :
    Carries (s.Bears before)
      (act (·.removeDirectory (s.path.descend (a ++ [n])))) v g q := by
  refine bears_act fun m hv hl => ?_
  subst hv
  rcases reach_split ho hl hn false
      (.path (s.path.descend (a ++ [n])))
    with ⟨fits, ha, hr⟩ | ⟨hno, reason, hr, -⟩
  · have hview := Entry.view_erase_eq m (List.concat_ne_nil n a)
    by_cases hp : m.view (a ++ [n]) = some .directory
        ∧ ∀ k, m.view (a ++ [n] ++ [k]) = none
    · rw [removeDirectory_of_reach hr, Entry.get?_of_empty hp.1 hp.2]
      refine ⟨_, rfl, ?_, ?_⟩
      · rw [hview]
        exact hl.cut (by simp)
      · rw [hview]
        exact hg
    · have hb : ∀ e, q (.system e) m.view :=
        fun e => hb e fun hp' => hp hp'.2
      rw [removeDirectory_of_reach hr]
      split
      · next d hd =>
          split at hd
          · cases hd
          · next hx =>
              refine absurd ⟨Entry.view_eq_directory.mpr ⟨[], hx⟩,
                fun k => ?_⟩ hp
              rw [Entry.view_append hx]
              rfl
          · cases hd
          · cases hd
      · next f hd =>
          split at hd
          · cases hd
            exact hb _
          · cases hd
          · cases hd
            exact hb _
          · cases hd
            exact hb _
  · unfold Disk.removeDirectory
    rw [hr]
    refine hb _ fun hp => hno ⟨hp.1, hl.above a [n] (by simp) ?_⟩
    simp [hp.2.1]

/-- Moving a file to a free place. -/
theorem bears_move (hn : AllSegments (a ++ [n]))
    (hk : AllSegments (b ++ [k])) {c : Bytes} {t : Stamp}
    (hx : v (a ++ [n]) = some (.file c t)) (hfree : v (b ++ [k]) = none)
    (hg : s.Fits (a ++ [n]) → s.Fits (b ++ [k]) → v b = some .directory →
      g () ((v.cut (a ++ [n])).set (b ++ [k]) (.file c t)))
    (hb : ∀ e, ¬ (s.Fits (a ++ [n]) ∧ s.Fits (b ++ [k])
      ∧ v b = some .directory) → q (.system e) v) :
    Carries (s.Bears before) (act (·.move (s.path.descend (a ++ [n]))
      (s.path.descend (b ++ [k])))) v g q := by
  refine bears_act fun m hv hl => ?_
  subst hv
  have hnull : Disk.hasNull (s.path.descend (b ++ [k])).text = false := by
    rw [Disk.hasNull_descend, s.clear, hk.clear]
    rfl
  have ha := hl.above a [n] (by simp) (by simp [hx])
  rcases reach_split ho hl hn false
      (.move (s.path.descend (a ++ [n])) (s.path.descend (b ++ [k])))
    with ⟨fits, -, hr⟩ | ⟨hno, reason, hr, -⟩
  · rcases reach_split ho hl hk false
        (.move (s.path.descend (a ++ [n])) (s.path.descend (b ++ [k])))
      with ⟨fits', hdir, hr'⟩ | ⟨hno, reason, hr', -⟩
    · rw [move_of_reach hl hnull hr hr' hx hdir hfree]
      have hcut := Entry.view_erase_eq m (List.concat_ne_nil n a)
      -- the directory of the target is still there without the file
      have hdir' : m.view.cut (a ++ [n]) b = some .directory := by
        rw [View.cut_outside, hdir]
        intro hp
        by_cases hne : b = a ++ [n]
        · rw [hne, hx] at hdir
          cases hdir
        · rw [hl.below (by simp [hx]) hp hne] at hdir
          cases hdir
      have hview : ((m.erase (a ++ [n])).insert (b ++ [k]) (.file c t)).view
          = (m.view.cut (a ++ [n])).set (b ++ [k]) (.file c t) := by
        rw [Entry.view_insert_file (by rw [hcut, hdir']), hcut]
      refine ⟨_, rfl, ?_, ?_⟩
      · rw [hview]
        exact (hl.cut (by simp)).set hdir' (by simp)
      · rw [hview]
        exact hg fits fits' hdir
    · have hmove : (s.holding m).move (s.path.descend (a ++ [n]))
            (s.path.descend (b ++ [k]))
          = .error (.system (.refused reason (.move
              (s.path.descend (a ++ [n])) (s.path.descend (b ++ [k]))))) := by
        unfold Disk.move
        simp only [hnull, hr, hr', bind, Except.bind]
        rfl
      rw [hmove]
      exact hb _ fun hp => hno ⟨hp.2.1, hp.2.2⟩
  · have hmove : (s.holding m).move (s.path.descend (a ++ [n]))
          (s.path.descend (b ++ [k]))
        = .error (.system (.refused reason (.move
            (s.path.descend (a ++ [n])) (s.path.descend (b ++ [k]))))) := by
      unfold Disk.move
      simp only [hnull, hr, bind, Except.bind]
      rfl
    rw [hmove]
    exact hb _ fun hp => hno ⟨hp.1, ha⟩

end Changes

end Footing

end TreeReplica
