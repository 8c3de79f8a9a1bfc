/-
Work on a site, seen through views. `Turns w v good bad` says of work
that starts where the site shows `v`: if it ends well, with an answer and
a view that `good` allows, nothing worse than information was reported;
if it stops with a failure, `bad` allows the failure and the view it
leaves. The rules for sequences and handlers put such statements
together, and there is one rule for each call of a disk.
-/
import TreeReplica.Proofs.Disk.Carry
import TreeReplica.Proofs.Disk.Change
import TreeReplica.Proofs.Disk.Staging
import TreeReplica.Proofs.Disk.Tidy

namespace TreeReplica

open Work

-- ========================================================== what is shown

namespace Site

/-- The host has the disk of the site, which holds a tidy tree and shows
the view `v`, and since the log was `before` no error was reported. -/
structure Shows (s : Site) (before : Log) (v : View) (h : Host) : Prop where
  tree : ∃ m, h.disk = s.holding m ∧ m.view = v ∧ m.Tidy
  sound : s.Sound v
  calm : before.Calm h.log

/-- What work does where the site shows `v`: how it may end well, and how
it may fail. -/
def Turns {ε α : Type} (s : Site) (w : Work ε α) (v : View)
    (good : α → View → Prop) (bad : ε → View → Prop) : Prop :=
  ∀ before h, s.Shows before v h →
    match w h with
    | .ok a h' => ∃ v', s.Shows before v' h' ∧ good a v'
    | .error e h' => ∃ v', s.Shows before v' h' ∧ bad e v'

variable {s : Site} {v : View} {ε ε' α β : Type}
  {g : α → View → Prop} {bad : ε → View → Prop}

-- ============================================================== sequences

/-- The statement about a site is one for each log that work may start
with. -/
theorem turns_iff {w : Work ε α} :
    s.Turns w v g bad ↔ ∀ before, Carries (s.Shows before) w v g bad :=
  Iff.rfl

theorem turns_pure {a : α} (h : g a v) :
    s.Turns (pure a : Work ε α) v g bad :=
  turns_iff.mpr fun _ => carries_pure h

theorem turns_throw {e : ε} (h : bad e v) :
    s.Turns (throw e : Work ε α) v g bad :=
  turns_iff.mpr fun _ => carries_throw h

/-- What a site shows is sound, whatever the work is. -/
theorem turns_of_sound {w : Work ε α}
    (h : s.Sound v → s.Turns w v g bad) : s.Turns w v g bad :=
  fun before host hs => h hs.sound before host hs

theorem Turns.mono {w : Work ε α} {g' : α → View → Prop}
    {bad' : ε → View → Prop} (h : s.Turns w v g bad)
    (hg : ∀ a v', g a v' → g' a v')
    (hb : ∀ e v', bad e v' → bad' e v') : s.Turns w v g' bad' :=
  turns_iff.mpr fun before => (turns_iff.mp h before).mono hg hb

/-- However work ends, what is shown then is sound. -/
theorem Turns.and_sound {w : Work ε α} (h : s.Turns w v g bad) :
    s.Turns w v (fun a v' => g a v' ∧ s.Sound v')
      (fun e v' => bad e v' ∧ s.Sound v') :=
  turns_iff.mpr fun before => .intro
    (fun _ _ _ hs hr =>
      have ⟨v', hs', hv⟩ := (turns_iff.mp h before).of_ok hs hr
      ⟨v', hs', hv, hs'.sound⟩)
    (fun _ _ _ hs hr =>
      have ⟨v', hs', hv⟩ := (turns_iff.mp h before).of_error hs hr
      ⟨v', hs', hv, hs'.sound⟩)

theorem Turns.bind {w : Work ε α} {k : α → Work ε β}
    {m : α → View → Prop} {g : β → View → Prop}
    (hw : s.Turns w v m bad)
    (hk : ∀ a v', m a v' → s.Turns (k a) v' g bad) :
    s.Turns (w >>= k) v g bad :=
  turns_iff.mpr fun before => (turns_iff.mp hw before).bind
    fun a v' hv => turns_iff.mp (hk a v' hv) before

/-- Work that depends on the host depends on a disk that shows `v`. -/
theorem turns_get_bind {k : Host → Work ε α}
    (hk : ∀ m host, m.view = v → s.Sound m.view →
      host.disk = s.holding m → s.Turns (k host) v g bad) :
    s.Turns (get >>= k) v g bad := by
  refine turns_iff.mpr fun before => carries_get_bind fun h hs => ?_
  obtain ⟨m, hm, hv, htidy⟩ := hs.tree
  exact hk m h hv (hv ▸ hs.sound) hm before

theorem turns_say {level : Level} (hl : level ≠ .error) (text : String)
    {g : Unit → View → Prop} (h : g () v) :
    s.Turns (say level text : Work ε Unit) v g bad :=
  fun _ _ hs => ⟨v, ⟨hs.tree, hs.sound, hs.calm.report hl text⟩, h⟩

-- =============================================================== handlers

theorem Turns.recast {w : Work ε α} {f : ε → ε'} {bad : ε' → View → Prop}
    (h : s.Turns w v g fun e v' => bad (f e) v') :
    s.Turns (recast f w) v g bad :=
  turns_iff.mpr fun before => (turns_iff.mp h before).recast

theorem Turns.rescue {w : Work ε α} {handler : ε → Work ε' α}
    {m : ε → View → Prop} {bad : ε' → View → Prop}
    (hw : s.Turns w v g m)
    (hh : ∀ e v', m e v' → s.Turns (handler e) v' g bad) :
    s.Turns (rescue w handler) v g bad :=
  turns_iff.mpr fun before => (turns_iff.mp hw before).rescue
    fun e v' hv => turns_iff.mp (hh e v' hv) before

theorem Turns.ensuring {w : Work ε α} {last : Work ε Unit}
    {p : α → View → Prop} {q : ε → View → Prop}
    (hw : s.Turns w v p q)
    (hg : ∀ a v', p a v' →
      s.Turns last v' (fun _ v'' => g a v'') bad)
    (hb : ∀ e v', q e v' →
      s.Turns last v' (fun _ v'' => bad e v'') bad) :
    s.Turns (ensuring w last) v g bad :=
  turns_iff.mpr fun before => (turns_iff.mp hw before).ensuring
    (fun a v' hv => turns_iff.mp (hg a v' hv) before)
    (fun e v' hv => turns_iff.mp (hb e v' hv) before)

-- ============================================================== questions

/-- A question whose answer is known up to tolerated faults. -/
theorem turns_ask {question : Disk → Except Fault α} {a : α}
    (tolerated : Fault → Prop) {bad : Fault → View → Prop}
    (hq : ∀ m, m.view = v → s.Sound m.view →
      Yields tolerated (question (s.holding m)) a)
    (hg : g a v) (hb : ∀ f, tolerated f → bad f v) :
    s.Turns (ask question) v g bad := by
  intro before host hs
  obtain ⟨m, hm, hv, htidy⟩ := hs.tree
  unfold ask
  rw [hm]
  rcases hq m hv (hv ▸ hs.sound) with hr | ⟨f, hr, hf⟩
  · rw [hr]
    exact ⟨v, hs, hg⟩
  · rw [hr]
    exact ⟨v, hs, hb f hf⟩

variable {tolerated : Fault → Prop} {bad : Fault → View → Prop}

theorem turns_isDirectory {l : Location} (hn : AllNames l)
    (ht : s.Admits tolerated l) (hb : ∀ f, tolerated f → bad f v)
    {g : Bool → View → Prop} (hg : g (decide (v l = some .directory)) v) :
    s.Turns (ask (·.isDirectory (s.path.descend l))) v g bad :=
  turns_ask tolerated (fun _ hv hs => hv ▸ isDirectory_yields hs hn ht) hg hb

theorem turns_isFile {l : Location} (hn : AllNames l)
    (ht : s.Admits tolerated l) (hb : ∀ f, tolerated f → bad f v)
    {g : Bool → View → Prop} (hg : g (Shape.isFile (v l)) v) :
    s.Turns (ask (·.isFile (s.path.descend l))) v g bad :=
  turns_ask tolerated (fun _ hv hs => hv ▸ isFile_yields hs hn ht) hg hb

theorem turns_reaches {l : Location} (hn : AllNames l)
    (ht : s.Admits tolerated l) (hb : ∀ f, tolerated f → bad f v)
    {g : Bool → View → Prop} (hg : g (v l).isSome v) :
    s.Turns (ask (·.reaches (s.path.descend l))) v g bad :=
  turns_ask tolerated (fun _ hv hs => hv ▸ reaches_yields hs hn ht) hg hb

theorem turns_size {l : Location} {c : Bytes} {t : Stamp}
    (hx : v l = some (.file c t)) {g : Nat → View → Prop}
    (hg : g c.length v) :
    s.Turns (ask (·.size (s.path.descend l))) v g bad :=
  turns_ask (fun _ => False)
    (fun _ hv hs => Or.inl (size_eq hs (hv ▸ hx))) hg fun _ => False.elim

-- ================================================================ changes

/-- A tidy tree on the site shows a sound view. -/
private structure Planted (s : Site) (m : Entry) (v : View) : Prop where
  view : m.view = v
  sound : s.Sound v
  tidy : m.Tidy

section Planted

variable {m : Entry} {a : Location} {n : String}

private theorem Planted.file (h : s.Planted m v) (ha : v a = some .directory)
    (hn : AllNames (a ++ [n])) (fits : s.Fits (a ++ [n])) (c : Bytes)
    (t : Stamp) :
    s.Planted (m.insert (a ++ [n]) (.file c t))
      (v.set (a ++ [n]) (.file c t)) := by
  obtain ⟨rfl, hs, htidy⟩ := h
  exact ⟨Entry.view_insert_file ha n c t, hs.set ha hn fits (by simp),
    htidy.insert (Entry.tidy_file _ _) _⟩

private theorem Planted.directory (h : s.Planted m v)
    (ha : v a = some .directory) (hn : AllNames (a ++ [n]))
    (fits : s.Fits (a ++ [n])) :
    s.Planted (m.insert (a ++ [n]) (.directory []))
      (v.set (a ++ [n]) .directory) := by
  obtain ⟨rfl, hs, htidy⟩ := h
  exact ⟨Entry.view_insert_directory ha n, hs.set ha hn fits (by simp),
    htidy.insert Entry.tidy_empty _⟩

private theorem Planted.cut (h : s.Planted m v) (a : Location) (n : String) :
    s.Planted (m.erase (a ++ [n])) (v.cut (a ++ [n])) := by
  obtain ⟨rfl, hs, htidy⟩ := h
  exact ⟨Entry.view_erase_eq m (by simp), hs.cut (by simp), htidy.erase _⟩

end Planted

/-- A change whose outcome is known up to tolerated faults. -/
private theorem turns_act {change : Disk → Except Fault Disk} {v' : View}
    (tolerated : Fault → Prop) {g : Unit → View → Prop}
    (hq : ∀ m, s.Planted m v →
      (∃ m', change (s.holding m) = .ok (s.holding m') ∧ s.Planted m' v')
      ∨ ∃ f, change (s.holding m) = .error f ∧ tolerated f)
    (hg : g () v') (hb : ∀ f, tolerated f → bad f v) :
    s.Turns (act change) v g bad := by
  intro before host hs
  obtain ⟨m, hm, hv, htidy⟩ := hs.tree
  unfold act
  rw [hm]
  rcases hq m ⟨hv, hs.sound, htidy⟩ with ⟨m', hr, hm'⟩ | ⟨f, hr, hf⟩
  · rw [hr]
    exact ⟨v', ⟨⟨m', rfl, hm'.view, hm'.tidy⟩, hm'.sound, hs.calm⟩,
      hg⟩
  · rw [hr]
    exact ⟨v, hs, hb f hf⟩

theorem turns_write {a : Location} {n : String} (hn : AllNames (a ++ [n]))
    (ha : v a = some .directory) (hd : v (a ++ [n]) ≠ some .directory)
    (ht : s.Admits tolerated (a ++ [n])) (hb : ∀ f, tolerated f → bad f v)
    (c : Bytes) {g : Unit → View → Prop}
    (hg : g () (v.set (a ++ [n]) (.file c .written))) :
    s.Turns (act (·.write (s.path.descend (a ++ [n])) c)) v g bad := by
  refine turns_act tolerated (fun m hm => ?_) hg hb
  obtain rfl := hm.view
  rcases write_yields hm.sound hn ha hd ht c with ⟨fits, hr⟩ | herr
  · exact Or.inl ⟨_, hr, hm.file ha hn fits c .written⟩
  · exact Or.inr herr

theorem turns_setTime {a : Location} {n : String} {c : Bytes} {t : Stamp}
    (hx : v (a ++ [n]) = some (.file c t)) (millis : Int)
    (hb : Disk.representable millis = false →
      bad (.argument .timeOutOfRange) v)
    {g : Unit → View → Prop}
    (hg : g () (v.set (a ++ [n]) (.file c (.dated millis)))) :
    s.Turns (act (·.setTime (s.path.descend (a ++ [n])) millis)) v g
      bad := by
  refine turns_act
    (fun f => Disk.representable millis = false
      ∧ f = .argument .timeOutOfRange) (fun m hm => ?_) hg
    fun f ⟨hr, hf⟩ => hf ▸ hb hr
  obtain rfl := hm.view
  have hs := hm.sound
  have hsome : m.view (a ++ [n]) ≠ none := by simp [hx]
  have ha := hs.above a [n] (by simp) hsome
  rw [setTime_eq hs hx]
  cases hr : Disk.representable millis with
  | false => exact Or.inr ⟨_, rfl, rfl, rfl⟩
  | true =>
      exact Or.inl ⟨_, rfl, hm.file ha (hs.names _ hsome) (hs.fits _ hsome) c
        (.dated millis)⟩

theorem turns_makeDirectory {a : Location} {n : String}
    (hn : AllNames (a ++ [n])) (ha : v a = some .directory)
    (hd : v (a ++ [n]) = none) (ht : s.Admits tolerated (a ++ [n]))
    (hb : ∀ f, tolerated f → bad f v) {g : Unit → View → Prop}
    (hg : g () (v.set (a ++ [n]) .directory)) :
    s.Turns (act (·.makeDirectory (s.path.descend (a ++ [n])))) v g
      bad := by
  refine turns_act tolerated (fun m hm => ?_) hg hb
  obtain rfl := hm.view
  rcases makeDirectory_yields hm.sound hn ha hd ht with ⟨fits, hr⟩ | herr
  · exact Or.inl ⟨_, hr, hm.directory ha hn fits⟩
  · exact Or.inr herr

theorem turns_ensureDirectory {a : Location} {n : String}
    (hn : AllNames (a ++ [n])) (ha : v a = some .directory)
    (hd : v (a ++ [n]) = none ∨ v (a ++ [n]) = some .directory)
    (ht : s.Admits tolerated (a ++ [n])) (hb : ∀ f, tolerated f → bad f v)
    {g : Unit → View → Prop}
    (hg : g () (if v (a ++ [n]) = some .directory then v
      else v.set (a ++ [n]) .directory)) :
    s.Turns (act (·.ensureDirectory (s.path.descend (a ++ [n])))) v g
      bad := by
  refine turns_act tolerated (fun m hm => ?_) hg hb
  obtain rfl := hm.view
  rcases ensureDirectory_yields hm.sound hn ha hd ht
    with ⟨hr, hx⟩ | ⟨fits, hx, hr⟩ | herr
  · rw [if_pos hx]
    exact Or.inl ⟨_, hr, hm⟩
  · rw [if_neg (by simp [hx])]
    exact Or.inl ⟨_, hr, hm.directory ha hn fits⟩
  · exact Or.inr herr

theorem turns_removeFile {a : Location} {n : String} {c : Bytes} {t : Stamp}
    (hx : v (a ++ [n]) = some (.file c t)) {g : Unit → View → Prop}
    (hg : g () (v.cut (a ++ [n]))) :
    s.Turns (act (·.removeFile (s.path.descend (a ++ [n])))) v g bad := by
  refine turns_act (fun _ => False) (fun m hm => ?_) hg fun _ => False.elim
  obtain rfl := hm.view
  exact Or.inl ⟨_, removeFile_eq hm.sound hx, hm.cut a n⟩

theorem turns_removeFileIfAny {a : Location} {n : String}
    (hn : AllNames (a ++ [n])) (ha : v a = some .directory)
    (hd : v (a ++ [n]) ≠ some .directory)
    (ht : s.Admits tolerated (a ++ [n])) (hb : ∀ f, tolerated f → bad f v)
    {g : Unit → View → Prop} (hg : g () (v.cut (a ++ [n]))) :
    s.Turns (act (·.removeFileIfAny (s.path.descend (a ++ [n])))) v g
      bad := by
  refine turns_act tolerated (fun m hm => ?_) hg hb
  obtain rfl := hm.view
  rcases removeFileIfAny_yields hm.sound hn ha hd ht with hr | herr
  · exact Or.inl ⟨_, hr, hm.cut a n⟩
  · exact Or.inr herr

theorem turns_removeDirectory {a : Location} {n : String}
    (hx : v (a ++ [n]) = some .directory)
    (hempty : ∀ k, v (a ++ [n] ++ [k]) = none) {g : Unit → View → Prop}
    (hg : g () (v.cut (a ++ [n]))) :
    s.Turns (act (·.removeDirectory (s.path.descend (a ++ [n])))) v g
      bad := by
  refine turns_act (fun _ => False) (fun m hm => ?_) hg fun _ => False.elim
  obtain rfl := hm.view
  exact Or.inl ⟨_, removeDirectory_eq hm.sound
    (Entry.get?_of_empty hx hempty), hm.cut a n⟩

/-- Taking a directory away with all below it. -/
theorem turns_removeTree {a : Location} {n : String}
    (hx : v (a ++ [n]) = some .directory) {g : Unit → View → Prop}
    (hg : g () (v.cut (a ++ [n]))) :
    s.Turns (removeTree (s.path.descend (a ++ [n]))) v g bad := by
  refine (turns_act (g := fun _ w => w = v.set (a ++ [n]) .directory)
    (fun _ => False) (fun m hm => ?_) rfl fun _ => False.elim).bind ?_
  · obtain rfl := hm.view
    have hs := hm.sound
    have hsome : m.view (a ++ [n]) ≠ none := by simp [hx]
    exact Or.inl ⟨_, emptyTree_eq hs hx, hm.directory
      (hs.above a [n] (by simp) hsome) (hs.names _ hsome) (hs.fits _ hsome)⟩
  · intro _ _ heq
    subst heq
    refine turns_removeDirectory (View.set_self ..)
      (fun k => View.set_below (List.prefix_append _ [k]) (by simp) _) ?_
    rwa [View.cut_set]

/-- Listing a directory says whether it is empty. -/
theorem turns_list {l : Location} (hx : v l = some .directory)
    {g : List String → View → Prop}
    (hempty : (∀ k, v (l ++ [k]) = none) → g [] v)
    (hfull : ∀ n ns, g (n :: ns) v) :
    s.Turns (ask (·.list (s.path.descend l))) v g bad := by
  intro before host hs
  obtain ⟨m, hm, hv, htidy⟩ := hs.tree
  subst hv
  obtain ⟨cs, hcs⟩ := Entry.view_eq_directory.mp hx
  unfold ask
  simp only [hm, list_eq hs.sound hcs]
  refine ⟨m.view, hs, ?_⟩
  cases cs with
  | nil =>
      refine hempty fun k => ?_
      rw [Entry.view_append hcs]
      rfl
  | cons c cs => exact hfull _ _

theorem turns_move {a b : Location} {n k : String} {c : Bytes} {t : Stamp}
    (hx : v (a ++ [n]) = some (.file c t)) (hn : AllNames (b ++ [k]))
    (hdir : v b = some .directory) (hfree : v (b ++ [k]) = none)
    (ht : s.Admits tolerated (b ++ [k])) (hb : ∀ f, tolerated f → bad f v)
    {g : Unit → View → Prop}
    (hg : g () ((v.cut (a ++ [n])).set (b ++ [k]) (.file c t))) :
    s.Turns (act (·.move (s.path.descend (a ++ [n]))
      (s.path.descend (b ++ [k])))) v g bad := by
  refine turns_act tolerated (fun m hm => ?_) hg hb
  obtain rfl := hm.view
  have hs := hm.sound
  rcases move_yields hs hx hn hdir hfree ht with ⟨fits, hr⟩ | herr
  · -- the directory of the target is still there without the file
    have hdir' : m.view.cut (a ++ [n]) b = some .directory := by
      rw [View.cut_outside, hdir]
      intro hmid
      obtain ⟨r, rfl⟩ := hmid
      by_cases hr : r = []
      · rw [hr, List.append_nil, hx] at hdir
        cases hdir
      · have habove := hs.above (a ++ [n]) r hr (by rw [hdir]; simp)
        rw [hx] at habove
        cases habove
    exact Or.inl ⟨_, hr, (hm.cut a n).file hdir' hn fits c t⟩
  · exact Or.inr herr

end Site

end TreeReplica
