/-
Failures that are the system's own. A path without the null character,
and a time that fits, can be passed to the system; a call about them
fails only by a refusal (`Heard`). A question about kinds is refused only
where the path is too long (`isFile_error_iff`). `StopsOnly` names the
failures that work can stop with and nothing else, and has one rule for
each way to put work together.
-/
import TreeReplica.Proofs.Disk.Carry
import TreeReplica.Proofs.Disk.Name
import TreeReplica.Proofs.Disk.Staging

namespace TreeReplica

-- ================================================================ paths

namespace Path

variable {p : Path}

/-- No part of a path without the null character holds it. -/
theorem clear_of_mem (hp : Disk.hasNull p.text = false) {n : String}
    (hn : n ∈ p.parts) : Disk.hasNull n = false := by
  rw [Disk.hasNull_text, List.any_eq_false] at hp
  simpa using hp n hn

theorem clear_of_parts (hp : ∀ n ∈ p.parts, Disk.hasNull n = false) :
    Disk.hasNull p.text = false := by
  rw [Disk.hasNull_text, List.any_eq_false]
  intro n hn
  simp [hp n hn]

theorem clear_descend (hp : Disk.hasNull p.text = false) {l : Location}
    (hl : ∀ n ∈ l, Disk.hasNull n = false) :
    Disk.hasNull (p.descend l).text = false := by
  refine clear_of_parts fun n hn => ?_
  obtain hn | hn := List.mem_append.mp hn
  · exact clear_of_mem hp hn
  · exact hl n hn

theorem clear_child (hp : Disk.hasNull p.text = false) {n : String}
    (hn : Disk.hasNull n = false) : Disk.hasNull (p.child n).text = false :=
  clear_descend hp fun _ hm => List.mem_singleton.mp hm ▸ hn

theorem clear_parent (hp : Disk.hasNull p.text = false) :
    Disk.hasNull p.parent.text = false :=
  clear_of_parts fun _ hn => clear_of_mem hp (List.dropLast_subset _ hn)

theorem clear_name (hp : Disk.hasNull p.text = false) :
    Disk.hasNull p.name = false := by
  unfold name
  cases hlast : p.parts.getLast? with
  | none => decide
  | some n => exact clear_of_mem hp (List.mem_of_getLast? hlast)

/-- What is read from a text without the null character has none. -/
theorem clear_ofString {t : String} (ht : Disk.hasNull t = false) :
    Disk.hasNull (ofString t).text = false := by
  refine clear_of_parts fun n hn => ?_
  rw [← intercalate_segments t, Disk.hasNull_intercalate,
    List.any_eq_false] at ht
  simpa using ht n ((List.mem_filter.mp hn).1)

theorem clear_join (hp : Disk.hasNull p.text = false) {t : String}
    (ht : Disk.hasNull t = false) : Disk.hasNull (p.join t).text = false := by
  have hread := clear_ofString ht
  unfold join
  simp only
  split
  · exact clear_descend hp fun _ hn => clear_of_mem hread hn
  · exact hread

end Path

-- ================================================================ calls

/-- A fault that is a refusal of the system. -/
def Fault.Refusal : Fault → Prop
  | .system _ => True
  | .argument _ => False

/-- A call that was passed to the system: if it fails, it was refused. -/
def Heard {α : Type} (x : Except Fault α) : Prop :=
  ∀ f, x = .error f → f.Refusal

theorem heard_ok {α : Type} (a : α) : Heard (.ok a) := nofun

theorem heard_error {α : Type} {f : Fault} (hf : f.Refusal) :
    Heard (.error f : Except Fault α) :=
  fun _ heq => Except.error.inj heq ▸ hf

theorem heard_system {α : Type} (e : SystemError) :
    Heard (.error (.system e) : Except Fault α) :=
  heard_error trivial

theorem Heard.bind {α β : Type} {x : Except Fault α}
    {k : α → Except Fault β} (hx : Heard x) (hk : ∀ a, Heard (k a)) :
    Heard (x >>= k) := by
  cases x with
  | ok a => exact hk a
  | error f => exact heard_error (hx f rfl)

theorem Heard.map {α β : Type} {x : Except Fault α} (hx : Heard x)
    (k : α → β) : Heard (x.map k) := by
  cases x with
  | ok a => exact heard_ok _
  | error f => exact heard_error (hx f rfl)

namespace Disk

variable {p q : Path} (d : Disk)

theorem heard_refuse {α : Type} (p : Path) (reason : Errno) :
    Heard (refuse p reason : Except Fault α) :=
  heard_system _

/-- A question about kinds is answered, or refused. -/
theorem heard_holds {kind : Entry → Bool} {found : Except Fault Entry}
    (h : Heard found) : Heard (holds kind found) := by
  unfold holds
  split
  · exact heard_ok _
  · exact heard_ok _
  · split
    · exact heard_ok _
    · exact heard_system _
  · next f _ _ => exact heard_error (h f rfl)

variable (hp : hasNull p.text = false)
include hp

theorem heard_reach (follow : Bool) (subject : Subject) :
    Heard (d.reach follow p subject) := by
  unfold reach
  rw [if_neg (by simp [hp])]
  split
  · exact heard_system _
  · split
    · exact heard_ok _
    · exact heard_system _

theorem heard_find (follow : Bool) : Heard (d.find follow p) := by
  refine (d.heard_reach hp follow _).bind fun place => ?_
  split
  · exact heard_refuse _ _
  · exact heard_ok _

theorem heard_status : Heard (d.status p) := (d.heard_find hp _).map _

theorem heard_linkStatus : Heard (d.linkStatus p) := (d.heard_find hp _).map _

theorem heard_isDirectory : Heard (d.isDirectory p) :=
  heard_holds (d.heard_status hp)

theorem heard_isFile : Heard (d.isFile p) := heard_holds (d.heard_status hp)

theorem heard_reaches : Heard (d.reaches p) := heard_holds (d.heard_status hp)

theorem heard_size : Heard (d.size p) := (d.heard_status hp).map _

theorem heard_list : Heard (d.list p) := by
  refine (d.heard_status hp).bind fun x => ?_
  split
  · exact heard_ok _
  · exact heard_refuse _ _

theorem heard_makeDirectory : Heard (d.makeDirectory p) := by
  refine (d.heard_reach hp _ _).bind fun place => ?_
  split
  · exact heard_refuse _ _
  · split
    · exact heard_refuse _ _
    · exact heard_ok _

theorem heard_removeDirectory : Heard (d.removeDirectory p) := by
  refine (d.heard_reach hp _ _).bind fun place => ?_
  split
  · split
    · exact heard_refuse _ _
    · split <;> exact heard_refuse _ _
  · split
    · exact heard_refuse _ _
    · exact heard_ok _
    · exact heard_refuse _ _
    · exact heard_refuse _ _

theorem heard_removeFile : Heard (d.removeFile p) := by
  refine (d.heard_reach hp _ _).bind fun place => ?_
  split
  · exact heard_refuse _ _
  · split
    · exact heard_refuse _ _
    · exact heard_refuse _ _
    · exact heard_ok _

theorem heard_emptyTree : Heard (d.emptyTree p) := by
  refine (d.heard_linkStatus hp).bind fun x => ?_
  split
  · exact (d.heard_status hp).bind fun _ => heard_system _
  · exact heard_refuse _ _
  · refine (d.heard_reach hp _ _).bind fun place => ?_
    split
    · exact heard_refuse _ _
    · exact heard_ok _

theorem heard_move (hq : hasNull q.text = false) : Heard (d.move p q) := by
  unfold move
  simp only [hq, Bool.false_eq_true, if_false]
  refine (d.heard_reach hp _ _).bind fun a => ?_
  refine (d.heard_reach hq _ _).bind fun b => ?_
  split
  · exact heard_system _
  · exact heard_system _
  · split
    · exact heard_system _
    · split
      · exact heard_ok _
      · split
        · exact heard_system _
        · split
          · exact heard_system _
          · split
            · exact heard_system _
            · exact heard_ok _

theorem heard_write (content : Bytes) : Heard (d.write p content) := by
  refine (d.heard_reach hp _ _).bind fun place => ?_
  split
  · exact heard_refuse _ _
  · split
    · exact heard_refuse _ _
    · exact heard_ok _

theorem heard_setTime {millis : Int} (ht : representable millis = true) :
    Heard (d.setTime p millis) := by
  unfold setTime
  simp only [ht, Bool.not_true, Bool.false_eq_true, if_false]
  refine (d.heard_reach hp _ _).bind fun place => ?_
  split
  · exact heard_system _
  · exact heard_ok _
  · exact heard_ok _

theorem heard_removeFileIfAny : Heard (d.removeFileIfAny p) := by
  unfold removeFileIfAny
  split
  · exact heard_ok _
  · exact d.heard_removeFile hp

theorem heard_ensureDirectory : Heard (d.ensureDirectory p) := by
  unfold ensureDirectory
  split
  · split
    · exact heard_ok _
    · exact heard_system _
    · next f hf => exact heard_error (d.heard_isDirectory hp f hf)
  · exact d.heard_makeDirectory hp

theorem heard_makeStaging (draw : Nat) : Heard (d.makeStaging p draw) :=
  (d.heard_makeDirectory
    (Path.clear_child hp (hasNull_stagingName _))).bind fun _ => heard_ok _

end Disk

-- ======================================================== what is too long

section Reasons

variable {e : Entry} {follow : Bool} {links : Nat} {start here : Location}
  {name : String} {parts : List String} {reason : Errno}

theorem turn_reason {v : View} (h : turn v here name = .stop reason) :
    Disk.saysAbsent reason = true ∨ reason = .nameTooLong := by
  unfold turn at h
  split at h
  · cases h
    exact Or.inl rfl
  · split at h
    · cases h
    · split at h
      · cases h
      · split at h
        · cases h
          exact Or.inr rfl
        · cases h
  · cases h
    exact Or.inl rfl

theorem trace_reason (h : trace e follow here parts = .stopped reason) :
    Disk.saysAbsent reason = true ∨ reason = .nameTooLong := by
  have htr := traced e follow here parts
  generalize trace e follow here parts = tr at h htr
  induction htr with
  | done => cases h
  | stop asks =>
      cases h
      exact turn_reason asks
  | go _ _ ih => exact ih h
  | last => cases h
  | missing =>
      cases h
      exact Or.inl rfl
  | through _ _ _ _ ih => exact ih h
  | link => cases h

/-- A walk that fails finds nothing, or meets a name that is too long. -/
theorem walk_reason (h : walk e follow links start parts = .error reason) :
    Disk.saysAbsent reason = true ∨ reason = .nameTooLong := by
  fun_induction walk e follow links start parts with
  | case1 => cases h
  | case2 links start parts stopped ht =>
      cases h
      exact trace_reason ht
  | case3 =>
      cases h
      exact Or.inl rfl
  | case4 start parts l target left ht links ih => exact ih h

end Reasons

namespace Disk

variable {d : Disk} {p : Path}

/-- The text of the path is too long, or it leads to a directory in which
it asks for a name that is. -/
def TooLong (d : Disk) (p : Path) : Prop :=
  pathLimit ≤ p.text.utf8ByteSize
    ∨ walk d.root true linkLimit (d.start p.anchor) p.parts
      = .error .nameTooLong

/-- The system's refusal of a path that is too long. -/
def tooLong (p : Path) : Fault :=
  .system (.refused .nameTooLong (.path p))

/-- A question about what stands at a path fails for this reason only. -/
theorem holds_status_error_iff {kind : Entry → Bool}
    (hp : hasNull p.text = false) {f : Fault} :
    holds kind (d.status p) = .error f ↔ d.TooLong p ∧ f = tooLong p := by
  unfold status find reach
  rw [if_neg (by simp [hp])]
  by_cases hlong : pathLimit ≤ p.text.utf8ByteSize
  · have hyes : d.TooLong p := Or.inl hlong
    rw [if_pos hlong]
    simp only [bind, Except.bind, Except.map, holds, saysAbsent, hyes,
      true_and]
    exact ⟨fun h => (Except.error.inj h).symm, fun h => h ▸ rfl⟩
  · rw [if_neg hlong]
    cases hw : walk d.root true linkLimit (d.start p.anchor) p.parts with
    | ok place =>
        have hno : ¬ d.TooLong p := by
          rintro (h | h)
          · exact hlong h
          · cases hw.symm.trans h
        simp only [bind, Except.bind, hno, false_and, iff_false]
        intro h
        split at h <;> cases h
    | error reason =>
        rcases walk_reason hw with habsent | rfl
        · have hno : ¬ d.TooLong p := by
            rintro (h | h)
            · exact hlong h
            · cases hw.symm.trans h
              cases habsent
          simp only [bind, Except.bind, Except.map, holds, habsent, if_true,
            hno, false_and, iff_false]
          intro h
          cases h
        · have hyes : d.TooLong p := Or.inr hw
          simp only [bind, Except.bind, Except.map, holds, saysAbsent, hyes,
            true_and]
          exact ⟨fun h => (Except.error.inj h).symm, fun h => h ▸ rfl⟩

theorem isFile_error_iff (hp : hasNull p.text = false) {f : Fault} :
    d.isFile p = .error f ↔ d.TooLong p ∧ f = tooLong p :=
  holds_status_error_iff hp

/-- Whether anything stands at a path is not told only where the path can
be passed to the system and is too long. -/
theorem reaches_error_iff {f : Fault} :
    d.reaches p = .error f
      ↔ hasNull p.text = false ∧ d.TooLong p ∧ f = tooLong p := by
  cases hp : hasNull p.text with
  | false =>
      have hreaches : d.reaches p = .error f
          ↔ d.TooLong p ∧ f = tooLong p := holds_status_error_iff hp
      simpa using hreaches
  | true =>
      have hno : d.reaches p = .ok false := by
        simp [reaches, status, find, reach, hp, holds, bind, Except.bind,
          Except.map]
      simp [hno]

end Disk

-- ================================================================= work

namespace Work

variable {ε ε' α β : Type} {bad : ε → Prop}

/-- Work that stops with such failures only. Nothing of the host is
shown. -/
def StopsOnly (bad : ε → Prop) (w : Work ε α) : Prop :=
  Carries (fun (_ : Unit) _ => True) w () (fun _ _ => True) fun e _ => bad e

theorem StopsOnly.of_error {w : Work ε α} (hw : StopsOnly bad w) {e : ε}
    {h h' : Host} (hr : w h = .error e h') : bad e :=
  have ⟨_, _, hbad⟩ := Carries.of_error hw trivial hr
  hbad

theorem stops_pure (a : α) : StopsOnly bad (pure a : Work ε α) :=
  carries_pure trivial

theorem stops_throw {e : ε} (h : bad e) :
    StopsOnly bad (throw e : Work ε α) :=
  carries_throw h

theorem stops_say (level : Level) (text : String) :
    StopsOnly bad (say level text : Work ε Unit) :=
  fun _ _ => ⟨(), trivial, trivial⟩

theorem StopsOnly.mono {w : Work ε α} {bad' : ε → Prop}
    (hw : StopsOnly bad w) (h : ∀ e, bad e → bad' e) : StopsOnly bad' w :=
  Carries.mono hw (fun _ _ _ => trivial) fun e _ => h e

theorem StopsOnly.bind {w : Work ε α} {k : α → Work ε β}
    (hw : StopsOnly bad w) (hk : ∀ a, StopsOnly bad (k a)) :
    StopsOnly bad (w >>= k) :=
  Carries.bind hw fun a _ _ => hk a

theorem stops_get_bind {k : Host → Work ε α}
    (hk : ∀ h, StopsOnly bad (k h)) : StopsOnly bad (get >>= k) :=
  carries_get_bind fun h _ => hk h

theorem StopsOnly.recast {w : Work ε α} {f : ε → ε'} {bad : ε' → Prop}
    (hw : StopsOnly (fun e => bad (f e)) w) : StopsOnly bad (recast f w) :=
  Carries.recast hw

theorem StopsOnly.rescue {w : Work ε α} {handler : ε → Work ε' α}
    {bad' : ε' → Prop} (hw : StopsOnly bad w)
    (hh : ∀ e, bad e → StopsOnly bad' (handler e)) :
    StopsOnly bad' (rescue w handler) :=
  Carries.rescue hw fun e _ he => hh e he

theorem StopsOnly.ensuring {w : Work ε α} {last : Work ε Unit}
    (hw : StopsOnly bad w) (hl : StopsOnly bad last) :
    StopsOnly bad (ensuring w last) :=
  Carries.ensuring hw (fun _ _ _ => hl) fun _ _ he =>
    Carries.mono hl (fun _ _ _ => he) fun _ _ h => h

theorem stops_ask {question : Disk → Except Fault α}
    (hq : ∀ d, Heard (question d)) :
    StopsOnly Fault.Refusal (ask question) := by
  refine .intro (fun _ _ _ _ _ => ⟨(), trivial, trivial⟩) ?_
  intro h f h' _ hr
  unfold ask at hr
  split at hr
  · cases hr
  · next hf =>
      cases hr
      exact ⟨(), trivial, hq _ _ hf⟩

theorem stops_act {change : Disk → Except Fault Disk}
    (hc : ∀ d, Heard (change d)) :
    StopsOnly Fault.Refusal (act change) := by
  refine .intro (fun _ _ _ _ _ => ⟨(), trivial, trivial⟩) ?_
  intro h f h' _ hr
  unfold act at hr
  split at hr
  · cases hr
  · next hf =>
      cases hr
      exact ⟨(), trivial, hc _ _ hf⟩

end Work

end TreeReplica
