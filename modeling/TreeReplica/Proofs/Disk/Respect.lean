/-
Properties of a disk that work keeps, however it ends. `Respects` has one
rule for each way to put work together, and one for the calls: a call
keeps a property that every disk it can leave has. `Guards` asks this of
the calls below one path, which is all that a replica ever calls. From
work that went well its steps are read back, `ok_of_bind` and the rules
after it.
-/
import TreeReplica.Proofs.Disk.Name
import TreeReplica.Proofs.Disk.Touch

namespace TreeReplica

namespace Work

variable {ε ε' α β : Type} {P : Disk → Prop}

/-- The disk that is left has the property, whether or not the work went
well. -/
def Leaves (P : Disk → Prop) : EStateM.Result ε Host α → Prop
  | .ok _ h => P h.disk
  | .error _ h => P h.disk

/-- Started on a disk with the property, the work leaves one with it. -/
def Respects (P : Disk → Prop) (w : Work ε α) : Prop :=
  ∀ h, P h.disk → Leaves P (w h)

-- ============================================================== sequences

theorem respects_pure (a : α) : Respects P (pure a : Work ε α) :=
  fun _ hp => hp

theorem respects_throw (e : ε) : Respects P (throw e : Work ε α) :=
  fun _ hp => hp

theorem Respects.bind {w : Work ε α} {k : α → Work ε β}
    (hw : Respects P w) (hk : ∀ a, Respects P (k a)) :
    Respects P (w >>= k) := by
  intro h hp
  have hl := hw h hp
  simp only [Bind.bind, EStateM.bind]
  cases hr : w h with
  | ok a h' =>
      rw [hr] at hl
      exact hk a h' hl
  | error e h' =>
      rw [hr] at hl
      exact hl

/-- Work after a question may use the answer. -/
theorem respects_ask_bind {question : Disk → Except Fault α}
    {k : α → Work Fault β}
    (hk : ∀ h a, P h.disk → question h.disk = .ok a → Leaves P (k a h)) :
    Respects P (ask question >>= k) := by
  intro h hp
  simp only [Bind.bind, EStateM.bind, ask]
  cases hq : question h.disk with
  | ok a => exact hk h a hp hq
  | error e => exact hp

theorem respects_get_bind {k : Host → Work ε β}
    (hk : ∀ host, Respects P (k host)) : Respects P (get >>= k) :=
  fun h hp => hk h h hp

theorem respects_say (level : Level) (text : String) :
    Respects P (say level text : Work ε Unit) :=
  fun _ hp => hp

-- ================================================================= calls

theorem respects_ask (question : Disk → Except Fault α) :
    Respects P (ask question) := by
  intro h hp
  unfold ask
  cases question h.disk <;> exact hp

theorem respects_act {change : Disk → Except Fault Disk}
    (hc : ∀ {d d'}, P d → change d = .ok d' → P d') :
    Respects P (act change) := by
  intro h hp
  unfold act
  cases hr : change h.disk with
  | ok d => exact hc hp hr
  | error e => exact hp

-- =============================================================== handlers

theorem Respects.recast {w : Work ε α} (f : ε → ε')
    (hw : Respects P w) : Respects P (recast f w) := by
  intro h hp
  have hl := hw h hp
  unfold Work.recast
  cases hr : w h with
  | ok a h' =>
      rw [hr] at hl
      exact hl
  | error e h' =>
      rw [hr] at hl
      exact hl

theorem Respects.rescue {w : Work ε α} {handler : ε → Work ε' α}
    (hw : Respects P w) (hh : ∀ e, Respects P (handler e)) :
    Respects P (rescue w handler) := by
  intro h hp
  have hl := hw h hp
  unfold Work.rescue
  cases hr : w h with
  | ok a h' =>
      rw [hr] at hl
      exact hl
  | error e h' =>
      rw [hr] at hl
      exact hh e h' hl

theorem Respects.ensuring {w : Work ε α} {last : Work ε Unit}
    (hw : Respects P w) (hl : Respects P last) :
    Respects P (ensuring w last) := by
  intro h hp
  have hwl := hw h hp
  unfold Work.ensuring
  cases hr : w h with
  | ok a h' =>
      rw [hr] at hwl
      have hll := hl h' hwl
      simp only
      cases hr' : last h' with
      | ok u h'' =>
          rw [hr'] at hll
          exact hll
      | error e h'' =>
          rw [hr'] at hll
          exact hll
  | error e h' =>
      rw [hr] at hwl
      have hll := hl h' hwl
      simp only
      cases hr' : last h' with
      | ok u h'' =>
          rw [hr'] at hll
          exact hll
      | error e' h'' =>
          rw [hr'] at hll
          exact hll

-- ======================================================== what went well

/-- Of work that went well both parts went well. -/
theorem ok_of_bind {w : Work ε α} {k : α → Work ε β} {b : β}
    {h h' : Host} (hr : (w >>= k) h = .ok b h') :
    ∃ a mid, w h = .ok a mid ∧ k a mid = .ok b h' := by
  simp only [Bind.bind, EStateM.bind] at hr
  cases hw : w h with
  | ok a mid =>
      rw [hw] at hr
      exact ⟨a, mid, rfl, hr⟩
  | error e mid =>
      rw [hw] at hr
      cases hr

theorem ok_of_ask {question : Disk → Except Fault α} {a : α} {h h' : Host}
    (hr : ask question h = .ok a h') : question h.disk = .ok a ∧ h' = h := by
  unfold ask at hr
  split at hr
  · next hq =>
      cases hr
      exact ⟨hq, rfl⟩
  · cases hr

theorem ok_of_ask_bind {question : Disk → Except Fault α}
    {k : α → Work Fault β} {b : β} {h h' : Host}
    (hr : (ask question >>= k) h = .ok b h') :
    ∃ a, question h.disk = .ok a ∧ k a h = .ok b h' := by
  obtain ⟨a, mid, hask, hk⟩ := ok_of_bind hr
  obtain ⟨hq, heq⟩ := ok_of_ask hask
  exact ⟨a, hq, heq ▸ hk⟩

theorem ok_of_act {change : Disk → Except Fault Disk} {u : Unit}
    {h h' : Host} (hr : act change h = .ok u h') :
    ∃ d, change h.disk = .ok d ∧ h' = { h with disk := d } := by
  unfold act at hr
  split at hr
  · next d hc =>
      cases hr
      exact ⟨d, hc, rfl⟩
  · cases hr

/-- Work after a question that is answered goes on with the answer. -/
theorem ask_bind_eq {question : Disk → Except Fault α} {a : α} {h : Host}
    (hq : question h.disk = .ok a) (k : α → Work Fault β) :
    (ask question >>= k) h = k a h := by
  simp only [Bind.bind, EStateM.bind, ask, hq]

theorem bind_eq {w : Work ε α} {k : α → Work ε β} {a : α} {h mid : Host}
    (hw : w h = .ok a mid) : (w >>= k) h = k a mid := by
  simp only [Bind.bind, EStateM.bind, hw]

theorem get_bind_eq (k : Host → Work ε α) (h : Host) :
    (get >>= k) h = k h h := rfl

/-- Work that stops at its first part stops there. -/
theorem bind_error_eq {w : Work ε α} {k : α → Work ε β} {e : ε}
    {h mid : Host} (hw : w h = .error e mid) :
    (w >>= k) h = .error e mid := by
  simp only [Bind.bind, EStateM.bind, hw]

theorem recast_error_eq {w : Work ε α} {f : ε → ε'} {e : ε} {h mid : Host}
    (hw : w h = .error e mid) : recast f w h = .error (f e) mid := by
  simp only [recast, hw]

theorem recast_ok_eq {w : Work ε α} {f : ε → ε'} {a : α} {h mid : Host}
    (hw : w h = .ok a mid) : recast f w h = .ok a mid := by
  simp only [recast, hw]

theorem rescue_eq {w : Work ε α} {handler : ε → Work ε' α} {a : α}
    {h h' : Host} (hw : w h = .ok a h') : rescue w handler h = .ok a h' := by
  simp only [rescue, hw]

theorem act_eq {change : Disk → Except Fault Disk} {d : Disk} {h : Host}
    (hc : change h.disk = .ok d) :
    act change h = .ok () { h with disk := d } := by
  simp only [act, hc]

theorem ok_of_recast {w : Work ε α} {f : ε → ε'} {a : α} {h h' : Host}
    (hr : recast f w h = .ok a h') : w h = .ok a h' := by
  unfold recast at hr
  split at hr
  · next hw =>
      cases hr
      exact hw
  · cases hr

end Work

-- ============================================================ calls below

/-- Whatever is called about proper paths below the root keeps the
property, and on a disk with the property the root is a directory or
nothing. -/
structure Guards (root : Path) (P : Disk → Prop) : Prop where
  touched : ∀ {d d' : Disk} {l : Location}, l ≠ [] → AllNames l → P d →
    d.Touched (root.descend l) d' → P d'
  moved : ∀ {d d' : Disk} {a b : Location}, a ≠ [] → b ≠ [] →
    AllNames a → AllNames b → P d →
    d.Moved (root.descend a) (root.descend b) d' → P d'
  root : ∀ {d : Disk}, P d → d.isDirectory root = .ok false →
    d.occupied root = false

end TreeReplica
