/-
Statements about work, for any reading of a host. A reading `R` relates
hosts to what they show; `Carries R w x good bad` says of work that starts
where `x` is shown how it may end well, and how it may fail, in terms of
what is shown then. The rules here are those for putting work together;
rules for single calls belong to the readings.
-/
import TreeReplica.Disk.Work

namespace TreeReplica

-- ================================================================ logs

/-- A log without an error continues to have none when more such records
follow. -/
def Log.Calm (before after : Log) : Prop :=
  ∃ more : Log, after = before ++ more ∧ more.hasError = false

theorem Log.Calm.refl (log : Log) : Log.Calm log log :=
  ⟨[], (List.append_nil log).symm, rfl⟩

theorem Log.Calm.trans {a b c : Log} (hab : Log.Calm a b)
    (hbc : Log.Calm b c) : Log.Calm a c := by
  obtain ⟨x, rfl, hx⟩ := hab
  obtain ⟨y, rfl, hy⟩ := hbc
  refine ⟨x ++ y, List.append_assoc .., ?_⟩
  unfold Log.hasError at hx hy ⊢
  rw [List.any_append, hx, hy]
  rfl

/-- What is reported without an error keeps a log calm. -/
theorem Log.Calm.report {before log : Log} (h : Log.Calm before log)
    {level : Level} (hl : level ≠ .error) (text : String) :
    Log.Calm before (log ++ [⟨level, text⟩]) :=
  h.trans ⟨[⟨level, text⟩], rfl, by simp [Log.hasError, hl]⟩

/-- What follows in a log without an error is what is behind its start. -/
theorem Log.calm_iff {before after : Log} :
    Log.Calm before after ↔ before <+: after
      ∧ Log.hasError (after.drop before.length) = false := by
  constructor
  · intro hmid
    obtain ⟨more, rfl, hmore⟩ := hmid
    exact ⟨List.prefix_append .., by rwa [List.drop_left]⟩
  · intro hmid
    obtain ⟨⟨more, rfl⟩, hmore⟩ := hmid
    rw [List.drop_left] at hmore
    exact ⟨more, rfl, hmore⟩

instance (before after : Log) : Decidable (Log.Calm before after) :=
  decidable_of_iff _ Log.calm_iff.symm

/-- An error report after calm work is noticed. -/
theorem Log.not_calm_error {before log : Log} (hcalm : before.Calm log)
    (text : String) : ¬ before.Calm (log ++ [⟨.error, text⟩]) := by
  rw [Log.calm_iff] at hcalm ⊢
  intro hmid
  obtain ⟨-, herr⟩ := hmid
  obtain ⟨⟨more, rfl⟩, -⟩ := hcalm
  rw [List.append_assoc, List.drop_left] at herr
  simp [Log.hasError] at herr

namespace Work

variable {σ ε ε' α β : Type} {R : σ → Host → Prop} {x : σ}
  {good : α → σ → Prop} {bad : ε → σ → Prop}

/-- What work does where the host shows `x`: with which answers it may end
well and with which failures it may stop, and what is shown after it. -/
def Carries (R : σ → Host → Prop) (w : Work ε α) (x : σ)
    (good : α → σ → Prop) (bad : ε → σ → Prop) : Prop :=
  ∀ h, R x h →
    match w h with
    | .ok a h' => ∃ y, R y h' ∧ good a y
    | .error e h' => ∃ y, R y h' ∧ bad e y

-- ============================================================== reading

/-- How work ended that ended well. -/
theorem Carries.of_ok {w : Work ε α} (hw : Carries R w x good bad)
    {h h' : Host} (hx : R x h) {a : α} (hr : w h = .ok a h') :
    ∃ y, R y h' ∧ good a y := by
  have h := hw h hx
  rwa [hr] at h

/-- How work ended that stopped with a failure. -/
theorem Carries.of_error {w : Work ε α} (hw : Carries R w x good bad)
    {h h' : Host} (hx : R x h) {e : ε} (hr : w h = .error e h') :
    ∃ y, R y h' ∧ bad e y := by
  have h := hw h hx
  rwa [hr] at h

/-- The two ends of work are all there is to show. -/
theorem Carries.intro {w : Work ε α}
    (hok : ∀ h a h', R x h → w h = .ok a h' → ∃ y, R y h' ∧ good a y)
    (herror : ∀ h e h', R x h → w h = .error e h' → ∃ y, R y h' ∧ bad e y) :
    Carries R w x good bad := by
  intro h hx
  cases hr : w h with
  | ok a h' => exact hok h a h' hx hr
  | error e h' => exact herror h e h' hx hr

/-- Did work end well, on a host that passes the test? -/
def endsWell (test : Host → Bool) : EStateM.Result ε Host α → Bool
  | .ok _ h => test h
  | .error _ _ => false

theorem exists_of_endsWell {test : Host → Bool}
    {result : EStateM.Result ε Host α} (h : endsWell test result = true) :
    ∃ a h', result = .ok a h' ∧ test h' = true := by
  cases result with
  | ok a h' => exact ⟨a, h', rfl, h⟩
  | error e h' => cases h

-- ============================================================ sequences

theorem carries_pure {a : α} (h : good a x) :
    Carries R (pure a : Work ε α) x good bad :=
  fun _ hx => ⟨x, hx, h⟩

theorem carries_throw {e : ε} (h : bad e x) :
    Carries R (throw e : Work ε α) x good bad :=
  fun _ hx => ⟨x, hx, h⟩

theorem Carries.mono {w : Work ε α} {good' : α → σ → Prop}
    {bad' : ε → σ → Prop} (hw : Carries R w x good bad)
    (hg : ∀ a y, good a y → good' a y) (hb : ∀ e y, bad e y → bad' e y) :
    Carries R w x good' bad' :=
  .intro
    (fun _ a _ hx hr =>
      have ⟨y, hy, h⟩ := hw.of_ok hx hr
      ⟨y, hy, hg a y h⟩)
    (fun _ e _ hx hr =>
      have ⟨y, hy, h⟩ := hw.of_error hx hr
      ⟨y, hy, hb e y h⟩)

theorem Carries.bind {w : Work ε α} {k : α → Work ε β}
    {p : α → σ → Prop} {good : β → σ → Prop}
    (hw : Carries R w x p bad)
    (hk : ∀ a y, p a y → Carries R (k a) y good bad) :
    Carries R (w >>= k) x good bad := by
  intro h hx
  have hw := hw h hx
  simp only [Bind.bind, EStateM.bind]
  cases hr : w h with
  | ok a h' =>
      rw [hr] at hw
      obtain ⟨y, hy, hp⟩ := hw
      exact hk a y hp h' hy
  | error e h' =>
      rw [hr] at hw
      exact hw

/-- Work that depends on the host depends on one that shows `x`. -/
theorem carries_get_bind {k : Host → Work ε α}
    (hk : ∀ h, R x h → Carries R (k h) x good bad) :
    Carries R (get >>= k) x good bad :=
  fun h hx => hk h hx h hx

-- ============================================================= handlers

theorem Carries.recast {w : Work ε α} {f : ε → ε'} {bad : ε' → σ → Prop}
    (hw : Carries R w x good fun e y => bad (f e) y) :
    Carries R (recast f w) x good bad := by
  intro h hx
  have hw := hw h hx
  unfold Work.recast
  cases hr : w h with
  | ok a h' =>
      rw [hr] at hw
      exact hw
  | error e h' =>
      rw [hr] at hw
      exact hw

theorem Carries.rescue {w : Work ε α} {handler : ε → Work ε' α}
    {p : ε → σ → Prop} {bad : ε' → σ → Prop}
    (hw : Carries R w x good p)
    (hh : ∀ e y, p e y → Carries R (handler e) y good bad) :
    Carries R (rescue w handler) x good bad := by
  intro h hx
  have hw := hw h hx
  unfold Work.rescue
  cases hr : w h with
  | ok a h' =>
      rw [hr] at hw
      exact hw
  | error e h' =>
      rw [hr] at hw
      obtain ⟨y, hy, hp⟩ := hw
      exact hh e y hp h' hy

theorem Carries.ensuring {w : Work ε α} {last : Work ε Unit}
    {p : α → σ → Prop} {q : ε → σ → Prop} (hw : Carries R w x p q)
    (hg : ∀ a y, p a y → Carries R last y (fun _ z => good a z) bad)
    (hb : ∀ e y, q e y → Carries R last y (fun _ z => bad e z) bad) :
    Carries R (ensuring w last) x good bad := by
  intro h hx
  have hw := hw h hx
  unfold Work.ensuring
  cases hr : w h with
  | ok a h' =>
      rw [hr] at hw
      obtain ⟨y, hy, hp⟩ := hw
      have hl := hg a y hp h' hy
      simp only
      cases hr' : last h' with
      | ok u h'' =>
          rw [hr'] at hl
          exact hl
      | error e h'' =>
          rw [hr'] at hl
          exact hl
  | error e h' =>
      rw [hr] at hw
      obtain ⟨y, hy, hq⟩ := hw
      have hl := hb e y hq h' hy
      simp only
      cases hr' : last h' with
      | ok u h'' =>
          rw [hr'] at hl
          exact hl
      | error e' h'' =>
          rw [hr'] at hl
          exact hl

end Work

end TreeReplica
