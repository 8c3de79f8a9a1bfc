/-
Values that are no settings. The settings of a mapping are read in a
fixed order, and the first value that is refused counts (`ofMapping_error_iff`).
Most refusals are about a text or a number that is spelled wrong; `Unfit`
lists the others, by what the value is (`refuses_unfit_iff`).
-/
import TreeReplica.Program.Settings

namespace TreeReplica.Config

open Yaml (Value)

-- ============================================================== the order

/-- The kinds of settings. -/
inductive SettingKind
  | text
  | truth
  | decimal
  | integer
  deriving DecidableEq, Repr, Inhabited

/-- The keys in the order in which their settings are read. -/
def settingKinds : List (String × SettingKind) :=
  [("server", .text), ("path", .text), ("output_dir", .text),
    ("force_clean", .truth), ("verbose", .truth), ("exit_after_sync", .truth),
    ("payload_name", .text), ("connect_timeout", .decimal),
    ("max_retries", .integer), ("retry_delay", .decimal)]

/-- The value is not read as a setting of the kind, for a reason. Every
value counts as true or not. -/
def SettingKind.Refuses (room : Nat) (v : Value) (e : LoadFailure) :
    SettingKind → Prop
  | .text => textOf room v = .error e
  | .truth => False
  | .decimal => floatOf v = .error e
  | .integer => intOf v = .error e

/-- Of some settings in order, the first that is refused is of a kind and
has a value. -/
inductive FirstRefused (room : Nat) (get? : String → Option Value) :
    List (String × SettingKind) → SettingKind → Value → LoadFailure → Prop
  | here {key : String} {kind : SettingKind} {v : Value} {e : LoadFailure}
      {rest : List (String × SettingKind)} (found : get? key = some v)
      (refuses : kind.Refuses room v e) :
      FirstRefused room get? ((key, kind) :: rest) kind v e
  | later {key : String} {kind kind' : SettingKind} {v : Value}
      {e : LoadFailure} {rest : List (String × SettingKind)}
      (read : ∀ v e, get? key = some v → ¬ kind.Refuses room v e)
      (first : FirstRefused room get? rest kind' v e) :
      FirstRefused room get? ((key, kind) :: rest) kind' v e

variable {room : Nat} {get? : String → Option Value} {kind : SettingKind}
  {v : Value} {e : LoadFailure} {rest : List (String × SettingKind)}
  {α β : Type}

theorem FirstRefused.refuses (h : FirstRefused room get? rest kind v e) :
    kind.Refuses room v e := by
  induction h with
  | here _ refuses => exact refuses
  | later _ _ ih => exact ih

theorem setting_error_iff {key : String} {read : Value → Except LoadFailure α}
    {default : α} : setting get? key read default = .error e
      ↔ ∃ v, get? key = some v ∧ read v = .error e := by
  unfold setting
  cases get? key with
  | none => simp
  | some v => simp

/-- Reading a setting and going on fails where the setting is refused, or
else where going on fails. -/
theorem bind_setting_error_iff {key : String}
    {read : Value → Except LoadFailure α} {default : α}
    {next : α → Except LoadFailure β}
    (hread : ∀ v e, read v = .error e ↔ kind.Refuses room v e)
    (hnext : ∀ a, next a = .error e
      ↔ ∃ kind' v, FirstRefused room get? rest kind' v e) :
    (setting get? key read default >>= next) = .error e
      ↔ ∃ kind' v, FirstRefused room get? ((key, kind) :: rest) kind' v e := by
  cases hset : setting get? key read default with
  | error e' =>
      obtain ⟨v', hfound, hrefuses⟩ := setting_error_iff.mp hset
      rw [hread] at hrefuses
      constructor
      · intro h
        obtain rfl : e' = e := Except.error.inj h
        exact ⟨kind, v', .here hfound hrefuses⟩
      · rintro ⟨kind', v, hfirst⟩
        cases hfirst with
        | here found refuses =>
            obtain rfl := Option.some.inj (hfound.symm.trans found)
            rw [← hread] at hrefuses refuses
            exact congrArg _ (Except.error.inj (hrefuses.symm.trans refuses))
        | later read => exact absurd hrefuses (read v' e' hfound)
  | ok a =>
      have hread' : ∀ v e, get? key = some v → ¬ kind.Refuses room v e := by
        intro v e hfound hrefuses
        have herror : setting get? key read default = .error e :=
          setting_error_iff.mpr ⟨v, hfound, (hread v e).mpr hrefuses⟩
        exact nomatch hset.symm.trans herror
      refine (hnext a).trans ⟨?_, ?_⟩
      · rintro ⟨kind', v, hfirst⟩
        exact ⟨kind', v, .later hread' hfirst⟩
      · rintro ⟨kind', v, hfirst⟩
        cases hfirst with
        | here found refuses => exact absurd refuses (hread' _ _ found)
        | later _ first => exact ⟨kind', v, first⟩

/-- The settings of a mapping fail with its first refused setting. -/
theorem ofMapping_error_iff :
    ofMapping room get? = .error e
      ↔ ∃ kind v, FirstRefused room get? settingKinds kind v e := by
  have htext : ∀ v e, textOf room v = .error e
      ↔ SettingKind.text.Refuses room v e :=
    fun _ _ => Iff.rfl
  have htruth : ∀ (v : Value) e, (.ok v.isTrue : Except LoadFailure Bool)
      = .error e ↔ SettingKind.truth.Refuses room v e :=
    fun _ _ => ⟨fun h => (nomatch h), False.elim⟩
  have hdecimal : ∀ v e, floatOf v = .error e
      ↔ SettingKind.decimal.Refuses room v e := fun _ _ => Iff.rfl
  have hinteger : ∀ v e, intOf v = .error e
      ↔ SettingKind.integer.Refuses room v e := fun _ _ => Iff.rfl
  unfold ofMapping settingKinds
  refine bind_setting_error_iff htext fun _ => ?_
  refine bind_setting_error_iff htext fun _ => ?_
  refine bind_setting_error_iff htext fun _ => ?_
  refine bind_setting_error_iff htruth fun _ => ?_
  refine bind_setting_error_iff htruth fun _ => ?_
  refine bind_setting_error_iff htruth fun _ => ?_
  refine bind_setting_error_iff htext fun _ => ?_
  refine bind_setting_error_iff hdecimal fun _ => ?_
  refine bind_setting_error_iff hinteger fun _ => ?_
  refine bind_setting_error_iff hdecimal fun _ => ?_
  constructor
  · exact fun h => nomatch h
  · rintro ⟨kind', v, hfirst⟩
    cases hfirst

-- ====================================================== values of no use

/-- A value that numbers are read from: a number, a truth value, or a
text. -/
def IsNumeral : Value → Prop
  | .bool _ | .int _ | .float _ | .text _ | .bytes _ => True
  | _ => False

/-- A value that is refused as a setting not for how it is spelled: it is
nested deeper than its text has room for, nothing that a number is read
from, or a number that the kind has not. -/
inductive Unfit (room : Nat) : SettingKind → Value → LoadFailure → Prop
  | tooDeep {v : Value} (deep : v.text? room = .error .tooDeep) :
      Unfit room .text v (.number .tooDeep)
  | notDecimal {v : Value} (other : ¬ IsNumeral v) :
      Unfit room .decimal v (.notNumber .decimal v.kindWord)
  | notInteger {v : Value} (other : ¬ IsNumeral v) :
      Unfit room .integer v (.notNumber .integer v.kindWord)
  | tooLarge {n : Int} (large : Number.ofInteger n = none) :
      Unfit room .decimal (.int n) (.number .tooLarge)
  | infinite {x : Float} {negative : Bool}
      (infinite : Number.shapeOf x = .infinite negative) :
      Unfit room .integer (.float x) (.number .infinite)

-- ================================================================= texts

mutual

/-- How many levels the text of a value has, at most. -/
def depth : Value → Nat
  | .list items => depthAll items + 1
  | .pairs items => depthPairs items + 2
  | .mapping items => depthPairs items + 1
  | .set keys => depthAll keys + 2
  | _ => 1

/-- How many levels the texts of some values have, at most. -/
def depthAll : List Value → Nat
  | [] => 0
  | v :: rest => max (depth v) (depthAll rest)

/-- How many levels the texts of some pairs have, at most. -/
def depthPairs : List (Value × Value) → Nat
  | [] => 0
  | (k, v) :: rest => max (max (depth k) (depth v)) (depthPairs rest)

end

/-- It fails, if at all, for an integer that is too long, or for want of
room, and then `deep` holds. -/
def FailsShowing (deep : Prop) (x : Except Number.NumberError α) : Prop :=
  ∀ e, x = .error e → e = .tooLong ∨ e = .tooDeep ∧ deep

theorem FailsShowing.ok {deep : Prop} (a : α) : FailsShowing deep (.ok a) :=
  fun _ h => nomatch h

theorem FailsShowing.mono {deep deep' : Prop}
    {x : Except Number.NumberError α} (h : FailsShowing deep x)
    (himp : deep → deep') : FailsShowing deep' x :=
  fun e he => (h e he).imp_right fun hdeep => ⟨hdeep.1, himp hdeep.2⟩

theorem FailsShowing.map {deep : Prop} {x : Except Number.NumberError α}
    (f : α → β) (h : FailsShowing deep x) : FailsShowing deep (x.map f) := by
  cases x with
  | ok a => exact .ok (f a)
  | error e => exact fun e' he => h e' (congrArg _ (Except.error.inj he))

theorem FailsShowing.bind {deep : Prop} {x : Except Number.NumberError α}
    {f : α → Except Number.NumberError β} (hx : FailsShowing deep x)
    (hf : ∀ a, FailsShowing deep (f a)) : FailsShowing deep (x >>= f) := by
  cases x with
  | ok a => exact hf a
  | error e => exact fun e' he => hx e' (congrArg _ (Except.error.inj he))

theorem failsShowing_integerText (deep : Prop) (n : Int) :
    FailsShowing deep (Number.integerText n) := by
  unfold Number.integerText
  split
  · exact .ok _
  · exact fun e he => Or.inl (Except.error.inj he).symm

/-- No value has fewer levels than one. -/
theorem depth_pos (v : Value) : 0 < depth v := by
  cases v <;> simp [depth]

mutual

theorem failsShowing_shown? : (room : Nat) → (v : Value) →
    FailsShowing (room < depth v) (v.shown? room)
  | 0, v => fun e he => by
      rw [Value.shown?] at he
      exact Or.inr ⟨(Except.error.inj he).symm, depth_pos v⟩
  | _ + 1, .null => .ok _
  | _ + 1, .bool _ => .ok _
  | _ + 1, .int n => failsShowing_integerText _ n
  | _ + 1, .float _ => .ok _
  | _ + 1, .text _ => .ok _
  | _ + 1, .bytes _ => .ok _
  | _ + 1, .date _ => .ok _
  | _ + 1, .moment _ => .ok _
  | room + 1, .list items =>
      ((failsShowing_shownAll? room items).map _).mono fun hdeep => by
        rw [depth]
        omega
  | room + 1, .pairs items =>
      ((failsShowing_shownPairs? _ _ _ (room - 1) items).map _).mono
        fun hdeep => by
          rw [depth]
          omega
  | room + 1, .mapping items =>
      ((failsShowing_shownPairs? _ _ _ room items).map _).mono
        fun hdeep => by
          rw [depth]
          omega
  | room + 1, .set keys => by
      unfold Value.shown?
      split
      · exact .ok _
      · refine ((failsShowing_shownAll? (room - 1) keys).map _).mono ?_
        intro hdeep
        rw [depth]
        omega
  | _ + 1, .again _ => .ok _

theorem failsShowing_shownAll? (room : Nat) : (vs : List Value) →
    FailsShowing (room < depthAll vs) (Value.shownAll? room vs)
  | [] => .ok _
  | v :: rest => by
      have hfirst := (failsShowing_shown? room v).mono
        fun h => Nat.lt_of_lt_of_le h (Nat.le_max_left _ (depthAll rest))
      have hrest := (failsShowing_shownAll? room rest).mono
        fun h => Nat.lt_of_lt_of_le h (Nat.le_max_right (depth v) _)
      exact hfirst.bind fun _ => hrest.bind fun _ => .ok _

theorem failsShowing_shownPairs? (opening between closing : String)
    (room : Nat) : (items : List (Value × Value)) →
      FailsShowing (room < depthPairs items)
        (Value.shownPairs? opening between closing room items)
  | [] => .ok _
  | (k, v) :: rest => by
      have hpair : ∀ {n}, n ≤ max (depth k) (depth v) → room < n →
          room < depthPairs ((k, v) :: rest) := fun hle hlt =>
        Nat.lt_of_lt_of_le (Nat.lt_of_lt_of_le hlt hle) (Nat.le_max_left _ _)
      have hkey := (failsShowing_shown? room k).mono
        (hpair (Nat.le_max_left _ _))
      have hvalue := (failsShowing_shown? room v).mono
        (hpair (Nat.le_max_right _ _))
      have hrest := (failsShowing_shownPairs? opening between closing room
        rest).mono fun h => Nat.lt_of_lt_of_le h
          (Nat.le_max_right (max (depth k) (depth v)) _)
      exact hkey.bind fun _ => hvalue.bind fun _ => hrest.bind fun _ => .ok _

end

/-- The only values without a text are an integer that is too long, or
what holds one, and a value that has more levels than there is room for. -/
theorem failsShowing_text? (room : Nat) (v : Value) :
    FailsShowing (room < depth v) (v.text? room) := by
  unfold Value.text?
  split
  · exact .ok _
  · exact .ok _
  · exact .ok _
  · exact failsShowing_shown? room v

-- ============================================================ the refusals

open Program (isUsageFault)

theorem ofNumber_error {x : Except Number.NumberError α} :
    ofNumber x = .error e ↔ ∃ e', x = .error e' ∧ e = .number e' := by
  cases x with
  | ok a => simp [ofNumber]
  | error e' => simp [ofNumber, eq_comm]

theorem readDecimal_error {s shown : String} {e : Number.NumberError}
    (h : readDecimal s shown = .error e) : e = .notDecimal shown := by
  unfold readDecimal at h
  split at h
  · cases h
  · exact (Except.error.inj h).symm

/-- A text that is no integer is spelled wrong. -/
theorem readInteger_error {s shown : String} {e : Number.NumberError}
    (h : readInteger s shown = .error e) :
    isUsageFault (.number e) = true := by
  unfold readInteger at h
  split at h
  · cases h
  · next e' _ =>
      obtain rfl := (Except.error.inj h).symm
      cases e' with
      | notInteger => rfl
      | tooManyDigits => rfl

theorem toBinary_error {n : Int} {e : Number.NumberError} :
    Number.toBinary n = .error e
      ↔ Number.ofInteger n = none ∧ e = .tooLarge := by
  unfold Number.toBinary
  cases Number.ofInteger n with
  | none => simp [eq_comm]
  | some x => simp

theorem wholePart_infinite {x : Float} :
    Number.wholePart x = .error .infinite
      ↔ ∃ negative, Number.shapeOf x = .infinite negative := by
  unfold Number.wholePart Number.truncate
  cases Number.shapeOf x with
  | finite => simp
  | infinite => simp
  | notANumber => simp

theorem wholePart_error {x : Float} {e : Number.NumberError}
    (h : Number.wholePart x = .error e) : e = .infinite ∨ e = .notANumber := by
  unfold Number.wholePart at h
  split at h
  · cases h
  · exact Or.inl (Except.error.inj h).symm
  · exact Or.inr (Except.error.inj h).symm

/-- A value is refused as a decimal for its spelling, or it is unfit. -/
theorem floatOf_error (h : floatOf v = .error e) :
    isUsageFault e = true ∨ Unfit room .decimal v e := by
  cases v with
  | bool => cases h
  | float => cases h
  | int n =>
      obtain ⟨e', hbinary, rfl⟩ := ofNumber_error.mp h
      obtain ⟨hlarge, rfl⟩ := toBinary_error.mp hbinary
      exact Or.inr (.tooLarge hlarge)
  | text | bytes =>
      obtain ⟨e', hread, rfl⟩ := ofNumber_error.mp h
      rw [readDecimal_error hread]
      exact Or.inl rfl
  | null | date | moment | list | pairs | mapping | set | again =>
      obtain rfl := Except.error.inj h
      exact Or.inr (.notDecimal id)

/-- A value is refused as an integer for its spelling, or it is unfit. -/
theorem intOf_error (h : intOf v = .error e) :
    isUsageFault e = true ∨ Unfit room .integer v e := by
  cases v with
  | bool => cases h
  | int => cases h
  | float x =>
      obtain ⟨e', hwhole, rfl⟩ := ofNumber_error.mp h
      obtain rfl | rfl := wholePart_error hwhole
      · obtain ⟨negative, hshape⟩ := wholePart_infinite.mp hwhole
        exact Or.inr (.infinite hshape)
      · exact Or.inl rfl
  | text | bytes =>
      obtain ⟨e', hread, rfl⟩ := ofNumber_error.mp h
      exact Or.inl (readInteger_error hread)
  | null | date | moment | list | pairs | mapping | set | again =>
      obtain rfl := Except.error.inj h
      exact Or.inr (.notInteger id)

/-- Unfit values are what is refused other than for its spelling. -/
theorem refuses_unfit_iff :
    kind.Refuses room v e ∧ isUsageFault e = false
      ↔ Unfit room kind v e := by
  constructor
  · rintro ⟨hrefuses, hfault⟩
    have hspelled : ¬ isUsageFault e = true := by simp [hfault]
    cases kind with
    | text =>
        obtain ⟨e', htext, rfl⟩ := ofNumber_error.mp hrefuses
        obtain rfl | ⟨rfl, -⟩ := failsShowing_text? room v e' htext
        · cases hfault
        · exact .tooDeep htext
    | truth => exact hrefuses.elim
    | decimal => exact (floatOf_error hrefuses).resolve_left hspelled
    | integer => exact (intOf_error hrefuses).resolve_left hspelled
  · intro hunfit
    cases hunfit with
    | tooDeep deep => exact ⟨ofNumber_error.mpr ⟨_, deep, rfl⟩, rfl⟩
    | notDecimal other =>
        cases v with
        | bool | int | float | text | bytes => exact absurd trivial other
        | _ => exact ⟨rfl, rfl⟩
    | notInteger other =>
        cases v with
        | bool | int | float | text | bytes => exact absurd trivial other
        | _ => exact ⟨rfl, rfl⟩
    | tooLarge large =>
        exact ⟨ofNumber_error.mpr ⟨_, toBinary_error.mpr ⟨large, rfl⟩, rfl⟩, rfl⟩
    | infinite infinite =>
        exact ⟨ofNumber_error.mpr ⟨_, wholePart_infinite.mpr ⟨_, infinite⟩, rfl⟩,
          rfl⟩

/-- A text is unfit only if it has more levels than there is room for. -/
theorem Unfit.deep (h : Unfit room .text v e) : room < depth v := by
  cases h with
  | tooDeep deep =>
      obtain hno | ⟨-, hdeep⟩ := failsShowing_text? room v _ deep
      · cases hno
      · exact hdeep

end TreeReplica.Config
