/-
What becomes of a command line. Settings that are given can be run with;
whoever asks for help gets it; and what is wrong with the words or with
the file of settings is told as wrong usage. What is left are the ways in
which the file breaks the program, and `Breaks` lists them
(`settings_outcome`): besides a place that is no file, they are a path
that is too long and a value that is nested too deep, that no number is
read from or that is a number out of range.

The loader of documents is any function. It is only supposed that what it
refuses is told as wrong usage (`Reader.Told`).
-/
import TreeReplica.Proofs.Config.Unfit
import TreeReplica.Proofs.Disk.Refusal
import TreeReplica.Proofs.Remote.Grammar

namespace TreeReplica.Program

open CommandLine (Command)
open Config (LoadFailure Reader SettingKind FirstRefused Unfit settingKinds)

-- ================================================================= breaks

/-- What the loader refuses is told as wrong usage. -/
def Told (reader : Reader) : Prop :=
  ∀ text fault, reader.load text = .error fault →
    isUsageFault (.document fault) = true

/-- How the content of a file of settings breaks the program: its document
is a mapping, and the first setting that is refused is unfit. -/
inductive ContentBreaks (reader : Reader) (content : Bytes) :
    LoadFailure → Prop
  | setting {text : List Char} {get? : String → Option Yaml.Value}
      {kind : SettingKind} {v : Yaml.Value} {e : LoadFailure}
      (decoded : Text.decode content = .ok text)
      (loaded : reader.load (Text.unifyLineEnds text) = .ok (.mapping get?))
      (first : FirstRefused reader.room get? settingKinds kind v e)
      (unfit : Unfit reader.room kind v e) : ContentBreaks reader content e

/-- How the file of settings breaks the program. -/
inductive Breaks (reader : Reader) (d : Disk) (file : Path) :
    LoadFailure → Prop
  | tooLong (clear : Disk.hasNull file.text = false)
      (long : d.TooLong file) :
      Breaks reader d file (.disk (Disk.tooLong file))
  | noFile {e : Entry} (there : d.status file = .ok e)
      (other : e.isFile = false) : Breaks reader d file
        (.disk (.system (.refused .isDirectory (.path file))))
  | content {content : Bytes} {stamp : Stamp} {e : LoadFailure}
      (there : d.status file = .ok (.file content stamp))
      (breaks : ContentBreaks reader content e) : Breaks reader d file e

variable {reader : Reader} {d : Disk} {file : Path} {e : LoadFailure}
  {config config' : Config} {content : Bytes} {c : Command}

/-- The content of a file of settings is told as wrong usage, or it
breaks the program with a setting. -/
theorem ofBytes_breaks_iff (hload : Told reader) :
    Config.ofBytes file content reader = .error e ∧ isUsageFault e = false
      ↔ ContentBreaks reader content e := by
  unfold Config.ofBytes
  constructor
  · rintro ⟨herror, hfault⟩
    split at herror
    · obtain rfl := Except.error.inj herror
      cases hfault
    next text hdecode =>
    split at herror
    · next fault hread =>
        obtain rfl := Except.error.inj herror
        exact nomatch (hload _ _ hread).symm.trans hfault
    next loaded hread =>
    cases loaded with
    | other v =>
        simp only [Config.ofLoaded] at herror
        split at herror
        · obtain rfl := Except.error.inj herror
          cases hfault
        · cases herror
    | mapping get? =>
        obtain ⟨kind, v, hfirst⟩ := Config.ofMapping_error_iff.mp herror
        exact .setting hdecode hread hfirst
          (Config.refuses_unfit_iff.mp ⟨hfirst.refuses, hfault⟩)
  · intro hbreaks
    cases hbreaks with
    | setting decoded loaded first unfit =>
        simp only [decoded, loaded]
        exact ⟨Config.ofMapping_error_iff.mpr ⟨_, _, first⟩,
          (Config.refuses_unfit_iff.mpr unfit).2⟩

-- ================================================================ the file

/-- Something is found at a path exactly if the question says so. -/
theorem reaches_iff :
    d.reaches file = .ok true ↔ ∃ entry, d.status file = .ok entry := by
  unfold Disk.reaches
  cases d.status file with
  | ok entry => exact iff_of_true rfl ⟨entry, rfl⟩
  | error f =>
      refine iff_of_false ?_ (fun ⟨_, h⟩ => nomatch h)
      unfold Disk.holds
      split
      · next heq => cases heq
      · exact fun h => nomatch h
      · split
        · exact fun h => nomatch h
        · exact fun h => nomatch h
      · exact fun h => nomatch h

theorem load_file {stamp : Stamp}
    (h : d.status file = .ok (.file content stamp)) :
    Config.load d file reader = Config.ofBytes file content reader := by
  rw [Config.load, Disk.read, h]
  rfl

theorem load_noFile {entry : Entry} (h : d.status file = .ok entry)
    (hother : entry.isFile = false) : Config.load d file reader
      = .error (.disk (.system (.refused .isDirectory (.path file)))) := by
  rw [Config.load, Disk.read, h]
  cases entry with
  | file => cases hother
  | directory => rfl
  | link => rfl

/-- What stands at a path breaks the program as the file of settings. -/
theorem load_breaks_iff (hload : Told reader) {entry : Entry}
    (h : d.status file = .ok entry) :
    Config.load d file reader = .error e ∧ isUsageFault e = false
      ↔ Breaks reader d file e := by
  have hshort : ¬ (Disk.hasNull file.text = false ∧ d.TooLong file) :=
    fun ⟨hclear, hlong⟩ => nomatch (reaches_iff.mpr ⟨entry, h⟩).symm.trans
      (Disk.reaches_error_iff.mpr ⟨hclear, hlong, rfl⟩)
  constructor
  · rintro ⟨herror, hfault⟩
    by_cases hfile : entry.isFile = true
    · cases entry with
      | file content stamp =>
          rw [load_file h] at herror
          exact .content h ((ofBytes_breaks_iff hload).mp ⟨herror, hfault⟩)
      | directory => cases hfile
      | link => cases hfile
    · have hother : entry.isFile = false := by simpa using hfile
      rw [load_noFile h hother] at herror
      obtain rfl := Except.error.inj herror
      exact .noFile h hother
  · intro hbreaks
    cases hbreaks with
    | tooLong clear long => exact absurd ⟨clear, long⟩ hshort
    | noFile there other => exact ⟨load_noFile there other, rfl⟩
    | content there breaks =>
        rw [load_file there]
        exact (ofBytes_breaks_iff hload).mpr breaks

/-- A file of settings breaks the program before it is read, or is
there. -/
theorem Breaks.reaches (h : Breaks reader d file e) :
    d.reaches file = .error (Disk.tooLong file)
        ∧ e = .disk (Disk.tooLong file)
      ∨ d.reaches file = .ok true := by
  cases h with
  | tooLong clear long =>
      exact Or.inl ⟨Disk.reaches_error_iff.mpr ⟨clear, long, rfl⟩, rfl⟩
  | noFile there => exact Or.inr (reaches_iff.mpr ⟨_, there⟩)
  | content there => exact Or.inr (reaches_iff.mpr ⟨_, there⟩)

/-- What is wrong with a file that is loaded is told as wrong usage, or it
breaks the program. -/
theorem loaded_broken_iff {r : Except LoadFailure Config} :
    (match r with
      | .ok config => .ok config
      | .error e' =>
          if isUsageFault e' then .error (.usage e'.message)
          else .error (.broken e') : Except Stop Config)
        = .error (.broken e)
      ↔ r = .error e ∧ isUsageFault e = false := by
  cases r with
  | ok config => simp
  | error e' =>
      cases hfault : isUsageFault e' with
      | true =>
          refine iff_of_false (by simp [hfault]) ?_
          rintro ⟨herror, hno⟩
          obtain rfl := Except.error.inj herror
          exact nomatch hfault.symm.trans hno
      | false =>
          simp only [hfault, Bool.false_eq_true, if_false,
            Except.error.injEq, Stop.broken.injEq]
          exact ⟨fun heq => ⟨heq, heq ▸ hfault⟩, fun h => h.1⟩

/-- The file of settings that is named breaks the program as `Breaks`
lists it. -/
theorem fileConfig_broken_iff (hload : Told reader) :
    fileConfig d c reader = .error (.broken e)
      ↔ ∃ name, c.value? "config" = some name
        ∧ Breaks reader d (Path.ofString name) e := by
  unfold fileConfig
  cases c.value? "config" with
  | none => simp
  | some name =>
      simp only [Option.some.injEq, exists_eq_left']
      generalize Path.ofString name = file
      cases hreaches : d.reaches file with
      | error f =>
          obtain ⟨hclear, hlong, rfl⟩ := Disk.reaches_error_iff.mp hreaches
          constructor
          · intro h
            obtain rfl := Stop.broken.inj (Except.error.inj h)
            exact .tooLong hclear hlong
          · intro hbreaks
            obtain ⟨-, rfl⟩ | hthere := hbreaks.reaches
            · rfl
            · exact nomatch hreaches.symm.trans hthere
      | ok there =>
          cases there with
          | false =>
              refine iff_of_false (fun h => nomatch h) fun hbreaks => ?_
              obtain ⟨hlong, -⟩ | hthere := hbreaks.reaches
              · exact nomatch hreaches.symm.trans hlong
              · exact nomatch hreaches.symm.trans hthere
          | true =>
              obtain ⟨entry, hstatus⟩ := reaches_iff.mp hreaches
              exact loaded_broken_iff.trans (load_breaks_iff hload hstatus)

-- ============================================================ the outcome

/-- Settings that pass the last check can be run with. -/
theorem checked_ok (h : checked config = .ok config') :
    config' = config ∧ config.server ≠ ""
      ∧ Remote.validate config.path = .ok config.path := by
  unfold checked at h
  split at h
  · cases h
  next hserver =>
  split at h
  · next p hvalid =>
      obtain rfl := (Except.ok.inj h)
      refine ⟨rfl, hserver, ?_⟩
      obtain ⟨hok, -⟩ | ⟨r, hr, -⟩ := Remote.validate_cases config.path
      · exact hok
      · exact nomatch hvalid.symm.trans hr
  · cases h

/-- The last check tells all that it finds as wrong usage. -/
theorem checked_not_broken : checked config ≠ .error (.broken e) := by
  unfold checked
  split
  · exact fun h => nomatch h
  · split
    · exact fun h => nomatch h
    · exact fun h => nomatch h

/-- The failure that broke the program, if one did. -/
def Stop.failure? {α : Type} : Except Stop α → Option LoadFailure
  | .error (.broken e) => some e
  | _ => none

theorem Stop.failure?_eq_some {α : Type} {r : Except Stop α} :
    Stop.failure? r = some e ↔ r = .error (.broken e) := by
  unfold Stop.failure?
  split
  · simp
  · next hno => exact iff_of_false (fun h => nomatch h) (hno e)

/-- The settings that a command line gives have a server, and a path that
passes the check. The program is broken only by a file of settings that is
named, and only as `Breaks` lists it; all else that is wrong is told as
wrong usage. -/
theorem settings_outcome (reader : Reader) (hload : Told reader) (d : Disk)
    (words : List String) :
    (∀ config, settings d words reader = .ok config → config.server ≠ ""
      ∧ Remote.validate config.path = .ok config.path)
    ∧ ∀ e, settings d words reader = .error (.broken e)
      ↔ ∃ c name, Command.read replicateInterface words = .command c
        ∧ c.value? "config" = some name
        ∧ Breaks reader d (Path.ofString name) e := by
  unfold settings
  cases hread : Command.read replicateInterface words with
  | help => simp
  | refused r => simp
  | command c =>
      have hnamed : ∀ e, (∃ c' name, CommandLine.Outcome.command c = .command c'
          ∧ c'.value? "config" = some name
          ∧ Breaks reader d (Path.ofString name) e)
            ↔ fileConfig d c reader = .error (.broken e) := by
        intro e
        rw [fileConfig_broken_iff hload]
        simp
      simp only [hnamed]
      cases fileConfig d c reader with
      | error stop =>
          refine ⟨fun config h => (nomatch h), fun e => ?_⟩
          simp [bind, Except.bind]
      | ok config =>
          refine ⟨fun config' h => ?_, fun e => ?_⟩
          · obtain ⟨rfl, husable⟩ := checked_ok h
            exact husable
          · exact iff_of_false checked_not_broken (fun h => nomatch h)

/-- The standard reader, but that a text that does not fit its tag is told
as any other wrong value is. -/
def toldReader : Reader :=
  { Reader.standard with
    load := fun text => match Yaml.load text with
      | .error (.text _) => .error (.value .mapping)
      | result => result }

theorem told_toldReader : Told toldReader := by
  intro text fault h
  unfold toldReader at h
  simp only at h
  split at h
  · obtain rfl := Except.error.inj h
    rfl
  · next hother =>
      cases fault with
      | text f => exact absurd h (hother f)
      | _ => rfl

/-- A server is enough to run with. If a file is named as well that leaves
a number blank, it breaks the program. -/
theorem settings_outcome_given :
    let content : Bytes := "max_retries:\n".toList.map
      fun c => UInt8.ofNat c.toNat
    let d : Disk := ⟨.directory [("blank", .file content .written)], []⟩
    Told toldReader
    ∧ (∃ config, settings d ["--server", "s"] toldReader = .ok config
      ∧ config.server ≠ ""
      ∧ Remote.validate config.path = .ok config.path)
    ∧ ∃ e, settings d ["--server", "s", "--config", "blank"] toldReader
        = .error (.broken e)
      ∧ Breaks toldReader d (Path.ofString "blank") e := by
  intro content d
  have hgiven : (settings d ["--server", "s"] toldReader).toOption.isSome
      = true := by
    decide +kernel
  have hbroken : settings d ["--server", "s", "--config", "blank"] toldReader
      = .error (.broken (.notNumber .integer "NoneType")) :=
    Stop.failure?_eq_some.mp (by decide +kernel)
  refine ⟨told_toldReader, ?_, ?_⟩
  · cases hsettings : settings d ["--server", "s"] toldReader with
    | error stop =>
        rw [hsettings] at hgiven
        cases hgiven
    | ok config =>
        exact ⟨config, rfl, (settings_outcome toldReader told_toldReader d
          _).1 config hsettings⟩
  · obtain ⟨c, name, hread, hnamed, hbreaks⟩ :=
      ((settings_outcome toldReader told_toldReader d _).2 _).mp hbroken
    have hwords : Command.read replicateInterface
        ["--server", "s", "--config", "blank"]
        = .command ⟨[], [("config", some "blank"), ("server", some "s")], []⟩ := by
      decide +kernel
    rw [hwords] at hread
    obtain rfl := CommandLine.Outcome.command.inj hread
    obtain rfl : "blank" = name := by simpa [Command.value?] using hnamed
    exact ⟨_, hbroken, hbreaks⟩

/-- A file of settings that is there, and whose document is loaded, breaks
the program: it has a list where a number is wanted. -/
theorem settings_broken_by_list :
    let content : Bytes := "server: s\nmax_retries: []\n".toList.map
      fun c => UInt8.ofNat c.toNat
    let d : Disk := ⟨.directory [("type.yaml", .file content .written)], []⟩
    Told toldReader
      ∧ d.status (Path.ofString "type.yaml") = .ok (.file content .written)
      ∧ (∃ text loaded, Text.decode content = .ok text
        ∧ toldReader.load (Text.unifyLineEnds text) = .ok loaded)
      ∧ settings d ["--config", "type.yaml"] toldReader
        = .error (.broken (.notNumber .integer "list")) := by
  intro content d
  have hload : ((Text.decode content).toOption.bind fun text =>
      (toldReader.load (Text.unifyLineEnds text)).toOption).isSome
        = true := by
    decide +kernel
  refine ⟨told_toldReader, by rfl, ?_,
    Stop.failure?_eq_some.mp (by decide +kernel)⟩
  cases hdecode : Text.decode content with
  | error fault =>
      rw [hdecode] at hload
      cases hload
  | ok text =>
      cases hloaded : toldReader.load (Text.unifyLineEnds text) with
      | error fault =>
          simp [hdecode, hloaded, Except.toOption] at hload
      | ok loaded => exact ⟨text, loaded, rfl, hloaded⟩

end TreeReplica.Program
