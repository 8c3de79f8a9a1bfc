/-
When a run does not start. For an output path that can be passed to the
system, on a disk with names as the system has them, a start makes the
output directory empty or is refused, and the program ends with the text
of the refusal before anything is asked of the source (`startup_refused`).

There is one way out beside: the first question, whether a file is in the
way, is asked outside of every handler. If the path is too long for the
system the answer is a failure, which the program does not turn into a
refusal. It is the only such failure, since all later ones are caught, and
a directory that was made can be listed.
-/
import TreeReplica.Program.Replicate
import TreeReplica.Proofs.Disk.Refusal
import TreeReplica.Proofs.Replica.Clearing

namespace TreeReplica

-- ========================================================= names of a disk

/-- Something is found by a name that is listed. -/
theorem Children.get?_ne_none {cs : List (String × Entry)} {n : String}
    (h : n ∈ cs.map (·.1)) : get? cs n ≠ none := by
  induction cs with
  | nil => cases h
  | cons c rest ih =>
      obtain ⟨m, x⟩ := c
      by_cases hm : m = n
      · simp [get?, hm]
      · rw [List.map_cons, List.mem_cons] at h
        simp only [get?, hm, if_false]
        exact ih (h.resolve_left fun heq => hm heq.symm)

namespace Disk

variable {d d' : Disk} {p : Path}

/-- No name on the disk holds the null character, which the system does not
allow in a name. -/
def Clear (d : Disk) : Prop :=
  ∀ l, d.root.view l ≠ none → ∀ n ∈ l, hasNull n = false

/-- A directory that is made has the last name of its path. -/
theorem Clear.makeDirectory (h : d.Clear) (hp : hasNull p.text = false)
    (hm : d.makeDirectory p = .ok d') : d'.Clear := by
  obtain ⟨a, n, hreach, -, rfl, -⟩ := find_made hm
  obtain ⟨above, hparts, -, hdir, -⟩ := exists_above hreach
  have hview : (d.put (a ++ [n]) (.directory [])).root.view
      = d.root.view.set (a ++ [n]) .directory :=
    Entry.view_insert_directory hdir n
  intro l hl
  rw [hview] at hl
  by_cases hpre : a ++ [n] <+: l
  · by_cases heq : l = a ++ [n]
    · subst heq
      intro k hk
      rcases List.mem_append.mp hk with hk | hk
      · exact h a (by simp [hdir]) k hk
      · exact Path.clear_of_mem hp (by
          rw [hparts]
          exact List.mem_append_right _ hk)
    · exact absurd (View.set_below hpre heq _) hl
  · rw [View.set_outside hpre] at hl
    exact h l hl

theorem Clear.ensureDirectory (h : d.Clear) (hp : hasNull p.text = false)
    (hm : d.ensureDirectory p = .ok d') : d'.Clear := by
  unfold Disk.ensureDirectory at hm
  split at hm
  · split at hm
    · cases hm
      exact h
    · cases hm
    · cases hm
  · exact h.makeDirectory hp hm

end Disk

namespace Output

open Work

variable {out : Path} {force : Bool} {h h' : Host} {f : Fault}
  {cs : List (String × Entry)}

-- ============================================================ what fails

/-- Making the directories of a path keeps the names clear, and fails only
by a refusal of the system. -/
theorem makeDirectories_clear {anchor : Anchor} {parts : List String}
    (hparts : ∀ n ∈ parts, Disk.hasNull n = false) :
    Respects Disk.Clear (makeDirectories anchor parts)
      ∧ StopsOnly Fault.Refusal (makeDirectories anchor parts) := by
  have hensure : ∀ p : Path, Disk.hasNull p.text = false →
      Respects Disk.Clear (act (·.ensureDirectory p))
        ∧ StopsOnly Fault.Refusal (act (·.ensureDirectory p)) :=
    fun p hp => ⟨respects_act fun hd hm => hd.ensureDirectory hp hm,
      stops_act fun d => d.heard_ensureDirectory hp⟩
  induction parts with
  | nil => exact hensure ⟨anchor, []⟩ (Path.clear_of_parts (by simp))
  | cons last above ih =>
      obtain ⟨hkeeps, hstops⟩ := ih fun n hn =>
        hparts n (List.mem_cons_of_mem _ hn)
      have hp : Disk.hasNull
          (⟨anchor, (last :: above).reverse⟩ : Path).text = false :=
        Path.clear_of_parts fun n hn => hparts n (List.mem_reverse.mp hn)
      obtain ⟨hkept, hstopped⟩ := hensure _ hp
      constructor
      · refine (respects_act fun hd hm => hd.makeDirectory hp hm).rescue
          fun fault => ?_
        split
        · exact hkeeps.bind fun _ => hkept
        · exact hkept
      · refine (stops_act fun d => d.heard_makeDirectory hp).rescue
          fun fault _ => ?_
        split
        · exact hstops.bind fun _ => hstopped
        · exact hstopped

/-- Taking an entry away fails only by a refusal of the system. -/
theorem deleteEntry_stops {entry : Path}
    (hp : Disk.hasNull entry.text = false) :
    StopsOnly Fault.Refusal (deleteEntry entry) := by
  have hfile : StopsOnly Fault.Refusal (act (·.removeFile entry)) :=
    stops_act fun d => d.heard_removeFile hp
  refine (stops_ask fun d => d.heard_isDirectory hp).bind fun isDirectory => ?_
  split
  · refine (stops_ask fun d => Disk.heard_holds
      (d.heard_linkStatus hp)).bind fun isLink => ?_
    split
    · exact hfile
    · exact (stops_act fun d => d.heard_emptyTree hp).bind fun _ =>
        stops_act fun d => d.heard_removeDirectory hp
  · exact hfile

theorem forM_deleteEntry_stops {names : List String}
    (hp : Disk.hasNull out.text = false)
    (hnames : ∀ n ∈ names, Disk.hasNull n = false) :
    StopsOnly Fault.Refusal
      (names.forM fun n => deleteEntry (out.child n)) := by
  induction names with
  | nil => exact stops_pure ()
  | cons n names ih =>
      exact (deleteEntry_stops (Path.clear_child hp
        (hnames n (List.mem_cons_self ..)))).bind fun _ =>
          ih fun m hm => hnames m (List.mem_cons_of_mem n hm)

/-- Emptying a directory with clear names fails only by a refusal of the
system. -/
theorem deleteContents_refusal {l : Location} (hd : h.disk.Clear)
    (hp : Disk.hasNull out.text = false)
    (hf : h.disk.find true out = .ok (l, .directory cs))
    (hr : deleteContents out h = .error f h') : f.Refusal := by
  obtain ⟨_, -, -, hget⟩ := Disk.find_eq_ok.mp hf
  have hlist : h.disk.list out = .ok (cs.map (·.1)) := by
    rw [Disk.list, Disk.status, hf]
    rfl
  have hnames : ∀ n ∈ cs.map (·.1), Disk.hasNull n = false := by
    intro n hn
    refine hd (l ++ [n]) ?_ n (by simp)
    rw [Entry.view_append hget, Entry.view_cons]
    obtain ⟨x, hx⟩ := Option.ne_none_iff_exists'.mp
      (Children.get?_ne_none hn)
    simp [hx]
  unfold deleteContents at hr
  rw [ask_bind_eq hlist] at hr
  exact (forM_deleteEntry_stops hp hnames).of_error hr

-- ============================================================== refusals

/-- A refusal of a start, and what it is refused for. -/
inductive Grounds (out : Path) (force : Bool) (h : Host) : Refusal → Prop
  | fileObstructs (asked : h.disk.isFile out = .ok true)
      (gentle : force = false) : Grounds out force h (.fileObstructs out)
  | cannotRemoveFile {e : SystemError} (asked : h.disk.isFile out = .ok true)
      (forced : force = true)
      (failed : h.disk.removeFile out = .error (.system e)) :
      Grounds out force h (.cannotRemoveFile out)
  | cannotCreate {e : SystemError} {h' : Host}
      (asked : h.disk.isFile out = .ok false)
      (failed : makeDirectories out.anchor out.parts.reverse h
        = .error (.system e) h') : Grounds out force h (.cannotCreate out)
  | notEmpty {mid : Host} {cs : List (String × Entry)}
      (asked : h.disk.isFile out = .ok false) (gentle : force = false)
      (made : Made out h mid cs) (filled : cs ≠ []) :
      Grounds out force h (.notEmpty out)
  | cannotClean {mid h' : Host} {cs : List (String × Entry)}
      {e : SystemError} (asked : h.disk.isFile out = .ok false)
      (forced : force = true) (made : Made out h mid cs)
      (failed : deleteContents out mid = .error (.system e) h') :
      Grounds out force h (.cannotClean out e)

/-- How a start ends for a path that can be passed to the system: with an
empty directory, with a refusal, or, where the path is too long for the
first question, with a failure and nothing done. -/
inductive Answers (out : Path) (force : Bool) (h : Host) :
    EStateM.Result Failure Host Unit → Prop
  | ready {h' : Host} {l : Location} (fits : ¬ h.disk.TooLong out)
      (vacant : Vacant out force h.disk h'.disk l) :
      Answers out force h (.ok () h')
  | refused {h' : Host} {r : Refusal} (fits : ¬ h.disk.TooLong out)
      (grounds : Grounds out force h r) :
      Answers out force h (.error (.refused r) h')
  | tooLong (long : h.disk.TooLong out) :
      Answers out force h (.error (.disk (Disk.tooLong out)) h)

theorem prepare_answers (hout : Disk.hasNull out.text = false)
    (hd : h.disk.Clear) (force : Bool) :
    Answers out force h (prepare out force h) := by
  have hfits : ∀ {isFile}, h.disk.isFile out = .ok isFile →
      ¬ h.disk.TooLong out := by
    intro isFile asked hlong
    cases asked.symm.trans ((Disk.isFile_error_iff hout).mpr ⟨hlong, rfl⟩)
  have hstarts := prepare_starts out force h
  generalize hr : prepare out force h = result at hstarts
  obtain ⟨hkeeps, hstops⟩ : Respects Disk.Clear
        (makeDirectories out.anchor out.parts.reverse)
      ∧ StopsOnly Fault.Refusal
        (makeDirectories out.anchor out.parts.reverse) :=
    makeDirectories_clear fun n hn =>
      Path.clear_of_mem hout (List.mem_reverse.mp hn)
  cases hstarts with
  | unknown asked =>
      obtain ⟨hlong, rfl⟩ := (Disk.isFile_error_iff hout).mp asked
      exact .tooLong hlong
  | obstructed asked gentle =>
      exact .refused (hfits asked) (.fileObstructs asked gentle)
  | @fileStays f asked forced removed =>
      have hf := h.disk.heard_removeFile hout f removed
      cases f with
      | system e =>
          exact .refused (hfits asked) (.cannotRemoveFile asked forced removed)
      | argument e => exact hf.elim
  | replaced asked =>
      obtain ⟨l, hl⟩ := prepare_vacant hr
      exact .ready (hfits asked) hl
  | @unmade f h' asked grown stopped =>
      have hf := hstops.of_error stopped
      cases f with
      | system e => exact .refused (hfits asked) (.cannotCreate asked stopped)
      | argument e => exact hf.elim
  | empty asked =>
      obtain ⟨l, hl⟩ := prepare_vacant hr
      exact .ready (hfits asked) hl
  | full asked gentle made filled =>
      exact .refused (hfits asked) (.notEmpty asked gentle made filled)
  | cleaned asked =>
      obtain ⟨l, hl⟩ := prepare_vacant hr
      exact .ready (hfits asked) hl
  | @unclean mid h' cs f asked forced made stopped =>
      have hmid := hkeeps h hd
      rw [made.done] at hmid
      have hf := deleteContents_refusal hmid hout made.found stopped
      cases f with
      | system e =>
          exact .refused (hfits asked)
            (.cannotClean asked forced made stopped)
      | argument e => exact hf.elim

end Output

namespace Program

open Output Work

variable {out : Path} {force : Bool} {h : Host}

-- ============================================================ the program

/-- A start makes the output directory empty or is refused, unless the path
is too long; and a program that comes to a start that fails has asked
nothing of the source, and ends with the text of the refusal, or is broken
by the failure. -/
theorem startup_refused (hout : Disk.hasNull out.text = false)
    (hd : h.disk.Clear) :
    Answers out force h (prepare out force h)
    ∧ ∀ words source first c, settings first.disk words = .ok c →
        Path.ofString c.output = out → c.force = force →
        h = { first with log := first.log ++ [starting c] } →
        ∀ f h', prepare out force h = .error f h' →
          (replicate words source first).account.requests = []
          ∧ (replicate words source first).host = h'
          ∧ (replicate words source first).exit
            = match f with
              | .refused r => .text r.message
              | .disk fault => .run (.output (.disk fault)) := by
  refine ⟨prepare_answers hout hd force, ?_⟩
  rintro words source first c hset rfl rfl rfl f h' hr
  have hreport : Run.run (runSettings c) source
      { first with log := first.log ++ [starting c] }
        = ⟨.error (.output f), {}, h'⟩ := by
    unfold Run.run
    have hprepare : prepare (runSettings c).outPath (runSettings c).force
        { first with log := first.log ++ [starting c] } = .error f h' := hr
    rw [hprepare]
  have hrun : replicate words source first
      = { exit := exitOf (.error (.output f))
          errors := h'.log.atLeast (threshold c)
          made := [watchOptions c]
          host := h' } := by
    unfold replicate
    rw [hset]
    simp only [replicateWith, hreport]
  rw [hrun]
  cases f with
  | refused r => exact ⟨rfl, rfl, rfl⟩
  | disk fault => exact ⟨rfl, rfl, rfl⟩

/-- A file where the output directory would be: the program ends with the
text that says so, and the start is one that is answered. -/
theorem startup_refused_file :
    let first : Host := { disk := ⟨.directory
      [("m", .file [1] (.dated 5))], []⟩ }
    let words := ["-server", "zk", "-out", "m"]
    (replicate words .hangs first).exit
        = .text "File obstructing (use -f to delete?): m"
      ∧ (replicate words .hangs first).account.requests = []
      ∧ Answers ⟨.here, ["m"]⟩ false first
        (prepare ⟨.here, ["m"]⟩ false first) := by
  intro first words
  have hread : (settings first.disk words).toOption.any
      (fun c => c.output == "m" && !c.force) = true := by decide +kernel
  cases hset : settings first.disk words with
  | error stop =>
      rw [hset] at hread
      cases hread
  | ok c =>
      rw [hset] at hread
      simp only [Except.toOption, Option.any_some, Bool.and_eq_true,
        beq_iff_eq, Bool.not_eq_true'] at hread
      obtain ⟨hname, hforce⟩ := hread
      have hpath : Path.ofString c.output = ⟨.here, ["m"]⟩ := by
        rw [hname]
        decide +kernel
      have hclear : first.disk.Clear := by
        intro l hl n hn
        cases l with
        | nil => cases hn
        | cons k l =>
            by_cases hk : "m" = k
            · subst hk
              cases l with
              | nil =>
                  rw [List.mem_singleton.mp hn]
                  decide
              | cons j l => exact absurd rfl hl
            · rw [Entry.view_cons] at hl
              simp [Children.get?, hk] at hl
      have hout : Disk.hasNull (⟨.here, ["m"]⟩ : Path).text = false := by
        decide +kernel
      have hprepare : prepare ⟨.here, ["m"]⟩ false
          { first with log := first.log ++ [starting c] }
            = .error (.refused (.fileObstructs ⟨.here, ["m"]⟩))
              { first with log := first.log ++ [starting c] } := by rfl
      obtain ⟨-, hends⟩ := startup_refused
        (h := { first with log := first.log ++ [starting c] }) hout hclear
      obtain ⟨hrequests, -, hexit⟩ :=
        hends words .hangs first c hset hpath hforce rfl _ _ hprepare
      refine ⟨hexit.trans ?_, hrequests, (startup_refused hout hclear).1⟩
      rfl

/-- The size of a name of one letter. -/
private theorem utf8ByteSize_letters (n : Nat) :
    (String.ofList (List.replicate n 'a')).utf8ByteSize = n := by
  induction n with
  | zero => simp
  | succ n ih =>
      have hone : (String.singleton 'a').utf8ByteSize = 1 := by decide
      rw [List.replicate_succ, String.ofList_cons,
        String.utf8ByteSize_append, ih, hone, Nat.add_comm]

/-- A name that is too long for the system is not refused: the start fails
with what the system says to its first question. -/
theorem startup_tooLong :
    let name := String.ofList (List.replicate 256 'a')
    let h : Host := { disk := ⟨.directory [], []⟩ }
    Disk.hasNull (⟨.here, [name]⟩ : Path).text = false ∧ h.disk.Clear
      ∧ ∀ force, prepare ⟨.here, [name]⟩ force h
        = .error (.disk (Disk.tooLong ⟨.here, [name]⟩)) h := by
  intro name h
  have hsize : name.utf8ByteSize = 256 := utf8ByteSize_letters 256
  have hout : Disk.hasNull (⟨.here, [name]⟩ : Path).text = false := by
    rw [Disk.hasNull_text, List.any_cons, List.any_nil, Bool.or_false,
      Disk.hasNull, String.toList_ofList]
    decide
  have hdir : h.disk.root.view [] = some .directory := rfl
  have hdot : name ≠ "." := fun heq => by
    rw [heq] at hsize
    exact absurd hsize (by decide)
  have hup : name ≠ ".." := fun heq => by
    rw [heq] at hsize
    exact absurd hsize (by decide)
  have hlong : h.disk.TooLong ⟨.here, [name]⟩ := by
    have hturn := turn_tooLong hdir hdot hup (by rw [hsize]; decide)
    have htrace : trace h.disk.root true [] [name]
        = .stopped .nameTooLong := trace_stop hturn
    have hstart : h.disk.start .here = [] := rfl
    right
    rw [hstart, walk, htrace]
  refine ⟨hout, ?_, fun force => prepare_unknown
    ((Disk.isFile_error_iff hout).mpr ⟨hlong, rfl⟩)⟩
  intro l hl n hn
  cases l with
  | nil => cases hn
  | cons k l => exact absurd rfl hl

end Program

end TreeReplica
