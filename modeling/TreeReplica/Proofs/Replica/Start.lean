/-
How a start ends. `prepare` asks for a file in the way, makes the directory
and the directories above it, and cleans what it finds there; `Starts`
lists every end that this can have, with the disk and the failure that it
leaves (`prepare_starts`), and nothing later looks into `prepare` again.

A directory that was made is found by its path (`Disk.find_made`), so a
start never fails to list it. A file in the way, or a link to one, is
replaced by a directory at the same place, because no way to a directory
passes it (`Disk.remade`).
-/
import TreeReplica.Proofs.Disk.Bypass
import TreeReplica.Proofs.Disk.Respect
import TreeReplica.Proofs.Disk.Ways
import TreeReplica.Replica.Output

namespace TreeReplica

/-- Below what is no directory there is nothing. -/
theorem Entry.view_below {e : Entry} {l m : Location}
    (hno : e.view l ≠ some .directory) (hp : l <+: m) (hne : m ≠ l) :
    e.view m = none := by
  obtain ⟨b, rfl⟩ := hp
  have hb : b ≠ [] := fun heq => hne (by rw [heq, List.append_nil])
  exact Decidable.not_not.mp fun hthere => hno (view_above hb hthere)

namespace Disk

variable {d d' : Disk} {p : Path}

-- ======================================================= made and found

/-- A path to a name below a directory, in its last step. -/
theorem exists_above {a : Location} {n : String} {subject : Subject}
    (hr : d.reach false p subject = .ok (.inside a n)) :
    ∃ above, p.parts = above ++ [n]
      ∧ (∃ before, walk d.root true linkLimit (d.start p.anchor) above
          = .ok before ∧ before.location = a)
      ∧ d.root.view a = some .directory
      ∧ turn d.root.view a n = .entry (d.root.view (a ++ [n])) := by
  obtain ⟨-, -, hw⟩ := reach_eq_ok.mp hr
  rcases List.eq_nil_or_concat p.parts with hp | ⟨above, k, hp⟩
  · rw [hp, walk] at hw
    cases hw
  rw [List.concat_eq_append] at hp
  rw [hp] at hw
  obtain ⟨before, left, habove, hdir, hlast⟩ := walk_concat hw
  obtain ⟨hturn, rfl, rfl⟩ := turn_of_single hdir hlast
  exact ⟨above, hp, ⟨before, habove, rfl⟩, hdir, hturn⟩

/-- A directory that was made is found, empty, where its path led to a free
name. -/
theorem find_made (hm : d.makeDirectory p = .ok d') :
    ∃ a n, d.reach false p (.path p) = .ok (.inside a n)
      ∧ d.root.get? (a ++ [n]) = none
      ∧ d' = d.put (a ++ [n]) (.directory [])
      ∧ d'.find true p = .ok (a ++ [n], .directory []) := by
  have hgrown : d.Grown (fun _ => True) d' :=
    (Grown.refl d).makeDirectory trivial hm
  have hways := hgrown.sameWays
  obtain ⟨place, hr, hm⟩ := exists_of_bind hm
  cases place with
  | itself l => cases hm
  | inside a n =>
      simp only at hm
      split at hm
      · cases hm
      next hfree =>
      cases hm
      obtain ⟨hclear, hshort, -⟩ := reach_eq_ok.mp hr
      obtain ⟨above, hp, ⟨before, habove, rfl⟩, hdir, hturn⟩ :=
        exists_above hr
      refine ⟨before.location, n, hr, hfree, rfl, ?_⟩
      have hview : (d.put (before.location ++ [n]) (.directory [])).root.view
          = d.root.view.set (before.location ++ [n]) .directory :=
        Entry.view_insert_directory hdir n
      have hthere : (d.put (before.location ++ [n]) (.directory [])).root.view
          (before.location ++ [n]) = some .directory := by
        rw [hview, View.set_self]
      have hget : (d.put (before.location ++ [n]) (.directory [])).root.get?
          (before.location ++ [n]) = some (.directory []) := by
        refine Entry.get?_of_empty hthere fun k => ?_
        rw [hview, View.set_below (List.prefix_append _ _) (by simp)]
      have hbefore := walk_kept hways.directories
        (fun m t => (hways.links m t).mpr) habove hdir
      have hnow := turn_entry_congr hturn (hways.directories _ hdir)
      rw [hthere] at hnow
      refine find_eq_ok.mpr ⟨.inside before.location n,
        reach_eq_ok.mpr ⟨hclear, hshort, ?_⟩, rfl, hget⟩
      rw [hp]
      exact walk_onto hbefore (hways.directories _ hdir) hnow
        (Or.inr (by simp))

/-- A file in the way, or a link to one, that was taken away leaves its
name free for a directory, which is found then. -/
theorem remade (hf : d.isFile p = .ok true) (hr : d.removeFile p = .ok d') :
    ∃ a n, d.reach false p (.path p) = .ok (.inside a n)
      ∧ d.root.view (a ++ [n]) ≠ some .directory
      ∧ d' = d.drop (a ++ [n])
      ∧ d'.makeDirectory p = .ok (d'.put (a ++ [n]) (.directory []))
      ∧ (d'.put (a ++ [n]) (.directory [])).find true p
        = .ok (a ++ [n], .directory []) := by
  obtain ⟨_, x, hfound, hkind⟩ := find_of_holds hf
  obtain ⟨place, hreach, rfl, hget⟩ := find_eq_ok.mp hfound
  obtain ⟨-, -, hfile⟩ := reach_eq_ok.mp hreach
  obtain ⟨a, n, y, hreach', hthere, hno, rfl⟩ := exists_of_removeFile hr
  have hother : d.root.view (a ++ [n]) ≠ some .directory := by
    intro hd
    obtain ⟨cs, hcs⟩ := Entry.view_eq_directory.mp hd
    exact hno cs (Option.some.inj (hthere.symm.trans hcs))
  obtain ⟨hclear, hshort, -⟩ := reach_eq_ok.mp hreach'
  obtain ⟨above, hp, ⟨before, habove, rfl⟩, hdir, hturn⟩ :=
    exists_above hreach'
  refine ⟨before.location, n, hreach', hother, rfl, ?_⟩
  -- the walk to the file is what says where the entry leads
  have hbars : Bars d.root before.location n := by
    rw [hp] at hfile
    obtain ⟨left, hleft⟩ := walk_append true (List.cons_ne_nil n [])
      habove hdir
    rw [hleft] at hfile
    refine bars_of_walk hother hturn hfile fun hd => ?_
    obtain ⟨cs, hcs⟩ := Entry.view_eq_directory.mp hd
    rw [hcs] at hget
    cases hget
    cases hkind
  have hview : ∀ m, (d.drop (before.location ++ [n])).root.view m
      = if before.location ++ [n] <+: m then none else d.root.view m :=
    Entry.view_erase d.root (by simp)
  have hkept : ∀ m y, m ≠ before.location ++ [n] →
      d.root.view m = some y →
      (d.drop (before.location ++ [n])).root.view m = some y := by
    intro m y hne hy
    rw [hview, if_neg fun hpre => ?_]
    · exact hy
    · cases (Entry.view_below hother hpre hne).symm.trans hy
  have hdir' := hkept _ _ (by simp) hdir
  have hnow := turn_entry_congr hturn hdir'
  have hreached : (d.drop (before.location ++ [n])).reach false p (.path p)
      = .ok (.inside before.location n) := by
    refine reach_eq_ok.mpr ⟨hclear, hshort, ?_⟩
    rw [hp]
    exact walk_onto (walk_bypass hbars hkept habove hdir) hdir' hnow
      (Or.inl rfl)
  have hfree : (d.drop (before.location ++ [n])).root.get?
      (before.location ++ [n]) = none := by
    refine Entry.view_eq_none.mp ?_
    rw [hview, if_pos (List.prefix_refl _)]
  have hmake : (d.drop (before.location ++ [n])).makeDirectory p
      = .ok ((d.drop (before.location ++ [n])).put
        (before.location ++ [n]) (.directory [])) := by
    rw [makeDirectory, hreached]
    simp only [bind, Except.bind, hfree]
    rfl
  obtain ⟨a, k, hsame, -, -, hfound⟩ := find_made hmake
  cases hreached.symm.trans hsame
  exact ⟨hmake, hfound⟩

end Disk

namespace Output

open Work

variable {out : Path} {force : Bool} {d : Disk} {h h' : Host}
  {cs : List (String × Entry)}

-- ===================================================== directories made

/-- The locations that the path of a directory and the paths of its
parents name. -/
def OnTheWay (out : Path) (d : Disk) (l : Location) : Prop :=
  ∃ parts, parts <+: out.parts ∧ l = d.resolve ⟨out.anchor, parts⟩

/-- Making a directory and its parents. The induction is on the path, from
the directory up. -/
theorem makeDirectories_grown (out : Path) (d : Disk) (parts : List String)
    (hparts : parts.reverse <+: out.parts) :
    Respects (d.Grown (OnTheWay out d))
      (makeDirectories out.anchor parts) := by
  have hmake : ∀ xs, xs <+: out.parts → Respects (d.Grown (OnTheWay out d))
      (act (·.makeDirectory ⟨out.anchor, xs⟩)) :=
    fun xs hxs => respects_act fun hg hm => hg.makeDirectory ⟨xs, hxs, rfl⟩ hm
  have hensure : ∀ xs, xs <+: out.parts →
      Respects (d.Grown (OnTheWay out d))
        (act (·.ensureDirectory ⟨out.anchor, xs⟩)) :=
    fun xs hxs =>
      respects_act fun hg hm => hg.ensureDirectory ⟨xs, hxs, rfl⟩ hm
  induction parts with
  | nil => exact hensure [] List.nil_prefix
  | cons last above ih =>
      have habove : above.reverse <+: out.parts := by
        rw [List.reverse_cons] at hparts
        exact (List.prefix_append _ _).trans hparts
      refine (hmake _ hparts).rescue fun fault => ?_
      split
      · exact (ih habove).bind fun _ => hensure _ hparts
      · exact hensure _ hparts

/-- A directory that was made, with all above it, is found. -/
theorem makeDirectories_found {anchor : Anchor} {parts : List String}
    (hr : makeDirectories anchor parts h = .ok () h') :
    ∃ l cs, h'.disk.find true ⟨anchor, parts.reverse⟩
      = .ok (l, .directory cs) := by
  have hmake : ∀ {d d' : Disk} {p : Path}, d.makeDirectory p = .ok d' →
      ∃ l cs, d'.find true p = .ok (l, .directory cs) := by
    intro d d' p hm
    obtain ⟨a, n, -, -, -, hf⟩ := Disk.find_made hm
    exact ⟨_, _, hf⟩
  have hensure : ∀ {p : Path} {h : Host},
      act (·.ensureDirectory p) h = .ok () h' →
      ∃ l cs, h'.disk.find true p = .ok (l, .directory cs) := by
    intro p h hr
    obtain ⟨d, hd, rfl⟩ := ok_of_act hr
    unfold Disk.ensureDirectory at hd
    split at hd
    · split at hd
      · next hkind =>
          cases hd
          obtain ⟨l, x, hf, hx⟩ := Disk.find_of_holds hkind
          cases x with
          | directory cs => exact ⟨l, cs, hf⟩
          | file c t => cases hx
          | link t => cases hx
      · cases hd
      · cases hd
    · exact hmake hd
  cases parts with
  | nil => exact hensure hr
  | cons last above =>
      unfold makeDirectories rescue at hr
      simp only at hr
      split at hr
      · next hact =>
          cases hr
          obtain ⟨d, hd, rfl⟩ := ok_of_act hact
          exact hmake hd
      · split at hr
        · obtain ⟨_, _, -, hr⟩ := ok_of_bind hr
          exact hensure hr
        · exact hensure hr

/-- The directory of a path was made, unless it was there: it stands, with
`cs` in it, where the path led from the start, and beside it only
directories on the way are new. -/
structure Made (out : Path) (h h' : Host) (cs : List (String × Entry)) :
    Prop where
  done : makeDirectories out.anchor out.parts.reverse h = .ok () h'
  grown : h.disk.Grown (OnTheWay out h.disk) h'.disk
  found : h'.disk.find true out = .ok (h.disk.resolve out, .directory cs)

theorem made_of_ok
    (hr : makeDirectories out.anchor out.parts.reverse h = .ok () h') :
    ∃ cs, Made out h h' cs := by
  have hgrown := makeDirectories_grown out h.disk out.parts.reverse
    (by simp) h (Disk.Grown.refl _)
  rw [hr] at hgrown
  have hkept : h.disk.Grown (OnTheWay out h.disk) h'.disk := hgrown
  obtain ⟨l, cs, hf⟩ := makeDirectories_found hr
  rw [List.reverse_reverse] at hf
  refine ⟨cs, hr, hkept, ?_⟩
  rw [← hkept.sameWays.resolve_eq, Disk.resolve_of_find hf]
  exact hf

-- ============================================================= the start

/-- A fault of the disk under the name that a start gives it. -/
def renamed (r : SystemError → Refusal) : Fault → Failure
  | .system e => .refused (r e)
  | .argument e => .disk (.argument e)

/-- How a start may end. -/
inductive Starts (out : Path) (force : Bool) (h : Host) :
    EStateM.Result Failure Host Unit → Prop
  | unknown {f : Fault} (asked : h.disk.isFile out = .error f) :
      Starts out force h (.error (.disk f) h)
  | obstructed (asked : h.disk.isFile out = .ok true)
      (gentle : force = false) :
      Starts out force h (.error (.refused (.fileObstructs out)) h)
  | fileStays {f : Fault} (asked : h.disk.isFile out = .ok true)
      (forced : force = true) (removed : h.disk.removeFile out = .error f) :
      Starts out force h
        (.error (renamed (fun _ => .cannotRemoveFile out) f) h)
  | replaced {a : Location} {n : String}
      (asked : h.disk.isFile out = .ok true) (forced : force = true)
      (reached : h.disk.reach false out (.path out) = .ok (.inside a n))
      (other : h.disk.root.view (a ++ [n]) ≠ some .directory)
      (removed : h.disk.removeFile out = .ok (h.disk.drop (a ++ [n])))
      (made : (h.disk.drop (a ++ [n])).makeDirectory out
        = .ok ((h.disk.drop (a ++ [n])).put (a ++ [n]) (.directory [])))
      (found : ((h.disk.drop (a ++ [n])).put (a ++ [n])
          (.directory [])).find true out = .ok (a ++ [n], .directory [])) :
      Starts out force h (.ok () { h with
        disk := (h.disk.drop (a ++ [n])).put (a ++ [n]) (.directory []) })
  | unmade {f : Fault} {h' : Host} (asked : h.disk.isFile out = .ok false)
      (grown : h.disk.Grown (OnTheWay out h.disk) h'.disk)
      (stopped : makeDirectories out.anchor out.parts.reverse h
        = .error f h') :
      Starts out force h
        (.error (renamed (fun _ => .cannotCreate out) f) h')
  | empty {h' : Host} (asked : h.disk.isFile out = .ok false)
      (made : Made out h h' []) : Starts out force h (.ok () h')
  | full {h' : Host} {cs : List (String × Entry)}
      (asked : h.disk.isFile out = .ok false) (gentle : force = false)
      (made : Made out h h' cs) (filled : cs ≠ []) :
      Starts out force h (.error (.refused (.notEmpty out)) h')
  | cleaned {mid h' : Host} {cs : List (String × Entry)}
      (asked : h.disk.isFile out = .ok false) (forced : force = true)
      (made : Made out h mid cs)
      (emptied : deleteContents out mid = .ok () h') :
      Starts out force h (.ok () h')
  | unclean {mid h' : Host} {cs : List (String × Entry)} {f : Fault}
      (asked : h.disk.isFile out = .ok false) (forced : force = true)
      (made : Made out h mid cs)
      (stopped : deleteContents out mid = .error f h') :
      Starts out force h (.error (renamed (.cannotClean out) f) h')

/-- The start after a file in the way has been seen to. -/
def vacate (out : Path) (force : Bool) : Work Failure Unit := do
  refusing (fun _ => .cannotCreate out)
    (makeDirectories out.anchor out.parts.reverse)
  if (← recast .disk (ask (·.list out))).isEmpty then return
  if !force then throw (.refused (.notEmpty out))
  refusing (.cannotClean out) (deleteContents out)

/-- A start stops at once where it cannot be told what is in the way. -/
theorem prepare_unknown {f : Fault} (hf : h.disk.isFile out = .error f) :
    prepare out force h = .error (.disk f) h := by
  have hask : recast Failure.disk (ask (·.isFile out)) h
      = .error (.disk f) h := by
    simp only [recast, ask, hf]
  exact bind_error_eq hask

theorem prepare_noFile (hf : h.disk.isFile out = .ok false) :
    prepare out force h = vacate out force h := by
  have hask : recast Failure.disk (ask (·.isFile out)) h = .ok false h := by
    simp only [recast, ask, hf]
  exact bind_eq hask

theorem prepare_overFile {d : Disk} (hf : h.disk.isFile out = .ok true)
    (hr : h.disk.removeFile out = .ok d) :
    prepare out true h = vacate out true { h with disk := d } := by
  have hask : recast Failure.disk (ask (·.isFile out)) h = .ok true h := by
    simp only [recast, ask, hf]
  have hremove : refusing (fun _ => .cannotRemoveFile out)
      (act (·.removeFile out)) h = .ok () { h with disk := d } :=
    recast_ok_eq (act_eq hr)
  exact (bind_eq hask).trans (bind_eq hremove)

/-- Once the directory is made it is listed. -/
theorem vacate_made {mid : Host}
    (hm : makeDirectories out.anchor out.parts.reverse h = .ok () mid)
    {l : Location} (hf : mid.disk.find true out = .ok (l, .directory cs)) :
    vacate out force h
      = if cs.isEmpty then .ok () mid
        else if force then
          refusing (.cannotClean out) (deleteContents out) mid
        else .error (.refused (.notEmpty out)) mid := by
  have hmake : refusing (fun _ => .cannotCreate out)
      (makeDirectories out.anchor out.parts.reverse) h = .ok () mid :=
    recast_ok_eq hm
  have hlist : recast Failure.disk (ask (·.list out)) mid
      = .ok (cs.map (·.1)) mid := by
    simp only [recast, ask, Disk.list, Disk.status, hf]
    rfl
  refine (bind_eq hmake).trans ((bind_eq hlist).trans ?_)
  cases cs with
  | nil => rfl
  | cons c cs => cases force <;> rfl

/-- The start, once no file is in the way. -/
private theorem vacate_starts (hf : h.disk.isFile out = .ok false) :
    Starts out force h (vacate out force h) := by
  cases hm : makeDirectories out.anchor out.parts.reverse h with
  | error f mid =>
      have hgrown := makeDirectories_grown out h.disk out.parts.reverse
        (by simp) h (Disk.Grown.refl _)
      rw [hm] at hgrown
      have hmake : refusing (fun _ => .cannotCreate out)
          (makeDirectories out.anchor out.parts.reverse) h
            = .error (renamed (fun _ => .cannotCreate out) f) mid :=
        recast_error_eq hm
      have hstop : vacate out force h
          = .error (renamed (fun _ => .cannotCreate out) f) mid :=
        bind_error_eq hmake
      rw [hstop]
      exact .unmade hf hgrown hm
  | ok u mid =>
      obtain ⟨cs, hmade⟩ := made_of_ok hm
      rw [vacate_made hm hmade.found]
      cases cs with
      | nil => exact .empty hf hmade
      | cons c cs =>
          cases force with
          | false => exact .full hf rfl hmade (by simp)
          | true =>
              cases hd : deleteContents out mid with
              | ok u last =>
                  have hdone : refusing (.cannotClean out)
                      (deleteContents out) mid = .ok () last :=
                    recast_ok_eq hd
                  simp only [List.isEmpty_cons, Bool.false_eq_true, if_false,
                    if_true, hdone]
                  exact .cleaned hf rfl hmade hd
              | error f last =>
                  have hstop : refusing (.cannotClean out)
                      (deleteContents out) mid
                        = .error (renamed (.cannotClean out) f) last :=
                    recast_error_eq hd
                  simp only [List.isEmpty_cons, Bool.false_eq_true, if_false,
                    if_true, hstop]
                  exact .unclean hf rfl hmade hd

/-- A directory for which only its own name is missing is made at once. -/
theorem makeDirectories_atOnce {d : Disk}
    (hm : h.disk.makeDirectory out = .ok d) :
    makeDirectories out.anchor out.parts.reverse h
      = .ok () { h with disk := d } := by
  have hpath : ⟨out.anchor, out.parts.reverse.reverse⟩ = out := by
    rw [List.reverse_reverse]
  cases hp : out.parts.reverse with
  | nil =>
      rw [hp, List.reverse_nil] at hpath
      unfold makeDirectories
      refine act_eq ?_
      rw [hpath, Disk.ensureDirectory, hm]
  | cons last above =>
      rw [hp] at hpath
      unfold makeDirectories
      refine rescue_eq (act_eq ?_)
      rw [hpath]
      exact hm

/-- Over a file that was taken away the directory is made at once. -/
private theorem overFile_starts {d : Disk}
    (hf : h.disk.isFile out = .ok true)
    (hr : h.disk.removeFile out = .ok d) :
    Starts out true h (vacate out true { h with disk := d }) := by
  obtain ⟨a, n, hreach, hother, rfl, hmake, hfound⟩ := Disk.remade hf hr
  have hm := makeDirectories_atOnce
    (h := { h with disk := h.disk.drop (a ++ [n]) }) hmake
  rw [vacate_made hm hfound]
  exact .replaced hf rfl hreach hother hr hmake hfound

/-- A start ends in one of these ways. -/
theorem prepare_starts (out : Path) (force : Bool) (h : Host) :
    Starts out force h (prepare out force h) := by
  cases hf : h.disk.isFile out with
  | error f =>
      rw [prepare_unknown hf]
      exact .unknown hf
  | ok isFile =>
      cases isFile with
      | false =>
          rw [prepare_noFile hf]
          exact vacate_starts hf
      | true =>
          have hask : recast Failure.disk (ask (·.isFile out)) h
              = .ok true h := by
            simp only [recast, ask, hf]
          cases force with
          | false =>
              have hstop : prepare out false h
                  = .error (.refused (.fileObstructs out)) h :=
                bind_eq hask
              rw [hstop]
              exact .obstructed hf rfl
          | true =>
              cases hr : h.disk.removeFile out with
              | ok d =>
                  rw [prepare_overFile hf hr]
                  exact overFile_starts hf hr
              | error f =>
                  have hact : refusing (fun _ => .cannotRemoveFile out)
                      (act (·.removeFile out)) h
                        = .error (renamed (fun _ => .cannotRemoveFile out) f)
                          h := by
                    refine recast_error_eq ?_
                    simp only [act, hr]
                  have hstop : prepare out true h
                      = .error (renamed (fun _ => .cannotRemoveFile out) f)
                        h :=
                    (bind_eq hask).trans (bind_error_eq hact)
                  rw [hstop]
                  exact .fileStays hf rfl hr

end Output

end TreeReplica
