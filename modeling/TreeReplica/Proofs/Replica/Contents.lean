/-
Emptying a directory. On any disk, whatever is in the way, a directory
that was emptied without a failure holds nothing, and nothing else was
touched (`deleteContents_ok`): an entry that is taken away is the one
that was listed, or the path to the directory led through what was taken
away, and then nothing more could be. A site with a plain tree is emptied
without fail (`deleteContents_plain`).
-/
import TreeReplica.Proofs.Disk.Plain
import TreeReplica.Replica.Output

namespace TreeReplica

-- ==================================================== names taken away

namespace Children

/-- Without every name that is listed no child is left. -/
theorem erase_all (cs : List (String × Entry)) {names : List String}
    (h : ∀ c ∈ cs, c.1 ∈ names) : names.foldl erase cs = [] := by
  induction names generalizing cs with
  | nil =>
      cases cs with
      | nil => rfl
      | cons c rest => cases h c (List.mem_cons_self ..)
  | cons name names ih =>
      refine ih (erase cs name) fun c hc => ?_
      have hmem := (erase_sublist cs name).subset hc
      refine (List.mem_cons.mp (h c hmem)).resolve_left fun heq => ?_
      refine not_mem_erase cs name ?_
      rw [← heq]
      exact List.mem_map.mpr ⟨c, heq ▸ hc, rfl⟩

end Children

namespace Output

open Work

variable {out : Path} {place : Place} {l : Location} {n : String}
  {names : List String} {cs : List (String × Entry)} {d d' : Disk}
  {h h' : Host}

-- ================================================================ inversion

/-- A directory that is taken away with all it holds is dropped where the
path led: the path is walked once more when it holds nothing any more,
and leads to the same place or to nothing. -/
theorem removeTree_dropped {p : Path} (hr : removeTree p h = .ok () h') :
    h.disk.Dropped p h'.disk ∧ h' = { h with disk := h'.disk } := by
  rcases removeTree_cases p h with ⟨f, -, hf⟩ | ⟨l, n, cs, hreach, -, hdone⟩
  · cases hf.symm.trans hr
  · rcases hdone with hdone | ⟨e, hleft⟩
    · cases hdone.symm.trans hr
      exact ⟨.inside hreach, rfl⟩
    · cases hleft.symm.trans hr

/-- A directory entry that is taken away is taken away by a call that
drops what the path leads to. -/
theorem deleteEntry_dropped {entry : Path}
    (hr : deleteEntry entry h = .ok () h') :
    h.disk.Dropped entry h'.disk ∧ h' = { h with disk := h'.disk } := by
  have hfile : act (·.removeFile entry) h = .ok () h' →
      h.disk.Dropped entry h'.disk ∧ h' = { h with disk := h'.disk } := by
    intro hact
    obtain ⟨d, hd, rfl⟩ := ok_of_act hact
    exact ⟨Disk.removeFile_dropped hd, rfl⟩
  unfold deleteEntry at hr
  obtain ⟨isDirectory, -, hr⟩ := ok_of_ask_bind hr
  split at hr
  · obtain ⟨isLink, -, hr⟩ := ok_of_ask_bind hr
    split at hr
    · exact hfile hr
    · exact removeTree_dropped hr
  · exact hfile hr

/-- What is dropped at a child of a directory is that child. -/
theorem dropped_child
    (hw : walk d.root true linkLimit (d.start out.anchor) out.parts
      = .ok place) (hv : d.root.view place.location = some .directory)
    (hd : d.Dropped (out.child n) d') :
    d' = d.drop (place.location ++ [n]) := by
  cases hd with
  | @inside l k reached =>
      obtain ⟨-, -, hwalk⟩ := Disk.reach_eq_ok.mp reached
      obtain ⟨left, hleft⟩ :=
        walk_append false (List.cons_ne_nil n []) hw hv
      have hone : walk d.root false left place.location [n]
          = .ok (.inside l k) := hleft.symm.trans hwalk
      rw [walk_single hv] at hone
      split at hone
      · cases hone
      split at hone
      · cases hone
      split at hone
      · cases hone
      cases hone
      rfl

/-- The listed entries of a directory taken away one after the other. The
induction is on the names; what carries it is that the tree has got less,
so that the path still leads to the directory or nothing could be taken
away any more. -/
theorem forM_deleteEntry_ok
    (hw : walk d.root true linkLimit (d.start out.anchor) out.parts
      = .ok place) (hv : d.root.view place.location = some .directory)
    (hd : h.disk = d.put place.location (.directory cs))
    (hwithin : h.disk.root.view.Within d.root.view)
    (hr : (names.forM fun n => deleteEntry (out.child n)) h = .ok () h') :
    h' = { h with
        disk := d.put place.location
          (.directory (names.foldl Children.erase cs)) }
      ∧ h'.disk.root.view.Within d.root.view := by
  induction names generalizing h cs with
  | nil =>
      cases hr
      refine ⟨?_, hwithin⟩
      rw [List.foldl_nil, ← hd]
  | cons n names ih =>
      obtain ⟨_, mid, hentry, hr⟩ := ok_of_bind hr
      obtain ⟨hdropped, hmid⟩ := deleteEntry_dropped hentry
      obtain ⟨cs₀, hcs₀⟩ := Entry.view_eq_directory.mp hv
      have hget : h.disk.root.get? place.location = some (.directory cs) := by
        rw [hd]
        exact Entry.get?_insert hcs₀ _
      have hstill : walk h.disk.root true linkLimit
          (h.disk.start out.anchor) out.parts = .ok place := by
        have hstart : h.disk.start out.anchor = d.start out.anchor := by
          rw [hd]
          rfl
        rw [hstart]
        rcases walk_within hwithin true linkLimit (d.start out.anchor)
            out.parts with hsame | hstuck
        · rw [hsame, hw]
        · rw [← hstart] at hstuck
          generalize mid.disk = d' at hdropped
          cases hdropped with
          | inside reached =>
              rw [Path.child_eq_descend] at reached
              exact absurd reached
                (Disk.not_reached_of_stuck hstuck (by simp))
      have hdrop := dropped_child hstill
        (Entry.view_eq_directory.mpr ⟨cs, hget⟩) hdropped
      have hnext : mid.disk
          = d.put place.location (.directory (Children.erase cs n)) := by
        rw [hdrop, hd]
        simp only [Disk.drop, Disk.put,
          Entry.erase_below hcs₀ _ (List.cons_ne_nil n [])]
        rfl
      have hless : mid.disk.root.view.Within d.root.view := by
        refine View.Within.trans ?_ hwithin
        rw [hdrop]
        exact Entry.view_erase_within _ (by simp)
      have hrest := ih hnext hless hr
      rw [hmid] at hrest
      exact hrest

/-- A directory that was emptied holds nothing, and there is less on the
disk than before. -/
theorem deleteContents_ok (hf : h.disk.find true out = .ok (l, .directory cs))
    (hr : deleteContents out h = .ok () h') :
    h' = { h with disk := h.disk.put l (.directory []) }
      ∧ h'.disk.root.view.Within h.disk.root.view := by
  obtain ⟨place, hreach, rfl, hget⟩ := Disk.find_eq_ok.mp hf
  obtain ⟨-, -, hw⟩ := Disk.reach_eq_ok.mp hreach
  unfold deleteContents at hr
  obtain ⟨names, hlist, hr⟩ := ok_of_ask_bind hr
  have hnames : names = cs.map (·.1) := by
    rw [Disk.list, Disk.status, hf] at hlist
    cases hlist
    rfl
  have hself : h.disk = h.disk.put place.location (.directory cs) := by
    simp [Disk.put, Entry.insert_get? hget]
  have hdone := forM_deleteEntry_ok hw
    (Entry.view_eq_directory.mpr ⟨cs, hget⟩) hself (.refl _) hr
  rwa [hnames, Children.erase_all cs
    fun c hc => List.mem_map.mpr ⟨c, hc, rfl⟩] at hdone

-- ========================================================== on a site

variable {s : Site} {m : Entry}

/-- An entry at the top of a site is taken away without fail. -/
theorem deleteEntry_plain (hp : s.Plain m) (hn : m.view [n] ≠ none)
    (hd : h.disk = s.holding m) :
    deleteEntry (s.path.child n) h
      = .ok () { h with disk := s.holding (m.erase [n]) } := by
  have hreach := fun follow subject => hp.reach_top hn follow subject
  obtain ⟨x, hx⟩ := Option.ne_none_iff_exists'.mp
    fun hnone => hn (Entry.view_eq_none.mpr hnone)
  have hget : (s.holding m).root.get? (s.location ++ [n]) = some x :=
    (s.holding_get? m [n]).trans hx
  have hfind : ∀ follow, (s.holding m).find follow (s.path.child n)
      = .ok (s.location ++ [n], x) := fun follow =>
    Disk.find_eq_ok.mpr ⟨_, hreach follow _, rfl, hget⟩
  have hdrop : (s.holding m).drop (s.location ++ [n])
      = s.holding (m.erase [n]) := s.holding_drop m (by simp)
  unfold deleteEntry
  cases x with
  | link t => exact absurd (Entry.view_eq_link.mpr hx) (hp.noLinks _ t)
  | file c t =>
      have hkind : h.disk.isDirectory (s.path.child n) = .ok false := by
        rw [hd, Disk.isDirectory, Disk.status, hfind]
        rfl
      have hremove : h.disk.removeFile (s.path.child n)
          = .ok (s.holding (m.erase [n])) := by
        rw [hd, Disk.removeFile, hreach]
        simp only [bind, Except.bind, hget, hdrop]
        rfl
      rw [ask_bind_eq hkind, if_neg (by simp)]
      exact act_eq hremove
  | directory cs =>
      have hkind : h.disk.isDirectory (s.path.child n) = .ok true := by
        rw [hd, Disk.isDirectory, Disk.status, hfind]
        rfl
      have hlink : h.disk.isLink (s.path.child n) = .ok false := by
        rw [hd, Disk.isLink, Disk.linkStatus, hfind]
        rfl
      rw [ask_bind_eq hkind, if_pos rfl, ask_bind_eq hlink,
        if_neg (by simp)]
      -- the path leads to the directory still when it is empty
      have hempty : h.disk.emptyTree (s.path.child n)
          = .ok (s.holding (m.insert [n] (.directory []))) := by
        rw [hd, Disk.emptyTree, Disk.linkStatus, hfind,
          ← s.holding_put]
        simp only [bind, Except.bind, Except.map, hreach]
        rfl
      have hbare := Entry.Bare.directory
      obtain ⟨hname, hfits⟩ := hp.tops n hn
      have hp' : s.Plain (m.insert ([] ++ [n]) (.directory [])) :=
        hp.insert (a := []) hp.base (by simpa [AllNames] using hname) hfits
          hbare.noLinks hbare.tidy
      have hthere : (m.insert [n] (.directory [])).get? [n]
          = some (.directory []) := Entry.get?_insert hx _
      have hremove : (s.holding (m.insert [n] (.directory []))).removeDirectory
            (s.path.child n)
          = .ok (s.holding (m.erase [n])) := by
        rw [Footing.removeDirectory_of_reach (a := []) (n := n) ?_]
        · rw [List.nil_append, hthere, Entry.erase_insert hx (by simp)]
        · rw [List.append_nil]
          refine hp'.reach_top ?_ false _
          simp [Entry.view_eq_directory.mpr ⟨[], hthere⟩]
      have hfirst : act (·.emptyTree (s.path.child n)) h
          = .ok () { h with
              disk := s.holding (m.insert [n] (.directory [])) } :=
        act_eq hempty
      exact (bind_eq hfirst).trans (act_eq hremove)

/-- The entries of a site taken away one after the other. -/
theorem forM_deleteEntry_plain (hp : s.Plain (.directory cs))
    (hnames : names.Nodup)
    (hthere : ∀ n ∈ names, (Entry.directory cs).view [n] ≠ none)
    (hd : h.disk = s.holding (.directory cs)) :
    (names.forM fun n => deleteEntry (s.path.child n)) h
      = .ok () { h with
          disk := s.holding (.directory (names.foldl Children.erase cs)) } := by
  induction names generalizing h cs with
  | nil =>
      rw [List.foldl_nil, ← hd]
      rfl
  | cons n names ih =>
      obtain ⟨hnot, hnames⟩ := List.nodup_cons.mp hnames
      have hentry := deleteEntry_plain hp (hthere n (by simp)) hd
      have hmore : ∀ k ∈ names,
          (Entry.directory (Children.erase cs n)).view [k] ≠ none := by
        intro k hk
        have hne : n ≠ k := fun heq => hnot (heq ▸ hk)
        have hold := hthere k (List.mem_cons_of_mem n hk)
        rw [Entry.view_cons] at hold ⊢
        rwa [Children.get?_erase, if_neg hne]
      show (deleteEntry (s.path.child n) >>= fun _ =>
        names.forM fun n => deleteEntry (s.path.child n)) h = _
      simp only [Bind.bind, EStateM.bind, hentry]
      exact ih (hp.erase (List.cons_ne_nil n [])) hnames hmore rfl

/-- A site with a plain tree is emptied without fail. -/
theorem deleteContents_plain (hp : s.Plain m) (hd : h.disk = s.holding m) :
    deleteContents s.path h
      = .ok () { h with disk := s.holding (.directory []) } := by
  obtain ⟨cs, hcs⟩ := Entry.view_eq_directory.mp hp.base
  rw [Entry.get?_nil, Option.some.injEq] at hcs
  subst hcs
  have hlist : h.disk.list s.path = .ok (cs.map (·.1)) := by
    rw [hd, Disk.list, Disk.status, Site.find_self hp.base]
    rfl
  have hmem : ∀ c ∈ cs, c.1 ∈ cs.map (·.1) :=
    fun c hc => List.mem_map.mpr ⟨c, hc, rfl⟩
  have hnames := hp.tidy [] cs (Entry.get?_nil _)
  unfold deleteContents
  rw [ask_bind_eq hlist, forM_deleteEntry_plain hp hnames ?_ hd,
    Children.erase_all cs hmem]
  intro n hn
  obtain ⟨c, hc, rfl⟩ := List.mem_map.mp hn
  rw [Entry.view_cons, Children.get?_of_mem hnames hc]
  simp

end Output

end TreeReplica
