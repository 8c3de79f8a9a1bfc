/-
Paths that cannot be passed to the system. A remote path that was not
validated may be kept at a place with a null character in it. Nothing is
seen there and nothing can be put there, so an event that asks for
something to be kept at such a place fails (`bears_settle_null`), and one
that asks for it to be taken away has nothing to do (`apply_null`).
-/
import TreeReplica.Proofs.Replica.Rough.Apply

namespace TreeReplica

open Work

-- ================================================================ calls

namespace Disk

variable {p : Path} (hp : hasNull p.text = true) (d : Disk)

include hp

theorem reach_null (follow : Bool) (subject : Subject) :
    d.reach follow p subject = .error (.argument .nullCharacter) := by
  unfold reach
  rw [if_pos hp]

theorem find_null (follow : Bool) :
    d.find follow p = .error (.argument .nullCharacter) := by
  rw [find, reach_null hp]
  rfl

theorem isDirectory_null : d.isDirectory p = .ok false := by
  rw [isDirectory, status, find_null hp]
  rfl

theorem isFile_null : d.isFile p = .ok false := by
  rw [isFile, status, find_null hp]
  rfl

theorem occupied_null : d.occupied p = false := by
  rw [occupied, linkStatus, find_null hp]
  rfl

theorem makeDirectory_null :
    d.makeDirectory p = .error (.argument .nullCharacter) := by
  rw [makeDirectory, reach_null hp]
  rfl

theorem ensureDirectory_null :
    d.ensureDirectory p = .error (.argument .nullCharacter) := by
  rw [ensureDirectory, makeDirectory_null hp]

theorem write_null (content : Bytes) :
    d.write p content = .error (.argument .nullCharacter) := by
  rw [write, reach_null hp]
  rfl

end Disk

-- ================================================================= work

namespace Footing

variable {s : Footing} {v : View} {before : Host} {payload : String}
  {node : Node} {l : Location} {r : Replica} {h : Host}

theorem hasNull_path (hl : l.any Disk.hasNull = true) :
    Disk.hasNull (s.path.descend l).text = true := by
  rw [Disk.hasNull_descend, hl, Bool.or_true]

/-- The ancestors cannot all be made. The induction goes down to the first
name that cannot be passed to the system. -/
theorem bears_makeBelow_null (ho : s.Open v) (hp : IsSegment payload)
    {start parts : Location} (hstart : AllSegments start)
    (hn : AllNames parts) (hnull : parts.any Disk.hasNull = true) :
    Carries (s.Bears before)
      (Repair.makeBelow payload (s.path.descend start) parts) v
      (fun _ _ => False) (fun _ _ => True) := by
  induction parts generalizing start v with
  | nil => cases hnull
  | cons part rest ih =>
      refine bears_of_linkless fun hl => ?_
      unfold Repair.makeBelow
      rw [Path.child_descend]
      cases hpart : Disk.hasNull part with
      | true =>
          intro host hs
          have hpath : Disk.hasNull (s.path.descend (start ++ [part])).text
              = true := hasNull_path (by simp [hpart])
          have hstop : Repair.makeAncestor payload
              (s.path.descend (start ++ [part])) host
                = .error (.argument .nullCharacter) host := by
            rw [Repair.makeAncestor_free (Disk.isDirectory_null hpath _)
              (Disk.occupied_null hpath _)]
            simp only [act, Disk.makeDirectory_null hpath]
          rw [bind_error_eq (recast_error_eq hstop)]
          exact ⟨v, hs, trivial⟩
      | false =>
          have hseg : IsSegment part := ⟨hn part (by simp), hpart⟩
          refine Carries.bind (Carries.recast ((bears_makeAncestor ho hp
            (hstart.concat hseg)).mono (fun _ _ h => h) fun _ _ _ => trivial))
            ?_
          intro _ _ hmid
          obtain ⟨-, rfl⟩ := hmid
          refine ih (ho.mono fun _ hm => hl.convert_keeps hm)
            (hstart.concat hseg) (fun k hk => hn k (by simp [hk])) ?_
          rwa [List.any_cons, hpart, Bool.false_or] at hnull

/-- Nothing is kept at a place that cannot be passed to the system. -/
theorem bears_materialize_null (ho : s.Open v) (hr : s.Keeps payload r)
    (hn : AllNames l) (hpay : payload ∉ l)
    (hnull : l.any Disk.hasNull = true) :
    Carries (s.Bears before) (r.materialize node (s.path.descend l)) v
      (fun _ _ => False) (fun _ _ => True) := by
  have hp := hr.segment
  have hpath := hasNull_path (s := s) hnull
  unfold Replica.materialize
  rw [hr.root, hr.slot]
  rcases List.eq_nil_or_concat l with rfl | ⟨a, n, rfl⟩
  · cases hnull
  rw [List.concat_eq_append] at *
  have hroot : s.path.descend (a ++ [n]) ≠ s.path :=
    fun h => absurd (Path.descend_eq_self.mp h) (by simp)
  rw [if_pos hroot, Path.parent_descend]
  have hnames : AllNames a := fun k hk => hn k (by simp [hk])
  cases ha : a.any Disk.hasNull with
  | true =>
      refine Carries.bind (p := fun _ _ => False) ?_ fun _ _ hno => hno.elim
      unfold Repair.ensureChain
      have hne : a ≠ [] := by
        rintro rfl
        cases ha
      rw [if_neg fun h => hne (Path.descend_eq_self.mp h),
        Path.relativeTo?_descend]
      have hmake : Carries (s.Bears before)
          (Repair.makeBelow payload (s.path.descend []) a) v _ _ :=
        bears_makeBelow_null ho hp (fun _ hk => by cases hk) hnames ha
      rw [Path.descend_nil] at hmake
      exact hmake.bind fun _ _ hno => hno.elim
  | false =>
      have hclear : AllSegments a := fun k hk => ⟨hnames k hk, by
        simpa using List.any_eq_false.mp ha k hk⟩
      refine ((bears_ensureChain ho hp hclear fun h => hpay (by simp [h])).mono
        (fun _ _ h => h) fun _ _ _ => trivial).bind ?_
      intro _ w _
      -- the place itself is the first thing to be made
      refine Carries.recast fun host hs => ?_
      simp only [hroot, ne_eq, not_false_eq_true, if_true, decide_true,
        Bool.and_true]
      cases node.isContainer with
      | true =>
          rw [if_neg (by simp)]
          have hstop : act (·.ensureDirectory (s.path.descend (a ++ [n]))) host
              = .error (.argument .nullCharacter) host := by
            simp only [act, Disk.ensureDirectory_null hpath]
          rw [bind_error_eq hstop]
          exact ⟨w, hs, trivial⟩
      | false =>
          rw [if_pos (by simp)]
          have hstop : act (·.write (s.path.descend (a ++ [n])) node.bytes)
              host = .error (.argument .nullCharacter) host := by
            simp only [act, Disk.write_null hpath]
          rw [Replica.writeFile, bind_error_eq hstop]
          exact ⟨w, hs, trivial⟩

/-- The work on an event that asks for something to be kept there fails,
and not because the contract is broken. -/
theorem bears_settle_null (ho : s.Open v) (hr : s.Keeps payload r)
    (hn : AllNames l) (hpay : payload ∉ l)
    (hnull : l.any Disk.hasNull = true) {kind : EventKind}
    (hkind : kind = .added ∨ kind = .updated) :
    Carries (s.Bears before) (r.settle kind node (s.path.descend l)) v
      (fun _ _ => False) (fun setback _ => ∃ f, setback = .repair f) := by
  have hpath := hasNull_path (s := s) hnull
  have hkept : Carries (s.Bears before) (recast Setback.repair
      (r.materialize node (s.path.descend l))) v (fun _ _ => False)
      (fun setback _ => ∃ f, setback = .repair f) :=
    Carries.recast ((bears_materialize_null ho hr hn hpay hnull).mono
      (fun _ _ h => h) fun f _ _ => ⟨f, rfl⟩)
  intro host hs
  unfold Replica.settle
  rcases hkind with rfl | rfl
  · have hcheck : r.checkAdded node (s.path.descend l) host = .ok () host := by
      unfold Replica.checkAdded
      rw [get_bind_eq]
      simp only [Disk.occupied_null hpath, Bool.not_false, Bool.or_true,
        if_true]
      rfl
    dsimp only
    rw [bind_eq hcheck]
    exact hkept host hs
  · have hconvert : r.convertKind node (s.path.descend l) host
        = .ok () host := by
      unfold Replica.convertKind
      split
      · rfl
      · rw [ask_bind_eq (Disk.isDirectory_null hpath _), if_neg (by simp),
          ask_bind_eq (Disk.isFile_null hpath _), if_neg (by simp)]
        rfl
    dsimp only
    rw [bind_eq (recast_ok_eq hconvert)]
    exact hkept host hs

/-- Nothing is taken away where nothing can be. -/
theorem remove_null {p : Path} (hp : Disk.hasNull p.text = true)
    (r : Replica) (h : Host) : ∃ h', r.remove p h = .ok () h'
      ∧ h'.disk = h.disk := by
  unfold Replica.remove
  rw [ask_bind_eq (Disk.isDirectory_null hp _), if_neg (by simp),
    get_bind_eq]
  simp only [Disk.occupied_null hp, Bool.false_eq_true, if_false]
  exact ⟨_, rfl, rfl⟩

/-- An event about a node that would be kept there is applied without an
error only if the node is gone, and then there is nothing to do. -/
theorem apply_null {e : Event} {h' : Host} (ho : s.Open v)
    (hr : s.Keeps r.payload r) (hk : e.kind ≠ .initialized)
    (hnode : e.node = some node) (hplace : r.place? node.path = some l)
    (hnull : l.any Disk.hasNull = true) (hs : s.Bears before v h)
    (happly : r.apply e h = .ok () h') (hcalm : before.log.Calm h'.log) :
    e.kind = .removed ∧ h'.disk = h.disk := by
  have hsaid : s.Bears before v (e.announced h) := hs.said (by simp) e.text
  rw [Replica.apply_eq hk hnode (Remote.toLocal_of_place hplace r.root),
    hr.root] at happly
  by_cases hkind : e.kind = .removed
  · obtain ⟨h'', hremove, hdisk⟩ := remove_null
      (hasNull_path (s := s) hnull) r (e.announced h)
    rw [hkind, Replica.settle, recast_ok_eq hremove] at happly
    cases happly
    exact ⟨hkind, hdisk⟩
  · have hkeeps : e.kind = .added ∨ e.kind = .updated := by
      cases hcase : e.kind with
      | added => exact Or.inl rfl
      | updated => exact Or.inr rfl
      | removed => exact absurd hcase hkind
      | initialized => exact absurd hcase hk
    obtain ⟨hnames, hpay⟩ := Remote.place?_names hplace
    have hfails : Carries (s.Bears before)
        (r.settle e.kind node (s.path.descend l)) v _ _ :=
      bears_settle_null ho hr hnames hpay hnull hkeeps
    replace hfails := hfails (e.announced h) hsaid
    generalize r.settle e.kind node (s.path.descend l) (e.announced h)
      = result at happly hfails
    cases result with
    | ok u h'' =>
        obtain ⟨w, -, hno⟩ := hfails
        exact hno.elim
    | error setback h'' =>
        -- whatever it was, it is reported as an error or passed on
        obtain ⟨w, hw, f, rfl⟩ := hfails
        rcases f with cause | reason | reason
        · cases happly
          exact absurd hcalm (Log.not_calm_error hw.calm _)
        · cases happly
          exact absurd hcalm (Log.not_calm_error hw.calm _)
        · cases happly

end Footing

end TreeReplica
