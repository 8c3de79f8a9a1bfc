/-
What the application of events keeps. An event is applied by calls about
proper paths below the root, so it keeps every property of disks that
such calls keep (`apply_respects`), in whatever state the disk is and
however the application ends.
-/
import TreeReplica.Proofs.Disk.Respect
import TreeReplica.Proofs.Disk.Staging
import TreeReplica.Proofs.Replica.Mirror

namespace TreeReplica

open Work

namespace Guards

variable {P : Disk → Prop} {root : Path} {payload : String}
  {a l : Location} {n : String}

-- ================================================================== calls

theorem act (hg : Guards root P) (hl : l ≠ []) (hn : AllNames l)
    {change : Disk → Except Fault Disk}
    (hc : ∀ {d d'}, change d = .ok d' → d.Touched (root.descend l) d') :
    Respects P (act change) :=
  respects_act fun hp h => hg.touched hl hn hp (hc h)

theorem move (hg : Guards root P) {b : Location} (ha : a ≠ [])
    (hb : b ≠ []) (hna : AllNames a) (hnb : AllNames b) :
    Respects P (Work.act (·.move (root.descend a) (root.descend b))) :=
  respects_act fun hp h => hg.moved ha hb hna hnb hp (Disk.move_moved h)

/-- Work in a new staging directory. -/
theorem openStaging_bind (hg : Guards root P) (ha : AllNames a)
    {ε : Type} {w : Path → Work Fault ε}
    (hw : ∀ k, IsName k → Respects P (w (root.descend (a ++ [k])))) :
    Respects P (Repair.openStaging (root.descend a) >>= w) := by
  intro h hp
  simp only [Bind.bind, EStateM.bind, Repair.openStaging]
  cases hm : h.disk.makeStaging (root.descend a) (h.draw h.log.length) with
  | error e => exact hp
  | ok made =>
      obtain ⟨staging, d⟩ := made
      obtain ⟨⟨k, rfl⟩, ht⟩ := Disk.makeStaging_touched hm
      have hk := Disk.isName_stagingName k
      rw [Path.child_descend] at ht ⊢
      exact hw _ hk _ (hg.touched (by simp) (ha.concat hk) hp ht)

-- ================================================================ repair

theorem putBack (hg : Guards root P) {b : Location} (ha : a ≠ [])
    (hb : b ≠ []) (hna : AllNames a) (hnb : AllNames b) :
    Respects P (Repair.putBack (root.descend a) (root.descend b)) := by
  have hback := hg.move hb ha hnb hna
  unfold Repair.putBack
  refine (respects_ask _).bind fun there => ?_
  split
  · refine (respects_ask _).bind fun isDirectory => ?_
    split
    · exact (hg.act ha hna Disk.removeDirectory_touched).bind fun _ => hback
    · exact hback
  · exact respects_pure ()

/-- The exchange of a file for a directory. -/
theorem relocate (hg : Guards root P) (hp : IsSegment payload)
    (hn : AllNames (a ++ [n])) :
    Respects P (Repair.relocate (root.descend (a ++ [n])) payload) := by
  have hne : a ++ [n] ≠ [] := by simp
  obtain ⟨ha, hname⟩ := allNames_append.mp hn
  unfold Repair.relocate
  rw [Path.parent_descend, Path.name_descend,
    Remote.payloadSlot_descend hp.toIsName]
  refine hg.openStaging_bind ha fun k hk => ?_
  have hmoved : AllNames (a ++ [k] ++ [n]) :=
    allNames_append.mpr ⟨ha.concat hk, hname⟩
  rw [Path.child_descend]
  refine Respects.ensuring (Respects.rescue ?_ fun fault => ?_) ?_
  · refine (hg.move hne (by simp) hn hmoved).bind fun _ => ?_
    refine (hg.act hne hn Disk.makeDirectory_touched).bind fun _ => ?_
    exact hg.move (by simp) (by simp) hmoved (hn.concat hp.toIsName)
  · cases fault with
    | argument e => exact respects_throw _
    | system e =>
        exact (hg.putBack hne (by simp) hn hmoved).bind
          fun _ => respects_throw _
  · refine (respects_ask _).bind fun left => ?_
    split
    · exact respects_say _ _
    · exact hg.act (by simp) (ha.concat hk) Disk.removeDirectory_touched

theorem makeAncestor (hg : Guards root P) (hp : IsSegment payload)
    (hn : AllNames (a ++ [n])) :
    Respects P (Repair.makeAncestor payload (root.descend (a ++ [n]))) := by
  have hne : a ++ [n] ≠ [] := by simp
  have hmake := hg.act hne hn Disk.makeDirectory_touched
  unfold Repair.makeAncestor
  refine (respects_ask _).bind fun isDirectory => ?_
  split
  · exact respects_pure ()
  refine respects_get_bind fun host => ?_
  split
  · refine (respects_ask _).bind fun size => ?_
    split
    · exact (hg.act hne hn Disk.removeFile_touched).bind fun _ => hmake
    · exact (respects_say _ _).bind fun _ => hg.relocate hp hn
  · exact hmake

theorem makeBelow (hg : Guards root P) (hp : IsSegment payload)
    (hn : AllNames (a ++ l)) :
    Respects P (Repair.makeBelow payload (root.descend a) l) := by
  induction l generalizing a with
  | nil => exact respects_pure ()
  | cons part rest ih =>
      have hsplit : a ++ part :: rest = a ++ [part] ++ rest := by simp
      rw [hsplit] at hn
      unfold Repair.makeBelow
      rw [Path.child_descend]
      exact ((hg.makeAncestor hp (allNames_append.mp hn).1).recast _).bind
        fun _ => ih hn

theorem ensureChain (hg : Guards root P) (hp : IsSegment payload)
    (hn : AllNames a) :
    Respects P (Repair.ensureChain (root.descend a) root payload) := by
  have hbelow := hg.makeBelow hp (List.nil_append a ▸ hn)
  rw [Path.descend_nil] at hbelow
  unfold Repair.ensureChain
  split
  · exact respects_pure ()
  rw [Path.relativeTo?_descend]
  refine hbelow.bind fun _ =>
    ((respects_ask _).recast _).bind fun isDirectory => ?_
  split
  · exact respects_throw _
  · exact respects_pure ()

end Guards

-- ================================================================= events

namespace Replica

variable {P : Disk → Prop} {r : Replica} {node : Node} {l : Location}

theorem writeFile_respects (hg : Guards r.root P) (hl : l ≠ [])
    (hn : AllNames l) (content : Bytes) (modifiedAt : Int) :
    Respects P (writeFile (r.root.descend l) content modifiedAt) :=
  (hg.act hl hn Disk.write_touched).bind
    fun _ => hg.act hl hn Disk.setTime_touched

theorem removeStale_respects (hg : Guards r.root P) (hl : l ≠ [])
    (hn : AllNames l) : Respects P (removeStale (r.root.descend l)) := by
  unfold removeStale
  refine (respects_ask _).bind fun names => ?_
  split
  · exact hg.act hl hn Disk.removeDirectory_touched
  · exact (respects_say _ _).bind
      fun _ => (hg.act hl hn Disk.emptyTree_touched).bind
          fun _ => hg.act hl hn Disk.removeDirectory_touched

theorem checkAdded_respects (path : Path) :
    Respects P (r.checkAdded node path) := by
  unfold checkAdded
  refine respects_get_bind fun host => ?_
  split
  · exact respects_pure ()
  refine Respects.bind (Respects.recast _ ?_) fun same => ?_
  · split
    · exact respects_ask _
    · exact respects_ask _
  · split
    · exact respects_throw _
    · exact respects_pure ()

variable (hg : Guards r.root P) (hp : IsSegment r.payload)
include hg hp

theorem convertKind_respects (hn : AllNames l) :
    Respects P (r.convertKind node (r.root.descend l)) := by
  unfold convertKind
  split
  · exact respects_pure ()
  next hroot =>
  have hl : l ≠ [] := fun h => hroot (Path.descend_eq_self.mpr h)
  refine (respects_ask _).bind fun isDirectory => ?_
  split
  · rw [Remote.payloadSlot_descend hp.toIsName]
    refine (hg.act (by simp) (hn.concat hp.toIsName)
      Disk.removeFileIfAny_touched).bind fun _ => ?_
    exact removeStale_respects hg hl hn
  · refine (respects_ask _).bind fun isFile => ?_
    split
    · exact hg.act hl hn Disk.removeFile_touched
    · exact respects_pure ()

/-- Where the root is no directory it is nothing, so it is never taken for
a file that could be removed. -/
theorem remove_respects (hn : AllNames l) :
    Respects P (r.remove (r.root.descend l)) := by
  have hslot := hn.concat hp.toIsName
  unfold remove
  refine respects_ask_bind fun h isDirectory hP hd => ?_
  rw [Remote.payloadSlot_descend hp.toIsName]
  cases isDirectory with
  | true =>
      rw [if_pos rfl]
      refine Respects.bind (hg.act (by simp) hslot
        Disk.removeFileIfAny_touched) (fun _ => ?_) h hP
      split
      · next hroot =>
          exact removeStale_respects hg
            (fun h => hroot (Path.descend_eq_self.mpr h)) hn
      · exact respects_pure ()
  | false =>
      rw [if_neg (by simp)]
      by_cases hl : l = []
      · subst hl
        rw [Path.descend_nil] at hd ⊢
        show Leaves P ((if h.disk.occupied r.root = true then _ else _ :
          Work Fault Unit) h)
        rw [hg.root hP hd, if_neg (by simp)]
        exact hP
      · refine respects_get_bind (fun host => ?_) h hP
        split
        · exact hg.act hl hn Disk.removeFile_touched
        · exact respects_say _ _

theorem materialize_respects (hn : AllNames l) :
    Respects P (r.materialize node (r.root.descend l)) := by
  have hslot := hn.concat hp.toIsName
  have hfill : Respects P (do
      if node.hasData then
        writeFile (r.root.descend (l ++ [r.payload])) node.bytes
          node.modifiedAt
      else act (·.removeFileIfAny (r.root.descend (l ++ [r.payload])))) := by
    split
    · exact writeFile_respects hg (by simp) hslot _ _
    · exact hg.act (by simp) hslot Disk.removeFileIfAny_touched
  unfold materialize
  rw [Remote.payloadSlot_descend hp.toIsName]
  by_cases hl : l = []
  · subst hl
    simp only [Path.descend_nil, ne_eq, not_true_eq_false, if_false,
      decide_false, Bool.and_false]
    exact hfill.recast _
  have hroot : r.root.descend l ≠ r.root :=
    fun h => hl (Path.descend_eq_self.mp h)
  obtain ⟨a, n, rfl⟩ := List.eq_nil_or_concat l |>.resolve_left hl
  rw [List.concat_eq_append] at *
  rw [if_pos hroot, Path.parent_descend]
  refine (hg.ensureChain hp (allNames_append.mp hn).1).bind
    fun _ => Respects.recast _ ?_
  split
  · exact writeFile_respects hg hl hn _ _
  · exact (hg.act hl hn Disk.ensureDirectory_touched).bind fun _ => hfill

theorem settle_respects (kind : EventKind) (hn : AllNames l) :
    Respects P (r.settle kind node (r.root.descend l)) := by
  have hkeep : Respects P (r.materialize node (r.root.descend l)) :=
    materialize_respects hg hp hn
  unfold settle
  cases kind with
  | added => exact (checkAdded_respects _).bind fun _ => hkeep.recast _
  | updated =>
      exact ((convertKind_respects hg hp hn).recast _).bind
        fun _ => hkeep.recast _
  | removed => exact (remove_respects hg hp hn).recast _
  | initialized => exact respects_pure ()

/-- However the application of an event ends, the disk keeps what calls
below the root keep. -/
theorem apply_respects (e : Event) : Respects P (r.apply e) := by
  unfold apply
  refine (respects_say _ _).bind fun _ => ?_
  split
  · exact respects_pure ()
  split
  · exact respects_throw _
  next node hnode =>
  split
  · exact respects_say _ _
  next path hpath =>
  obtain ⟨l, hplace, rfl⟩ := place?_of_toLocal hpath
  have hn := (Remote.place?_names hplace).1
  refine (settle_respects hg hp e.kind hn).rescue fun setback => ?_
  split
  · exact respects_throw _
  · exact respects_say _ _
  · exact respects_say _ _
  · exact respects_throw _

end Replica

end TreeReplica
