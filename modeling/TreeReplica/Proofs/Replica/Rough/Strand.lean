/-
What an event can leave of a staging directory. A leaf that is new below
the root is kept if its path fits (`apply_plants`). Where the path of a
file inside its staging directory is too long, an event for a node below
the file is reported as an error and the staging directory stays
(`apply_strands`).
-/
import TreeReplica.Proofs.Replica.Rough.Apply
import TreeReplica.Proofs.Replica.Rough.Replay
import TreeReplica.Proofs.Replica.Rough.Sweep

namespace TreeReplica

open Work

namespace Footing

open View

variable {s : Footing} {v : View} {r : Replica} {before h : Host}
  {node : Node} {a rest : Location} {m n : String} {c : Bytes}
  {t : Stamp} {k : Nat} {e : Event}

/-- A leaf that is new below the root is kept there. -/
theorem bears_settle_top (ho : s.Open v) (hr : s.Keeps r.payload r)
    (hn : IsSegment n) (hleaf : node.isContainer = false)
    (ht : Disk.representable node.modifiedAt = true) (hfits : s.Fits [n])
    (hnew : v [n] = none) :
    Carries (s.Bears before) (r.settle .added node (s.path.descend [n])) v
      (fun _ w => w = v.set [n] node.file) (fun _ _ => False) := by
  refine bears_of_linkless fun hv => ?_
  have hway : AllSegments ([] ++ [n]) :=
    fun k hk => List.mem_singleton.mp hk ▸ hn
  have hroot : s.path.descend [n] ≠ s.path :=
    fun heq => absurd (Path.descend_eq_self.mp heq) (by simp)
  have hparent : (s.path.descend [n]).parent = s.path := by
    rw [← List.nil_append [n], Path.parent_descend, Path.descend_nil]
  have hwrite : Carries (s.Bears before) (Replica.writeFile
      (s.path.descend ([] ++ [n])) node.bytes node.modifiedAt) v
      (fun _ w => w = v.set ([] ++ [n]) node.file) (fun _ _ => False) :=
    bears_writeFile ho hway ht (fun _ _ => rfl)
      fun _ hno => hno ⟨hfits, hv.base, by simp [hnew]⟩
  unfold Replica.settle
  refine ((bears_checkAdded ho hr hway).mono (fun _ _ hg => hg)
    fun _ _ hclash => hclash.2.1.there hnew).bind ?_
  intro _ _ hmid
  obtain ⟨rfl, -⟩ := hmid
  refine Carries.recast ?_
  unfold Replica.materialize
  rw [hr.root, hparent, if_pos hroot]
  have hchain : Repair.ensureChain s.path s.path r.payload = pure () := by
    unfold Repair.ensureChain
    rw [if_pos rfl]
  rw [hchain, pure_bind, if_pos (by simp [hleaf, hroot])]
  exact Carries.recast hwrite

/-- An event for it does the same. -/
theorem apply_plants (ho : s.Open v) (hr : s.Keeps r.payload r)
    (hs : s.Bears before v h) (hk : e.kind = .added)
    (hnode : e.node = some node) (hplace : r.place? node.path = some [n])
    (hn : IsSegment n) (hleaf : node.isContainer = false)
    (ht : Disk.representable node.modifiedAt = true) (hfits : s.Fits [n])
    (hnew : v [n] = none) :
    ∃ h', r.apply e h = .ok () h'
      ∧ s.Bears h (v.set [n] node.file) h' := by
  have hwork := bears_settle_top ho hr hn hleaf ht hfits hnew
    (e.announced h) (hs.announced e)
  cases hresult : r.settle .added node (s.path.descend [n])
      (e.announced h) with
  | error f h' =>
      rw [hresult] at hwork
      obtain ⟨-, -, hno⟩ := hwork
      exact hno.elim
  | ok u h' =>
      rw [hresult] at hwork
      obtain ⟨w, hw, rfl⟩ := hwork
      rw [← hk] at hresult
      exact ⟨h', apply_of_settle hr (by simp [hk]) hnode hplace hresult, hw⟩

section Strand

variable (hdraw : h.draw = fun _ => k) (hlt : k < Disk.stagingCount)
  (ho : s.Open v) (hr : s.Keeps r.payload r) (hs : s.Bears before v h)
  (hx : v (a ++ [n]) = some (.file c t)) (hc : c ≠ [])
  (hfree : v (a ++ [Disk.stagingName k]) = none)
  (hself : s.Fits (a ++ [Disk.stagingName k]))
  (hcramped : ¬ s.Fits (a ++ [Disk.stagingName k] ++ [n]))
  (hfits : s.Fits (a ++ [n])) (hn : AllSegments (a ++ n :: rest ++ [m]))

include hdraw hlt ho hr hx hc hfree hself hcramped hfits hn

/-- Work on a new node below the file stops and leaves the staging
directory. -/
theorem leaves_settle (node : Node) :
    Carries (s.Bears h)
      (r.settle .added node (s.path.descend (a ++ n :: rest ++ [m]))) v
      (fun _ _ => False)
      (fun setback w => (∃ cause, setback = .repair (.unusable cause))
        ∧ w = staged v a (Disk.stagingName k)) := by
  refine bears_of_linkless fun hv => ?_
  have hroot : s.path.descend (a ++ n :: rest ++ [m]) ≠ s.path :=
    fun heq => absurd (Path.descend_eq_self.mp heq) (by simp)
  -- below a file nothing stands, so nothing clashes
  have hnone : v (a ++ n :: rest ++ [m]) = none :=
    hv.below (by simp [hx]) (⟨rest ++ [m], by simp⟩ : a ++ [n] <+: _)
      (by simp)
  unfold Replica.settle
  refine ((bears_checkAdded ho hr hn).mono (fun _ _ hg => hg)
    fun _ _ hclash => absurd hnone hclash.2.1.there).bind ?_
  intro _ _ hmid
  obtain ⟨rfl, -⟩ := hmid
  refine Carries.recast ?_
  unfold Replica.materialize
  rw [hr.root, if_pos hroot, Path.parent_descend]
  refine Carries.bind (p := fun _ _ => False) ?_ fun _ _ hno => hno.elim
  refine (leaves_ensureChain hdraw hlt ho hr.segment hx hfree hself hcramped
    hc (hn.above (List.prefix_append _ [m])) hfits).mono
    (fun _ _ hno => hno) ?_
  intro _ _ hmid
  obtain ⟨⟨e, rfl⟩, hw⟩ := hmid
  exact ⟨⟨_, rfl⟩, hw⟩

include hs

/-- An event for it is reported as an error and leaves the same. -/
theorem apply_strands (hk : e.kind = .added) (hnode : e.node = some node)
    (hplace : r.place? node.path = some (a ++ n :: rest ++ [m])) :
    ∃ h', r.apply e h = .ok () h'
      ∧ s.Bears h' (staged v a (Disk.stagingName k)) h' := by
  have hwork := leaves_settle hdraw hlt ho hr hx hc hfree hself hcramped
    hfits hn node (e.announced h) (hs.announced e)
  have happly := Replica.apply_eq (h := h) (by simp [hk]) hnode
    (Remote.toLocal_of_place hplace r.root)
  rw [hk, hr.root] at happly
  cases hresult : r.settle .added node
      (s.path.descend (a ++ n :: rest ++ [m])) (e.announced h) with
  | ok u h' =>
      rw [hresult] at hwork
      obtain ⟨-, -, hno⟩ := hwork
      exact hno.elim
  | error f h' =>
      rw [hresult] at hwork happly
      obtain ⟨w, hw, ⟨cause, rfl⟩, rfl⟩ := hwork
      exact ⟨_, happly, (hw.reported _).restart⟩

end Strand

end Footing

end TreeReplica
