/-
The work on one event, seen through views. Where the view follows the
rule of slots, keeping a node and taking one away make the change that
the event asks for (`turns_settle`), and what can hinder them is little:
an added node meets an entry of the other kind, a name is too long or
cannot be passed to the system, or a time is out of range.
-/
import TreeReplica.Proofs.Replica.Change
import TreeReplica.Replica.Apply

namespace TreeReplica

open Work

-- ================================================================ hitches

/-- The faults that the system can answer work on a node at `l` with. -/
inductive Strains (node : Node) (l : Location) : Fault → Prop
  | tooLong (subject : Subject) :
      Strains node l (.system (.refused .nameTooLong subject))
  | null (some : l.any Disk.hasNull = true) :
      Strains node l (.argument .nullCharacter)
  | time (out : Disk.representable node.modifiedAt = false) :
      Strains node l (.argument .timeOutOfRange)

theorem Strains.tolerates (node : Node) (l : Location) :
    Tolerates (Strains node l) l where
  tooLong := .tooLong
  null := .null

/-- The fault of the disk behind a setback, if there is one. -/
def Setback.fault? : Setback → Option Fault
  | .violation _ => none
  | .repair failure => failure.fault?

/-- What can stop the work on an event about a node that is kept at `l`,
where the view is `v`. -/
inductive Hinders (v : View) (kind : EventKind) (node : Node)
    (l : Location) : Setback → Prop
  | occupied (added : kind = .added) (inside : l ≠ []) {x : Shape}
      (there : v l = some x)
      (other : x = .directory ↔ node.isContainer = false)
      (violation : Violation) : Hinders v kind node l (.violation violation)
  | strained {setback : Setback} {fault : Fault}
      (cause : setback.fault? = some fault) (strains : Strains node l fault) :
      Hinders v kind node l setback

/-- The change that an event of some kind asks for. -/
def EventKind.change? : EventKind → Node → Location → Option Change
  | .added, node, l => some (.keep node l)
  | .updated, node, l => some (.keep node l)
  | .removed, _, l => some (.clear l)
  | .initialized, _, _ => none

/-- The view `v'` is what a change, if there is one, makes of `v`. -/
def View.After (payload : String) (c : Option Change) (v v' : View) :
    Prop :=
  match c with
  | none => v' = v
  | some c => c.Makes payload v v'

namespace View

/-- With its slot emptied first, a place is taken away all the same. -/
theorem cut_slot_cut (payload : String) (v : View) (l : Location) :
    (v.cut (l ++ [payload])).cut l = v.cut l := by
  funext m
  by_cases h : l <+: m
  · rw [cut_within h, cut_within h]
  · rw [cut_outside h, cut_outside h, cut_outside
      fun hp => h ((List.prefix_append l [payload]).trans hp)]

end View

/-- The replica is kept at the footing, with this payload name. -/
structure Footing.Keeps (s : Footing) (payload : String) (r : Replica) :
    Prop where
  root : r.root = s.path
  slot : r.payload = payload
  segment : IsSegment payload

namespace Site

open View

variable {s : Site} {v : View} {payload : String} {node : Node}
  {a l : Location} {n : String} {bad : Fault → View → Prop}

-- ========================================================== small pieces

/-- Writing a file with its time. -/
theorem turns_writeFile (hn : AllNames (a ++ [n]))
    (ha : v a = some .directory) (hd : v (a ++ [n]) ≠ some .directory)
    (ht : Tolerates (Strains node l) (a ++ [n]))
    {g : Unit → View → Prop} (hg : g () (v.set (a ++ [n]) node.file)) :
    s.Turns (Replica.writeFile (s.path.descend (a ++ [n])) node.bytes
      node.modifiedAt) v g (fun f _ => Strains node l f) := by
  unfold Replica.writeFile
  refine (turns_write hn ha hd ht.admits (fun _ hf => hf) node.bytes
    (g := fun _ v' => v' = v.set (a ++ [n]) (.file node.bytes .written))
    rfl).bind ?_
  intro _ _ heq
  subst heq
  refine turns_setTime (set_self ..) node.modifiedAt .time ?_
  rw [set_set]
  exact hg

/-- Filling the slot of a directory. -/
theorem turns_fill (hp : IsSegment payload) (hc : s.Clean payload v)
    (hn : AllNames l) (hl : v l = some .directory) :
    s.Turns (do
        if node.hasData then
          Replica.writeFile (s.path.descend (l ++ [payload])) node.bytes
            node.modifiedAt
        else act (·.removeFileIfAny (s.path.descend (l ++ [payload]))))
      v
      (fun _ v' => v' = v.fill payload node l ∧ s.Clean payload v')
      (fun f _ => Strains node l f) := by
  have hslot := hn.concat hp.toIsName
  have ht : Tolerates (Strains node l) (l ++ [payload]) :=
    (Strains.tolerates node l).append (by simpa using hp.clear)
  cases hd : node.hasData with
  | true =>
      rw [if_pos rfl]
      refine (turns_writeFile hslot hl (hc.slots l) ht
        (g := fun _ v' => v' = v.set (l ++ [payload]) node.file)
        rfl).and_sound.mono ?_ (fun _ _ h => h.1)
      intro _ _ hmid
      obtain ⟨rfl, hs⟩ := hmid
      refine ⟨?_, hc.set hs (by simp [Node.file])⟩
      rw [fill, if_pos hd]
  | false =>
      rw [if_neg (by simp)]
      refine turns_removeFileIfAny hslot hl (hc.slots l) ht.admits
        (fun _ hf => hf) ⟨?_, hc.cut (by simp)⟩
      rw [fill, if_neg (by simp [hd])]

/-- Taking a directory away, with whatever is left in it. -/
theorem turns_removeStale (hx : v (a ++ [n]) = some .directory)
    {good : Unit → View → Prop} (hg : good () (v.cut (a ++ [n]))) :
    s.Turns (Replica.removeStale (s.path.descend (a ++ [n]))) v good bad := by
  unfold Replica.removeStale
  refine (turns_list hx (g := fun names v' => v = v'
    ∧ (names.isEmpty = true → ∀ k, v (a ++ [n] ++ [k]) = none))
    (fun hempty => ⟨rfl, fun _ => hempty⟩)
    (fun _ _ => ⟨rfl, fun h => by cases h⟩)).bind ?_
  intro names _ hmid
  obtain ⟨rfl, hempty⟩ := hmid
  by_cases he : names.isEmpty
  · rw [if_pos he]
    exact turns_removeDirectory hx (hempty he) hg
  · rw [if_neg he]
    refine (turns_say (by simp) _ (g := fun _ v' => v = v') rfl).bind ?_
    intro _ _ heq
    subst heq
    exact turns_removeTree hx hg

-- ============================================================ the pieces

variable {r : Replica}

/-- The place of a container becomes a directory, unless a file is there. -/
private theorem turns_ensure (hc : s.Clean payload v)
    (hn : AllNames (a ++ [n])) (hne : n ≠ payload)
    (ha : v a = some .directory)
    (hfile : Shape.isFile (v (a ++ [n])) = false) :
    s.Turns (act (·.ensureDirectory (s.path.descend (a ++ [n])))) v
      (fun _ v' => v' = v.ensure (a ++ [n]) ∧ s.Clean payload v')
      (fun f _ => Strains node (a ++ [n]) f) := by
  have hthere : v (a ++ [n]) = none ∨ v (a ++ [n]) = some .directory := by
    cases hx : v (a ++ [n]) with
    | none => exact Or.inl rfl
    | some x =>
        rw [hx] at hfile
        cases x with
        | directory => exact Or.inr rfl
        | file c t => cases hfile
        | link t => exact absurd hx (hc.noLinks _ t)
  refine (turns_ensureDirectory hn ha hthere
    (Strains.tolerates node _).admits (fun _ hf => hf)
    (g := fun _ v' => v' = v.ensure (a ++ [n]))
    rfl).and_sound.mono ?_ (fun _ _ hf => hf.1)
  intro _ _ hmid
  obtain ⟨rfl, hs⟩ := hmid
  refine ⟨rfl, ?_⟩
  unfold ensure at hs ⊢
  split at hs
  · next h =>
      rw [if_pos h]
      exact hc
  · next h =>
      rw [if_neg h]
      exact hc.set hs (fun _ => hne)

/-- A node is kept, in the place of nothing or of an entry of its own
kind. -/
theorem turns_materialize (hr : s.Keeps payload r) (hc : s.Clean payload v)
    (hn : AllNames l) (hpay : payload ∉ l)
    (hcont : node.opens l = true → Shape.isFile (v l) = false)
    (hleaf : node.opens l = false → v l ≠ some .directory) :
    s.Turns (r.materialize node (s.path.descend l)) v
      (fun _ v' => (Change.keep node l).Makes payload v v'
        ∧ s.Clean payload v')
      (fun f _ => ∃ fault, f.fault? = some fault ∧ Strains node l fault) := by
  have hp := hr.segment
  have hrecast : ∀ {w : Work Fault Unit} {v₁ : View}
      {good : Unit → View → Prop},
      s.Turns w v₁ good (fun f _ => Strains node l f) →
      s.Turns (recast Repair.Failure.disk w) v₁ good (fun f _ =>
        ∃ fault, f.fault? = some fault ∧ Strains node l fault) :=
    fun h => (h.mono (fun _ _ hg => hg)
      fun f _ hf => ⟨f, rfl, hf⟩).recast
  unfold Replica.materialize
  rw [hr.root, hr.slot, Remote.payloadSlot_descend hp.toIsName]
  rcases List.eq_nil_or_concat l with rfl | ⟨a, n, rfl⟩
  · -- the root
    simp only [Path.descend_nil, ne_eq, not_true_eq_false, if_false,
      decide_false, Bool.and_false]
    refine hrecast ((turns_fill hp hc hn hc.base).mono ?_ (fun _ _ hf => hf))
    intro _ _ hmid
    obtain ⟨rfl, hclean⟩ := hmid
    exact ⟨hc.makes_root, hclean⟩
  rw [List.concat_eq_append] at *
  have hroot : s.path.descend (a ++ [n]) ≠ s.path :=
    fun h => absurd (Path.descend_eq_self.mp h) (by simp)
  have hne : n ≠ payload := by
    intro heq
    subst heq
    simp at hpay
  rw [if_pos hroot, Path.parent_descend]
  refine (turns_ensureChain hp hc
    (allNames_append.mp hn).1 (fun hm => hpay (by simp [hm]))
    (Strains.tolerates node (a ++ [n])).of_append).bind ?_
  intro _ w hmid
  obtain ⟨hchain, hw⟩ := hmid
  have ha : w a = some .directory := by
    rw [hchain.place hc.base fun hm => hpay (by simp [hm]), if_pos]
    exact List.prefix_refl a
  have hsame : w (a ++ [n]) = v (a ++ [n]) := by
    rw [hchain.place hc.base hpay, if_neg (by simp)]
  refine hrecast ?_
  simp only [hroot, ne_eq, not_false_eq_true, if_true, decide_true,
    Bool.and_true]
  have hopens : node.opens (a ++ [n]) = node.isContainer := by
    simp [Node.opens]
  rw [hopens] at hcont hleaf
  cases hk : node.isContainer with
  | false =>
      rw [if_pos (by simp)]
      refine (turns_writeFile hn ha (hsame ▸ hleaf hk)
        (Strains.tolerates node _)
        (g := fun _ v' => v' = w.set (a ++ [n]) node.file)
        rfl).and_sound.mono ?_ (fun _ _ hf => hf.1)
      intro _ _ hmid
      obtain ⟨rfl, hs⟩ := hmid
      exact ⟨hc.makes_leaf hpay hchain (hopens.trans hk),
        hw.set hs (by simp [Node.file])⟩
  | true =>
      rw [if_neg (by simp)]
      refine (turns_ensure hw hn hne ha (hsame ▸ hcont hk)).bind ?_
      intro _ _ hmid
      obtain ⟨rfl, hclean⟩ := hmid
      refine (turns_fill hp hclean hn (ensure_self ..)).mono ?_
        (fun _ _ hf => hf)
      intro _ _ hmid
      obtain ⟨rfl, hfill⟩ := hmid
      exact ⟨hc.makes_container hw.toSound hpay hchain
        (by rw [hopens, hk]), hfill⟩

/-- An added node finds nothing, or an entry of its own kind, or breaks
the contract. -/
theorem turns_checkAdded (hr : s.Keeps payload r) (hc : s.Clean payload v)
    (hn : AllNames l) :
    s.Turns (r.checkAdded node (s.path.descend l)) v
      (fun _ v' => v' = v
        ∧ (node.opens l = true → Shape.isFile (v l) = false)
        ∧ (node.opens l = false → v l ≠ some .directory))
      (fun setback _ => Hinders v .added node l setback) := by
  unfold Replica.checkAdded
  refine turns_get_bind fun m host hv hs hm => ?_
  subst hv
  rw [hr.root, hm]
  by_cases hl : l = []
  · subst hl
    rw [Path.descend_nil, if_pos (by simp)]
    refine turns_pure ⟨rfl, fun _ => ?_, fun h => ?_⟩
    · rw [hc.base]
      rfl
    · simp [Node.opens] at h
  have hroot : s.path.descend l ≠ s.path :=
    fun h => hl (Path.descend_eq_self.mp h)
  have hopens : node.opens l = node.isContainer := by
    simp [Node.opens, hl]
  rw [occupied_eq hs hl hn, hopens]
  cases hx : m.view l with
  | none =>
      rw [if_pos (by simp)]
      exact turns_pure ⟨rfl, fun _ => rfl, fun _ => by simp⟩
  | some x =>
      have hfits := (hs.fits l (by simp [hx])).admits
      rw [if_neg (by simp [hroot])]
      refine Turns.bind (m := fun b v' => m.view = v'
        ∧ (b = true ↔ (x = .directory ↔ node.isContainer = true))) ?_ ?_
      · refine Turns.recast ?_
        cases hk : node.isContainer with
        | true =>
            rw [if_pos rfl]
            refine turns_isDirectory hn hfits (fun _ => False.elim)
              ⟨rfl, ?_⟩
            simp [hx]
        | false =>
            rw [if_neg (by simp)]
            refine turns_isFile hn hfits (fun _ => False.elim) ⟨rfl, ?_⟩
            rw [hx]
            cases x with
            | directory => simp [Shape.isFile]
            | file c t => simp [Shape.isFile]
            | link t => exact absurd hx (hs.noLinks l t)
      · intro same _ hmid
        obtain ⟨rfl, hsame⟩ := hmid
        cases same with
        | true =>
            rw [if_neg (by simp)]
            have hkind := hsame.mp rfl
            refine turns_pure ⟨rfl, fun hk => ?_, fun hk => ?_⟩
            · rw [hkind.mpr hk]
              rfl
            · intro hd
              cases hd
              rw [hkind.mp rfl] at hk
              cases hk
        | false =>
            rw [if_pos (by simp)]
            refine turns_throw (.occupied rfl hl hx ?_ _)
            have hdiff : ¬ (x = .directory ↔ node.isContainer = true) :=
              fun h => by simpa using hsame.mpr h
            cases hk : node.isContainer with
            | true => simpa [hk] using hdiff
            | false => simpa [hk] using hdiff

/-- An updated node finds nothing or an entry of its own kind, since an
entry of the other kind is taken away first. -/
theorem turns_convertKind (hr : s.Keeps payload r)
    (hc : s.Clean payload v) (hn : AllNames l) :
    s.Turns (r.convertKind node (s.path.descend l)) v
      (fun _ v' => (v' = v
          ∧ (node.opens l = true → Shape.isFile (v l) = false)
          ∧ (node.opens l = false → v l ≠ some .directory))
        ∨ (v' = v.cut l ∧ l ≠ []
          ∧ (node.opens l = true → v l ≠ some .directory)))
      (fun f _ => Strains node l f) := by
  have hp := hr.segment
  unfold Replica.convertKind
  rw [hr.root, hr.slot, Remote.payloadSlot_descend hp.toIsName]
  rcases List.eq_nil_or_concat l with rfl | ⟨a, n, rfl⟩
  · rw [Path.descend_nil, if_pos rfl]
    refine turns_pure (Or.inl ⟨rfl, fun _ => ?_, fun h => ?_⟩)
    · rw [hc.base]
      rfl
    · simp [Node.opens] at h
  rw [List.concat_eq_append] at *
  rw [if_neg fun h => absurd (Path.descend_eq_self.mp h) (by simp)]
  have hopens : node.opens (a ++ [n]) = node.isContainer := by
    simp [Node.opens]
  rw [hopens]
  have ht := Strains.tolerates node (a ++ [n])
  refine (turns_isDirectory hn ht.admits (fun _ hf => hf)
    (g := fun b v' => b = decide (v (a ++ [n]) = some .directory)
      ∧ v = v') ⟨rfl, rfl⟩).bind ?_
  intro _ _ hmid
  obtain ⟨rfl, rfl⟩ := hmid
  by_cases hd : v (a ++ [n]) = some .directory
  · cases hk : node.isContainer with
    | false =>
        -- a directory gives way to a leaf
        rw [if_pos (by simp [hd])]
        refine (turns_removeFileIfAny
          (g := fun _ v' => v' = v.cut (a ++ [n] ++ [payload]))
          (hn.concat hp.toIsName) hd (hc.slots _)
          (ht.append (b := [payload]) (by simpa using hp.clear)).admits
          (fun _ hf => hf) rfl).bind ?_
        intro _ _ heq
        subst heq
        refine turns_removeStale ?_
          (Or.inr ⟨cut_slot_cut payload v _, by simp, fun h => by cases h⟩)
        rw [cut_outside (by simp), hd]
    | true =>
        rw [if_neg (by simp [hd])]
        refine (turns_isFile hn ht.admits (fun _ hf => hf)
          (g := fun b v' => b = false ∧ v = v') ⟨?_, rfl⟩).bind ?_
        · rw [hd]
          rfl
        intro _ _ hmid
        obtain ⟨rfl, rfl⟩ := hmid
        refine turns_pure (Or.inl ⟨rfl, fun _ => ?_, fun h => by cases h⟩)
        rw [hd]
        rfl
  · rw [if_neg (by simp [hd])]
    refine (turns_isFile hn ht.admits (fun _ hf => hf)
      (g := fun b v' => b = Shape.isFile (v (a ++ [n])) ∧ v = v')
      ⟨rfl, rfl⟩).bind ?_
    intro _ _ hmid
    obtain ⟨rfl, rfl⟩ := hmid
    by_cases hk : Shape.isFile (v (a ++ [n])) = true
        ∧ node.isContainer = true
    · -- a file gives way to a container
      rw [if_pos (by simp [hk])]
      cases hx : v (a ++ [n]) with
      | none =>
          rw [hx] at hk
          cases hk.1
      | some x =>
          cases x with
          | directory => exact absurd hx hd
          | link t => exact absurd hx (hc.noLinks _ t)
          | file c t =>
              exact turns_removeFile hx
                (Or.inr ⟨rfl, by simp, fun _ => by simp⟩)
    · rw [if_neg (by simpa using hk)]
      refine turns_pure (Or.inl ⟨rfl, fun h => ?_, fun _ => hd⟩)
      by_cases hf : Shape.isFile (v (a ++ [n])) = true
      · exact absurd ⟨hf, h⟩ hk
      · simpa using hf

/-- What is kept for a removed node is taken away. -/
theorem turns_remove (hr : s.Keeps payload r) (hc : s.Clean payload v)
    (hn : AllNames l) (hpay : payload ∉ l) :
    s.Turns (r.remove (s.path.descend l)) v
      (fun _ v' => (Change.clear l).Makes payload v v'
        ∧ s.Clean payload v')
      (fun f _ => Strains node l f) := by
  have hp := hr.segment
  have ht := Strains.tolerates node l
  have hslot : Tolerates (Strains node l) (l ++ [payload]) :=
    ht.append (by simpa using hp.clear)
  unfold Replica.remove
  rw [hr.root, hr.slot, Remote.payloadSlot_descend hp.toIsName]
  refine (turns_isDirectory hn ht.admits (fun _ hf => hf)
    (g := fun b v' => b = decide (v l = some .directory) ∧ v = v')
    ⟨rfl, rfl⟩).bind ?_
  intro _ _ hmid
  obtain ⟨rfl, rfl⟩ := hmid
  by_cases hd : v l = some .directory
  · rw [if_pos (by simpa using hd)]
    refine (turns_removeFileIfAny
      (g := fun _ v' => v' = v.cut (l ++ [payload]))
      (hn.concat hp.toIsName) hd (hc.slots _) hslot.admits
      (fun _ hf => hf) rfl).bind ?_
    intro _ _ heq
    subst heq
    rcases List.eq_nil_or_concat l with rfl | ⟨a, n, rfl⟩
    · rw [Path.descend_nil, if_neg (by simp)]
      exact turns_pure ⟨makes_clear_root, hc.cut (by simp)⟩
    rw [List.concat_eq_append] at *
    rw [if_pos fun h => absurd (Path.descend_eq_self.mp h) (by simp)]
    refine turns_removeStale ?_ ?_
    · rw [cut_outside (by simp), hd]
    · rw [cut_slot_cut]
      exact ⟨makes_clear (by simp) hpay, hc.cut (by simp)⟩
  rw [if_neg (by simpa using hd)]
  rcases List.eq_nil_or_concat l with rfl | ⟨a, n, rfl⟩
  · exact absurd hc.base hd
  rw [List.concat_eq_append] at *
  have hmakes := makes_clear (v := v) (l := a ++ [n]) (by simp) hpay
  refine turns_get_bind fun m host hv hs hm => ?_
  subst hv
  rw [hm, occupied_eq hs (by simp) hn]
  cases hx : m.view (a ++ [n]) with
  | none =>
      rw [if_neg (by simp)]
      refine turns_say (by simp) _ ⟨?_, hc⟩
      rwa [hs.linkless.cut_of_none hx] at hmakes
  | some x =>
      rw [if_pos (by simp)]
      cases x with
      | directory => exact absurd hx hd
      | link t => exact absurd hx (hs.noLinks _ t)
      | file c t => exact turns_removeFile hx ⟨hmakes, hc.cut (by simp)⟩

-- ========================================================= the whole work

/-- The work on an event makes the change that the event asks for, or is
hindered. -/
theorem turns_settle (hr : s.Keeps payload r) (hc : s.Clean payload v)
    (kind : EventKind) (node : Node) (hn : AllNames l)
    (hpay : payload ∉ l) :
    s.Turns (r.settle kind node (s.path.descend l)) v
      (fun _ v' => v.After payload (kind.change? node l) v'
        ∧ s.Clean payload v')
      (fun setback _ => Hinders v kind node l setback) := by
  have hstrain : ∀ (f : Repair.Failure) (v' : View),
      (∃ fault, f.fault? = some fault ∧ Strains node l fault) →
      Hinders v kind node l (.repair f) :=
    fun _ _ ⟨_, hf, hs⟩ => .strained hf hs
  unfold Replica.settle
  cases kind with
  | added =>
      refine (turns_checkAdded hr hc hn).bind ?_
      intro _ _ hmid
      obtain ⟨rfl, hcont, hleaf⟩ := hmid
      exact ((turns_materialize hr hc hn hpay hcont hleaf).mono
        (fun _ _ h => h) hstrain).recast
  | updated =>
      refine Turns.bind (Turns.recast ((turns_convertKind hr hc hn).mono
        (fun _ _ h => h) fun _ _ hs => .strained rfl hs)) ?_
      intro _ w hcase
      rcases hcase with ⟨rfl, hcont, hleaf⟩ | ⟨rfl, hl, hcont⟩
      · exact ((turns_materialize hr hc hn hpay hcont hleaf).mono
          (fun _ _ h => h) hstrain).recast
      · have hnone : v.cut l l = none :=
          cut_within (List.prefix_refl l)
        refine ((turns_materialize hr (hc.cut hl) hn hpay
          (fun _ => by rw [hnone]; rfl) (fun _ => by simp [hnone])).mono
          ?_ hstrain).recast
        intro _ v' hmid
        obtain ⟨hmakes, hclean⟩ := hmid
        exact ⟨hc.makes_of_cut hpay hcont hmakes, hclean⟩
  | removed =>
      exact ((turns_remove hr hc hn hpay).mono (fun _ _ h => h)
        fun _ _ hs => .strained rfl hs).recast
  | initialized => exact turns_pure ⟨rfl, hc⟩

end Site

end TreeReplica
