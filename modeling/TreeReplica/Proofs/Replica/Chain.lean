/-
The repair of parents, seen through views. Going down from a directory,
every place named on the way becomes a directory; a file with bytes that
stood at one of them ends up in its payload slot, and nothing else
changes. `Chained` says this location by location, and `turns_ensureChain`
shows that the repair does it. What can stop a repair is a name that the
system refuses and nothing else: no place on the way is blocked.
-/
import TreeReplica.Proofs.Replica.Repair

namespace TreeReplica

open Work

namespace View

variable {payload : String} {v v' : View}

-- =========================================================== on the view

/-- What is in the payload slot of `l` once `l` is a directory: the bytes
of a file that stood at `l`, or what was in the slot before. -/
def slotAfter (payload : String) (v : View) (l : Location) : Option Shape :=
  match v l with
  | some (.file c t) => if c.length = 0 then none else some (.file c t)
  | _ => v (l ++ [payload])

/-- How `v'` differs from `v` once there are directories at the places
that `parts` names, one below the other from `start`. -/
structure Chained (payload : String) (v : View) (start parts : Location)
    (v' : View) : Prop where
  made : ∀ p, p <+: parts → p ≠ [] → v' (start ++ p) = some .directory
  slot : ∀ p, p <+: parts → p ≠ [] →
    v' (start ++ p ++ [payload]) = v.slotAfter payload (start ++ p)
  kept : ∀ m, (∀ p, p <+: parts → p ≠ [] →
    m ≠ start ++ p ∧ m ≠ start ++ p ++ [payload]) → v' m = v m

theorem Chained.refl (payload : String) (v : View) (start : Location) :
    Chained payload v start [] v where
  made _ hp hne := absurd (List.prefix_nil.mp hp) hne
  slot _ hp hne := absurd (List.prefix_nil.mp hp) hne
  kept _ _ := rfl

/-- Away from the place and its slot a conversion changes nothing. -/
theorem Linkless.convert_kept (h : v.Linkless) {l m : Location} (hm : m ≠ l)
    (hslot : m ≠ l ++ [payload]) : v.convert payload l m = v m := by
  by_cases hl : v l = some .directory
  · rw [convert_of_directory hl]
  · by_cases hp : l <+: m
    · have hnone := h.below hl hp hm
      have hset := set_below hp hm (v := v) .directory
      unfold convert
      rw [hnone]
      cases hx : v l with
      | none => exact hset
      | some x =>
          cases x with
          | directory => exact absurd hx hl
          | link t => exact hset
          | file c t =>
              simp only
              by_cases hc : c.length = 0
              · rw [if_pos hc, hset]
              · rw [if_neg hc]
                by_cases hq : l ++ [payload] <+: m
                · exact set_below hq hslot _
                · rw [set_outside hq, hset]
    · exact convert_outside hp

/-- The slot of a converted place. -/
theorem Linkless.convert_slot (h : v.Linkless) (l : Location) :
    v.convert payload l (l ++ [payload]) = v.slotAfter payload l := by
  have hp : l <+: l ++ [payload] := List.prefix_append l [payload]
  have hset := set_below hp (by simp) (v := v) .directory
  unfold convert slotAfter
  cases hl : v l with
  | none =>
      have hnone := h.below (by simp [hl]) hp (by simp)
      rw [hnone]
      exact hset
  | some x =>
      cases x with
      | directory => rfl
      | link t => exact absurd hl (h.noLinks l t)
      | file c t =>
          simp only
          by_cases hc : c.length = 0
          · rw [if_pos hc, if_pos hc]
            exact hset
          · rw [if_neg hc, if_neg hc, set_self]

/-- The first step of a chain, then the chain below it. -/
theorem Linkless.chained_cons (h : v.Linkless) {start rest : Location}
    {part : String} (hpay : payload ∉ rest)
    (hc : Chained payload (v.convert payload (start ++ [part]))
      (start ++ [part]) rest v') :
    Chained payload v start (part :: rest) v' := by
  have hsplit : ∀ p : Location,
      start ++ (part :: p) = start ++ [part] ++ p := by simp
  -- the names below the first place are not the slot's
  have hbelow : ∀ p : Location, p <+: rest → p ≠ [payload] := by
    intro p hp heq
    subst heq
    exact hpay (hp.subset (List.mem_cons_self ..))
  have hstep : ∀ p : Location, p <+: rest → p ≠ [] →
      v.convert payload (start ++ [part]) (start ++ [part] ++ p)
        = v (start ++ [part] ++ p) := by
    intro p hp hne
    refine h.convert_kept (by simpa using hne) ?_
    rw [Ne, List.append_cancel_left_eq]
    exact hbelow p hp
  have hslot : ∀ p : Location, p ≠ [] →
      v.convert payload (start ++ [part]) (start ++ [part] ++ p ++ [payload])
        = v (start ++ [part] ++ p ++ [payload]) := by
    intro p hne
    refine h.convert_kept (by simp) ?_
    rw [Ne, List.append_assoc, List.append_cancel_left_eq]
    simpa using hne
  constructor
  · intro p hpre hne
    cases p with
    | nil => exact absurd rfl hne
    | cons q p =>
        obtain ⟨rfl, hp⟩ := List.cons_prefix_cons.mp hpre
        rw [hsplit]
        by_cases hnil : p = []
        · rw [hnil, List.append_nil, hc.kept, convert_self]
          intro p' _ hne'
          simp [hne']
        · exact hc.made p hp hnil
  · intro p hpre hne
    cases p with
    | nil => exact absurd rfl hne
    | cons q p =>
        obtain ⟨rfl, hp⟩ := List.cons_prefix_cons.mp hpre
        rw [hsplit]
        by_cases hnil : p = []
        · rw [hnil, List.append_nil, hc.kept, h.convert_slot]
          intro p' hp' hne'
          refine ⟨?_, by simp [hne']⟩
          rw [Ne, List.append_cancel_left_eq]
          exact fun e => hbelow p' hp' e.symm
        · rw [hc.slot p hp hnil]
          unfold slotAfter
          rw [hstep p hp hnil, hslot p hnil]
  · intro m hm
    have hfirst := hm [part] (by simp) (by simp)
    rw [hc.kept m, h.convert_kept hfirst.1 hfirst.2]
    intro p hp hne
    have hnext := hm (part :: p) (List.cons_prefix_cons.mpr ⟨rfl, hp⟩)
      (by simp)
    rwa [hsplit] at hnext

end View

namespace Site

open View

variable {s : Site} {v v' : View} {tolerated : Fault → Prop}
  {payload : String}

/-- A conversion keeps the rule of slots as long as no slot is
converted. -/
theorem Clean.convert (h : s.Clean payload v) {a : Location} {n : String}
    (hs : s.Sound (v.convert payload (a ++ [n]))) (hn : n ≠ payload) :
    s.Clean payload (v.convert payload (a ++ [n])) where
  toSound := hs
  slots b hd := by
    by_cases hb : b ++ [payload] = a ++ [n]
    · have hname := (List.append_inj' hb rfl).2
      simp only [List.cons.injEq, and_true] at hname
      exact hn hname.symm
    · by_cases hslot : b ++ [payload] = a ++ [n] ++ [payload]
      · rw [hslot, h.linkless.convert_slot] at hd
        unfold slotAfter at hd
        split at hd
        · split at hd
          · cases hd
          · cases hd
        · exact h.slots _ hd
      · rw [h.linkless.convert_kept hb hslot] at hd
        exact h.slots b hd

-- ============================================================== the work

/-- Making one ancestor a directory below a directory. -/
theorem turns_makeAncestor (hp : IsSegment payload) {a : Location}
    {n : String} (hn : AllNames (a ++ [n])) (ha : v a = some .directory)
    (ht : Tolerates tolerated (a ++ [n])) :
    s.Turns (Repair.makeAncestor payload (s.path.descend (a ++ [n]))) v
      (fun _ v' => v' = v.convert payload (a ++ [n]))
      (fun f _ => tolerated f) := by
  unfold Repair.makeAncestor
  refine (turns_isDirectory hn ht.admits (fun f hf => hf)
    (g := fun b v' => b = decide (v (a ++ [n]) = some .directory)
      ∧ v = v') ⟨rfl, rfl⟩).bind ?_
  intro _ _ hmid
  obtain ⟨rfl, rfl⟩ := hmid
  by_cases hd : v (a ++ [n]) = some .directory
  · rw [if_pos (by simpa using hd)]
    exact turns_pure (convert_of_directory hd payload).symm
  rw [if_neg (by simpa using hd)]
  refine turns_get_bind fun m host hv hs hm => ?_
  subst hv
  rw [hm, occupied_eq hs (by simp) hn]
  cases hx : m.view (a ++ [n]) with
  | none =>
      rw [if_neg (by simp)]
      refine turns_makeDirectory hn ha hx ht.admits (fun f hf => hf) ?_
      simp [convert, hx]
  | some x =>
      rw [if_pos (by simp)]
      cases x with
      | directory => exact absurd hx hd
      | link t => exact absurd hx (hs.noLinks _ t)
      | file c t =>
          refine (turns_size hx (g := fun k v' => k = c.length
            ∧ v' = m.view) ⟨rfl, rfl⟩).bind ?_
          intro _ _ hmid
          obtain ⟨rfl, rfl⟩ := hmid
          by_cases hc : c.length = 0
          · rw [if_pos hc]
            refine (turns_removeFile hx
              (g := fun _ v' => v' = m.view.cut (a ++ [n])) rfl).bind ?_
            intro _ _ heq
            subst heq
            refine turns_makeDirectory hn ?_ ?_ ht.admits
              (fun f hf => hf) ?_
            · rw [cut_outside (by simp), ha]
            · rw [cut_within (List.prefix_refl _)]
            · rw [set_cut]
              simp only [convert, hx]
              rw [if_pos hc]
          · rw [if_neg hc]
            refine (turns_say (by simp) _
              (g := fun _ v' => v' = m.view) rfl).bind ?_
            intro _ _ heq
            subst heq
            refine (turns_relocate hp hx ht).mono ?_ (fun _ _ h => h)
            intro _ _ heq
            subst heq
            simp only [convert, hx]
            rw [if_neg hc]

end Site

namespace Repair

/-- The fault of the disk behind a failure to repair, if there is one. -/
def Failure.fault? : Failure → Option Fault
  | .unusable (.blocked _ reason) => some (.system reason)
  | .unusable (.outside _ _) => none
  | .unusable (.notDirectory _) => none
  | .disk fault => some fault

end Repair

namespace Site

open View

variable {s : Site} {v : View} {tolerated : Fault → Prop}
  {payload : String}

/-- Making the places that the parts name directories, from a directory
down. The induction is on the parts; what carries it is that the place
just made is the directory to go on from. -/
theorem turns_makeBelow (hp : IsSegment payload) {start parts : Location}
    (hc : s.Clean payload v) (hn : AllNames (start ++ parts))
    (hpay : payload ∉ parts) (hd : v start = some .directory)
    (ht : Tolerates tolerated (start ++ parts)) :
    s.Turns (Repair.makeBelow payload (s.path.descend start) parts) v
      (fun _ v' => Chained payload v start parts v' ∧ s.Clean payload v')
      (fun f _ => ∃ fault, f.fault? = some fault ∧ tolerated fault) := by
  induction parts generalizing start v with
  | nil => exact turns_pure ⟨.refl payload v start, hc⟩
  | cons part rest ih =>
      have hsplit : start ++ part :: rest = start ++ [part] ++ rest := by simp
      rw [hsplit] at hn ht
      unfold Repair.makeBelow
      rw [Path.child_descend]
      refine Turns.bind (Turns.recast ?_) (m := fun _ v' =>
        v' = v.convert payload (start ++ [part])) ?_
      · refine (turns_makeAncestor hp (allNames_append.mp hn).1 hd
          ht.of_append).mono (fun _ _ h => h) ?_
        intro hcase _ hf
        rcases hcase with e | e
        · exact ⟨_, rfl, hf⟩
        · exact ⟨_, rfl, hf⟩
      intro _ _ heq
      subst heq
      refine turns_of_sound fun hs => ?_
      have hne : part ≠ payload := fun e => hpay (e ▸ List.mem_cons_self ..)
      have hrest : payload ∉ rest :=
        fun h => hpay (List.mem_cons_of_mem part h)
      refine (ih (hc.convert hs hne) hn hrest (convert_self payload v _)
        ht).mono ?_ (fun _ _ h => h)
      intro _ v' hmid
      obtain ⟨hchain, hclean⟩ := hmid
      exact ⟨hc.linkless.chained_cons hrest hchain, hclean⟩

/-- Making every ancestor of what is to be kept below `a`, and `a` itself,
a directory. -/
theorem turns_ensureChain (hp : IsSegment payload) {a : Location}
    (hc : s.Clean payload v) (hn : AllNames a) (hpay : payload ∉ a)
    (ht : Tolerates tolerated a) :
    s.Turns (Repair.ensureChain (s.path.descend a) s.path payload) v
      (fun _ v' => Chained payload v [] a v' ∧ s.Clean payload v')
      (fun f _ => ∃ fault, f.fault? = some fault ∧ tolerated fault) := by
  unfold Repair.ensureChain
  by_cases ha : a = []
  · subst ha
    rw [Path.descend_nil, if_pos rfl]
    exact turns_pure ⟨.refl payload v [], hc⟩
  rw [if_neg fun h => ha (Path.descend_eq_self.mp h),
    Path.relativeTo?_descend]
  have hmake := turns_makeBelow hp hc (List.nil_append a ▸ hn) hpay hc.base
    (List.nil_append a ▸ ht)
  rw [Path.descend_nil] at hmake
  refine hmake.bind ?_
  intro _ v' hmid
  obtain ⟨hchain, hclean⟩ := hmid
  have hdir : v' a = some .directory :=
    hchain.made a (List.prefix_refl a) ha
  refine Turns.bind (Turns.recast
    (turns_isDirectory hn (hclean.fits a (by simp [hdir])).admits
      (fun f => False.elim)
      (g := fun b v'' => b = true ∧ v'' = v')
      ⟨by simp [hdir], rfl⟩)) ?_
  intro _ _ hmid
  obtain ⟨rfl, rfl⟩ := hmid
  exact turns_pure ⟨hchain, hclean⟩

end Site

end TreeReplica
