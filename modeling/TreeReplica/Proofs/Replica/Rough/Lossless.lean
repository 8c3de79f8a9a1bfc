/-
Repair loses nothing. Whatever stands on the way to a directory, and
however long a name on it is, the repair of the way either makes it, and
then the bytes of every file on it are in the slot of the directory in its
place (`Repaired`), or it stops at one ancestor, with the entry there and
all below it as they were (`Halted`). Off the way nothing is lost and
nothing is new but those slots, and perhaps one empty staging directory
(`Spared`). A target that is not below the root is refused at once
(`ensureChain_ends`).
-/
import TreeReplica.Proofs.Replica.Rough.Repair

namespace TreeReplica

namespace View

variable {payload : String} {v w : View} {chain parts done : Location}
  {n : String} {left : Option Location}

-- =========================================================== what is left

/-- All places on `chain` are directories. One that was a file with bytes
holds them in its slot, with their time, and besides at most the next
place. -/
structure Repaired (payload : String) (chain : Location) (v w : View) :
    Prop where
  made : ∀ p, p <+: chain → w p = some .directory
  moved : ∀ p c t, p <+: chain → v p = some (.file c t) → c.length ≠ 0 →
    w (p ++ [payload]) = some (.file c t)
  alone : ∀ p c t k, p <+: chain → v p = some (.file c t) → k ≠ payload →
    w (p ++ [k]) ≠ none → p ++ [k] <+: chain

/-- Apart from the places on `chain` all is kept, and only the slots of
files that became directories are new, and what is `left`. -/
structure Spared (payload : String) (chain : Location)
    (left : Option Location) (v w : View) : Prop where
  kept : ∀ m x, ¬ m <+: chain → v m = some x → w m = some x
  new : ∀ m x, ¬ m <+: chain → w m = some x → v m = some x ∨ m ∈ left
    ∨ ∃ p c t, p <+: chain ∧ v p = some (.file c t) ∧ c.length ≠ 0
        ∧ m = p ++ [payload] ∧ x = .file c t

/-- The repair has stopped at the ancestor `n` below `done`: the places
above it are repaired, it is what it was with all below it, and an empty
staging directory may be left beside it. -/
structure Halted (payload : String) (parts done : Location) (n : String)
    (left : Option Location) (v w : View) : Prop where
  ancestor : done ++ [n] <+: parts
  above : Repaired payload done v w
  restored : ∀ m, done ++ [n] <+: m → w m = v m
  spared : Spared payload done left v w
  staging : ∀ s ∈ left, (∃ i, s = done ++ [Disk.stagingName i])
    ∧ v s = none ∧ w s = some .directory ∧ ∀ k, w (s ++ [k]) = none

-- ============================================================== the chain

/-- What is on a chain from the base is a place of it or the base. -/
private theorem Chained.made_base (hl : v.Linkless)
    (h : Chained payload v [] chain w) {p : Location} (hp : p <+: chain) :
    w p = some .directory := by
  by_cases hnil : p = []
  · subst hnil
    exact h.keeps hl hl.base
  · exact h.made p hp hnil

/-- A place off the chain keeps what was there. -/
theorem Chained.kept_off (hl : v.Linkless)
    (h : Chained payload v [] chain w) {m : Location} {x : Shape}
    (hm : ¬ m <+: chain) (hx : v m = some x) : w m = some x := by
  by_cases hslot : ∃ p, p <+: chain ∧ p ≠ [] ∧ m = p ++ [payload]
  · obtain ⟨p, hp, hne, rfl⟩ := hslot
    -- above the slot was a directory then, which keeps it
    have hdir := hl.above p [payload] (by simp) (by simp [hx])
    have hafter := h.slot p hp hne
    rwa [List.nil_append, slotAfter, hdir, hx] at hafter
  · rw [h.kept m, hx]
    intro p hp hne
    exact ⟨fun heq => hm (heq ▸ hp), fun heq => hslot ⟨p, hp, hne, heq⟩⟩

/-- What is new off the chain is in the slot of a file that was moved. -/
theorem Chained.new_off (h : Chained payload v [] chain w) {m : Location}
    {x : Shape} (hm : ¬ m <+: chain) (hx : w m = some x) :
    v m = some x ∨ ∃ p c t, p <+: chain ∧ v p = some (.file c t)
      ∧ c.length ≠ 0 ∧ m = p ++ [payload] ∧ x = .file c t := by
  by_cases hslot : ∃ p, p <+: chain ∧ p ≠ [] ∧ m = p ++ [payload]
  · obtain ⟨p, hp, hne, rfl⟩ := hslot
    have hafter := h.slot p hp hne
    rw [List.nil_append, hx, slotAfter] at hafter
    split at hafter
    · next c t hfile =>
        split at hafter
        · cases hafter
        · next hfull =>
            cases hafter
            exact Or.inr ⟨p, c, t, hp, hfile, hfull, rfl, rfl⟩
    · exact Or.inl hafter.symm
  · left
    rw [← hx, h.kept m]
    intro p hp hne
    exact ⟨fun heq => hm (heq ▸ hp), fun heq => hslot ⟨p, hp, hne, heq⟩⟩

/-- Below a file nothing is added to a chain but its slot and the next
place. -/
theorem Chained.alone (hl : v.Linkless) (h : Chained payload v [] chain w)
    {p : Location} {c : Bytes} {t : Stamp} {k : String}
    (hfile : v p = some (.file c t)) (hk : k ≠ payload)
    (hthere : w (p ++ [k]) ≠ none) : p ++ [k] <+: chain := by
  refine Decidable.byContradiction fun hoff => ?_
  obtain ⟨x, hx⟩ := Option.ne_none_iff_exists'.mp hthere
  rcases h.new_off hoff hx with hwas | ⟨q, c', t', -, -, -, heq, -⟩
  · have hdir := hl.above p [k] (by simp) (by simp [hwas])
    rw [hfile] at hdir
    cases hdir
  · exact hk (List.singleton_inj.mp (List.append_inj' heq rfl).2)

/-- A chain that is made is repaired, and nothing is changed apart from
it. -/
theorem Chained.repaired (hl : v.Linkless)
    (h : Chained payload v [] chain w) : Repaired payload chain v w where
  made _ hp := h.made_base hl hp
  moved p c t hp hfile hfull := by
    have hne : p ≠ [] := by
      intro hnil
      rw [hnil, hl.base] at hfile
      cases hfile
    have hafter := h.slot p hp hne
    simpa only [List.nil_append, slotAfter, hfile, if_neg hfull] using hafter
  alone _ _ _ _ _ hfile hk hthere := h.alone hl hfile hk hthere

theorem Chained.spared (hl : v.Linkless)
    (h : Chained payload v [] chain w) : Spared payload chain none v w where
  kept _ _ hm hx := h.kept_off hl hm hx
  new _ _ hm hx := (h.new_off hm hx).imp_right Or.inr

/-- An entry below one on a chain is not above another, or is the same. -/
private theorem entry_below {p : Location} {k : String} (hp : p <+: done)
    (h : done ++ [n] <+: p ++ [k]) : done = p ∧ n = k := by
  have hshort := hp.length_le
  have hsame : done ++ [n] = p ++ [k] := by
    refine h.eq_of_length_le ?_
    simp only [List.length_append, List.length_singleton]
    omega
  obtain ⟨hdone, hlast⟩ := List.append_inj' hsame rfl
  exact ⟨hdone, List.singleton_inj.mp hlast⟩

/-- Below the next place of a chain nothing has changed. -/
theorem Chained.kept_next (h : Chained payload v [] done w)
    (hn : n ≠ payload) {m : Location} (hm : done ++ [n] <+: m) :
    w m = v m := by
  refine h.kept m fun p hp _ => ⟨fun heq => ?_, fun heq => ?_⟩
  · rw [heq] at hm
    exact not_prefix_of_append (by simp) (hm.trans hp)
  · rw [heq, List.nil_append] at hm
    exact hn (entry_below hp hm).2

-- ========================================================== where it stops

section Staged

variable {u : View} {k : String} {c : Bytes} {t : Stamp} (hl : v.Linkless)
  (h : Chained payload v [] done u) (hfree : u (done ++ [k]) = none)

include hl h hfree

/-- Where nothing stands after a chain nothing was before it. -/
private theorem Chained.free_before : v (done ++ [k]) = none := by
  cases hx : v (done ++ [k]) with
  | none => rfl
  | some x =>
      rw [h.kept_off hl (not_prefix_of_append (by simp)) hx] at hfree
      cases hfree

/-- What a chain left is not below a place that is free. -/
private theorem Chained.apart_free {m : Location} {x : Shape}
    (hx : u m = some x) : ¬ done ++ [k] <+: m := by
  intro hm
  have hoff : ¬ m <+: done :=
    fun hp => not_prefix_of_append (by simp) (hm.trans hp)
  rcases h.new_off hoff hx with hwas | ⟨p, c, t, hp, -, -, rfl, -⟩
  · have hnone := h.free_before hl hfree
    by_cases heq : m = done ++ [k]
    · rw [heq, hnone] at hwas
      cases hwas
    · rw [hl.below (by simp [hnone]) hm heq] at hwas
      cases hwas
  · obtain ⟨rfl, rfl⟩ := entry_below hp hm
    rw [hfree] at hx
    cases hx

/-- A staging directory that is left beside a file of the next name. -/
private theorem Chained.halted_staged (hn : n ≠ payload)
    (hway : done ++ [n] <+: parts) {i : Nat} (hk : k = Disk.stagingName i)
    (hkn : k ≠ n) (hfile : u (done ++ [n]) = some (.file c t)) :
    Halted payload parts done n (some (done ++ [k])) v (staged u done k) := by
  have hstays : ∀ {m x}, u m = some x → staged u done k m = some x :=
    fun hx => (set_outside (h.apart_free hl hfree hx) _).trans hx
  have hrepaired := h.repaired hl
  refine ⟨hway, ⟨fun p hp => hstays (hrepaired.made p hp),
    fun p c t hp hwas hfull => hstays (hrepaired.moved p c t hp hwas hfull),
    fun p c' t' j hp hwas hj hthere => ?_⟩, fun m hm => ?_,
    ⟨fun m x hm hx => hstays (h.kept_off hl hm hx), fun m x hm hx => ?_⟩, ?_⟩
  · refine h.alone hl hwas hj fun hnone => ?_
    obtain ⟨x, hx⟩ := Option.ne_none_iff_exists'.mp hthere
    rcases set_eq_some hx with ⟨heq, -⟩ | ⟨-, hx⟩
    · -- the file beside it was there before, so a directory was above it
      obtain ⟨rfl, -⟩ := List.append_inj' heq rfl
      rw [h.kept_next hn (List.prefix_refl _)] at hfile
      have hdir := hl.above p [n] (by simp) (by simp [hfile])
      rw [hwas] at hdir
      cases hdir
    · rw [hnone] at hx
      cases hx
  · refine (set_outside (fun hp => ?_) _).trans (h.kept_next hn hm)
    have hsame := List.prefix_of_prefix_length_le hp hm (by simp)
    exact hkn (entry_below (List.prefix_refl done) hsame).2
  · rcases set_eq_some hx with ⟨rfl, -⟩ | ⟨-, hx⟩
    · exact Or.inr (Or.inl rfl)
    · exact (h.new_off hm hx).imp_right Or.inr
  · intro s hs
    obtain rfl := Option.mem_some_iff.mp hs
    exact ⟨⟨i, by rw [hk]⟩, h.free_before hl hfree, set_self ..,
      fun j => set_below (List.prefix_append _ [j]) (by simp) _⟩

end Staged

/-- A repair that stopped has halted at one ancestor. -/
theorem Stopped.halted {fits : Location → Prop} (hl : v.Linkless)
    (hpay : payload ∉ parts) {ancestor : Location}
    (h : Stopped fits payload v [] parts ancestor w) :
    ∃ done n left, ancestor = done ++ [n]
      ∧ Halted payload parts done n left v w := by
  obtain ⟨done, n, later, u, rfl, rfl, hchain, hleft⟩ := h
  have hn : n ≠ payload := fun heq => hpay (by simp [heq])
  have hway : done ++ [n] <+: done ++ n :: later := ⟨later, by simp⟩
  rw [List.nil_append] at hleft
  cases hleft with
  | same =>
      exact ⟨done, n, none, rfl, hway, hchain.repaired hl,
        fun _ hm => hchain.kept_next hn hm, hchain.spared hl,
        fun _ hs => by cases hs⟩
  | staging i hapart hbeside hfree =>
      obtain ⟨c, t, hfile⟩ := hbeside
      exact ⟨done, n, _, rfl,
        hchain.halted_staged hl hfree hn hway rfl hapart hfile⟩

/-- A repair that has halted took no directory away. -/
theorem Halted.keeps (h : Halted payload parts done n left v w) {m : Location}
    (hm : v m = some .directory) : w m = some .directory := by
  by_cases hp : m <+: done
  · exact h.above.made m hp
  · exact h.spared.kept m _ hp hm

end View

-- ================================================================ the disk

namespace Footing

variable {s : Footing} {v : View} {before : Host} {h : Host} {root : Path}
  {l : Location} {cs : List (String × Entry)}

/-- A host with a directory without links bears it on a footing. -/
theorem exists_bears (hroot : h.disk.find true root = .ok (l, .directory cs))
    (hlinks : ∀ m t, (Entry.directory cs).view m ≠ some (.link t)) :
    ∃ s : Footing, s.path = root ∧ s.location = l
      ∧ (∀ m, s.holding m = h.disk.put l m)
      ∧ s.Open (Entry.directory cs).view
      ∧ s.Bears h (Entry.directory cs).view h := by
  obtain ⟨s, hpath, hloc, hholding, hopen⟩ := exists_of_find hroot hlinks
  obtain ⟨-, -, -, hget⟩ := Disk.find_eq_ok.mp hroot
  refine ⟨s, hpath, hloc, hholding, hopen, ⟨⟨_, ?_, rfl⟩,
    Entry.linkless_view rfl hlinks, .refl _, rfl⟩⟩
  rw [hholding, Disk.put, Entry.insert_get? hget]

/-- What is borne is a directory. -/
theorem Bears.directory (hs : s.Bears before v h) :
    ∃ cs, (Entry.directory cs).view = v
      ∧ h.disk = s.holding (.directory cs) := by
  obtain ⟨m, hdisk, rfl⟩ := hs.tree
  obtain ⟨cs, hcs⟩ := Entry.view_eq_directory.mp hs.linkless.base
  rw [Entry.get?_nil, Option.some.injEq] at hcs
  subst hcs
  exact ⟨cs, rfl, hdisk⟩

end Footing

namespace Repair

variable {target root : Path} {payload : String} {h : Host} {l : Location}
  {cs : List (String × Entry)}

/-- The disk is that of `h` with another directory at the root, which is
still found there. -/
structure Rebuilt (root : Path) (l : Location) (h : Host)
    (cs : List (String × Entry)) (h' : Host) : Prop where
  disk : h'.disk = h.disk.put l (.directory cs)
  found : h'.disk.find true root = .ok (l, .directory cs)

/-- Below the root all is as in the new directory. -/
theorem Rebuilt.view {h' : Host} (hr : Rebuilt root l h cs h')
    (m : Location) :
    h'.disk.root.view (l ++ m) = (Entry.directory cs).view m := by
  obtain ⟨-, -, -, hget⟩ := Disk.find_eq_ok.mp hr.found
  rw [Entry.view_append hget]

/-- How the repair of the way to `target` may end, where the root is the
directory with the entries `cs` at the location `l`. -/
inductive Ends (target root : Path) (payload : String) (h : Host)
    (l : Location) (cs : List (String × Entry)) :
    EStateM.Result Failure Host Unit → Prop
  | made {parts : Location} {cs' : List (String × Entry)} {h' : Host}
      (inside : target = root.descend parts)
      (rebuilt : Rebuilt root l h cs' h')
      (repaired : View.Repaired payload parts (Entry.directory cs).view
        (Entry.directory cs').view)
      (spared : View.Spared payload parts none (Entry.directory cs).view
        (Entry.directory cs').view) :
      Ends target root payload h l cs (.ok () h')
  | blocked {parts done : Location} {n : String} {left : Option Location}
      {e : SystemError} {cs' : List (String × Entry)} {h' : Host}
      (inside : target = root.descend parts)
      (rebuilt : Rebuilt root l h cs' h')
      (halted : View.Halted payload parts done n left
        (Entry.directory cs).view (Entry.directory cs').view) :
      Ends target root payload h l cs
        (.error (.unusable (.blocked (root.descend (done ++ [n])) e)) h')
  | outside (away : ∀ parts, target ≠ root.descend parts) :
      Ends target root payload h l cs
        (.error (.unusable (.outside target root)) h)

/-- A target that is not below the root is refused at once. -/
theorem ensureChain_outside (haway : ∀ parts, target ≠ root.descend parts)
    (payload : String) (h : Host) :
    ensureChain target root payload h
      = .error (.unusable (.outside target root)) h := by
  have hnone : target.relativeTo? root = none := by
    unfold Path.relativeTo?
    refine if_neg fun hp => ?_
    rw [Bool.and_eq_true, decide_eq_true_eq, List.isPrefixOf_iff_prefix] at hp
    obtain ⟨hanchor, parts, hparts⟩ := hp
    refine haway parts ?_
    rw [Path.descend, hparts, ← hanchor]
  have hne : target ≠ root := fun heq => haway [] (by simp [heq])
  unfold ensureChain
  rw [if_neg hne, hnone]
  rfl

/-- The repair of the way to a directory loses nothing, whether it ends
well or is stopped, and nothing stops it but a cause of its own. -/
theorem ensureChain_ends
    (hroot : h.disk.find true root = .ok (l, .directory cs))
    (hlinks : ∀ m t, (Entry.directory cs).view m ≠ some (.link t))
    (hp : IsSegment payload)
    (htarget : ∀ parts, target = root.descend parts →
      AllSegments parts ∧ payload ∉ parts) :
    Ends target root payload h l cs (ensureChain target root payload h) := by
  by_cases hin : ∃ parts, target = root.descend parts
  · obtain ⟨parts, rfl⟩ := hin
    obtain ⟨hn, hpay⟩ := htarget parts rfl
    obtain ⟨s, rfl, rfl, hholding, hopen, hs⟩ :=
      Footing.exists_bears hroot hlinks
    have hrebuilt : ∀ {w : View} {h' : Host}, s.Bears h w h' →
        (∀ m, (Entry.directory cs).view m = some .directory →
          w m = some .directory) →
        ∃ cs', (Entry.directory cs').view = w
          ∧ Rebuilt s.path s.location h cs' h' := by
      intro w h' hw hkeeps
      obtain ⟨cs', rfl, hdisk⟩ := hw.directory
      refine ⟨cs', rfl, hdisk.trans (hholding _), ?_⟩
      rw [hdisk]
      exact Footing.find_self (hopen.mono hkeeps) hw.linkless.base
    have hl := hs.linkless
    have hchain := Footing.bears_ensureChain hopen hp hn hpay h hs
    cases hresult : ensureChain (s.path.descend parts) s.path payload h with
    | ok u h' =>
        rw [hresult] at hchain
        obtain ⟨w, hw, hmade⟩ := hchain
        obtain ⟨cs', rfl, hnew⟩ := hrebuilt hw fun _ hm => hmade.keeps hl hm
        exact .made rfl hnew (hmade.repaired hl) (hmade.spared hl)
    | error f h' =>
        rw [hresult] at hchain
        obtain ⟨w, hw, ancestor, e, rfl, hstopped⟩ := hchain
        obtain ⟨done, n, left, rfl, hhalted⟩ := hstopped.halted hl hpay
        obtain ⟨cs', rfl, hnew⟩ := hrebuilt hw fun _ hm => hhalted.keeps hm
        exact .blocked rfl hnew hhalted
  · have haway : ∀ parts, target ≠ root.descend parts :=
      fun parts heq => hin ⟨parts, heq⟩
    rw [ensureChain_outside haway]
    exact .outside haway

/-- The bytes of a file on the way are in the slot of the directory in its
place. -/
theorem ensureChain_ends_moved :
    let h : Host := { disk := ⟨.directory [("m", .directory
      [("a", .file [1] (.dated 5))])], []⟩ }
    ∃ h', ensureChain ⟨.here, ["m", "a", "b"]⟩ ⟨.here, ["m"]⟩ "data" h
        = .ok () h'
      ∧ h'.disk.root.view ["m", "a", "data"] = some (.file [1] (.dated 5)) := by
  intro h
  have hparts : ∀ parts, (⟨.here, ["m", "a", "b"]⟩ : Path)
      = (⟨.here, ["m"]⟩ : Path).descend parts → parts = ["a", "b"] :=
    fun parts heq => by simpa [Path.descend] using heq.symm
  have hends : Ends ⟨.here, ["m", "a", "b"]⟩ ⟨.here, ["m"]⟩ "data" h ["m"]
      [("a", .file [1] (.dated 5))] _ :=
    ensureChain_ends rfl (Entry.noLinks_of_linkFree rfl) (by decide)
      fun parts heq => by
        rw [hparts parts heq]
        exact ⟨by unfold AllSegments; decide, by decide⟩
  have hwell : Work.endsWell (fun _ => true)
      (ensureChain ⟨.here, ["m", "a", "b"]⟩ ⟨.here, ["m"]⟩ "data" h)
      = true := by decide +kernel
  revert hwell
  generalize ensureChain ⟨.here, ["m", "a", "b"]⟩ ⟨.here, ["m"]⟩ "data" h
    = result at hends ⊢
  intro hwell
  cases hends with
  | @made parts cs' h' inside rebuilt repaired spared =>
      obtain rfl := hparts parts inside
      refine ⟨h', rfl, (rebuilt.view ["a", "data"]).trans ?_⟩
      exact repaired.moved ["a"] [1] (.dated 5) ⟨["b"], rfl⟩ rfl (by decide)
  | blocked inside rebuilt halted => cases hwell
  | outside away => cases hwell

/-- The payload name has to be one that can be passed to the system: with
another one the repair fails in another way, and the file stays in the
staging directory. -/
theorem ensureChain_null_payload :
    let h : Host := { disk := ⟨.directory [("m", .directory
      [("a", .file [1] (.dated 5))])], []⟩ }
    h.disk.find true ⟨.here, ["m"]⟩
        = .ok (["m"], .directory [("a", .file [1] (.dated 5))])
      ∧ IsName "p\x00q" ∧ AllSegments ["a"]
      ∧ ∃ h', ensureChain ⟨.here, ["m", "a"]⟩ ⟨.here, ["m"]⟩ "p\x00q" h
          = .error (.disk (.argument .nullCharacter)) h'
        ∧ h'.disk.root.view ["m", "a"] = some .directory
        ∧ h'.disk.root.view ["m", Disk.stagingName 0, "a"]
          = some (.file [1] (.dated 5)) := by
  intro h
  refine ⟨rfl, by decide, by unfold AllSegments; decide, ?_⟩
  have hstops : (match ensureChain ⟨.here, ["m", "a"]⟩ ⟨.here, ["m"]⟩
      "p\x00q" h with
    | .error f h' => decide (f = .disk (.argument .nullCharacter)
      ∧ h'.disk.root.view ["m", "a"] = some .directory
      ∧ h'.disk.root.view ["m", Disk.stagingName 0, "a"]
        = some (.file [1] (.dated 5)))
    | .ok _ _ => false) = true := by decide +kernel
  split at hstops
  · next f h' hresult =>
      obtain ⟨rfl, hplace, hstaged⟩ := of_decide_eq_true hstops
      exact ⟨h', hresult, hplace, hstaged⟩
  · cases hstops

end Repair

end TreeReplica
