/-
The grammar of remote paths. The check asks five questions about a path
in a fixed order; the paths that pass are the root's and those of one
segment or more, each behind a slash, and what does not pass is told a
defect that it has (`grammar_agrees`).

A path below a base is the base with segments behind it. If both pass,
the segments are names, so of all reasons not to keep a path only the
payload name is left.
-/
import TreeReplica.Proofs.Remote.Below

namespace TreeReplica.Remote

variable {path base : String} {l : Location}

-- ============================================================= the grammar

/-- The code points that no remote path has, as ranges. -/
def barredRanges : List (Nat × Nat) :=
  [(0x00, 0x1f), (0x7f, 0x9f), (0xd800, 0xf8ff), (0xfff0, 0xffff)]

/-- The character is in none of the barred ranges. -/
def IsClear (c : Char) : Prop :=
  ∀ range ∈ barredRanges, ¬ (range.1 ≤ c.toNat ∧ c.toNat ≤ range.2)

instance (c : Char) : Decidable (IsClear c) :=
  inferInstanceAs (Decidable (∀ range ∈ barredRanges, _))

/-- A segment of a remote path: a name of clear characters. -/
structure IsPathSegment (s : String) : Prop extends IsName s where
  clear : ∀ c ∈ s.toList, IsClear c

/-- The remote paths: the root's, and segments, each behind a slash. -/
inductive IsRemotePath : String → Prop
  | root : IsRemotePath "/"
  | below {l : Location} (some : l ≠ []) (segments : ∀ s ∈ l, IsPathSegment s) :
      IsRemotePath (String.join (l.map ("/" ++ ·)))

/-- What is wrong with a path, and how it is told. -/
inductive Defect (path : String) : Rejection → Prop
  | empty (nothing : path = "") : Defect path .empty
  | unrooted (head : path.toList.head? ≠ some '/') :
      Defect path (.unrooted path)
  | endsInSlash (more : path ≠ "/")
      (last : path.toList.getLast? = some '/') :
      Defect path (.endsInSlash path)
  | badSegment {s : String} (more : path ≠ "/")
      (mem : s ∈ (segments path).tail)
      (bad : s = "" ∨ s = "." ∨ s = "..") :
      Defect path (.badSegment s path)
  | badCharacter {c : Char} (mem : c ∈ path.toList) (bad : ¬ IsClear c) :
      Defect path (.badCharacter c path)

-- =============================================================== the check

theorem isForbidden_eq_false {c : Char} :
    isForbidden c = false ↔ IsClear c := by
  simp [isForbidden, IsClear, barredRanges]
  omega

theorem isClear_slash : IsClear '/' := by decide

theorem isImproper_eq_true {s : String} :
    isImproper s = true ↔ s = "" ∨ s = "." ∨ s = ".." := by
  simp [isImproper, or_assoc]

/-- A path passes and is returned as it is, with clear characters only, or
it has the defect that is told. -/
theorem validate_cases (path : String) :
    (validate path = .ok path ∧ ∀ c ∈ path.toList, IsClear c)
      ∨ ∃ r, validate path = .error r ∧ Defect path r := by
  unfold validate
  cases hcs : path.toList with
  | nil => exact Or.inr ⟨_, rfl, .empty (String.toList_eq_nil_iff.mp hcs)⟩
  | cons first rest =>
      simp only
      by_cases hfirst : first = '/'
      case neg =>
        rw [if_pos hfirst]
        exact Or.inr ⟨_, rfl, .unrooted (by simp [hcs, hfirst])⟩
      subst hfirst
      rw [if_neg (by simp)]
      by_cases hroot : rest = []
      · subst hroot
        exact Or.inl ⟨by simp, by simpa using isClear_slash⟩
      have hmore : path ≠ "/" := by
        rintro rfl
        exact hroot (List.cons.inj hcs).2.symm
      rw [if_neg (by simpa using hroot)]
      by_cases hlast : rest.getLast? = some '/'
      · rw [if_pos hlast]
        refine Or.inr ⟨_, rfl, .endsInSlash hmore ?_⟩
        rwa [hcs, List.getLast?_cons_of_ne_nil hroot]
      rw [if_neg hlast]
      cases hbad : List.find? isImproper
          ((splitSlashes rest).map String.ofList) with
      | some s =>
          refine Or.inr ⟨_, rfl, .badSegment hmore ?_
            (isImproper_eq_true.mp (List.find?_some hbad))⟩
          have hsegments : segments path
              = "" :: (splitSlashes rest).map String.ofList := by
            simp [segments, hcs, splitSlashes]
          rw [hsegments, List.tail_cons]
          exact List.mem_of_find?_eq_some hbad
      | none =>
          cases hchar : List.find? isForbidden ('/' :: rest) with
          | some c =>
              refine Or.inr ⟨_, rfl, .badCharacter ?_ ?_⟩
              · rw [hcs]
                exact List.mem_of_find?_eq_some hchar
              · rw [← isForbidden_eq_false, List.find?_some hchar]
                exact Bool.noConfusion
          | none =>
              refine Or.inl ⟨rfl, fun c hc => isForbidden_eq_false.mp ?_⟩
              simpa using List.find?_eq_none.mp hchar c hc

/-- A path that passes is in the grammar. -/
theorem isRemotePath_of_validate (h : validate path = .ok path) :
    IsRemotePath path := by
  obtain ⟨l, hl, rfl, -⟩ := exists_of_validate h
  obtain ⟨-, hclear⟩ | ⟨r, hr, -⟩ := validate_cases (pathOf l)
  · by_cases hnil : l = []
    · subst hnil
      exact .root
    · rw [pathOf_eq_join hnil] at hclear ⊢
      refine .below hnil fun s hs => ⟨hl s hs, fun c hc => hclear c ?_⟩
      simp only [String.toList_join, List.mem_flatMap, List.mem_map]
      exact ⟨"/" ++ s, ⟨s, hs, rfl⟩, by simp [hc]⟩
  · exact nomatch h.symm.trans hr

/-- The segments behind slashes can be read off. -/
theorem segments_join_empty (h : ∀ s ∈ l, IsPathSegment s) :
    segments (String.join (l.map ("/" ++ ·))) = "" :: l := by
  have hjoin := segments_join "" fun k hk => (h k hk).noSlash
  rwa [String.empty_append] at hjoin

theorem IsRemotePath.clear (h : IsRemotePath path) :
    ∀ c ∈ path.toList, IsClear c := by
  cases h with
  | root => simpa using isClear_slash
  | below _ names =>
      intro c hc
      simp only [String.toList_join, List.mem_flatMap, List.mem_map] at hc
      obtain ⟨-, ⟨s, hs, rfl⟩, hc⟩ := hc
      rw [String.toList_append, List.mem_append] at hc
      rcases hc with hslash | hc
      · obtain rfl := List.mem_singleton.mp hslash
        exact isClear_slash
      · exact (names s hs).clear c hc

/-- A slash at the end of a text leaves an empty segment behind it. -/
theorem segments_of_endsInSlash (h : path.toList.getLast? = some '/') :
    (segments path).getLast? = some "" := by
  obtain ⟨cs, hcs⟩ := List.getLast?_eq_some_iff.mp h
  rw [segments, hcs, splitSlashes_append_slash]
  simp [splitSlashes]

/-- A path of the grammar has no defect. -/
theorem IsRemotePath.not_defect {r : Rejection} (h : IsRemotePath path) :
    ¬ Defect path r := by
  intro hdefect
  have hclear := h.clear
  cases h with
  | root =>
      cases hdefect with
      | empty nothing => exact absurd nothing (by decide)
      | unrooted head => exact head rfl
      | endsInSlash more => exact more rfl
      | badSegment more => exact more rfl
      | badCharacter mem bad => exact bad (hclear _ mem)
  | @below l some names =>
      have hsegments := segments_join_empty names
      cases hdefect with
      | empty nothing =>
          rw [nothing] at hsegments
          exact some (List.cons.inj hsegments).2.symm
      | unrooted head =>
          cases l with
          | nil => exact some rfl
          | cons s l => simp [String.join_cons] at head
      | endsInSlash _ last =>
          have hlast := segments_of_endsInSlash last
          rw [hsegments, List.getLast?_cons_of_ne_nil some] at hlast
          exact (names "" (List.mem_of_getLast? hlast)).nonempty rfl
      | badSegment _ mem bad =>
          rw [hsegments, List.tail_cons] at mem
          have hname := names _ mem
          rcases bad with rfl | rfl | rfl
          · exact hname.nonempty rfl
          · exact hname.notDot rfl
          · exact hname.notUp rfl
      | badCharacter mem bad => exact bad (hclear _ mem)

/-- The check accepts the paths of the grammar. -/
theorem validate_iff : validate path = .ok path ↔ IsRemotePath path := by
  refine ⟨isRemotePath_of_validate, fun h => ?_⟩
  obtain ⟨hok, -⟩ | ⟨r, -, hdefect⟩ := validate_cases path
  · exact hok
  · exact absurd hdefect h.not_defect

-- ============================================================== the mapping

/-- Steps that lead from one path that passes to another are names. -/
theorem allNames_of_validate (hbase : validate base = .ok base)
    (hpath : validate (pathBelow base l) = .ok (pathBelow base l))
    (hl : ∀ k ∈ l, IsStep k) : AllNames l := by
  obtain ⟨b, hb, rfl, -⟩ := exists_of_validate hbase
  obtain ⟨m, hm, heq, -⟩ := exists_of_validate hpath
  have hroot : ∀ l, pathOf l = pathBelow "/" l := fun l =>
    (pathBelow_pathOf allNames_nil l).symm
  rw [pathBelow_pathOf hb, hroot, hroot] at heq
  have hsame := pathBelow_inj "/" (fun k hk => ?steps)
    (fun k hk => .of_name (hm k hk)) heq
  case steps =>
    rcases List.mem_append.mp hk with hk | hk
    · exact .of_name (hb k hk)
    · exact hl k hk
  rw [← hsame] at hm
  exact (allNames_append.mp hm).2

/-- The check accepts just the paths of the grammar, and tells others a
defect that they have. Between two paths that it accepts, of which one is
the other or leads below it, only the payload name can be in the way of
the mapping. -/
theorem grammar_agrees :
    (∀ path, (validate path = .ok path ↔ IsRemotePath path)
      ∧ (¬ IsRemotePath path →
        ∃ r, validate path = .error r ∧ Defect path r))
    ∧ ∀ base path l root payload, validate base = .ok base →
      validate path = .ok path → (∀ k ∈ l, IsStep k) →
      path = pathBelow base l →
      toLocal path root base payload
        = if payload ∈ l then .error (.reserved path payload)
          else .ok (root.descend l) := by
  refine ⟨fun path => ⟨validate_iff, fun hno => ?_⟩, ?_⟩
  · obtain ⟨hok, -⟩ | hdefect := validate_cases path
    · exact absurd (validate_iff.mp hok) hno
    · exact hdefect
  · rintro base path l root payload hbase hpath hl rfl
    have hnames := allNames_of_validate hbase hpath hl
    obtain ⟨b, hb, rfl, -⟩ := exists_of_validate hbase
    rw [pathBelow_pathOf hb]
    by_cases hnil : l = []
    · subst hnil
      simp [toLocal, toList_pathOf]
    · exact toLocal_pathOf hb hnames hnil root

/-- A segment in front of a private character does not pass; below `/a`
the path `/a/b` is kept, unless `b` is the payload name. -/
theorem grammar_agrees_private :
    (∃ r, validate "/a\ue000" = .error r ∧ Defect "/a\ue000" r)
      ∧ validate "/a" = .ok "/a" ∧ validate "/a/b" = .ok "/a/b"
      ∧ toLocal "/a/b" ⟨.here, ["m"]⟩ "/a" "zookeeper"
        = .ok ⟨.here, ["m", "b"]⟩
      ∧ toLocal "/a/b" ⟨.here, ["m"]⟩ "/a" "b"
        = .error (.reserved "/a/b" "b") := by
  obtain ⟨hcheck, hmap⟩ := grammar_agrees
  have hbase : validate "/a" = .ok "/a" := by rfl
  have hpath : validate "/a/b" = .ok "/a/b" := by rfl
  have hprivate : ¬ IsRemotePath "/a\ue000" :=
    fun h => absurd (h.clear '\ue000' (by decide)) (by decide)
  have hbelow : "/a/b" = pathBelow "/a" ["b"] := by decide +kernel
  have hstep : ∀ k ∈ ["b"], IsStep k := by decide
  exact ⟨(hcheck _).2 hprivate, hbase, hpath,
    hmap _ _ _ _ "zookeeper" hbase hpath hstep hbelow,
    hmap _ _ _ _ "b" hbase hpath hstep hbelow⟩

end TreeReplica.Remote
