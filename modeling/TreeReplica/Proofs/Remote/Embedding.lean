/-
The paths that are kept are an exact copy of a subtree of names. For a
base that passes the check a path is kept at the root if it is the base,
below the root if it continues the base by proper segments, and nowhere
otherwise (`toLocal_pathOf`, `toLocal_plain`). So a kept path can be read
off the place at which it is kept; `toLocal_embeds` collects what follows
from that.
-/
import TreeReplica.Proofs.Remote.Ancestor

namespace TreeReplica.Remote

variable {base payload path : String} {b l : Location} {root : Path}

-- ======================================================== written paths

/-- The path at which the segments of `l` lead on from `base`: each of
them behind a slash, where the root's own slash is not written twice. -/
def pathBelow (base : String) (l : Location) : String :=
  if l = [] then base
  else (if base = "/" then "" else base) ++ String.join (l.map ("/" ++ ·))

/-- The path without its last segment; above the first segments is the
root. -/
def parentPath (path : String) : String :=
  let above := "/".intercalate (segments path).dropLast
  if above = "" then "/" else above

/-- A path other than the root's is one slash and one name after the
other. -/
theorem pathOf_eq_join (hl : l ≠ []) :
    pathOf l = String.join (l.map ("/" ++ ·)) := by
  induction l with
  | nil => exact absurd rfl hl
  | cons n l ih =>
      cases l with
      | nil => simp [pathOf, String.join_cons]
      | cons m l =>
          rw [List.map_cons, String.join_cons, ← ih (by simp)]
          simp [pathOf, String.intercalate_cons_cons, String.append_assoc]

theorem pathOf_eq_slash (hb : AllNames b) : pathOf b = "/" ↔ b = [] := by
  constructor
  · exact fun h => pathOf_inj hb allNames_nil (h.trans (by simp [pathOf]))
  · intro heq
    simp [heq, pathOf]

/-- Below the base at `b` the path of `l` is that of the node at `b ++ l`. -/
theorem pathBelow_pathOf (hb : AllNames b) (l : Location) :
    pathBelow (pathOf b) l = pathOf (b ++ l) := by
  unfold pathBelow
  by_cases hl : l = []
  · rw [if_pos hl, hl, List.append_nil]
  rw [if_neg hl, ← pathOf_eq_join hl]
  by_cases hnil : b = []
  · rw [if_pos ((pathOf_eq_slash hb).mpr hnil), hnil]
    simp
  · rw [if_neg (mt (pathOf_eq_slash hb).mp hnil), pathOf_append hnil hl]

theorem parentPath_pathOf {n : String} (h : AllNames (l ++ [n])) :
    parentPath (pathOf (l ++ [n])) = pathOf l := by
  have hsegments : segments (pathOf (l ++ [n])) = "" :: (l ++ [n]) := by
    rw [segments, splitSlashes_pathOf h (by simp)]
    simp [Function.comp_def]
  have habove : "/".intercalate (segments (pathOf (l ++ [n]))).dropLast
      = if l = [] then "" else pathOf l := by
    rw [hsegments, ← List.cons_append, List.dropLast_concat]
    cases l with
    | nil => simp
    | cons m l => simp [pathOf, String.intercalate_cons_cons]
  unfold parentPath
  rw [habove]
  by_cases hl : l = []
  · simp [hl, pathOf]
  · have hsome : pathOf l ≠ "" := by
      intro heq
      have hchars := congrArg String.toList heq
      rw [toList_pathOf] at hchars
      cases hchars
    simp [hl, hsome]

-- ========================================================== the embedding

/-- What a path text that is kept says, and the other way round: how each
path fares is told by its text, and the text by the place. -/
structure Embedding (root : Path) (base payload : String) : Prop where
  /-- Only the base is kept at the root. -/
  root_iff : ∀ path, toLocal path root base payload = .ok root
    ↔ path = base
  /-- What continues the base by proper segments other than the payload
  name, and only that, is kept below the root, under these segments. -/
  below_iff : ∀ path l, l ≠ [] →
    (toLocal path root base payload = .ok (root.descend l)
      ↔ path = pathBelow base l ∧ AllNames l ∧ payload ∉ l)
  /-- What continues the base so, but with the payload name, is reserved. -/
  reserved_iff : ∀ path, (∃ r, toLocal path root base payload = .error r
      ∧ r.isReserved = true)
    ↔ ∃ l, l ≠ [] ∧ path = pathBelow base l ∧ AllNames l ∧ payload ∈ l
  /-- All else is rejected for what it is. -/
  astray_iff : ∀ path, (∃ r, toLocal path root base payload = .error r
      ∧ r.isReserved = false)
    ↔ path ≠ base ∧ ∀ l, l ≠ [] → AllNames l → path ≠ pathBelow base l
  /-- The segments below the root, joined to the base, give the path
  back. -/
  rejoins : ∀ path p, toLocal path root base payload = .ok p →
    ∃ l, p.relativeTo? root = some l ∧ pathBelow base l = path
  injective : ∀ path path' p, toLocal path root base payload = .ok p →
    toLocal path' root base payload = .ok p → path = path'
  /-- Above a kept path is what is kept above it. -/
  parent : ∀ path p, path ≠ base → toLocal path root base payload = .ok p →
    toLocal (parentPath path) root base payload = .ok p.parent
  /-- A path that only starts with the same characters is not below the
  base. -/
  sibling : ∀ more : String, base ≠ "/" → more ≠ "" →
    more.toList.head? ≠ some '/' →
    ∃ r, toLocal (base ++ more) root base payload = .error r
      ∧ r.isReserved = false
  /-- Nothing is kept in or below the slot of a kept path. -/
  slot : IsName payload → ∀ path path' p p',
    toLocal path root base payload = .ok p →
    toLocal path' root base payload = .ok p' →
    p'.relativeTo? (payloadSlot p payload) = none

/-- A path that is kept continues the base, and its place does so below
the root. -/
theorem exists_place {p : Path} (hb : AllNames b)
    (h : toLocal path root (pathOf b) payload = .ok p) :
    ∃ l, p = root.descend l ∧ path = pathOf (b ++ l) ∧ AllNames l
      ∧ payload ∉ l := by
  have hfares := toLocal_fares hb payload path root
  rw [h] at hfares
  cases hfares with
  | base same =>
      exact ⟨[], by simp, by simpa using same, allNames_nil, by simp⟩
  | kept _ names free continues => exact ⟨_, rfl, continues, names, free⟩

/-- A path continues a base in one way. -/
theorem pathOf_append_inj {m : Location} (hb : AllNames b)
    (hl : AllNames l) (hm : AllNames m)
    (h : pathOf (b ++ l) = pathOf (b ++ m)) : l = m :=
  List.append_cancel_left (pathOf_inj (allNames_append.mpr ⟨hb, hl⟩)
    (allNames_append.mpr ⟨hb, hm⟩) h)

/-- What continues the base is not the base. -/
theorem pathOf_append_ne (hb : AllNames b) (hl : AllNames l)
    (hne : l ≠ []) : pathOf (b ++ l) ≠ pathOf b := fun h =>
  hne (pathOf_append_inj hb hl allNames_nil (by rwa [List.append_nil]))

/-- Which path is kept at a place. -/
theorem toLocal_eq_descend (hb : AllNames b) :
    toLocal path root (pathOf b) payload = .ok (root.descend l)
      ↔ path = pathOf (b ++ l) ∧ AllNames l ∧ payload ∉ l := by
  constructor
  · intro h
    obtain ⟨m, hm, hpath⟩ := exists_place hb h
    obtain rfl : l = m := List.append_cancel_left (congrArg Path.parts hm)
    exact hpath
  · intro hmid
    obtain ⟨rfl, hl, hpay⟩ := hmid
    exact toLocal_of_place (place?_append hb hl hpay) root

/-- Which paths use the payload name. -/
theorem toLocal_reserved (hb : AllNames b) :
    (∃ r, toLocal path root (pathOf b) payload = .error r
      ∧ r.isReserved = true)
    ↔ ∃ l, l ≠ [] ∧ path = pathOf (b ++ l) ∧ AllNames l ∧ payload ∈ l := by
  constructor
  · intro hmid
    obtain ⟨r, hr, hreserved⟩ := hmid
    have hfares := toLocal_fares hb payload path root
    rw [hr] at hfares
    cases hfares with
    | reserved some names used continues =>
        exact ⟨_, some, continues, names, used⟩
    | astray _ _ plain => exact absurd hreserved (by simp [plain])
  · intro hmid
    obtain ⟨l, hne, rfl, hl, hused⟩ := hmid
    exact ⟨_, (toLocal_pathOf hb hl hne root).trans (if_pos hused), rfl⟩

/-- Which paths are astray. -/
theorem toLocal_plain (hb : AllNames b) :
    (∃ r, toLocal path root (pathOf b) payload = .error r
      ∧ r.isReserved = false)
    ↔ path ≠ pathOf b
      ∧ ∀ l, l ≠ [] → AllNames l → path ≠ pathOf (b ++ l) := by
  constructor
  · intro hmid
    obtain ⟨r, hr, hplain⟩ := hmid
    have hfares := toLocal_fares hb payload path root
    rw [hr] at hfares
    cases hfares with
    | reserved => cases hplain
    | astray other astray _ => exact ⟨other, astray⟩
  · intro hmid
    obtain ⟨hbase, hno⟩ := hmid
    exact toLocal_astray hb hbase hno root

/-- What follows the path of names in the path of more names starts with
a slash. -/
theorem head_of_continues {more : String} (hnil : b ≠ []) (hne : l ≠ [])
    (h : pathOf b ++ more = pathOf (b ++ l)) :
    more.toList.head? = some '/' := by
  rw [pathOf_append hnil hne] at h
  have hmore : more.toList = (pathOf l).toList := by
    have hchars := congrArg String.toList h
    rw [String.toList_append, String.toList_append] at hchars
    exact List.append_cancel_left hchars
  rw [hmore, toList_pathOf]
  rfl

/-- With a base that passes the check the map from remote paths to local
ones is an exact copy. -/
theorem toLocal_embeds (hbase : validate base = .ok base) (root : Path)
    (payload : String) : Embedding root base payload := by
  obtain ⟨b, hb, rfl, -⟩ := exists_of_validate hbase
  refine
    { root_iff := fun path => ?root
      below_iff := fun path l _ => ?below
      reserved_iff := fun path => ?reserved
      astray_iff := fun path => ?astray
      rejoins := fun path p h => ?rejoins
      injective := fun path path' p h h' => ?injective
      parent := fun path p hother h => ?parent
      sibling := fun more hslash hsome hhead => ?sibling
      slot := fun hp path path' p p' h h' => ?slot }
  case root =>
    have hroot : toLocal path root (pathOf b) payload = .ok (root.descend [])
        ↔ path = pathOf (b ++ []) ∧ AllNames [] ∧ payload ∉ [] :=
      toLocal_eq_descend hb
    simpa [allNames_nil] using hroot
  case below =>
    rw [pathBelow_pathOf hb]
    exact toLocal_eq_descend hb
  case reserved =>
    simp only [pathBelow_pathOf hb]
    exact toLocal_reserved hb
  case astray =>
    simp only [pathBelow_pathOf hb]
    exact toLocal_plain hb
  case rejoins =>
    obtain ⟨l, rfl, rfl, -⟩ := exists_place hb h
    exact ⟨l, by simp, pathBelow_pathOf hb l⟩
  case injective =>
    obtain ⟨l, rfl, rfl, -⟩ := exists_place hb h
    exact ((toLocal_eq_descend hb).mp h').1.symm
  case parent =>
    obtain ⟨l, rfl, rfl, hl, hpay⟩ := exists_place hb h
    have hne : l ≠ [] := by
      rintro rfl
      exact hother (by rw [List.append_nil])
    obtain ⟨a, n, rfl⟩ := (List.eq_nil_or_concat l).resolve_left hne
    rw [List.concat_eq_append] at *
    have hup : parentPath (pathOf (b ++ (a ++ [n]))) = pathOf (b ++ a) := by
      rw [← List.append_assoc]
      refine parentPath_pathOf ?_
      rw [List.append_assoc]
      exact allNames_append.mpr ⟨hb, hl⟩
    rw [hup, Path.parent_descend]
    exact (toLocal_eq_descend hb).mpr ⟨rfl, (allNames_append.mp hl).1,
      fun hmem => hpay (List.mem_append_left _ hmem)⟩
  case sibling =>
    have hnil : b ≠ [] := mt (pathOf_eq_slash hb).mpr hslash
    refine (toLocal_plain hb).mpr ⟨fun heq => hsome ?_,
      fun l hne _ heq => hhead (head_of_continues hnil hne heq)⟩
    have hchars := congrArg String.toList heq
    rw [String.toList_append] at hchars
    exact String.toList_eq_nil_iff.mp (List.append_right_eq_self.mp hchars)
  case slot =>
    obtain ⟨l, rfl, -, -, -⟩ := exists_place hb h
    obtain ⟨m, rfl, -, -, hpay⟩ := exists_place hb h'
    rw [payloadSlot_descend hp]
    have hno : ¬ (root.descend (l ++ [payload])).parts
        <+: (root.descend m).parts := by
      intro hpre
      rw [Path.descend, Path.descend, List.prefix_append_right_inj] at hpre
      exact hpay (hpre.subset (by simp))
    simp [Path.relativeTo?, hno]

/-- Below `/a` the path `/ab` is astray although it starts with the base's
characters; `/a/b/c` is kept, and so is `/a/b` above it. -/
theorem toLocal_embeds_sibling :
    let root : Path := ⟨.here, ["m"]⟩
    validate "/a" = .ok "/a"
      ∧ (∃ r, toLocal "/ab" root "/a" "zookeeper" = .error r
        ∧ r.isReserved = false)
      ∧ toLocal "/a/b/c" root "/a" "zookeeper"
        = .ok ⟨.here, ["m", "b", "c"]⟩
      ∧ toLocal (parentPath "/a/b/c") root "/a" "zookeeper"
        = .ok ⟨.here, ["m", "b"]⟩ := by
  intro root
  have hbase : validate "/a" = .ok "/a" := rfl
  have hembeds := toLocal_embeds hbase root "zookeeper"
  have hnames : AllNames ["b", "c"] := by decide
  have hkept := (hembeds.below_iff "/a/b/c" ["b", "c"] (by simp)).mpr
    ⟨by decide +kernel, hnames, by simp⟩
  exact ⟨hbase,
    hembeds.sibling "b" (by decide) (by decide) (by decide +kernel),
    hkept, hembeds.parent _ _ (by decide) hkept⟩

end TreeReplica.Remote
