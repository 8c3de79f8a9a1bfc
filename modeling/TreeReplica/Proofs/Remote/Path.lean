/-
Remote paths as locations. `pathOf` writes a location as the path of a
node, and every path that passes the check is written so. Below a base
that passes the check a path is kept if it continues the base by proper
segments, and `Fares` lists what becomes of every path (`toLocal_fares`).
`place?` is the location below the root of a replica at which a remote
path is kept, the same for every root; it takes the base's own location
off the front (`place?_eq_some`).
-/
import TreeReplica.Proofs.Disk.Name
import TreeReplica.Remote.Snapshot
import TreeReplica.Remote.Path

namespace TreeReplica.Remote

-- ========================================================== path texts

/-- The path of the node at a location of the remote tree. -/
def pathOf (l : Location) : String := "/" ++ "/".intercalate l

theorem pathOf_eq_text (l : Location) : pathOf l = Path.text ⟨.top, l⟩ := by
  simp [pathOf, Path.text, Anchor.text]

theorem toList_pathOf (l : Location) :
    (pathOf l).toList = '/' :: ['/'].intercalate (l.map String.toList) := by
  simp [pathOf, String.toList_append, String.toList_intercalate]

theorem hasNull_pathOf (l : Location) :
    Disk.hasNull (pathOf l) = l.any Disk.hasNull := by
  rw [pathOf_eq_text, Disk.hasNull_text]

/-- The names of a location, joined, are nothing only if there are none. -/
private theorem intercalate_ne_nil {l : Location} (hl : l ≠ [])
    (h : AllNames l) : ['/'].intercalate (l.map String.toList) ≠ [] := by
  intro hnil
  have hsplit := splitSlashes_intercalate hl fun n hn => (h n hn).noSlash
  rw [hnil] at hsplit
  cases l with
  | nil => exact hl rfl
  | cons n l =>
      have hn := (List.cons.inj hsplit).1
      refine (h n (List.mem_cons_self ..)).nonempty ?_
      exact String.toList_inj.mp hn.symm

/-- Locations of names differ in their paths. -/
theorem pathOf_inj {a b : Location} (ha : AllNames a) (hb : AllNames b)
    (h : pathOf a = pathOf b) : a = b := by
  have hchars := congrArg String.toList h
  rw [toList_pathOf, toList_pathOf] at hchars
  have hjoin := (List.cons.inj hchars).2
  by_cases hea : a = []
  · by_cases heb : b = []
    · rw [hea, heb]
    · subst hea
      exact absurd hjoin.symm (intercalate_ne_nil heb hb)
  · by_cases heb : b = []
    · subst heb
      exact absurd hjoin (intercalate_ne_nil hea ha)
    · have hsplit := splitSlashes_intercalate hea
        fun n hn => (ha n hn).noSlash
      rw [hjoin, splitSlashes_intercalate heb fun n hn => (hb n hn).noSlash]
        at hsplit
      have hinj : Function.Injective String.toList :=
        fun x y hxy => String.toList_inj.mp hxy
      exact ((List.map_inj_right hinj).mp hsplit).symm

/-- A piece that is not improper is a name. -/
theorem isName_of_proper {piece cs : List Char}
    (hp : piece ∈ splitSlashes cs)
    (h : isImproper (String.ofList piece) = false) :
    IsName (String.ofList piece) := by
  simp only [isImproper, Bool.or_eq_false_iff, decide_eq_false_iff_not] at h
  exact ⟨h.1.1, h.1.2, h.2,
    by simpa using slash_not_mem_splitSlashes hp⟩

theorem map_ofList_toList (pieces : List (List Char)) :
    (pieces.map String.ofList).map String.toList = pieces := by
  rw [List.map_map]
  exact (List.map_congr_left fun p _ => String.toList_ofList).trans
    (List.map_id _)

/-- A path that passes the check is the path of a location that can be
passed to the system. -/
theorem exists_of_validate {path p : String} (h : validate path = .ok p) :
    ∃ l, AllNames l ∧ path = pathOf l ∧ l.any Disk.hasNull = false := by
  unfold validate at h
  cases hcs : path.toList with
  | nil =>
      rw [hcs] at h
      cases h
  | cons first rest =>
      simp only [hcs] at h
      split at h
      · cases h
      next hfirst =>
      have hslash : first = '/' := Decidable.byContradiction hfirst
      split at h
      · next hrest =>
          refine ⟨[], allNames_nil, ?_, rfl⟩
          apply String.toList_inj.mp
          rw [hcs, toList_pathOf, List.isEmpty_iff.mp hrest, hslash]
          rfl
      split at h
      · cases h
      cases hbad : List.find? isImproper
          ((splitSlashes rest).map String.ofList) with
      | some segment =>
          simp only [hbad] at h
          cases h
      | none =>
          simp only [hbad] at h
          cases hchar : List.find? isForbidden (first :: rest) with
          | some c =>
              simp only [hchar] at h
              cases h
          | none =>
              have hpath : path
                  = pathOf ((splitSlashes rest).map String.ofList) := by
                apply String.toList_inj.mp
                rw [hcs, toList_pathOf, map_ofList_toList,
                  intercalate_splitSlashes, hslash]
              refine ⟨_, ?_, hpath, ?_⟩
              · intro n hn
                obtain ⟨piece, hpiece, rfl⟩ := List.mem_map.mp hn
                refine isName_of_proper hpiece ?_
                have hnone := List.find?_eq_none.mp hbad _ hn
                simpa using hnone
              · rw [← hasNull_pathOf, ← hpath, Disk.hasNull, hcs]
                have hall := List.find?_eq_none.mp hchar
                have hnull : isForbidden '\x00' = true := by decide
                simp only [List.contains_eq_mem, decide_eq_false_iff_not]
                exact fun hm => hall _ hm hnull

/-- A path continued by another. -/
theorem pathOf_append {a b : Location} (ha : a ≠ []) (hb : b ≠ []) :
    pathOf (a ++ b) = pathOf a ++ pathOf b := by
  rw [pathOf, String.intercalate_append_of_ne_nil ha hb, pathOf, pathOf]
  simp only [String.append_assoc]

-- ====================================================== slashes at the end

/-- A text that ends in no slash has none to be trimmed. -/
private theorem trimSlashes_append (cs : List Char) {t : List Char}
    (hne : t ≠ []) (ht : '/' ∉ t) : trimSlashes (cs ++ t) = cs ++ t := by
  rcases List.eq_nil_or_concat t with rfl | ⟨u, c, rfl⟩
  · exact absurd rfl hne
  · have hc : c ≠ '/' := by
      intro heq
      subst heq
      simp at ht
    unfold trimSlashes
    simp [List.concat_eq_append, hc]

/-- Only the root's path has a slash to be trimmed. -/
theorem trimSlashes_pathOf {l : Location} (h : AllNames l) :
    trimSlashes (pathOf l).toList
      = if l = [] then [] else (pathOf l).toList := by
  rcases List.eq_nil_or_concat l with rfl | ⟨a, n, rfl⟩
  · decide
  rw [List.concat_eq_append] at *
  have hn := h n (by simp)
  have hne : n.toList ≠ [] := fun hnil =>
    hn.nonempty (String.toList_inj.mp hnil)
  have hend : ∃ cs, (pathOf (a ++ [n])).toList = cs ++ n.toList := by
    by_cases ha : a = []
    · exact ⟨['/'], by simp [ha, toList_pathOf]⟩
    · refine ⟨(pathOf a).toList ++ ['/'], ?_⟩
      rw [pathOf_append ha (by simp), String.toList_append,
        toList_pathOf [n]]
      simp
  obtain ⟨cs, hcs⟩ := hend
  rw [if_neg (by simp), hcs, trimSlashes_append cs hne hn.noSlash]

/-- The path of a child. -/
theorem childPath_pathOf {l : Location} (h : AllNames l) (n : String) :
    childPath (pathOf l) n = pathOf (l ++ [n]) := by
  have htrim : withoutSlashes (pathOf l)
      = String.ofList (trimSlashes (pathOf l).toList) := rfl
  rw [childPath, htrim, trimSlashes_pathOf h]
  by_cases hl : l = []
  · simp [hl, pathOf]
  · rw [if_neg hl, String.ofList_toList, pathOf_append hl (by simp),
      String.append_assoc]
    simp [pathOf]

-- ========================================================= below a base

/-- What a base path is continued with, as characters. -/
theorem stem_append {b r : Location} (hb : AllNames b) (hr : r ≠ []) :
    stem (pathOf b) ++ ['/'].intercalate (r.map String.toList)
      = (pathOf (b ++ r)).toList := by
  unfold stem
  rw [trimSlashes_pathOf hb]
  by_cases hnil : b = []
  · subst hnil
    rw [if_pos rfl, List.nil_append, toList_pathOf]
    rfl
  · rw [if_neg hnil, pathOf_append hnil hr, String.toList_append,
      toList_pathOf r, List.append_assoc]
    rfl

variable {base payload path : String} {b l : Location}

/-- A path that continues the base by proper segments is kept under their
names, unless the payload name is among them. -/
theorem toLocal_pathOf (hb : AllNames b) (hl : AllNames l) (hne : l ≠ [])
    (root : Path) :
    toLocal (pathOf (b ++ l)) root (pathOf b) payload
      = if payload ∈ l then .error (.reserved (pathOf (b ++ l)) payload)
        else .ok (root.descend l) := by
  have hbase : pathOf (b ++ l) ≠ pathOf b := by
    intro he
    have happ := pathOf_inj (allNames_append.mpr ⟨hb, hl⟩) hb he
    exact hne (List.append_right_eq_self.mp happ)
  have hparts : ((splitSlashes ((pathOf (b ++ l)).toList.drop
      (stem (pathOf b)).length)).map String.ofList) = l := by
    rw [← stem_append hb hne, List.drop_left,
      splitSlashes_intercalate hne fun n hn => (hl n hn).noSlash]
    simp [Function.comp_def]
  have hproper : ¬ l.any isImproper = true := by
    simp only [List.any_eq_true, not_exists, not_and]
    intro n hn himp
    have h := hl n hn
    simp [isImproper, h.nonempty, h.notDot, h.notUp] at himp
  unfold toLocal
  rw [if_neg (by simp [toList_pathOf]), if_neg hbase,
    if_neg (by rw [← stem_append hb hne]; simp)]
  simp only [hparts]
  rw [if_neg hproper]
  simp

/-- A path that does not continue the base is not kept, whatever the
payload name is. -/
theorem toLocal_astray (hb : AllNames b) (hbase : path ≠ pathOf b)
    (hno : ∀ l, l ≠ [] → AllNames l → path ≠ pathOf (b ++ l))
    (root : Path) :
    ∃ r, toLocal path root (pathOf b) payload = .error r
      ∧ r.isReserved = false := by
  unfold toLocal
  split
  · exact ⟨_, rfl, rfl⟩
  split
  · exact ⟨_, rfl, rfl⟩
  next hpre =>
  simp only
  split
  · exact ⟨_, rfl, rfl⟩
  next himproper =>
  exfalso
  have hstem : stem (pathOf b) <+: path.toList := by simpa using hpre
  obtain ⟨below, hbelow⟩ := hstem
  rw [← hbelow, List.drop_left] at himproper
  refine hno ((splitSlashes below).map String.ofList)
    (by simpa using splitSlashes_ne_nil below) (fun n hn => ?_) ?_
  · obtain ⟨piece, hpiece, rfl⟩ := List.mem_map.mp hn
    refine isName_of_proper hpiece ?_
    simp only [List.any_eq_true, not_exists, not_and] at himproper
    simpa using himproper _ hn
  · apply String.toList_inj.mp
    rw [← hbelow, ← stem_append hb (by simpa using splitSlashes_ne_nil below),
      map_ofList_toList, intercalate_splitSlashes]

/-- What becomes of a path below the base at `b`: it is the base, or it
continues the base by proper segments, with or without the payload name
among them, or it is astray. -/
inductive Fares (b : Location) (payload path : String) (root : Path) :
    Except Rejection Path → Prop
  | base (same : path = pathOf b) : Fares b payload path root (.ok root)
  | kept {l : Location} (some : l ≠ []) (names : AllNames l)
      (free : payload ∉ l) (continues : path = pathOf (b ++ l)) :
      Fares b payload path root (.ok (root.descend l))
  | reserved {l : Location} (some : l ≠ []) (names : AllNames l)
      (used : payload ∈ l) (continues : path = pathOf (b ++ l)) :
      Fares b payload path root (.error (.reserved path payload))
  | astray {r : Rejection} (other : path ≠ pathOf b)
      (astray : ∀ l, l ≠ [] → AllNames l → path ≠ pathOf (b ++ l))
      (plain : r.isReserved = false) :
      Fares b payload path root (.error r)

theorem toLocal_fares (hb : AllNames b) (payload path : String)
    (root : Path) :
    Fares b payload path root (toLocal path root (pathOf b) payload) := by
  by_cases hbase : path = pathOf b
  · have hroot : toLocal path root (pathOf b) payload = .ok root := by
      simp [toLocal, hbase, toList_pathOf]
    rw [hroot]
    exact .base hbase
  by_cases hon : ∃ l, l ≠ [] ∧ AllNames l ∧ path = pathOf (b ++ l)
  · obtain ⟨l, hne, hl, rfl⟩ := hon
    rw [toLocal_pathOf hb hl hne]
    split
    · next hused => exact .reserved hne hl hused rfl
    · next hfree => exact .kept hne hl hfree rfl
  · have hno : ∀ l, l ≠ [] → AllNames l → path ≠ pathOf (b ++ l) :=
      fun l hne hl heq => hon ⟨l, hne, hl, heq⟩
    obtain ⟨r, hr, hplain⟩ : ∃ r, toLocal path root (pathOf b) payload
        = .error r ∧ r.isReserved = false := toLocal_astray hb hbase hno root
    rw [hr]
    exact .astray hbase hno hplain

-- ================================================================ places

/-- The location at which a remote path is kept below the root of a
replica, if it is kept. -/
def place? (base payload path : String) : Option Location :=
  match toLocal path ⟨.here, []⟩ base payload with
  | .ok p => some p.parts
  | .error _ => none

/-- A path is kept at its place below every root, or at none. -/
theorem toLocal_eq (root : Path) :
    toLocal path root base payload
      = (toLocal path ⟨.here, []⟩ base payload).map
          fun p => root.descend p.parts := by
  unfold toLocal
  split
  · rfl
  split
  · simp [Except.map]
  split
  · rfl
  simp only
  split
  · rfl
  split
  · rfl
  · simp [Except.map, Path.descend]

theorem toLocal_of_place (h : place? base payload path = some l)
    (root : Path) : toLocal path root base payload = .ok (root.descend l) := by
  unfold place? at h
  rw [toLocal_eq]
  cases hp : toLocal path ⟨.here, []⟩ base payload with
  | error r =>
      rw [hp] at h
      cases h
  | ok p =>
      rw [hp] at h
      cases h
      rfl

theorem toLocal_of_none (h : place? base payload path = none)
    (root : Path) : ∃ r, toLocal path root base payload = .error r := by
  unfold place? at h
  rw [toLocal_eq]
  cases hp : toLocal path ⟨.here, []⟩ base payload with
  | error r => exact ⟨r, rfl⟩
  | ok p =>
      rw [hp] at h
      cases h

/-- A place is that of the base, or of a path that continues the base with
the parts of the place. -/
theorem place?_cases (h : place? base payload path = some l) :
    (path = base ∧ l = [])
    ∨ ∃ below, path ≠ base ∧ path.toList = stem base ++ below
      ∧ l = (splitSlashes below).map String.ofList
      ∧ (∀ n ∈ l, isImproper n = false) ∧ payload ∉ l := by
  unfold place? toLocal at h
  split at h
  case h_2 => cases h
  case h_1 p hp =>
  cases h
  split at hp
  · cases hp
  split at hp
  · next heq =>
      cases hp
      exact Or.inl ⟨heq, rfl⟩
  next hne =>
  split at hp
  · cases hp
  next hpre =>
  simp only at hp
  split at hp
  · cases hp
  next himproper =>
  split at hp
  · cases hp
  next hreserved =>
  cases hp
  have hstem : stem base <+: path.toList := by simpa using hpre
  obtain ⟨below, hbelow⟩ := hstem
  rw [← hbelow, List.drop_left] at himproper hreserved ⊢
  refine Or.inr ⟨below, hne, rfl, rfl, fun n hn => ?_, ?_⟩
  · simp only [List.any_eq_true, not_exists, not_and] at himproper
    simpa using himproper n hn
  · simpa [Path.descend] using hreserved

/-- A place has proper names, none of them the payload name. -/
theorem place?_names (h : place? base payload path = some l) :
    AllNames l ∧ payload ∉ l := by
  obtain ⟨-, rfl⟩ | ⟨below, -, -, rfl, hproper, hpay⟩ := place?_cases h
  · exact ⟨allNames_nil, by simp⟩
  · refine ⟨fun n hn => ?_, hpay⟩
    obtain ⟨piece, hpiece, rfl⟩ := List.mem_map.mp hn
    exact isName_of_proper hpiece (hproper _ hn)

/-- Below the base at `b` the path at the place `l` is the path of the
node at `b ++ l`, and so the only one. -/
theorem path_of_place (hb : AllNames b)
    (h : place? (pathOf b) payload path = some l) :
    path = pathOf (b ++ l) := by
  unfold place? at h
  have hfares := toLocal_fares hb payload path ⟨.here, []⟩
  generalize toLocal path ⟨.here, []⟩ (pathOf b) payload = result at h hfares
  cases hfares with
  | base same =>
      cases h
      rw [same, List.append_nil]
  | kept _ _ _ continues =>
      cases h
      exact continues
  | reserved => cases h
  | astray => cases h

/-- The node at `b ++ l` is kept at `l`, unless a name in `l` is the
payload name. -/
theorem place?_append (hb : AllNames b) (hl : AllNames l)
    (hpay : payload ∉ l) :
    place? (pathOf b) payload (pathOf (b ++ l)) = some l := by
  by_cases hnil : l = []
  · subst hnil
    rw [List.append_nil]
    simp [place?, toLocal, toList_pathOf]
  · unfold place?
    rw [toLocal_pathOf hb hl hnil, if_neg hpay]
    simp [Path.descend]

/-- Which nodes are kept below a base, and where. -/
theorem place?_eq_some {m : Location} (hb : AllNames b) (hm : AllNames m) :
    place? (pathOf b) payload (pathOf m) = some l
      ↔ m = b ++ l ∧ payload ∉ l := by
  constructor
  · intro h
    obtain ⟨hl, hpay⟩ := place?_names h
    exact ⟨pathOf_inj hm (allNames_append.mpr ⟨hb, hl⟩) (path_of_place hb h),
      hpay⟩
  · intro hmid
    obtain ⟨rfl, hpay⟩ := hmid
    exact place?_append hb (allNames_append.mp hm).2 hpay

-- ============================================================== the slot

/-- The slot of a place is the payload name below it. -/
theorem payloadSlot_descend (hp : IsName payload) (p : Path) (l : Location) :
    payloadSlot (p.descend l) payload = p.descend (l ++ [payload]) := by
  rw [payloadSlot, Path.join_name hp, Path.child_descend]

end TreeReplica.Remote
