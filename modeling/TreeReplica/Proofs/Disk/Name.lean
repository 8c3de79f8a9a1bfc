/-
Names and the texts of paths. A name is what a directory can call one of
its entries; a text of names with slashes between them is read back name
by name (`segments_intercalate`), so that on names the text of a path
says everything about the path (`text_inj`).
-/
import TreeReplica.Disk.Call

namespace TreeReplica

-- =============================================================== names

/-- A name that an entry of a directory can have: one part of a path that
stands for itself and does not lead up. -/
structure IsName (s : String) : Prop where
  nonempty : s ≠ ""
  notDot : s ≠ "."
  notUp : s ≠ ".."
  noSlash : '/' ∉ s.toList

instance (s : String) : Decidable (IsName s) :=
  decidable_of_iff (s ≠ "" ∧ s ≠ "." ∧ s ≠ ".." ∧ '/' ∉ s.toList)
    ⟨fun ⟨a, b, c, d⟩ => ⟨a, b, c, d⟩, fun ⟨a, b, c, d⟩ => ⟨a, b, c, d⟩⟩

/-- One ordinary segment of a path: a name that can be passed to the
system. -/
structure IsSegment (s : String) : Prop extends IsName s where
  clear : Disk.hasNull s = false

instance (s : String) : Decidable (IsSegment s) :=
  decidable_of_iff (IsName s ∧ Disk.hasNull s = false)
    ⟨fun ⟨a, b⟩ => ⟨a, b⟩, fun h => ⟨h.toIsName, h.clear⟩⟩

/-- All parts of a location are names. -/
def AllNames (l : Location) : Prop := ∀ n ∈ l, IsName n

instance (l : Location) : Decidable (AllNames l) :=
  inferInstanceAs (Decidable (∀ n ∈ l, IsName n))

theorem allNames_nil : AllNames [] := fun _ hn => by cases hn

theorem allNames_append {a b : Location} :
    AllNames (a ++ b) ↔ AllNames a ∧ AllNames b := by
  unfold AllNames
  rw [List.forall_mem_append]

theorem AllNames.concat {a : Location} {n : String} (ha : AllNames a)
    (hn : IsName n) : AllNames (a ++ [n]) :=
  allNames_append.mpr ⟨ha, fun _ hm => List.mem_singleton.mp hm ▸ hn⟩

theorem AllNames.above {a b : Location} (h : AllNames b)
    (hab : a <+: b) : AllNames a :=
  fun n hn => h n (hab.subset hn)

theorem AllNames.nonempty {l : Location} (h : AllNames l) : "" ∉ l :=
  fun hl => (h "" hl).nonempty rfl

-- =================================================== cutting at slashes

/-- A slash is a cut, whatever stands before and behind it. -/
theorem splitSlashes_append_slash (a b : List Char) :
    splitSlashes (a ++ '/' :: b) = splitSlashes a ++ splitSlashes b := by
  induction a with
  | nil => simp [splitSlashes]
  | cons c a ih =>
      by_cases hc : c = '/'
      · simp [splitSlashes, hc, ih]
      · cases hs : splitSlashes a with
        | nil => exact absurd hs (splitSlashes_ne_nil a)
        | cons piece pieces => simp [splitSlashes, hc, ih, hs]

/-- A text without a slash is the first piece of what follows it behind a
slash. -/
theorem splitSlashes_append {a : List Char} (h : '/' ∉ a)
    (b : List Char) :
    splitSlashes (a ++ '/' :: b) = a :: splitSlashes b := by
  rw [splitSlashes_append_slash, splitSlashes_eq_singleton h]
  rfl

/-- The pieces, joined by slashes, give the text back. -/
theorem intercalate_splitSlashes (cs : List Char) :
    ['/'].intercalate (splitSlashes cs) = cs := by
  induction cs with
  | nil => rfl
  | cons c rest ih =>
      unfold splitSlashes
      have hne := splitSlashes_ne_nil rest
      cases hs : splitSlashes rest with
      | nil => exact absurd hs hne
      | cons piece pieces =>
          rw [hs] at ih
          by_cases hc : c = '/'
          · simp only [hc, if_true]
            rw [← ih]
            simp [List.intercalate]
          · simp only [hc, if_false]
            rw [← ih]
            cases pieces <;> simp [List.intercalate]

/-- A piece has no slash in it. -/
theorem slash_not_mem_splitSlashes {cs piece : List Char}
    (h : piece ∈ splitSlashes cs) : '/' ∉ piece := by
  induction cs generalizing piece with
  | nil =>
      simp only [splitSlashes, List.mem_singleton] at h
      simp [h]
  | cons c rest ih =>
      unfold splitSlashes at h
      by_cases hc : c = '/'
      · simp only [hc, if_true, List.mem_cons] at h
        rcases h with rfl | h
        · simp
        · exact ih h
      · simp only [hc, if_false] at h
        cases hs : splitSlashes rest with
        | nil => exact absurd hs (splitSlashes_ne_nil rest)
        | cons first pieces =>
            simp only [hs, List.mem_cons] at h
            rcases h with rfl | h
            · have hf := ih (hs ▸ List.mem_cons_self ..)
              intro hm
              rcases List.mem_cons.mp hm with e | hm
              · exact hc e.symm
              · exact hf hm
            · exact ih (hs ▸ List.mem_cons_of_mem _ h)

/-- Names joined by slashes are cut into the names again. -/
theorem splitSlashes_intercalate {l : Location} (hl : l ≠ [])
    (h : ∀ n ∈ l, '/' ∉ n.toList) :
    splitSlashes (['/'].intercalate (l.map String.toList))
      = l.map String.toList := by
  induction l with
  | nil => exact absurd rfl hl
  | cons n l ih =>
      have hn : '/' ∉ n.toList := h n (List.mem_cons_self ..)
      cases l with
      | nil =>
          have hone : ['/'].intercalate ([n].map String.toList)
              = n.toList := by
            simp [List.intercalate]
          rw [hone, splitSlashes_eq_singleton hn]
          rfl
      | cons m l =>
          have hcons : ['/'].intercalate ((n :: m :: l).map String.toList)
              = n.toList
                ++ '/' :: ['/'].intercalate ((m :: l).map String.toList) := by
            simp [List.intercalate]
          rw [hcons, splitSlashes_append hn,
            ih (by simp) fun k hk => h k (List.mem_cons_of_mem _ hk)]
          rfl

namespace Path

/-- Names joined by slashes are the segments of the text. -/
theorem segments_intercalate {l : Location} (hl : l ≠ [])
    (h : ∀ n ∈ l, '/' ∉ n.toList) : segments ("/".intercalate l) = l := by
  have hlist : ("/".intercalate l).toList
      = ['/'].intercalate (l.map String.toList) :=
    String.toList_intercalate
  rw [segments, hlist, splitSlashes_intercalate hl h, List.map_map]
  simp

/-- The segments of a text, joined by slashes, give the text back. -/
theorem intercalate_segments (t : String) :
    "/".intercalate (segments t) = t := by
  have hlist : ((segments t).map String.toList) = splitSlashes t.toList := by
    simp [segments, Function.comp_def]
  apply String.toList_inj.mp
  rw [String.toList_intercalate, hlist]
  exact intercalate_splitSlashes _

theorem size_intercalate (n m : String) (l : Location) :
    ("/".intercalate (n :: m :: l)).utf8ByteSize
      = n.utf8ByteSize + 1 + ("/".intercalate (m :: l)).utf8ByteSize := by
  have hslash : "/".utf8ByteSize = 1 := by decide
  rw [String.intercalate_cons_cons, String.utf8ByteSize_append,
    String.utf8ByteSize_append, hslash]

/-- How much longer names make a text, each by its own size and a slash. -/
def extent : Location → Nat
  | [] => 0
  | n :: l => n.utf8ByteSize + 1 + extent l

@[simp]
theorem extent_nil : extent [] = 0 := rfl

@[simp]
theorem extent_cons (n : String) (l : Location) :
    extent (n :: l) = n.utf8ByteSize + 1 + extent l := rfl

theorem extent_append (a b : Location) :
    extent (a ++ b) = extent a + extent b := by
  induction a with
  | nil => simp
  | cons n a ih =>
      rw [List.cons_append, extent_cons, extent_cons, ih]
      omega

theorem size_intercalate_cons (n : String) (l : Location) :
    ("/".intercalate (n :: l)).utf8ByteSize = n.utf8ByteSize + extent l := by
  induction l generalizing n with
  | nil => simp
  | cons m l ih =>
      rw [size_intercalate, ih, extent_cons]
      omega

/-- More names make a text longer by their extent. -/
theorem size_intercalate_append {a : Location} (ha : a ≠ [])
    (b : Location) :
    ("/".intercalate (a ++ b)).utf8ByteSize
      = ("/".intercalate a).utf8ByteSize + extent b := by
  cases a with
  | nil => exact absurd rfl ha
  | cons n a =>
      rw [List.cons_append, size_intercalate_cons, size_intercalate_cons,
        extent_append]
      omega

/-- Parts joined by slashes are read as the path of these parts. -/
theorem ofString_intercalate {l : Location} (hl : l ≠ [])
    (h : ∀ n ∈ l, isPart n = true ∧ '/' ∉ n.toList) :
    ofString ("/".intercalate l) = ⟨.here, l⟩ := by
  have hseg := segments_intercalate hl fun n hn => (h n hn).2
  have hanchor : anchorOf ("/".intercalate l).toList = .here := by
    -- a slash in front would leave an empty part
    cases hs : ("/".intercalate l).toList with
    | nil => rfl
    | cons c rest =>
        have hc : c ≠ '/' := by
          rintro rfl
          have hempty : "" ∈ segments ("/".intercalate l) := by
            simp [segments, hs, splitSlashes]
          rw [hseg] at hempty
          have hpart := (h "" hempty).1
          simp [isPart] at hpart
        unfold anchorOf
        split
        · next heq => exact absurd (List.cons.inj heq).1 hc
        · next heq => exact absurd (List.cons.inj heq).1 hc
        · next heq => exact absurd (List.cons.inj heq).1 hc
        · rfl
  rw [ofString, hanchor, hseg, List.filter_eq_self.mpr fun n hn => (h n hn).1]

/-- A name is read as a path of one part. -/
theorem ofString_name {s : String} (h : IsName s) :
    ofString s = ⟨.here, [s]⟩ := by
  have hone := ofString_intercalate (l := [s]) (by simp) fun n hn => by
    rw [List.mem_singleton.mp hn]
    exact ⟨by simp [isPart, h.nonempty, h.notDot], h.noSlash⟩
  rwa [String.intercalate_singleton] at hone

/-- A path that was read has no dot for a part. -/
theorem dot_not_mem_ofString (s : String) : "." ∉ (ofString s).parts := by
  simp [ofString, isPart]

/-- A name is read below a path as the entry of that name. -/
theorem join_name {s : String} (h : IsName s) (p : Path) :
    p.join s = p.child s := by
  unfold join
  rw [ofString_name h]
  rfl

theorem child_eq_descend (p : Path) (n : String) :
    p.child n = p.descend [n] := rfl

theorem child_descend (p : Path) (a : Location) (n : String) :
    (p.descend a).child n = p.descend (a ++ [n]) := by
  rw [child_eq_descend, descend_descend]

theorem parent_descend (p : Path) (a : Location) (n : String) :
    (p.descend (a ++ [n])).parent = p.descend a := by
  simp [parent, descend]

theorem name_descend (p : Path) (a : Location) (n : String) :
    (p.descend (a ++ [n])).name = n := by
  simp [name, descend]

theorem descend_eq_self {p : Path} {l : Location} :
    p.descend l = p ↔ l = [] := by
  constructor
  · intro h
    have hp := congrArg Path.parts h
    simpa [descend] using hp
  · intro heq
    subst heq
    exact descend_nil p

-- =============================================================== texts

/-- The text of a path without an anchor. -/
theorem text_here {l : Location} (hl : l ≠ []) (h : "" ∉ l) :
    Path.text ⟨.here, l⟩ = "/".intercalate l := by
  have hne : "/".intercalate l ≠ "" := by
    cases l with
    | nil => exact absurd rfl hl
    | cons n l =>
        have hn : n ≠ "" := fun hn => h (hn ▸ List.mem_cons_self ..)
        cases l with
        | nil => simpa using hn
        | cons m l => simp [String.intercalate_cons_cons]
  simp [text, Anchor.text, hne]

/-- The text of a path is never empty. -/
theorem size_text (p : Path) :
    p.text.utf8ByteSize = max 1
      (p.anchor.text.utf8ByteSize
        + ("/".intercalate p.parts).utf8ByteSize) := by
  have hdot : ".".utf8ByteSize = 1 := by decide
  unfold text
  simp only
  rw [← String.utf8ByteSize_append]
  split
  · next h =>
      rw [h, hdot]
      decide
  · next h =>
      have hsome := mt String.utf8ByteSize_eq_zero_iff.mp h
      omega

/-- A path is not longer than one below it. -/
theorem size_descend_le (p : Path) (a b : Location) :
    (p.descend a).text.utf8ByteSize
      ≤ (p.descend (a ++ b)).text.utf8ByteSize := by
  have hparts : (p.descend (a ++ b)).parts = (p.descend a).parts ++ b := by
    simp [descend]
  have hle : ("/".intercalate (p.descend a).parts).utf8ByteSize
      ≤ ("/".intercalate (p.descend (a ++ b)).parts).utf8ByteSize := by
    rw [hparts]
    by_cases hnil : (p.descend a).parts = []
    · simp [hnil]
    · rw [size_intercalate_append hnil]
      omega
  have hanchor : (p.descend (a ++ b)).anchor = (p.descend a).anchor := rfl
  rw [size_text, size_text, hanchor]
  omega

/-- Paths of names below the place where relative paths start differ in
their texts. -/
theorem text_inj {a b : Location} (ha : AllNames a) (hb : AllNames b)
    (h : Path.text ⟨.here, a⟩ = Path.text ⟨.here, b⟩) : a = b := by
  have pieces : ∀ {l : Location}, l ≠ [] → AllNames l →
      splitSlashes (Path.text ⟨.here, l⟩).toList = l.map String.toList := by
    intro l hl hn
    rw [text_here hl hn.nonempty, String.toList_intercalate]
    exact splitSlashes_intercalate hl fun n hm => (hn n hm).noSlash
  have alone : ∀ {l : Location}, l ≠ [] → AllNames l →
      Path.text ⟨.here, l⟩ ≠ "." := by
    intro l hl hn he
    have hp := pieces hl hn
    rw [he] at hp
    cases l with
    | nil => exact hl rfl
    | cons n l =>
        have hdot : splitSlashes ".".toList = [['.']] := by decide
        rw [hdot, List.map_cons] at hp
        have hname : n.toList = ".".toList :=
          (List.cons.inj hp).1.symm
        exact (hn n (List.mem_cons_self ..)).notDot
          (String.toList_inj.mp hname)
  by_cases hea : a = []
  · by_cases heb : b = []
    · rw [hea, heb]
    · subst hea
      exact absurd h.symm (alone heb hb)
  · by_cases heb : b = []
    · subst heb
      exact absurd h (alone hea ha)
    · have hab := pieces hea ha
      rw [h, pieces heb hb] at hab
      have hinj : Function.Injective String.toList :=
        fun x y hxy => String.toList_inj.mp hxy
      exact (List.map_inj_right hinj).mp hab.symm

end Path

-- ====================================================== the null character

namespace Disk

theorem hasNull_append (s t : String) :
    hasNull (s ++ t) = (hasNull s || hasNull t) := by
  simp [hasNull, String.toList_append]

theorem hasNull_intercalate (l : Location) :
    hasNull ("/".intercalate l) = l.any hasNull := by
  induction l with
  | nil => decide
  | cons n l ih =>
      cases l with
      | nil => simp
      | cons m l =>
          have hslash : hasNull "/" = false := by decide
          rw [String.intercalate_cons_cons, hasNull_append, hasNull_append,
            ih, hslash]
          simp

/-- A path holds the null character exactly if one of its parts does. -/
theorem hasNull_text (p : Path) : hasNull p.text = p.parts.any hasNull := by
  have hanchor : hasNull p.anchor.text = false := by
    cases p.anchor <;> decide
  have hdot : hasNull "." = false := by decide
  have hbody : hasNull (p.anchor.text ++ "/".intercalate p.parts)
      = p.parts.any hasNull := by
    rw [hasNull_append, hanchor, hasNull_intercalate, Bool.false_or]
  unfold Path.text
  simp only
  split
  · next hempty =>
      rw [← hbody, hempty, hdot]
      decide
  · exact hbody

theorem hasNull_descend (p : Path) (l : Location) :
    hasNull (p.descend l).text = (hasNull p.text || l.any hasNull) := by
  rw [hasNull_text, hasNull_text, Path.descend, List.any_append]

end Disk

end TreeReplica
