/-
What an expected layout says about the nodes that it was drawn from. The
nodes tell of every path whether its node is a container, and its bytes
(`told`); of the base only the bytes count, since the root is a directory
in any case. The layout has just the items for what is told
(`get?_expected`), and all of that can be read back from it (`told_eq`,
`bytesAt_eq`): no item of one node is ever in the place of another's. So
two lists are drawn alike exactly if they tell the same
(`expected_faithful`), and the order of a list does not matter.
-/
import TreeReplica.Proofs.Layout.Expected
import TreeReplica.Proofs.Remote.Embedding
import Mathlib.Data.List.Nodup

namespace TreeReplica.Layout

open Remote (pathOf place? validate toLocal)

variable {base payload path t : String} {b l : Location} {nodes : List Node}
  {node : Node} {item : Item} {c : Bytes}

-- ============================================================ what is told

/-- What a list of nodes tells of a path: whether the node there is a
container, and its bytes. -/
def told (nodes : List Node) (path : String) : Option (Bool × Bytes) :=
  (nodes.find? fun n => n.path = path).map fun n => (n.isContainer, n.bytes)

/-- The bytes that a list of nodes tells of a path, none if there is no
node. -/
def bytesAt (nodes : List Node) (path : String) : Bytes :=
  ((told nodes path).map (·.2)).getD []

/-- Where the paths are distinct every node is told of. -/
theorem told_eq_some (hnodes : (nodes.map (·.path)).Nodup)
    {a : Bool × Bytes} :
    told nodes path = some a
      ↔ ∃ n ∈ nodes, n.path = path ∧ a = (n.isContainer, n.bytes) := by
  unfold told
  rw [Option.map_eq_some_iff]
  constructor
  · intro hmid
    obtain ⟨n, hfind, rfl⟩ := hmid
    exact ⟨n, List.mem_of_find?_eq_some hfind,
      by simpa using List.find?_some hfind, rfl⟩
  · intro hmid
    obtain ⟨n, hn, rfl, rfl⟩ := hmid
    cases hfind : nodes.find? fun m => m.path = n.path with
    | none =>
        have hno := List.find?_eq_none.mp hfind n hn
        simp at hno
    | some m =>
        have hm := List.mem_of_find?_eq_some hfind
        have hpath : m.path = n.path := by
          simpa using List.find?_some hfind
        obtain rfl := List.inj_on_of_nodup_map hnodes hm hn hpath
        exact ⟨m, rfl, rfl⟩

/-- What is told does not depend on the order. -/
theorem told_perm {other : List Node} (h : nodes.Perm other)
    (hnodes : (nodes.map (·.path)).Nodup) (path : String) :
    told nodes path = told other path := by
  have hother : (other.map (·.path)).Nodup :=
    (h.map _).nodup_iff.mp hnodes
  refine Option.ext fun a => ?_
  rw [told_eq_some hnodes, told_eq_some hother]
  simp only [h.mem_iff]

-- ================================================================== items

/-- What is told of a path with the place `l` below the root gives the text
`t` this item. -/
def Shows (payload : String) (a : Bool × Bytes) (l : Location) (t : String)
    (item : Item) : Prop :=
  (t = key l ∧ item = if a.1 then .directory else .file a.2)
    ∨ (a.1 = true ∧ a.2 ≠ [] ∧ t = key (l ++ [payload])
      ∧ item = .file a.2)

theorem inSlot_eq (node : Node) (l : Location) :
    node.inSlot l
      = if node.opens l = true ∧ node.bytes ≠ [] then some node.file
        else none := by
  simp [Node.inSlot, Node.hasData]

/-- Below the root a node gives items for its kind and bytes. -/
theorem gives_below (hl : l ≠ []) :
    Gives payload node l t item
      ↔ Shows payload (node.isContainer, node.bytes) l t item := by
  have hopens : node.opens l = node.isContainer := by simp [Node.opens, hl]
  have hfile : node.file.item = .file node.bytes := rfl
  have hdirectory : Shape.directory.item = .directory := rfl
  unfold Gives Shows
  rw [inSlot_eq, Node.form, hopens]
  cases node.isContainer with
  | false => simp [hl, hfile]
  | true =>
      by_cases hbytes : node.bytes = []
      · simp [hl, hbytes, hdirectory]
      · simp [hl, hbytes, hfile, hdirectory]

/-- At the root only the bytes count. -/
theorem gives_root :
    Gives payload node [] t item
      ↔ node.bytes ≠ [] ∧ t = key [payload] ∧ item = .file node.bytes := by
  have hopens : node.opens [] = true := by simp [Node.opens]
  have hfile : node.file.item = .file node.bytes := rfl
  unfold Gives
  rw [inSlot_eq, hopens]
  by_cases hbytes : node.bytes = []
  · simp [hbytes]
  · simp [hbytes, hfile]

/-- The items of an expected layout are those that its nodes give. -/
theorem get?_expected_of_gives (hb : AllNames b) (hp : IsName payload)
    (hnodes : (nodes.map (·.path)).Nodup) :
    (expected nodes (pathOf b) payload).1.get? t = some item
      ↔ ∃ n ∈ nodes, ∃ l, place? (pathOf b) payload n.path = some l
        ∧ Gives payload n l t item := by
  have hdistinct : nodes.Pairwise fun m n =>
      ∀ l, place? (pathOf b) payload m.path = some l →
        place? (pathOf b) payload n.path ≠ some l := by
    refine (List.pairwise_map.mp hnodes).imp fun hne l hm hn => hne ?_
    rw [Remote.path_of_place hb hm, Remote.path_of_place hb hn]
  constructor
  · intro hget
    rw [expected] at hget
    by_cases hgiven : ∃ n ∈ nodes, ∃ l, ∃ x,
        place? (pathOf b) payload n.path = some l ∧ Gives payload n l t x
    · obtain ⟨n, hn, l, x, hplace, hgives⟩ := hgiven
      rw [get?_expectedFrom_of_gives hp hdistinct hn hplace hgives,
        Option.some.injEq] at hget
      exact ⟨n, hn, l, hplace, hget ▸ hgives⟩
    · rw [get?_expectedFrom_of_not hp fun n hn l hplace x hgives =>
        hgiven ⟨n, hn, l, x, hplace, hgives⟩] at hget
      cases hget
  · intro hmid
    obtain ⟨n, hn, l, hplace, hgives⟩ := hmid
    exact get?_expectedFrom_of_gives hp hdistinct hn hplace hgives

/-- The items of an expected layout are those for what is told. -/
theorem get?_expected (hb : AllNames b) (hp : IsName payload)
    (hnodes : (nodes.map (·.path)).Nodup) :
    (expected nodes (pathOf b) payload).1.get? t = some item
      ↔ (∃ l a, l ≠ [] ∧ AllNames l ∧ payload ∉ l
          ∧ told nodes (pathOf (b ++ l)) = some a
          ∧ Shows payload a l t item)
        ∨ bytesAt nodes (pathOf b) ≠ [] ∧ t = key [payload]
          ∧ item = .file (bytesAt nodes (pathOf b)) := by
  rw [get?_expected_of_gives hb hp hnodes]
  constructor
  · intro hmid
    obtain ⟨n, hn, l, hplace, hgives⟩ := hmid
    obtain ⟨hl, hpay⟩ := Remote.place?_names hplace
    have hpath := Remote.path_of_place hb hplace
    have htold := (told_eq_some hnodes).mpr ⟨n, hn, hpath, rfl⟩
    by_cases hnil : l = []
    · subst hnil
      rw [List.append_nil] at htold
      rw [gives_root] at hgives
      right
      simpa [bytesAt, htold] using hgives
    · exact Or.inl ⟨l, _, hnil, hl, hpay, htold,
        (gives_below hnil).mp hgives⟩
  · intro hmid
    obtain ⟨l, a, hnil, hl, hpay, htold, hshows⟩ | ⟨hsome, ht, hitem⟩ := hmid
    · obtain ⟨n, hn, hpath, rfl⟩ := (told_eq_some hnodes).mp htold
      refine ⟨n, hn, l, ?_, (gives_below hnil).mpr hshows⟩
      rw [hpath]
      exact Remote.place?_append hb hl hpay
    · cases htold : told nodes (pathOf b) with
      | none => simp [bytesAt, htold] at hsome
      | some a =>
          obtain ⟨n, hn, hpath, rfl⟩ := (told_eq_some hnodes).mp htold
          refine ⟨n, hn, [], ?_, gives_root.mpr ?_⟩
          · rw [hpath]
            have hat : Remote.place? (pathOf b) payload (pathOf (b ++ []))
                = some [] := Remote.place?_append hb allNames_nil (by simp)
            simpa using hat
          · have hbytes : bytesAt nodes (pathOf b) = n.bytes := by
              simp [bytesAt, htold]
            rw [← hbytes]
            exact ⟨hsome, ht, hitem⟩

-- =============================================================== read back

/-- The bytes in the slot of a place, none if there is no file. -/
def slotBytes (layout : Layout) (payload : String) (l : Location) : Bytes :=
  match layout.get? (key (l ++ [payload])) with
  | some (.file c) => c
  | _ => []

/-- What a layout says about a place below the root. -/
def readBack (layout : Layout) (payload : String) (l : Location) :
    Option (Bool × Bytes) :=
  (layout.get? (key l)).map fun item =>
    match item with
    | .directory => (true, layout.slotBytes payload l)
    | .file c => (false, c)

/-- At the text of a place is the item for its own node. -/
theorem get?_key (hb : AllNames b) (hp : IsName payload)
    (hnodes : (nodes.map (·.path)).Nodup) (hnil : l ≠ [])
    (hl : AllNames l) (hpay : payload ∉ l) :
    (expected nodes (pathOf b) payload).1.get? (key l)
      = (told nodes (pathOf (b ++ l))).map fun a =>
          if a.1 then .directory else .file a.2 := by
  refine Option.ext fun item => ?_
  rw [get?_expected hb hp hnodes, Option.map_eq_some_iff]
  constructor
  · intro hmid
    obtain ⟨m, a, -, hm, -, htold, ⟨hkey, hitem⟩ | ⟨-, -, hkey, -⟩⟩
      | ⟨-, hkey, -⟩ := hmid
    · obtain rfl := Path.text_inj hl hm hkey
      exact ⟨a, htold, hitem.symm⟩
    · obtain rfl := Path.text_inj hl (hm.concat hp) hkey
      simp at hpay
    · obtain rfl := Path.text_inj hl (allNames_nil.concat hp) hkey
      simp at hpay
  · intro hmid
    obtain ⟨a, htold, hitem⟩ := hmid
    exact Or.inl ⟨l, a, hnil, hl, hpay, htold, Or.inl ⟨rfl, hitem.symm⟩⟩

/-- In the slot of a container are its own bytes. -/
theorem slotBytes_expected (hb : AllNames b) (hp : IsName payload)
    (hnodes : (nodes.map (·.path)).Nodup) (hnil : l ≠ [])
    (hl : AllNames l) (hpay : payload ∉ l)
    (htold : told nodes (pathOf (b ++ l)) = some (true, c)) :
    (expected nodes (pathOf b) payload).1.slotBytes payload l = c := by
  have hitem : ∀ item, (expected nodes (pathOf b) payload).1.get?
      (key (l ++ [payload])) = some item ↔ c ≠ [] ∧ item = .file c := by
    intro item
    rw [get?_expected hb hp hnodes]
    constructor
    · intro hmid
      obtain ⟨m, a, hm, hnames, hfree, ha, ⟨hkey, -⟩ | ⟨-, hsome, hkey, hi⟩⟩
        | ⟨-, hkey, -⟩ := hmid
      · obtain rfl := Path.text_inj (hl.concat hp) hnames hkey
        simp at hfree
      · obtain rfl := List.append_cancel_right
          (Path.text_inj (hl.concat hp) (hnames.concat hp) hkey)
        rw [htold] at ha
        cases ha
        exact ⟨hsome, hi⟩
      · have hroot := Path.text_inj (hl.concat hp) (allNames_nil.concat hp)
          hkey
        exact absurd (List.append_cancel_right hroot) hnil
    · intro hmid
      obtain ⟨hsome, hi⟩ := hmid
      exact Or.inl ⟨l, _, hnil, hl, hpay, htold,
        Or.inr ⟨rfl, hsome, rfl, hi⟩⟩
  unfold slotBytes
  by_cases hc : c = []
  · have hnone : (expected nodes (pathOf b) payload).1.get?
        (key (l ++ [payload])) = none :=
      Option.eq_none_iff_forall_ne_some.mpr fun item hget =>
        ((hitem item).mp hget).1 hc
    rw [hnone, hc]
  · rw [(hitem _).mpr ⟨hc, rfl⟩]

/-- All that is told of a path below the base is read back. -/
theorem told_eq (hb : AllNames b) (hp : IsName payload)
    (hnodes : (nodes.map (·.path)).Nodup) (hnil : l ≠ [])
    (hl : AllNames l) (hpay : payload ∉ l) :
    told nodes (pathOf (b ++ l))
      = (expected nodes (pathOf b) payload).1.readBack payload l := by
  unfold readBack
  rw [get?_key hb hp hnodes hnil hl hpay]
  cases htold : told nodes (pathOf (b ++ l)) with
  | none => rfl
  | some a =>
      obtain ⟨container, c⟩ := a
      cases container with
      | false => rfl
      | true =>
          have hslot := slotBytes_expected hb hp hnodes hnil hl hpay htold
          simp [hslot]

/-- The bytes of the base are read back. -/
theorem bytesAt_eq (hb : AllNames b) (hp : IsName payload)
    (hnodes : (nodes.map (·.path)).Nodup) :
    bytesAt nodes (pathOf b)
      = (expected nodes (pathOf b) payload).1.slotBytes payload [] := by
  have hitem : ∀ item, (expected nodes (pathOf b) payload).1.get?
      (key ([] ++ [payload])) = some item
        ↔ bytesAt nodes (pathOf b) ≠ []
          ∧ item = .file (bytesAt nodes (pathOf b)) := by
    intro item
    rw [get?_expected hb hp hnodes]
    constructor
    · intro hmid
      obtain ⟨m, a, hm, hnames, hfree, -, ⟨hkey, -⟩ | ⟨-, -, hkey, -⟩⟩
        | ⟨hsome, -, hi⟩ := hmid
      · obtain rfl := Path.text_inj (allNames_nil.concat hp) hnames hkey
        simp at hfree
      · have hroot := Path.text_inj (allNames_nil.concat hp)
          (hnames.concat hp) hkey
        exact absurd (List.append_cancel_right hroot).symm hm
      · exact ⟨hsome, hi⟩
    · exact fun hmid => Or.inr ⟨hmid.1, rfl, hmid.2⟩
  unfold slotBytes
  by_cases hbytes : bytesAt nodes (pathOf b) = []
  · have hnone : (expected nodes (pathOf b) payload).1.get?
        (key ([] ++ [payload])) = none :=
      Option.eq_none_iff_forall_ne_some.mpr fun item hget =>
        ((hitem item).mp hget).1 hbytes
    rw [hnone, hbytes]
  · rw [(hitem _).mpr ⟨hbytes, rfl⟩]

-- ================================================================ faithful

variable {xs ys : List Node}

/-- Lists that tell the same are drawn alike. -/
theorem expected_congr (hb : AllNames b) (hp : IsName payload)
    (hxs : (xs.map (·.path)).Nodup) (hys : (ys.map (·.path)).Nodup)
    (htold : ∀ l, l ≠ [] → AllNames l → payload ∉ l →
      told xs (pathOf (b ++ l)) = told ys (pathOf (b ++ l)))
    (hbytes : bytesAt xs (pathOf b) = bytesAt ys (pathOf b)) (t : String) :
    (expected xs (pathOf b) payload).1.get? t
      = (expected ys (pathOf b) payload).1.get? t := by
  refine Option.ext fun item => ?_
  rw [get?_expected hb hp hxs, get?_expected hb hp hys, hbytes]
  refine or_congr_left (exists_congr fun l => exists_congr fun a => ?_)
  constructor
  · intro hmid
    obtain ⟨hnil, hl, hpay, ha, hshows⟩ := hmid
    exact ⟨hnil, hl, hpay, htold l hnil hl hpay ▸ ha, hshows⟩
  · intro hmid
    obtain ⟨hnil, hl, hpay, ha, hshows⟩ := hmid
    exact ⟨hnil, hl, hpay, (htold l hnil hl hpay).symm ▸ ha, hshows⟩

/-- Below the base the paths that are kept are those at places. -/
theorem forall_kept (hb : AllNames b) {P : String → Prop} :
    (∀ path, path ≠ pathOf b →
      (∃ p, toLocal path drawnAt (pathOf b) payload = .ok p) → P path)
    ↔ ∀ l, l ≠ [] → AllNames l → payload ∉ l → P (pathOf (b ++ l)) := by
  constructor
  · intro h l hnil hl hpay
    exact h _ (Remote.pathOf_append_ne hb hl hnil)
      ⟨_, (Remote.toLocal_eq_descend hb).mpr ⟨rfl, hl, hpay⟩⟩
  · intro h path hbase hmid
    obtain ⟨p, hp⟩ := hmid
    obtain ⟨l, -, rfl, hl, hpay⟩ := Remote.exists_place hb hp
    refine h l ?_ hl hpay
    rintro rfl
    exact hbase (by rw [List.append_nil])

/-- Two lists of nodes are drawn alike exactly if they tell the same of
every path that is kept below the base, and the same bytes of the base.
The order of a list does not matter. -/
theorem expected_faithful (hbase : validate base = .ok base)
    (hp : IsName payload) (hxs : (xs.map (·.path)).Nodup)
    (hys : (ys.map (·.path)).Nodup) :
    ((∀ t, (expected xs base payload).1.get? t
        = (expected ys base payload).1.get? t)
      ↔ (∀ path, path ≠ base →
          (∃ p, toLocal path drawnAt base payload = .ok p) →
          told xs path = told ys path)
        ∧ bytesAt xs base = bytesAt ys base)
    ∧ (xs.Perm ys → ∀ t, (expected xs base payload).1.get? t
        = (expected ys base payload).1.get? t) := by
  obtain ⟨b, hb, rfl, -⟩ := Remote.exists_of_validate hbase
  rw [forall_kept hb]
  refine ⟨⟨fun h => ⟨fun l hnil hl hpay => ?_, ?_⟩,
    fun h => expected_congr hb hp hxs hys h.1 h.2⟩, fun hperm => ?_⟩
  · rw [told_eq hb hp hxs hnil hl hpay, told_eq hb hp hys hnil hl hpay]
    simp only [readBack, slotBytes, h]
  · rw [bytesAt_eq hb hp hxs, bytesAt_eq hb hp hys]
    simp only [slotBytes, h]
  · refine expected_congr hb hp hxs hys
      (fun l _ _ _ => told_perm hperm hxs _) ?_
    rw [bytesAt, told_perm hperm hxs, ← bytesAt]

/-- A container with bytes and its child, in either order, and without the
bytes: the first two are drawn alike, the third is not. -/
theorem expected_faithful_container :
    let top : Node := ⟨"/a", some [1], 1, 5⟩
    let bare : Node := ⟨"/a", none, 1, 5⟩
    let child : Node := ⟨"/a/b", some [2], 0, 7⟩
    (∀ t, (expected [top, child] "/" "data").1.get? t
        = (expected [child, top] "/" "data").1.get? t)
      ∧ ¬ ∀ t, (expected [top, child] "/" "data").1.get? t
        = (expected [bare, child] "/" "data").1.get? t := by
  intro top bare child
  have hbase : validate "/" = .ok "/" := rfl
  have hp : IsName "data" := by decide
  have hboth : ([top, child].map (·.path)).Nodup := by decide
  have hswap : ([child, top].map (·.path)).Nodup := by decide
  have hbare : ([bare, child].map (·.path)).Nodup := by decide
  refine ⟨(expected_faithful hbase hp hboth hswap).2 (List.Perm.swap ..),
    fun hsame => ?_⟩
  have htold := ((expected_faithful hbase hp hboth hbare).1.mp hsame).1 "/a"
    (by decide) ⟨⟨.here, ["a"]⟩, rfl⟩
  have hdiffer : told [top, child] "/a" ≠ told [bare, child] "/a" := by decide
  exact hdiffer htold

end TreeReplica.Layout
