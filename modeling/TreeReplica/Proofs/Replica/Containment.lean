/-
What events leave alone. A payload name that is one segment keeps a
replica to itself: whatever events are applied below a root that was
empty, no entry comes, changes or goes but strictly below the root, and
the slot of a place is a child of it that is no place and above none
(`contained`). The name is not checked to be one segment, and a name that
climbs out of the root has entries beside the root taken away
(`escapes`).
-/
import TreeReplica.Proofs.Disk.Plain
import TreeReplica.Proofs.Replica.Applied

namespace TreeReplica

namespace Site

/-- Sites that hold plain trees differ only strictly below the site. -/
theorem Plain.outside {s : Site} {m m' : Entry} (h : s.Plain m)
    (h' : s.Plain m') {l : Location}
    (hl : ¬ (s.location <+: l ∧ l ≠ s.location)) :
    (s.holding m').root.view l = (s.holding m).root.view l := by
  by_cases hp : s.location <+: l
  · have heq : l = s.location ++ [] := by
      rw [List.append_nil]
      exact Decidable.byContradiction fun hne => hl ⟨hp, hne⟩
    rw [heq, s.holding_view, s.holding_view, h.base, h'.base]
  · rw [s.holding_outside m hp, s.holding_outside m' hp]

end Site

namespace Replica

variable {r : Replica} {h : Host} {l : Location}

/-- Events that are applied to a replica with an empty root leave all of
the disk alone but what is strictly below the root. -/
theorem after_outside (hp : IsSegment r.payload)
    (hroot : h.disk.find true r.root = .ok (l, .directory []))
    (events : List Event) {m : Location} (hm : ¬ (l <+: m ∧ m ≠ l)) :
    (r.after events h).disk.root.view m = h.disk.root.view m := by
  obtain ⟨s, hd, hpath, rfl, hholds⟩ := Site.exists_of_find hroot
  obtain ⟨e, he, hplain⟩ := r.after_keeps (hpath ▸ s.guards_site) hp events
    ⟨_, hholds.symm, Site.plain_empty⟩
  rw [he, Site.plain_empty.outside hplain hm, hholds]

/-- The slot of a place is a child of the place, and neither is it a place
nor is it above one. -/
theorem slot_apart (hp : IsName r.payload) {path : String} {place : Path}
    (hplace : Remote.toLocal path r.root r.base r.payload = .ok place) :
    Remote.payloadSlot place r.payload = place.child r.payload
    ∧ ∀ path' place',
      Remote.toLocal path' r.root r.base r.payload = .ok place' →
      ¬ (place.child r.payload).parts <+: place'.parts := by
  obtain ⟨l, -, rfl⟩ := place?_of_toLocal hplace
  constructor
  · rw [Remote.payloadSlot, Path.join_name hp]
  · intro path' place' hplace' hpre
    obtain ⟨l', hl', rfl⟩ := place?_of_toLocal hplace'
    refine (Remote.place?_names hl').2 ?_
    rw [Path.child_descend] at hpre
    have hbelow : l ++ [r.payload] <+: l' :=
      (List.prefix_append_right_inj r.root.parts).mp hpre
    exact hbelow.subset (by simp)

/-- A replica whose payload name is one segment keeps to itself. -/
theorem contained (hp : IsSegment r.payload)
    (hroot : h.disk.find true r.root = .ok (l, .directory [])) :
    (∀ events m, ¬ (l <+: m ∧ m ≠ l) →
      (r.after events h).disk.root.view m = h.disk.root.view m)
    ∧ ∀ path place,
      Remote.toLocal path r.root r.base r.payload = .ok place →
      Remote.payloadSlot place r.payload = place.child r.payload
      ∧ ∀ path' place',
        Remote.toLocal path' r.root r.base r.payload = .ok place' →
        ¬ (place.child r.payload).parts <+: place'.parts :=
  ⟨fun events _ hm => after_outside hp hroot events hm,
    fun _ _ hplace => slot_apart hp.toIsName hplace⟩

/-- A replica beside a file, and an event about its root. -/
theorem contained_beside :
    let r : Replica := { root := ⟨.here, ["m"]⟩, payload := "data" }
    let h : Host := { disk := ⟨.directory [("m", .directory []),
      ("x", .file [1] (.dated 5))], []⟩ }
    (r.after [⟨.removed, some { path := "/" }⟩] h).disk.root.view ["x"]
      = some (.file [1] (.dated 5)) :=
  (contained (r := { root := ⟨.here, ["m"]⟩, payload := "data" })
    (h := { disk := ⟨.directory [("m", .directory []),
      ("x", .file [1] (.dated 5))], []⟩ }) (l := ["m"])
    (by decide) rfl).1 _ ["x"] (by decide)

/-- A payload name that climbs out of the root: the event that would clear
the slot of the root takes the file beside the root away. -/
theorem escapes :
    let r : Replica := { root := ⟨.here, ["m"]⟩, payload := "../x" }
    let h : Host := { disk := ⟨.directory [("m", .directory []),
      ("x", .file [1] (.dated 5))], []⟩ }
    Remote.validate r.base = .ok r.base
      ∧ h.disk.find true r.root = .ok (["m"], .directory [])
      ∧ h.disk.root.view ["x"] = some (.file [1] (.dated 5))
      ∧ (r.after [⟨.removed, some { path := "/" }⟩] h).disk.root.view ["x"]
        = none :=
  ⟨by decide +kernel, rfl, rfl, by decide +kernel⟩

end Replica

end TreeReplica
