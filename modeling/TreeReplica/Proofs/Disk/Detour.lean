/-
A long way round. A path may go down to a directory and up again many
times before it goes there, so its text can be as long as one likes
(`find_crossing`, `size_crossing`), and what lies in the directory can be
out of the system's reach.
-/
import TreeReplica.Proofs.Disk.Name
import TreeReplica.Proofs.Disk.Walk

namespace TreeReplica

namespace Disk

/-- The parts of a path that goes down to `m` and up again, some times, and
then to `m`. -/
def crossing : Nat → List String
  | 0 => ["m"]
  | n + 1 => "m" :: ".." :: crossing n

theorem mem_crossing {n : Nat} {part : String} (h : part ∈ crossing n) :
    part = "m" ∨ part = ".." := by
  induction n with
  | zero => exact Or.inl (List.mem_singleton.mp h)
  | succ n ih =>
      rcases List.mem_cons.mp h with rfl | h
      · exact Or.inl rfl
      rcases List.mem_cons.mp h with rfl | h
      · exact Or.inr rfl
      · exact ih h

theorem crossing_ne_nil (n : Nat) : crossing n ≠ [] := by
  cases n <;> simp [crossing]

/-- Each time down and up is five bytes of the text. -/
theorem size_crossing (n : Nat) :
    ("/".intercalate (crossing n)).utf8ByteSize = 5 * n + 1 := by
  have hm : "m".utf8ByteSize = 1 := by decide
  have hup : "..".utf8ByteSize = 2 := by decide
  induction n with
  | zero => simp [crossing, hm]
  | succ n ih =>
      obtain ⟨part, rest, hrest⟩ :=
        List.exists_cons_of_ne_nil (crossing_ne_nil n)
      rw [crossing, hrest, Path.size_intercalate, Path.size_intercalate,
        ← hrest, ih]
      omega

/-- The path leads to `m`. -/
theorem trace_crossing (cs : List (String × Entry)) (n : Nat) :
    trace (.directory [("m", .directory cs)]) true [] (crossing n)
      = .arrived (.inside [] "m") := by
  have hm : ¬ nameLimit < "m".utf8ByteSize := by decide
  induction n with
  | zero => simp [crossing, trace, Children.get?, hm]
  | succ n ih =>
      simp [crossing, trace, Children.get?, Entry.get?_cons, Entry.child?,
        hm, ih]

/-- The text of a path that goes on from `m`. -/
theorem size_descend_crossing (n : Nat) (l : Location) :
    (Path.descend ⟨.here, crossing n⟩ l).text.utf8ByteSize
      = 5 * n + 1 + Path.extent l := by
  rw [Path.size_text, Path.descend,
    Path.size_intercalate_append (crossing_ne_nil n), size_crossing]
  simp only [Anchor.text, String.utf8ByteSize_empty]
  omega

theorem clear_crossing (n : Nat) :
    hasNull (Path.text ⟨.here, crossing n⟩) = false := by
  rw [hasNull_text, List.any_eq_false]
  intro part hpart
  rcases mem_crossing hpart with rfl | rfl
  · decide
  · decide

/-- The disk on which the path leads to `m`, and what is in `m`. -/
def crossed (cs : List (String × Entry)) : Disk :=
  ⟨.directory [("m", .directory cs)], []⟩

theorem find_crossing (cs : List (String × Entry)) {n : Nat}
    (hn : 5 * n + 1 < pathLimit) :
    (crossed cs).find true ⟨.here, crossing n⟩
      = .ok (["m"], .directory cs) := by
  have hshort : ¬ pathLimit
      ≤ (Path.text ⟨.here, crossing n⟩).utf8ByteSize := by
    have hsize := size_descend_crossing n []
    rw [Path.descend_nil] at hsize
    rw [hsize, Path.extent_nil]
    omega
  have hreach : (crossed cs).reach true ⟨.here, crossing n⟩
      (.path ⟨.here, crossing n⟩) = .ok (.inside [] "m") := by
    unfold reach walk
    rw [if_neg (by simp [clear_crossing]), if_neg hshort]
    simp only [crossed, start, if_true, trace_crossing]
  unfold find
  rw [hreach]
  rfl

end Disk

end TreeReplica
