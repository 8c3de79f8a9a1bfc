/-
Paths that are made by putting names behind a path. A name can be put
behind a path as a step if it is not empty and has no slash in it; other
than in a name of an entry, dots are fine. A path that does not end in a
slash, or that is the root's, can be continued by steps, and the steps
can be read off the result (`pathBelow_inj`).
-/
import TreeReplica.Proofs.Remote.Embedding

namespace TreeReplica.Remote

variable {path k : String} {l m : Location}

-- ================================================================= steps

/-- A name that leads one step down from a path. -/
structure IsStep (k : String) : Prop where
  nonempty : k ≠ ""
  noSlash : '/' ∉ k.toList

instance (k : String) : Decidable (IsStep k) :=
  decidable_of_iff (k ≠ "" ∧ '/' ∉ k.toList)
    ⟨fun ⟨a, b⟩ => ⟨a, b⟩, fun ⟨a, b⟩ => ⟨a, b⟩⟩

theorem IsStep.of_name (h : IsName k) : IsStep k := ⟨h.nonempty, h.noSlash⟩

/-- A path that steps can be put behind: the root's, or one that does not
end in a slash. -/
def IsStart (path : String) : Prop :=
  path = "/" ∨ path.toList.getLast? ≠ some '/'

instance (path : String) : Decidable (IsStart path) :=
  inferInstanceAs (Decidable (_ ∨ _))

@[simp]
theorem pathBelow_nil (path : String) : pathBelow path [] = path := if_pos rfl

/-- What stands in front of the first step. -/
theorem pathBelow_cons (path k : String) (l : Location) :
    pathBelow path (k :: l)
      = (if path = "/" then "" else path)
        ++ String.join ((k :: l).map ("/" ++ ·)) := if_neg (by simp)

/-- A step leads to a path with the step behind a slash. -/
theorem toList_pathBelow_step (path k : String) :
    ∃ cs, (pathBelow path [k]).toList = cs ++ '/' :: k.toList :=
  ⟨(if path = "/" then "" else path).toList, by simp [pathBelow_cons]⟩

/-- A step leads to a path that can be continued, and never to the
root's. -/
theorem isStart_step (path : String) (h : IsStep k) :
    IsStart (pathBelow path [k]) ∧ pathBelow path [k] ≠ "/" := by
  obtain ⟨cs, hcs⟩ := toList_pathBelow_step path k
  have hk : k.toList ≠ [] := fun hnil =>
    h.nonempty (String.toList_inj.mp hnil)
  have hlast : (pathBelow path [k]).toList.getLast? = k.toList.getLast? := by
    rw [hcs, List.getLast?_append, List.getLast?_cons_of_ne_nil hk,
      Option.or_of_isSome (by simpa using hk)]
  have hend : (pathBelow path [k]).toList.getLast? ≠ some '/' := by
    rw [hlast]
    exact fun he => h.noSlash (List.mem_of_getLast? he)
  refine ⟨Or.inr hend, fun heq => hend ?_⟩
  rw [heq]
  rfl

/-- Steps can be put behind one after the other. -/
theorem pathBelow_step (path : String) (h : IsStep k) (l : Location) :
    pathBelow (pathBelow path [k]) l = pathBelow path (k :: l) := by
  cases l with
  | nil => rw [pathBelow_nil]
  | cons n l =>
      rw [pathBelow_cons, if_neg (isStart_step path h).2, pathBelow_cons,
        pathBelow_cons, String.append_assoc]
      simp [String.join_cons]

/-- The walk puts the name of a child behind its path as a step. -/
theorem childPath_eq (h : IsStart path) (k : String) :
    childPath path k = pathBelow path [k] := by
  unfold childPath withoutSlashes
  rw [pathBelow_cons]
  by_cases hroot : path = "/"
  · subst hroot
    simp
  · have hend : path.toList.getLast? ≠ some '/' := h.resolve_left hroot
    have hkeep : (path.toList.reverse.dropWhile (· = '/')).reverse
        = path.toList := by
      rcases List.eq_nil_or_concat path.toList with hnil | ⟨cs, c, hcs⟩
      · rw [hnil]
        rfl
      · rw [List.concat_eq_append] at hcs
        have hc : c ≠ '/' := by simpa [hcs] using hend
        simp [hcs, hc]
    rw [hkeep, if_neg hroot]
    simp [String.append_assoc]

-- ======================================================= reading them off

/-- The segments of a text with steps behind it. -/
theorem segments_join (text : String) (h : ∀ k ∈ l, '/' ∉ k.toList) :
    segments (text ++ String.join (l.map ("/" ++ ·)))
      = segments text ++ l := by
  induction l generalizing text with
  | nil => simp
  | cons k l ih =>
      have hk : segments (text ++ "/" ++ k) = segments text ++ [k] := by
        have hcut := splitSlashes_append_slash text.toList k.toList
        rw [splitSlashes_eq_singleton (h k (List.mem_cons_self ..))] at hcut
        simp [segments, hcut]
      have hrest := ih (text ++ "/" ++ k)
        fun n hn => h n (List.mem_cons_of_mem k hn)
      rw [hk] at hrest
      simpa [String.join_cons, String.append_assoc] using hrest

/-- With steps behind it a path is another. -/
theorem pathBelow_ne (path : String) (h : ∀ n ∈ k :: l, IsStep n) :
    pathBelow path (k :: l) ≠ path := by
  intro heq
  rw [pathBelow_cons] at heq
  have hsegments := congrArg segments heq
  rw [segments_join _ fun n hn => (h n hn).noSlash] at hsegments
  by_cases hroot : path = "/"
  · -- the root's path is two empty segments, and a step is not empty
    subst hroot
    have hk := (h k (List.mem_cons_self ..)).nonempty
    simp [segments, splitSlashes] at hsegments
    exact hk hsegments.1
  · rw [if_neg hroot] at hsegments
    simp at hsegments

/-- The steps behind a path can be read off. -/
theorem pathBelow_inj (path : String) (hl : ∀ k ∈ l, IsStep k)
    (hm : ∀ k ∈ m, IsStep k) (h : pathBelow path l = pathBelow path m) :
    l = m := by
  cases l with
  | nil =>
      cases m with
      | nil => rfl
      | cons n m => exact absurd h.symm (pathBelow_ne path hm)
  | cons k l =>
      cases m with
      | nil => exact absurd h (pathBelow_ne path hl)
      | cons n m =>
          rw [pathBelow_cons, pathBelow_cons] at h
          have hsegments := congrArg segments h
          rw [segments_join _ fun n hn => (hl n hn).noSlash,
            segments_join _ fun n hn => (hm n hn).noSlash] at hsegments
          exact List.append_cancel_left hsegments

end TreeReplica.Remote
