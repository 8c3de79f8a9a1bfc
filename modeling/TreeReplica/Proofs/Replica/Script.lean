/-
What arrives while a run goes on, and the line in which turns are taken.

A script is what arrives, in its order. It is closed by the first stop and
by a subscription that fails; what arrives before that has to be taken
(`Takes`). `Told` says why nothing that ends a run gets to the main task
before the consumer has taken all that arrived earlier: the consumer's turn
was asked for first, and what is put behind it in the line stays behind it
(`early_append_of_mem`).
-/
import TreeReplica.Replica.Loop

namespace TreeReplica.Run

variable {script past : List Arrival} {taken : List Event}

-- ================================================================ scripts

/-- The event that arrives, if it is one. -/
def Arrival.event? : Arrival → Option Event
  | .event e => some e
  | _ => none

/-- How the call that subscribes has ended, if that arrives. -/
def Arrival.settlement? : Arrival → Option (Option Remote.Fault)
  | .subscribed failure => some failure
  | _ => none

/-- The events among what arrives. -/
def events (script : List Arrival) : List Event :=
  script.filterMap Arrival.event?

/-- How the call that subscribes ends. Only the first end counts. -/
def settlement (script : List Arrival) : Option (Option Remote.Fault) :=
  script.findSome? Arrival.settlement?

/-- The subscription fails. -/
def Failed (script : List Arrival) : Prop :=
  ∃ fault, settlement script = some (some fault)

/-- A stop is asked for, or the subscription fails. -/
def Closed (script : List Arrival) : Prop :=
  .stop ∈ script ∨ Failed script

@[simp] theorem events_append (a b : List Arrival) :
    events (a ++ b) = events a ++ events b :=
  List.filterMap_append

@[simp] theorem settlement_append (a b : List Arrival) :
    settlement (a ++ b) = (settlement a).or (settlement b) :=
  List.findSome?_append

theorem Failed.append {a : List Arrival} (ha : Failed a)
    (b : List Arrival) : Failed (a ++ b) := by
  obtain ⟨fault, hfault⟩ := ha
  exact ⟨fault, by simp [hfault]⟩

theorem Closed.append {a : List Arrival} (ha : Closed a)
    (b : List Arrival) : Closed (a ++ b) :=
  ha.imp (List.mem_append_left b) (·.append b)

/-- All that arrives before the script is closed is taken, and first. -/
def Takes (script : List Arrival) (taken : List Event) : Prop :=
  ∀ before, before <+: script → ¬ Closed before → events before <+: taken

theorem Takes.append (ht : Takes script taken) (more : List Event) :
    Takes script (taken ++ more) := fun before hb ho =>
  (ht before hb ho).trans (List.prefix_append _ _)

/-- Once the script is closed it is enough to take what arrived. -/
theorem takes_of_closed (hp : past <+: script) (hc : Closed past) :
    Takes script (events past) := by
  intro before hbefore hopen
  rcases List.prefix_or_prefix_of_prefix hbefore hp with hle | hle
  · obtain ⟨more, rfl⟩ := hle
    exact ⟨events more, (events_append _ _).symm⟩
  · obtain ⟨more, rfl⟩ := hle
    exact absurd (hc.append more) hopen

-- ================================================================ the line

/-- What arrives when the turn is taken. -/
def Turn.arrival? : Turn → Option Arrival
  | .arrival a => some a
  | _ => none

/-- The turns that come before the consumer's. -/
def early (line : List Turn) : List Turn :=
  line.takeWhile (· ≠ .consumer)

@[simp] theorem early_consumer (line : List Turn) :
    early (.consumer :: line) = [] := by
  simp [early]

theorem early_cons {u : Turn} (hu : u ≠ .consumer) (line : List Turn) :
    early (u :: line) = u :: early line := by
  simp [early, hu]

theorem mem_of_mem_early {t : Turn} {line : List Turn}
    (ht : t ∈ early line) : t ∈ line :=
  (List.takeWhile_prefix _).subset ht

/-- What is put behind the consumer's turn does not come before it. -/
theorem early_append_of_mem {line : List Turn} (hc : .consumer ∈ line)
    (more : List Turn) : early (line ++ more) = early line := by
  induction line with
  | nil => cases hc
  | cons u line ih =>
      by_cases hu : u = .consumer
      · simp [hu]
      · rw [List.cons_append, early_cons hu, early_cons hu,
          ih ((List.mem_cons.mp hc).resolve_left (Ne.symm hu))]

theorem mem_early_append {t : Turn} {line more : List Turn}
    (ht : t ∈ early (line ++ more)) : t ∈ early line ∨ t ∈ more := by
  induction line with
  | nil => exact Or.inr (mem_of_mem_early ht)
  | cons u line ih =>
      by_cases hu : u = .consumer
      · simp [hu] at ht
      · rw [List.cons_append, early_cons hu] at ht
        rw [early_cons hu]
        rcases List.mem_cons.mp ht with rfl | ht
        · exact Or.inl List.mem_cons_self
        · exact (ih ht).imp_left (List.mem_cons_of_mem _)

/-- A turn that ends the run when its word gets to the main task. -/
def Signal (past : List Arrival) : Turn → Prop
  | .stopper => True
  | .finished .subscription => Failed past
  | .finished _ => True
  | _ => False

theorem Signal.earlier {later : List Arrival} {t : Turn}
    (hs : Signal later t) (hf : t = .finished .subscription →
      Failed later → Failed past) : Signal past t := by
  cases t with
  | stopper => trivial
  | finished what =>
      cases what with
      | subscription => exact hf rfl hs
      | consumer => trivial
      | stopper => trivial
  | arrival a => exact hs
  | consumer => exact hs
  | gathered => exact hs
  | main => exact hs

/-- What the turns in the line tell, where `C` says that the consumer has
caught up. -/
structure Told (past : List Arrival) (C : Prop) (line : List Turn) :
    Prop where
  cause : ∀ t ∈ line, Signal past t → Closed past ∨ C
  late : ∀ t ∈ early line, Signal past t → C
  settled : .finished .subscription ∈ line → settlement past ≠ none

namespace Told

variable {C : Prop} {line : List Turn} {t : Turn}

/-- A turn is taken. -/
theorem tail (ht : Told past C (t :: line)) (hne : t ≠ .consumer) :
    Told past C line where
  cause u hu := ht.cause u (List.mem_cons_of_mem _ hu)
  late u hu := ht.late u (early_cons hne line ▸ List.mem_cons_of_mem _ hu)
  settled hu := ht.settled (List.mem_cons_of_mem _ hu)

theorem imp {D : Prop} (ht : Told past C line) (hC : C → D) :
    Told past D line where
  cause u hu hs := (ht.cause u hu hs).imp_right hC
  late u hu hs := hC (ht.late u hu hs)
  settled := ht.settled

/-- The consumer is at its end, or has taken all that arrived. -/
theorem caught {D : Prop} (ht : Told past C (t :: line)) (hC : C → D)
    (hD : Closed past → D) : Told past D line where
  cause u hu hs :=
    (ht.cause u (List.mem_cons_of_mem _ hu) hs).imp_right hC
  late u hu hs := (ht.cause u (List.mem_cons_of_mem _
    (mem_of_mem_early hu)) hs).elim hD hC
  settled hu := ht.settled (List.mem_cons_of_mem _ hu)

/-- A turn is asked for that is no signal, or when the consumer has caught
up. -/
theorem ask (ht : Told past C line) (hs : Signal past t → C)
    (hsettled : t = .finished .subscription → settlement past ≠ none) :
    Told past C (line ++ [t]) where
  cause u hu hsignal := by
    rcases List.mem_append.mp hu with hu | hu
    · exact ht.cause u hu hsignal
    · rw [List.mem_singleton.mp hu] at hsignal
      exact Or.inr (hs hsignal)
  late u hu hsignal := by
    rcases mem_early_append hu with hu | hu
    · exact ht.late u hu hsignal
    · rw [List.mem_singleton.mp hu] at hsignal
      exact hs hsignal
  settled hu := by
    rcases List.mem_append.mp hu with hu | hu
    · exact ht.settled hu
    · exact hsettled (List.mem_singleton.mp hu).symm

/-- Something arrives that closes nothing. -/
theorem arrive {a : Arrival} (ht : Told past C line)
    (hf : Failed (past ++ [a]) → Failed past) :
    Told (past ++ [a]) C line := by
  refine ⟨fun u hu hs => (ht.cause u hu (hs.earlier fun _ => hf)).imp_left
    (·.append [a]), fun u hu hs => ht.late u hu (hs.earlier fun _ => hf),
    fun hu => ?_⟩
  simp [ht.settled hu]

/-- The script is closed by what arrives, and a turn is asked for, behind
that of the consumer unless it has caught up. -/
theorem close {a : Arrival} (ht : Told past C line)
    (hc : Closed (past ++ [a])) (hlate : C ∨ .consumer ∈ line)
    (hf : Failed (past ++ [a]) → Failed past
      ∨ .finished .subscription ∉ line)
    (hsettled : t = .finished .subscription →
      settlement (past ++ [a]) ≠ none) :
    Told (past ++ [a]) C (line ++ [t]) where
  cause _ _ _ := Or.inl hc
  late u hu hs := by
    rcases hlate with hC | hturn
    · exact hC
    rw [early_append_of_mem hturn] at hu
    refine ht.late u hu (hs.earlier fun heq hfailed => ?_)
    exact (hf hfailed).resolve_right fun hno =>
      hno (heq ▸ mem_of_mem_early hu)
  settled hu := by
    rcases List.mem_append.mp hu with hu | hu
    · simp [ht.settled hu]
    · exact hsettled (List.mem_singleton.mp hu).symm

/-- A word that is no signal tells that the subscription is made. -/
theorem made {what : Awaited} (ht : Told past C (.finished what :: line))
    (hs : ¬ Signal past (.finished what)) : settlement past = some none := by
  cases what with
  | consumer => exact absurd trivial hs
  | stopper => exact absurd trivial hs
  | subscription =>
      cases hsettled : settlement past with
      | none => exact absurd hsettled (ht.settled List.mem_cons_self)
      | some failure =>
          cases failure with
          | none => rfl
          | some fault => exact absurd ⟨fault, hsettled⟩ hs

end Told

end TreeReplica.Run
