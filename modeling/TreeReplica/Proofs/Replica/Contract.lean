/-
When the application of an event stops, and when it only reports. On a
disk without links, and with arguments that can be passed to the system,
nothing stops it but a breach of the stream's contract: an event that
should be about a node and is not, or an added node where an entry of the
other kind stands (`Replica.Breach`). It stops before anything is changed.
Every other event is announced, skipped, done or given up with a report
(`Replica.Returned`), whatever state the root and the payload slots are
in (`apply_contract`). Only what can be asked for breaks the contract: an
entry whose path is too long does not (`apply_unasked`).
-/
import TreeReplica.Proofs.Disk.Detour
import TreeReplica.Proofs.Disk.Refusal
import TreeReplica.Proofs.Remote.Ancestor
import TreeReplica.Proofs.Replica.Mirror
import TreeReplica.Proofs.Replica.Rough.Apply
import TreeReplica.Proofs.Replica.Rough.Lossless

namespace TreeReplica

open Work

-- =============================================================== repair

namespace Repair

/-- A failure that is reported: a parent that could not be made, or a
refusal of the system. -/
def Failure.Local : Failure → Prop
  | .unusable _ => True
  | .disk f => f.Refusal

variable {path parent staging moved target root : Path} {payload : String}

theorem stops_openStaging_bind {α : Type} {w : Path → Work Fault α}
    (hparent : Disk.hasNull parent.text = false)
    (hw : ∀ staging : Path, Disk.hasNull staging.text = false →
      StopsOnly Fault.Refusal (w staging)) :
    StopsOnly Fault.Refusal (openStaging parent >>= w) := by
  refine .intro (fun _ _ _ _ _ => ⟨(), trivial, trivial⟩) ?_
  intro h f h' _ hr
  simp only [bind, EStateM.bind, openStaging] at hr
  cases hm : h.disk.makeStaging parent (h.draw h.log.length) with
  | error f' =>
      rw [hm] at hr
      cases hr
      exact ⟨(), trivial, h.disk.heard_makeStaging hparent _ _ hm⟩
  | ok made =>
      obtain ⟨staging, d⟩ := made
      obtain ⟨⟨k, rfl⟩, -⟩ := Disk.makeStaging_touched hm
      rw [hm] at hr
      have hclear := Path.clear_child hparent (Disk.hasNull_stagingName k)
      exact ⟨(), trivial, (hw _ hclear).of_error hr⟩

theorem stops_putBack (hpath : Disk.hasNull path.text = false)
    (hmoved : Disk.hasNull moved.text = false) :
    StopsOnly Fault.Refusal (putBack path moved) := by
  have hback : StopsOnly Fault.Refusal (act (·.move moved path)) :=
    stops_act fun d => d.heard_move hmoved hpath
  unfold putBack
  refine (stops_ask fun d => d.heard_reaches hmoved).bind fun there => ?_
  split
  · refine (stops_ask fun d => d.heard_isDirectory hpath).bind fun made => ?_
    split
    · exact (stops_act fun d => d.heard_removeDirectory hpath).bind
        fun _ => hback
    · exact hback
  · exact stops_pure ()

theorem stops_relocate (hpath : Disk.hasNull path.text = false)
    (hpayload : Disk.hasNull payload = false) :
    StopsOnly Fault.Refusal (relocate path payload) := by
  unfold relocate
  refine stops_openStaging_bind (Path.clear_parent hpath) fun staging hs => ?_
  have hmoved := Path.clear_child hs (Path.clear_name hpath)
  have hslot : Disk.hasNull (Remote.payloadSlot path payload).text = false :=
    Path.clear_join hpath hpayload
  refine StopsOnly.ensuring (StopsOnly.rescue
    (show StopsOnly Fault.Refusal _ from ?_) fun fault hf => ?_) ?_
  · refine (stops_act fun d => d.heard_move hpath hmoved).bind fun _ => ?_
    refine (stops_act fun d => d.heard_makeDirectory hpath).bind fun _ => ?_
    exact stops_act fun d => d.heard_move hmoved hslot
  · cases fault with
    | argument e => exact hf.elim
    | system e =>
        exact (stops_putBack hpath hmoved).bind fun _ => stops_throw hf
  · unfold closeStaging
    refine (stops_ask fun d => d.heard_reaches hmoved).bind fun left => ?_
    split
    · exact stops_say _ _
    · exact stops_act fun d => d.heard_removeDirectory hs

theorem stops_makeAncestor (hpath : Disk.hasNull path.text = false)
    (hpayload : Disk.hasNull payload = false) :
    StopsOnly Fault.Refusal (makeAncestor payload path) := by
  have hmake : StopsOnly Fault.Refusal (act (·.makeDirectory path)) :=
    stops_act fun d => d.heard_makeDirectory hpath
  unfold makeAncestor
  refine (stops_ask fun d => d.heard_isDirectory hpath).bind fun there => ?_
  split
  · exact stops_pure ()
  refine stops_get_bind fun host => ?_
  split
  · refine (stops_ask fun d => d.heard_size hpath).bind fun size => ?_
    split
    · exact (stops_act fun d => d.heard_removeFile hpath).bind fun _ => hmake
    · exact (stops_say _ _).bind fun _ => stops_relocate hpath hpayload
  · exact hmake

theorem stops_makeBelow (hpayload : Disk.hasNull payload = false)
    {start : Path} (hstart : Disk.hasNull start.text = false)
    {parts : List String} (hparts : ∀ n ∈ parts, Disk.hasNull n = false) :
    StopsOnly Failure.Local (makeBelow payload start parts) := by
  induction parts generalizing start with
  | nil => exact stops_pure ()
  | cons part rest ih =>
      have hchild := Path.clear_child hstart (hparts part (by simp))
      unfold makeBelow
      refine StopsOnly.bind (StopsOnly.recast ?_) fun _ =>
        ih hchild fun n hn => hparts n (by simp [hn])
      refine (stops_makeAncestor hchild hpayload).mono fun fault hf => ?_
      cases fault with
      | system e => exact trivial
      | argument e => exact hf

theorem stops_ensureChain (htarget : Disk.hasNull target.text = false)
    (hroot : Disk.hasNull root.text = false)
    (hpayload : Disk.hasNull payload = false) :
    StopsOnly Failure.Local (ensureChain target root payload) := by
  unfold ensureChain
  split
  · exact stops_pure ()
  split
  · exact stops_throw trivial
  next parts hparts =>
  have hclear : ∀ n ∈ parts, Disk.hasNull n = false := by
    intro n hn
    unfold Path.relativeTo? at hparts
    split at hparts
    · cases hparts
      exact Path.clear_of_mem htarget (List.mem_of_mem_drop hn)
    · cases hparts
  have hthere : StopsOnly Failure.Local
      (recast .disk (ask (·.isDirectory target))) :=
    .recast (stops_ask fun d => d.heard_isDirectory htarget)
  refine (stops_makeBelow hpayload hroot hclear).bind fun _ =>
    hthere.bind fun there => ?_
  split
  · exact stops_throw trivial
  · exact stops_pure ()

end Repair

-- ======================================================== without links

namespace Disk

/-- Where there are no links, it does not matter whether one is
followed. -/
theorem linkStatus_eq_status {d : Disk}
    (hlinks : ∀ l t, d.root.view l ≠ some (.link t)) (p : Path) :
    d.linkStatus p = d.status p := by
  have hreach : ∀ subject,
      d.reach false p subject = d.reach true p subject := by
    intro subject
    obtain hsame | ⟨place, t, -, hv⟩ :=
      walk_stay (e := d.root) linkLimit (d.start p.anchor) p.parts
    · unfold reach
      rw [hsame]
    · exact absurd hv (hlinks _ t)
  rw [linkStatus, status, find, find, hreach]

/-- What is found where there are no links is a directory or a file. -/
theorem isFile_of_status {d : Disk}
    (hlinks : ∀ l t, d.root.view l ≠ some (.link t)) {p : Path} {x : Entry}
    (hx : d.status p = .ok x) : x.isFile = !x.isDirectory := by
  cases x with
  | directory cs => rfl
  | file c t => rfl
  | link t =>
      unfold status at hx
      cases hfind : d.find true p with
      | error f =>
          rw [hfind] at hx
          cases hx
      | ok found =>
          obtain ⟨l, y⟩ := found
          rw [hfind] at hx
          obtain ⟨place, -, -, hget⟩ := find_eq_ok.mp hfind
          cases hx
          exact absurd (Entry.view_eq_link.mpr hget) (hlinks l t)

end Disk

namespace Replica

variable {r : Replica} {node : Node} {place : Path} {kind : EventKind}

-- ============================================== work at places that pass

theorem stops_writeFile (hplace : Disk.hasNull place.text = false)
    (content : Bytes) {millis : Int}
    (htime : Disk.representable millis = true) :
    StopsOnly Fault.Refusal (writeFile place content millis) :=
  (stops_act fun d => d.heard_write hplace content).bind
    fun _ => stops_act fun d => d.heard_setTime hplace htime

theorem stops_removeStale (hplace : Disk.hasNull place.text = false) :
    StopsOnly Fault.Refusal (removeStale place) := by
  unfold removeStale
  refine (stops_ask fun d => d.heard_list hplace).bind fun names => ?_
  have hremove : StopsOnly Fault.Refusal (act (·.removeDirectory place)) :=
    stops_act fun d => d.heard_removeDirectory hplace
  split
  · exact hremove
  · refine (stops_say _ _).bind fun _ => ?_
    exact (stops_act fun d => d.heard_emptyTree hplace).bind fun _ => hremove

variable (hplace : Disk.hasNull place.text = false)
  (hpayload : Disk.hasNull r.payload = false)
include hplace hpayload

theorem stops_convertKind :
    StopsOnly Fault.Refusal (r.convertKind node place) := by
  have hslot : Disk.hasNull (Remote.payloadSlot place r.payload).text = false :=
    Path.clear_join hplace hpayload
  unfold convertKind
  split
  · exact stops_pure ()
  refine (stops_ask fun d => d.heard_isDirectory hplace).bind fun there => ?_
  split
  · exact (stops_act fun d => d.heard_removeFileIfAny hslot).bind
      fun _ => stops_removeStale hplace
  · refine (stops_ask fun d => d.heard_isFile hplace).bind fun there => ?_
    split
    · exact stops_act fun d => d.heard_removeFile hplace
    · exact stops_pure ()

theorem stops_remove : StopsOnly Fault.Refusal (r.remove place) := by
  have hslot : Disk.hasNull (Remote.payloadSlot place r.payload).text = false :=
    Path.clear_join hplace hpayload
  unfold remove
  refine (stops_ask fun d => d.heard_isDirectory hplace).bind fun there => ?_
  split
  · refine (stops_act fun d => d.heard_removeFileIfAny hslot).bind fun _ => ?_
    split
    · exact stops_removeStale hplace
    · exact stops_pure ()
  · refine stops_get_bind fun host => ?_
    split
    · exact stops_act fun d => d.heard_removeFile hplace
    · exact stops_say _ _

theorem stops_materialize (hroot : Disk.hasNull r.root.text = false)
    (htime : Disk.representable node.modifiedAt = true) :
    StopsOnly Repair.Failure.Local (r.materialize node place) := by
  have hslot : Disk.hasNull (Remote.payloadSlot place r.payload).text = false :=
    Path.clear_join hplace hpayload
  have hfill : StopsOnly Fault.Refusal (do
      if node.hasData then
        writeFile (Remote.payloadSlot place r.payload) node.bytes
          node.modifiedAt
      else act (·.removeFileIfAny (Remote.payloadSlot place r.payload))) := by
    split
    · exact stops_writeFile hslot _ htime
    · exact stops_act fun d => d.heard_removeFileIfAny hslot
  unfold materialize
  by_cases hat : place = r.root
  · subst hat
    simp only [ne_eq, not_true_eq_false, if_false, decide_false,
      Bool.and_false]
    exact StopsOnly.recast (f := Repair.Failure.disk) hfill
  · rw [if_pos hat]
    refine (Repair.stops_ensureChain (Path.clear_parent hplace) hroot
      hpayload).bind fun _ => StopsOnly.recast (f := Repair.Failure.disk) ?_
    simp only [hat, ne_eq, not_false_eq_true, if_true, decide_true,
      Bool.and_true]
    split
    · exact stops_writeFile hplace _ htime
    · exact (stops_act fun d => d.heard_ensureDirectory hplace).bind
        fun _ => hfill

omit hplace hpayload

-- ============================================================== the check

/-- An entry of the other kind stands where a node is kept, and not at the
root. -/
structure Occupied (r : Replica) (d : Disk) (node : Node) (place : Path) :
    Prop where
  below : node.path ≠ r.base
  other : ∃ x, d.linkStatus place = .ok x
    ∧ (x.isDirectory = true ∧ node.isContainer = false
      ∨ x.isFile = true ∧ node.isContainer = true)

/-- The ways in which an event breaks the contract of the stream. -/
inductive Breach (r : Replica) (d : Disk) (e : Event) : Violation → Prop
  | withoutNode (hkind : e.kind ≠ .initialized) (hnode : e.node = none) :
      Breach r d e (.withoutNode e.kind)
  | occupied {node : Node} {place : Path} (hkind : e.kind = .added)
      (hnode : e.node = some node)
      (hlocal : Remote.toLocal node.path r.root r.base r.payload = .ok place)
      (hoccupied : r.Occupied d node place) :
      Breach r d e (.occupied node.isContainer node.path place)

/-- Only the base is kept at the root itself. -/
theorem toLocal_eq_root {path : String}
    (hlocal : Remote.toLocal path r.root r.base r.payload = .ok place) :
    place = r.root ↔ path = r.base := by
  obtain ⟨l, hplace, rfl⟩ := place?_of_toLocal hlocal
  rw [Path.descend_eq_self]
  exact Remote.place?_eq_nil hplace

/-- Off the base the check is about one entry: a place is occupied if the
entry there and the node are of two kinds. -/
theorem occupied_iff_kinds {d : Disk} {x : Entry}
    (hthere : d.linkStatus place = .ok x)
    (hkinds : x.isFile = !x.isDirectory) (hbase : node.path ≠ r.base) :
    r.Occupied d node place ↔ x.isDirectory ≠ node.isContainer := by
  constructor
  · intro ho
    obtain ⟨y, hy, hother⟩ := ho.other
    cases hthere.symm.trans hy
    rw [hkinds] at hother
    obtain ⟨hd, hc⟩ | ⟨hd, hc⟩ := hother
    · simp [hd, hc]
    · simpa [hc] using hd
  · intro hne
    refine ⟨hbase, x, hthere, ?_⟩
    rw [hkinds]
    revert hne
    cases x.isDirectory <;> cases node.isContainer <;> simp

/-- The check of an added node fails exactly where an entry of the other
kind stands. It changes nothing. -/
theorem checkAdded_eq {h : Host}
    (hlinks : ∀ l t, h.disk.root.view l ≠ some (.link t))
    (hlocal : Remote.toLocal node.path r.root r.base r.payload = .ok place) :
    r.Occupied h.disk node place
        ∧ r.checkAdded node place h
          = .error (.violation
            (.occupied node.isContainer node.path place)) h
      ∨ ¬ r.Occupied h.disk node place
        ∧ r.checkAdded node place h = .ok () h := by
  by_cases hroot : place = r.root
  · refine Or.inr ⟨fun ho => ho.below ((toLocal_eq_root hlocal).mp hroot), ?_⟩
    rw [checkAdded, get_bind_eq]
    simp only [hroot, decide_true, Bool.true_or, if_true]
    rfl
  have hcheck : r.checkAdded node place h
      = if h.disk.occupied place then
          (do
            let same ← recast Setback.disk <|
              if node.isContainer then ask (·.isDirectory place)
              else ask (·.isFile place)
            if !same then
              throw (.violation
                (.occupied node.isContainer node.path place)) :
            Work Setback Unit) h
        else .ok () h := by
    rw [checkAdded, get_bind_eq]
    simp only [hroot, decide_false, Bool.false_or]
    cases h.disk.occupied place <;> rfl
  rw [hcheck, Disk.occupied]
  cases hthere : h.disk.linkStatus place with
  | error f =>
      refine Or.inr ⟨fun ho => ?_, rfl⟩
      obtain ⟨x, hx, -⟩ := ho.other
      cases hthere.symm.trans hx
  | ok x =>
      have hstatus := (Disk.linkStatus_eq_status hlinks place).symm.trans hthere
      have hsame : recast Setback.disk
            (if node.isContainer then ask (·.isDirectory place)
              else ask (·.isFile place)) h
          = .ok (if node.isContainer then x.isDirectory else x.isFile) h := by
        refine recast_ok_eq ?_
        split <;> simp only [ask, Disk.isDirectory, Disk.isFile, hstatus,
          Disk.holds]
      have hkinds := Disk.isFile_of_status hlinks hstatus
      have hbase : node.path ≠ r.base := mt (toLocal_eq_root hlocal).mpr hroot
      have hoccupied := occupied_iff_kinds hthere hkinds hbase
      rw [if_pos rfl, bind_eq hsame, hoccupied, hkinds]
      cases x.isDirectory <;> cases node.isContainer <;>
        first
        | exact Or.inl ⟨by simp, rfl⟩
        | exact Or.inr ⟨by simp, rfl⟩

-- =============================================================== the event

/-- The work on an event about a node that is kept is stopped by the
check, on an untouched disk, or only by what is reported. -/
theorem settle_cases {h : Host}
    (hlinks : ∀ l t, h.disk.root.view l ≠ some (.link t))
    (hroot : Disk.hasNull r.root.text = false)
    (hpayload : Disk.hasNull r.payload = false)
    (hlocal : Remote.toLocal node.path r.root r.base r.payload = .ok place)
    (hplace : Disk.hasNull place.text = false)
    (htime : Disk.representable node.modifiedAt = true) (kind : EventKind) :
    (kind = .added ∧ r.Occupied h.disk node place)
        ∧ r.settle kind node place h
          = .error (.violation
            (.occupied node.isContainer node.path place)) h
      ∨ ¬ (kind = .added ∧ r.Occupied h.disk node place)
        ∧ ∀ setback h', r.settle kind node place h = .error setback h' →
          ∃ f, setback = .repair f ∧ f.Local := by
  have hkeep : StopsOnly (fun setback => ∃ f, setback = .repair f ∧ f.Local)
      (recast Setback.repair (r.materialize node place)) :=
    .recast ((stops_materialize hplace hpayload hroot htime).mono
      fun f hf => ⟨f, rfl, hf⟩)
  have hdisk : ∀ {w : Work Fault Unit}, StopsOnly Fault.Refusal w →
      StopsOnly (fun setback => ∃ f, setback = .repair f ∧ f.Local)
        (recast Setback.disk w) := fun hw =>
    .recast (hw.mono fun f hf => ⟨.disk f, rfl, hf⟩)
  cases kind with
  | added =>
      obtain ⟨ho, hcheck⟩ | ⟨ho, hcheck⟩ :=
        checkAdded_eq hlinks hlocal
      · exact Or.inl ⟨⟨rfl, ho⟩, bind_error_eq hcheck⟩
      · refine Or.inr ⟨fun hmid => ho hmid.2, fun setback h' hr => ?_⟩
        rw [settle, bind_eq hcheck] at hr
        exact hkeep.of_error hr
  | updated =>
      refine Or.inr ⟨nofun, fun setback h' hr => ?_⟩
      exact ((hdisk (stops_convertKind hplace hpayload)).bind
        fun _ => hkeep).of_error hr
  | removed =>
      refine Or.inr ⟨nofun, fun setback h' hr => ?_⟩
      exact (hdisk (stops_remove hplace hpayload)).of_error hr
  | initialized => exact Or.inr ⟨nofun, fun _ _ hr => by cases hr⟩

/-- The ways in which the application of an event returns: it was only
announced, or skipped with the disk as it was, or it was done, or it was
given up with a report after a parent could not be made or the system
refused a call. -/
inductive Returned (r : Replica) (e : Event) (h : Host) : Host → Prop
  | announced (hkind : e.kind = .initialized) :
      Returned r e h (e.announced h)
  | skipped {node : Node} {rejection : Remote.Rejection}
      (hkind : e.kind ≠ .initialized) (hnode : e.node = some node)
      (hlocal : Remote.toLocal node.path r.root r.base r.payload
        = .error rejection) :
      Returned r e h { e.announced h with log := (e.announced h).log
        ++ [⟨.info, s!"Skipping {e}: {rejection.message}"⟩] }
  | done {node : Node} {place : Path} {h' : Host}
      (hkind : e.kind ≠ .initialized) (hnode : e.node = some node)
      (hlocal : Remote.toLocal node.path r.root r.base r.payload = .ok place)
      (hdone : r.settle e.kind node place (e.announced h) = .ok () h') :
      Returned r e h h'
  | unrepaired {node : Node} {place : Path} {h' : Host}
      {cause : Repair.Cause}
      (hkind : e.kind ≠ .initialized) (hnode : e.node = some node)
      (hlocal : Remote.toLocal node.path r.root r.base r.payload = .ok place)
      (hstopped : r.settle e.kind node place (e.announced h)
        = .error (.repair (.unusable cause)) h') :
      Returned r e h { h' with log := h'.log
        ++ [⟨.error, s!"Failed to repair parents for {e}: {cause.message}"⟩] }
  | refused {node : Node} {place : Path} {h' : Host} {x : SystemError}
      (hkind : e.kind ≠ .initialized) (hnode : e.node = some node)
      (hlocal : Remote.toLocal node.path r.root r.base r.payload = .ok place)
      (hstopped : r.settle e.kind node place (e.announced h)
        = .error (.repair (.disk (.system x))) h') :
      Returned r e h { h' with log := h'.log
        ++ [⟨.error, s!"Failed to apply {e}: {x.message}"⟩] }

/-- How the application of an event ends. -/
private theorem apply_ends {h : Host} {e : Event}
    (hlinks : ∀ l t, h.disk.root.view l ≠ some (.link t))
    (hroot : Disk.hasNull r.root.text = false)
    (hpayload : Disk.hasNull r.payload = false) (he : e.Proper) :
    (∃ v, r.Breach h.disk e v
        ∧ r.apply e h = .error (.violation v) (e.announced h))
      ∨ (∀ v, ¬ r.Breach h.disk e v)
        ∧ ∃ h', r.apply e h = .ok () h' ∧ r.Returned e h h' := by
  by_cases hkind : e.kind = .initialized
  · refine Or.inr ⟨fun v hv => ?_, _, apply_initialized hkind r h,
      .announced hkind⟩
    cases hv with
    | withoutNode hother => exact hother hkind
    | occupied hadded => cases hkind.symm.trans hadded
  cases hnode : e.node with
  | none => exact Or.inl ⟨_, .withoutNode hkind hnode,
      apply_without hkind hnode r h⟩
  | some node =>
      cases hlocal : Remote.toLocal node.path r.root r.base r.payload with
      | error rejection =>
          refine Or.inr ⟨fun v hv => ?_, _, apply_skipped hkind hnode hlocal h,
            .skipped hkind hnode hlocal⟩
          cases hv with
          | withoutNode _ hnone => cases hnode.symm.trans hnone
          | occupied _ hnode' hlocal' =>
              cases hnode.symm.trans hnode'
              cases hlocal.symm.trans hlocal'
      | ok place =>
          obtain ⟨hpath, htime⟩ := he node hnode
          obtain ⟨l, hplace, rfl⟩ := place?_of_toLocal hlocal
          have hclear := Path.clear_descend hroot fun n hn =>
            (Remote.place?_segments hpath hplace n hn).clear
          have happly := apply_eq (h := h) hkind hnode hlocal
          obtain ⟨⟨hadded, ho⟩, hset⟩ | ⟨hno, hset⟩ :=
            settle_cases (h := e.announced h) hlinks hroot hpayload hlocal
              hclear htime e.kind
          · rw [hset] at happly
            exact Or.inl ⟨_, .occupied hadded hnode hlocal ho, happly⟩
          refine Or.inr ⟨fun v hv => ?_, ?_⟩
          · cases hv with
            | withoutNode _ hnone => cases hnode.symm.trans hnone
            | occupied hadded hnode' hlocal' ho =>
                cases hnode.symm.trans hnode'
                cases hlocal.symm.trans hlocal'
                exact hno ⟨hadded, ho⟩
          cases hresult : r.settle e.kind node (r.root.descend l)
              (e.announced h) with
          | ok u h' =>
              rw [hresult] at happly
              exact ⟨_, happly, .done hkind hnode hlocal hresult⟩
          | error setback h' =>
              rw [hresult] at happly
              obtain ⟨f, rfl, hf⟩ := hset setback h' hresult
              rcases f with cause | x | x
              · exact ⟨_, happly, .unrepaired hkind hnode hlocal hresult⟩
              · exact ⟨_, happly, .refused hkind hnode hlocal hresult⟩
              · exact hf.elim

/-- The application of an event stops exactly if the event breaks the
contract of the stream, and then it has only been announced; in every
other case it returns, with whatever failed reported. -/
theorem apply_contract {h : Host} {e : Event}
    (hlinks : ∀ l t, h.disk.root.view l ≠ some (.link t))
    (hroot : Disk.hasNull r.root.text = false)
    (hpayload : Disk.hasNull r.payload = false) (he : e.Proper) :
    ((∃ halt h', r.apply e h = .error halt h')
        ↔ ∃ v, r.Breach h.disk e v)
      ∧ (∀ halt h', r.apply e h = .error halt h' →
        (∃ v, r.Breach h.disk e v ∧ halt = .violation v)
          ∧ h' = e.announced h)
      ∧ ∀ h', r.apply e h = .ok () h' → r.Returned e h h' := by
  obtain ⟨v, hv, happly⟩ | ⟨hno, h₁, happly, hreturned⟩ :=
    apply_ends hlinks hroot hpayload he
  · refine ⟨iff_of_true ⟨_, _, happly⟩ ⟨v, hv⟩, fun halt h' hr => ?_,
      fun h' hr => ?_⟩
    · cases happly.symm.trans hr
      exact ⟨⟨v, hv, rfl⟩, rfl⟩
    · cases happly.symm.trans hr
  · refine ⟨iff_of_false ?_ fun ⟨v, hv⟩ => hno v hv, fun halt h' hr => ?_,
      fun h' hr => ?_⟩
    · rintro ⟨halt, h', hr⟩
      cases happly.symm.trans hr
    · cases happly.symm.trans hr
    · cases happly.symm.trans hr
      exact hreturned

/-- A leaf is added where a directory stands. -/
theorem apply_contract_directory :
    let r : Replica := { root := ⟨.here, ["m"]⟩ }
    let h : Host := { disk := ⟨.directory [("m", .directory
      [("a", .directory [])])], []⟩ }
    let e : Event := ⟨.added, some { path := "/a" }⟩
    (∀ l t, h.disk.root.view l ≠ some (.link t))
      ∧ Disk.hasNull r.root.text = false ∧ Disk.hasNull r.payload = false
      ∧ e.Proper
      ∧ ∃ v, r.Breach h.disk e v
        ∧ r.apply e h = .error (.violation v) (e.announced h) := by
  intro r h e
  have hlinks : ∀ l t, h.disk.root.view l ≠ some (.link t) :=
    Entry.noLinks_of_linkFree rfl
  have hroot : Disk.hasNull r.root.text = false := by decide +kernel
  have hpayload : Disk.hasNull r.payload = false := by decide +kernel
  have he : e.Proper := by decide +kernel
  obtain ⟨-, hstops, -⟩ := apply_contract (h := h) hlinks hroot hpayload he
  have hfails : endsWell (fun _ => true) (r.apply e h) = false := by
    decide +kernel
  refine ⟨hlinks, hroot, hpayload, he, ?_⟩
  cases hresult : r.apply e h with
  | ok u h' =>
      rw [hresult] at hfails
      cases hfails
  | error halt h' =>
      obtain ⟨⟨v, hv, rfl⟩, rfl⟩ := hstops halt h' hresult
      exact ⟨v, hv, rfl⟩

/-- An entry whose path is too long cannot be asked for, so it clashes with
nothing. -/
theorem apply_unasked {h : Host} {e : Event} {node : Node} {l place : Location}
    {cs : List (String × Entry)}
    (hroot : h.disk.find true r.root = .ok (l, .directory cs))
    (hlinks : ∀ m t, (Entry.directory cs).view m ≠ some (.link t))
    (hp : IsSegment r.payload) (hkind : e.kind ≠ .initialized)
    (hnode : e.node = some node) (he : e.Proper)
    (hplace : r.place? node.path = some place)
    (hlong : pathLimit ≤ (r.root.descend place).text.utf8ByteSize) :
    ∃ h', r.apply e h = .ok () h' := by
  obtain ⟨s, hpath, -, -, hopen, hs⟩ := Footing.exists_bears hroot hlinks
  obtain ⟨hvalid, htime⟩ := he node hnode
  have happly := Footing.applies_at hopen ⟨hpath.symm, rfl, hp⟩ hkind hnode
    hplace (Remote.place?_segments hvalid hplace) htime hs
  cases hresult : r.apply e h with
  | ok u h' => exact ⟨h', rfl⟩
  | error halt h' =>
      rw [hresult] at happly
      cases happly with
      | broken breaks bears =>
          obtain ⟨k, hk, hclash⟩ := (Footing.breaks_iff hnode).mp breaks
          cases hplace.symm.trans hk
          have hshort := hclash.fits.short
          rw [hpath] at hshort
          omega

/-- So an added leaf need not be refused where a directory stands. -/
theorem apply_contract_too_long :
    let r : Replica := { root := ⟨.here, Disk.crossing 818⟩ }
    let h : Host := { disk := Disk.crossed [("node", .directory [])] }
    let e : Event := ⟨.added, some { path := "/node" }⟩
    (∀ l t, h.disk.root.view l ≠ some (.link t))
      ∧ Disk.hasNull r.root.text = false ∧ Disk.hasNull r.payload = false
      ∧ e.Proper
      ∧ h.disk.find true r.root
        = .ok (["m"], .directory [("node", .directory [])])
      ∧ r.place? "/node" = some ["node"]
      ∧ h.disk.root.view (["m"] ++ ["node"]) = some .directory
      ∧ ∃ h', r.apply e h = .ok () h' := by
  intro r h e
  have hroot : h.disk.find true r.root
      = .ok (["m"], .directory [("node", .directory [])]) :=
    Disk.find_crossing _ (by decide)
  have he : e.Proper := by decide +kernel
  have hplace : r.place? "/node" = some ["node"] := by decide +kernel
  refine ⟨Entry.noLinks_of_linkFree rfl, Disk.clear_crossing 818,
    by decide, he, hroot, hplace, rfl, apply_unasked hroot
      (Entry.noLinks_of_linkFree rfl) (by decide) (by simp [e]) rfl he hplace
      ?_⟩
  rw [Disk.size_descend_crossing]
  decide +kernel

end Replica

end TreeReplica
