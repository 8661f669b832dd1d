import CquptRaft.Storage.InstallSteps
import Mathlib.Logic.Relation

/-!
# What a published snapshot holds

The temporary file belongs to all handlers of a node, so that a handler may copy what another one
has written. Where no handler opens it while another is between its own opening and the end of its
copy, and no two handlers of one index work under the same millisecond, every directory that a
handler publishes holds the data of the request it is labelled with.
-/

namespace CquptRaft

open Files (Path)
open Volumes FileSnapshotStorage

namespace InstallPoint

variable {temp : Path Bytes} {request : InstallSnapshotRequest Bytes} {v v' : SnapshotVolume}
  {point point' : InstallPoint} {out : InstallOutcome} {clock : Nat}

/-! ## Handlers side by side -/

/-- Two handlers that do not share a name or a file. -/
structure Separate (request : InstallSnapshotRequest Bytes) (point : InstallPoint)
    (request' : InstallSnapshotRequest Bytes) (point' : InstallPoint) : Prop where
  temp : point.usesTemp = true → point'.usesTemp = false
  staging : ∀ nowMs, point.time? = some nowMs → point'.time? = some nowMs →
    request.lastIncludedIndex ≠ request'.lastIncludedIndex
  files : ∀ n ∈ point.openFiles, n ∉ point'.openFiles

variable {request' : InstallSnapshotRequest Bytes} {other : InstallPoint}

theorem Separate.symm (h : Separate request point request' other) :
    Separate request' other request point := by
  refine ⟨fun huse => ?_, fun t ht ht' heq => h.staging t ht' ht heq.symm,
    fun n hn hn' => h.files n hn' hn⟩
  have := h.temp
  grind

theorem Separate.owns (htemp : temp.dir = none) (h : Separate request point request' other)
    {q : Path Bytes} (hq : point.Owns temp request q) : ¬ other.Owns temp request' q := by
  rintro (⟨huse', rfl⟩ | ⟨t', ht', hdir'⟩)
  · rcases hq with ⟨huse, _⟩ | ⟨t, _, hdir⟩
    · rw [h.temp huse] at huse'
      cases huse'
    · rw [htemp] at hdir
      cases hdir
  · rcases hq with ⟨_, rfl⟩ | ⟨t, ht, hdir⟩
    · rw [htemp] at hdir'
      cases hdir'
    · obtain ⟨hindex, rfl⟩ := stagingDir_inj (Option.some.inj (hdir.symm.trans hdir'))
      exact h.staging t ht ht' hindex

/-- An open file has been opened under one of the handler's own names. -/
theorem Facts.held {n : Nat} (h : other.Facts temp request' v) (hn : n ∈ other.openFiles) :
    ∃ q bytes, other.Owns temp request' q ∧ v.Held q n bytes := by
  cases other with
  | writingTemp file written =>
    rw [List.mem_singleton.mp hn]
    exact ⟨temp, _, .inl ⟨rfl, rfl⟩, h.1⟩
  | openingOutput nowMs input =>
    rw [List.mem_singleton.mp hn]
    exact ⟨temp, _, .inl ⟨rfl, rfl⟩, h⟩
  | copying nowMs input output buffer written =>
    rcases List.mem_cons.mp hn with rfl | hn
    · exact ⟨temp, _, .inl ⟨rfl, rfl⟩, h.1⟩
    · rw [List.mem_singleton.mp hn]
      exact ⟨_, _, .inr ⟨nowMs, rfl, rfl⟩, h.2.1⟩
  | flushing nowMs output buffer written =>
    rw [List.mem_singleton.mp hn]
    exact ⟨_, _, .inr ⟨nowMs, rfl, rfl⟩, h.1⟩
  | writingMeta nowMs checksum file written =>
    rw [List.mem_singleton.mp hn]
    exact ⟨_, _, .inr ⟨nowMs, rfl, rfl⟩, h.2.1⟩
  | _ => cases hn

/-- A file found under a name of one handler is not open in another. -/
theorem Facts.not_open {q : Path Bytes} {n : Nat} (h : other.Facts temp request' v)
    (hq : ¬ other.Owns temp request' q) (hfound : v.find q = some n) : n ∉ other.openFiles := by
  intro hn
  obtain ⟨p, bytes, howns, hheld⟩ := h.held hn
  rw [← hheld.name q hfound] at howns
  exact hq howns

theorem Facts.not_opened {q : Path Bytes} {n : Nat} (h : other.Facts temp request' v)
    (hq : ¬ other.Owns temp request' q) (hopen : v.openTrunc q = some (v', n)) :
    n ∉ other.openFiles := by
  intro hn
  obtain ⟨p, bytes, howns, hheld⟩ := h.held hn
  refine hheld.ne_openTrunc hopen ?_ rfl
  rintro rfl
  exact hq howns

theorem Separate.keeps (htemp : temp.dir = none) (h : Separate request point request' other)
    (hkeeps : point.Keeps temp request v point') (hfacts : other.Facts temp request' v) :
    Separate request point' request' other := by
  refine ⟨fun huse => h.temp (hkeeps.uses huse), fun t ht => h.staging t (hkeeps.time t ht),
    fun n hn => ?_⟩
  rcases hkeeps.files n hn with hold | ⟨q, howns, hfound⟩
  · exact h.files n hold
  · exact hfacts.not_open (h.owns htemp howns) hfound

/-- When a handler opens the temporary file no other one uses it, and when it takes the time no
other one of its index works under that time. -/
def Clear (request : InstallSnapshotRequest Bytes) (point : InstallPoint) (nowMs : Nat)
    (request' : InstallSnapshotRequest Bytes) (other : InstallPoint) : Prop :=
  (point = openingTemp → other.usesTemp = false) ∧
    (point = saving → other.time? = some nowMs →
      request.lastIncludedIndex ≠ request'.lastIncludedIndex)

instance (request : InstallSnapshotRequest Bytes) (point : InstallPoint) (nowMs : Nat)
    (request' : InstallSnapshotRequest Bytes) (other : InstallPoint) :
    Decidable (Clear request point nowMs request' other) :=
  inferInstanceAs (Decidable (_ ∧ _))

/-- A name that a rename into place does not touch. -/
structure Outside (temp : Path Bytes) : Prop where
  dir : temp.dir = none
  staging : ∀ index nowMs, temp.name ≠ stagingDir index nowMs
  final : ∀ index, temp.name ≠ finalDir index

theorem not_owns_temp (htemp : temp.dir = none) (h : other.usesTemp = false) :
    ¬ other.Owns temp request temp := by
  rintro (⟨huse, _⟩ | ⟨t, _, hdir⟩)
  · rw [h] at huse
    cases huse
  · rw [htemp] at hdir
    cases hdir

/-- A step of one handler leaves the facts of the others as they are. -/
theorem Effect.facts (htemp : Outside temp) (hwf : v.Wf)
    (heffect : Effect temp request clock v point v' point')
    (hsep : Separate request point request' other)
    (hclear : Clear request point clock request' other) (hother : other.Facts temp request' v) :
    other.Facts temp request' v' := by
  cases heffect with
  | quiet hfind hcontent hnext hkeeps =>
    exact hother.frame hwf (.of_shrinks hfind hcontent hnext) (fun _ _ h => h) fun _ _ h => h
  | takesTime => exact hother
  | opensTemp hopen =>
    have hout : ¬ other.Owns temp request' temp := not_owns_temp htemp.dir (hclear.1 rfl)
    refine hother.frame hwf (Volume.frame_openTrunc hwf hopen) ?_ ?_
    · rintro q hq rfl
      exact hout hq
    · rintro n hn rfl
      exact hother.not_opened hout hopen hn
  | @opens v' point point' nowMs n name hopen htime _ _ _ =>
    have hout := hsep.owns htemp.dir
      (q := ⟨some (stagingDir request.lastIncludedIndex nowMs), name⟩) (.inr ⟨nowMs, htime, rfl⟩)
    refine hother.frame hwf (Volume.frame_openTrunc hwf hopen) ?_ ?_
    · rintro q hq rfl
      exact hout hq
    · rintro n hn rfl
      exact hother.not_opened hout hopen hn
  | writes new hheld howns hfile _ =>
    refine hother.frame hwf (hheld.frame_setContent new) ?_ ?_
    · rintro q hq rfl
      exact hsep.owns htemp.dir howns hq
    · rintro n hn rfl
      exact hsep.files n hfile hn
  | @renames v' nowMs hrenamed =>
    refine hother.frame hwf (Volume.frame_rename hrenamed) ?_ fun _ _ h => h
    rintro q (⟨_, rfl⟩ | ⟨t, ht, hdir⟩) hmoved
    · have hname := htemp.staging request.lastIncludedIndex nowMs
      have hname' := htemp.final request.lastIncludedIndex
      have hnone := htemp.dir
      unfold Volume.Moved at hmoved
      grind
    · unfold Volume.Moved at hmoved
      rw [hdir] at hmoved
      rcases hmoved with heq | heq | heq | heq
      · obtain ⟨hindex, rfl⟩ := stagingDir_inj (Option.some.inj heq)
        exact hsep.staging t rfl ht hindex.symm
      · exact stagingDir_ne_finalDir _ _ _ (Option.some.inj heq)
      · rw [heq] at hdir
        cases hdir
      · rw [heq] at hdir
        cases hdir

/-- A step of a handler whose way is clear keeps it apart from the others. -/
theorem Effect.separate (htemp : Outside temp)
    (heffect : Effect temp request clock v point v' point')
    (hsep : Separate request point request' other)
    (hclear : Clear request point clock request' other) (hother : other.Facts temp request' v) :
    Separate request point' request' other := by
  cases heffect with
  | quiet _ _ _ hkeeps => exact hsep.keeps htemp.dir hkeeps hother
  | takesTime =>
    refine ⟨fun _ => hsep.temp rfl, ?_, by simp [openFiles]⟩
    rintro t ht ht'
    cases ht
    exact hclear.2 rfl ht'
  | opensTemp hopen =>
    have hout : ¬ other.Owns temp request' temp := not_owns_temp htemp.dir (hclear.1 rfl)
    refine ⟨fun _ => hclear.1 rfl, by simp [time?], fun n hn => ?_⟩
    rw [List.mem_singleton.mp hn]
    exact hother.not_opened hout hopen
  | @opens v' point point' nowMs n name hopen htime htime' hfiles huses =>
    have hout := hsep.owns htemp.dir
      (q := ⟨some (stagingDir request.lastIncludedIndex nowMs), name⟩) (.inr ⟨nowMs, htime, rfl⟩)
    refine ⟨fun huse => hsep.temp (huses huse), fun t ht => hsep.staging t ?_, fun m hm => ?_⟩
    · rw [htime, ← htime', ht]
    · rcases hfiles m hm with rfl | hold
      · exact hother.not_opened hout hopen
      · exact hsep.files m hold
  | writes new _ _ _ hkeeps => exact hsep.keeps htemp.dir hkeeps hother
  | renames _ => exact ⟨by simp [usesTemp], by simp [time?], by simp [openFiles]⟩

theorem Effect.wf (hwf : v.Wf) (heffect : Effect temp request clock v point v' point') : v'.Wf := by
  cases heffect with
  | quiet hfind _ hnext _ => exact hwf.of_shrinks hfind hnext
  | takesTime => exact hwf
  | opensTemp hopen => exact hwf.openTrunc hopen
  | opens hopen => exact hwf.openTrunc hopen
  | writes => exact hwf.setContent _ _
  | renames hrenamed => exact hwf.rename hrenamed

/-! ## Published directories -/

/-- Every file of the directory was there at the start, with the same content. -/
def LeftFrom (v₀ v : SnapshotVolume) (dir : Bytes) : Prop :=
  ∀ name n, v.find ⟨some dir, name⟩ = some n →
    v₀.find ⟨some dir, name⟩ = some n ∧ v.content n = v₀.content n

/-- The directory holds the data of a request of that index, with a meta file that says so, or
is left from the start. -/
def Labelled (v₀ v : SnapshotVolume) (requests : List (InstallSnapshotRequest Bytes))
    (index : Nat) : Prop :=
  (∃ request ∈ requests, request.lastIncludedIndex = index ∧
    v.Holds ⟨some (finalDir index), kSnapshotDataFileName⟩ request.snapshotData ∧
    ∃ nowMs checksum, v.Holds ⟨some (finalDir index), kSnapshotMetaFileName⟩
      (metaBytes (stagedFields request nowMs checksum))) ∨
  LeftFrom v₀ v (finalDir index)

variable {v₀ : SnapshotVolume} {requests : List (InstallSnapshotRequest Bytes)} {index : Nat}

theorem Labelled.frame {names : Path Bytes → Prop} {numbers : Nat → Prop} (hwf : v.Wf)
    (h : Labelled v₀ v requests index) (hframe : Volume.Frame v v' names numbers)
    (hout : ∀ name, ¬ names ⟨some (finalDir index), name⟩) : Labelled v₀ v' requests index := by
  rcases h with ⟨request, hmem, hindex, hdata, nowMs, checksum, hmeta⟩ | hleft
  · exact .inl ⟨request, hmem, hindex, hdata.frame hwf hframe (hout _), nowMs, checksum,
      hmeta.frame hwf hframe (hout _)⟩
  · right
    intro name n hfound
    have hbefore : v.find ⟨some (finalDir index), name⟩ = some n := by
      rcases hframe.same _ (hout name) with hnone | hsame
      · rw [hnone] at hfound
        cases hfound
      · rw [← hsame, hfound]
    obtain ⟨hstart, hcontent⟩ := hleft name n hbefore
    refine ⟨hstart, ?_⟩
    rw [hframe.content n (hwf.lt_next _ _ hbefore)
      fun hn => hout name (hframe.named _ n hn hbefore), hcontent]

theorem Owns.not_final {q : Path Bytes} (htemp : temp.dir = none) (h : point.Owns temp request q)
    (name : Bytes) : q ≠ ⟨some (finalDir index), name⟩ := by
  rintro rfl
  rcases h with ⟨_, heq⟩ | ⟨t, _, hdir⟩
  · rw [← heq] at htemp
    cases htemp
  · exact stagingDir_ne_finalDir _ _ _ (Option.some.inj hdir).symm

/-- Only a rename changes what a published directory holds, and it puts the handler's own data
there. -/
theorem Effect.labelled (htemp : Outside temp) (hwf : v.Wf) (hmem : request ∈ requests)
    (hfacts : point.Facts temp request v) (heffect : Effect temp request clock v point v' point')
    (h : Labelled v₀ v requests index) : Labelled v₀ v' requests index := by
  cases heffect with
  | quiet hfind hcontent hnext _ =>
    exact h.frame hwf (.of_shrinks hfind hcontent hnext) fun _ h => h
  | takesTime => exact h
  | opensTemp hopen =>
    refine h.frame hwf (Volume.frame_openTrunc hwf hopen) fun name heq => ?_
    have hdir := htemp.dir
    rw [← heq] at hdir
    cases hdir
  | opens hopen =>
    refine h.frame hwf (Volume.frame_openTrunc hwf hopen) fun name heq => ?_
    exact stagingDir_ne_finalDir _ _ _ (Option.some.inj (congrArg Path.dir heq)).symm
  | writes new hheld howns _ _ =>
    exact h.frame hwf (hheld.frame_setContent new) fun name heq =>
      howns.not_final htemp.dir name heq.symm
  | @renames v' nowMs hrenamed =>
    by_cases hindex : request.lastIncludedIndex = index
    · obtain ⟨hdata, checksum, hmeta⟩ := hfacts
      subst hindex
      exact .inl ⟨request, hmem, rfl, hdata.rename hrenamed, nowMs, checksum,
        hmeta.rename hrenamed⟩
    · refine h.frame hwf (Volume.frame_rename hrenamed) fun name hmoved => ?_
      rcases hmoved with heq | heq | heq | heq
      · exact stagingDir_ne_finalDir _ _ _ (Option.some.inj heq).symm
      · exact hindex (finalDir_inj (Option.some.inj heq)).symm
      · cases heq
      · cases heq

end InstallPoint

/-! ## Runs -/

open InstallPoint

theorem installTempPath_outside (nodeId : NodeId) : Outside (installTempPath nodeId) := by
  refine ⟨rfl, fun index nowMs h => ?_, fun index h => ?_⟩
  · have hhead := congrArg List.head? h
    simp [installTempPath, stagingDir, kSnapshotStagingPrefix, ascii] at hhead
  · have hhead := congrArg List.head? h
    simp [installTempPath, finalDir, kSnapshotPrefix, ascii] at hhead

namespace InstallState

/-- The way of the handler that takes the step is clear of every other handler. -/
def Apart (s : InstallState) : InstallAction → Prop
  | .run i out =>
    ∀ call ∈ s.calls[i]?, ∀ other ∈ s.calls.eraseIdx i,
      Clear call.request call.point out.nowMs other.request other.point
  | _ => True

instance (s : InstallState) (action : InstallAction) : Decidable (s.Apart action) :=
  match action with
  | .run i out =>
    inferInstanceAs (Decidable (∀ call ∈ s.calls[i]?, ∀ other ∈ s.calls.eraseIdx i,
      Clear call.request call.point out.nowMs other.request other.point))
  | .receive _ => isTrue trivial
  | .other _ => isTrue trivial

def StepWhen (nodeId : NodeId) (enabled : Bool) (allowed : InstallState → InstallAction → Prop)
    (s s' : InstallState) : Prop :=
  ∃ action, allowed s action ∧ s.step nodeId enabled action = some s'

/-- Before the first request, on any snapshot directory. -/
structure Start (s : InstallState) : Prop where
  wf : s.volume.Wf
  calls : s.calls = []

structure InstallInv (nodeId : NodeId) (v₀ : SnapshotVolume) (s : InstallState) : Prop where
  wf : s.volume.Wf
  facts : ∀ (i : Nat) (call : InstallCall), s.calls[i]? = some call →
    call.point.Facts (installTempPath nodeId) call.request s.volume
  separate : ∀ (i j : Nat) (call other : InstallCall), i ≠ j → s.calls[i]? = some call →
    s.calls[j]? = some other → Separate call.request call.point other.request other.point
  labelled : ∀ index, Labelled v₀ s.volume s.received index

variable {nodeId : NodeId} {enabled : Bool} {v₀ : SnapshotVolume} {s s' : InstallState}

theorem Start.inv (h : Start s) : InstallInv nodeId s.volume s := by
  refine ⟨h.wf, ?_, ?_, fun index => .inr fun _ _ hfound => ⟨hfound, rfl⟩⟩ <;> simp [h.calls]

/-- One handler goes on and the others stay where they are. -/
theorem InstallInv.advance (h : InstallInv nodeId v₀ s) {i : Nat} {call call' : InstallCall}
    {clock : Nat}
    {volume : SnapshotVolume} (hcall : s.calls[i]? = some call)
    (hrequest : call'.request = call.request)
    (hclear : ∀ other ∈ s.calls.eraseIdx i,
      Clear call.request call.point clock other.request other.point)
    (hadvances : call.point.Advances (installTempPath nodeId) call.request clock s.volume
      (volume, call'.point)) (node : RaftNode) :
    InstallInv nodeId v₀ ⟨volume, node, s.calls.set i call'⟩ := by
  have htemp := installTempPath_outside nodeId
  obtain ⟨heffect, hfacts⟩ := hadvances
  have hmem : call.request ∈ s.received :=
    List.mem_map_of_mem (List.mem_of_getElem? hcall)
  have hclear' : ∀ j other, j ≠ i → s.calls[j]? = some other →
      Clear call.request call.point clock other.request other.point := fun j other hne hother =>
    hclear other (List.mem_eraseIdx_iff_getElem?.mpr ⟨j, hne, hother⟩)
  have hnew : ∀ j other, i ≠ j → s.calls[j]? = some other →
      Separate call.request call'.point other.request other.point := fun j other hne hother =>
    heffect.separate htemp (h.separate i j call other hne hcall hother)
      (hclear' j other hne.symm hother) (h.facts j other hother)
  have hreceived : (s.calls.set i call').map InstallCall.request = s.received := by
    obtain ⟨hlt, rfl⟩ := List.getElem?_eq_some_iff.mp hcall
    rw [List.map_set, hrequest, received, ← List.getElem_map InstallCall.request (h := by simpa),
      List.set_getElem_self]
  refine ⟨heffect.wf h.wf, fun j other hother => ?_, fun j k a b hne ha hb => ?_, fun index => ?_⟩
  · rw [List.getElem?_set] at hother
    split at hother
    · split at hother
      · cases hother
        rwa [hrequest]
      · cases hother
    · rename_i hne
      exact heffect.facts htemp h.wf (h.separate i j call other hne hcall hother)
        (hclear' j other (Ne.symm hne) hother) (h.facts j other hother)
  · rw [List.getElem?_set] at ha hb
    have := h.separate j k a b hne
    have hnew' := fun other hne' hother => (hnew j other hne' hother).symm
    grind
  · have hlabelled := heffect.labelled htemp h.wf hmem (h.facts i call hcall) (h.labelled index)
    rwa [← hreceived] at hlabelled

theorem InstallInv.runCall (h : InstallInv nodeId v₀ s) {i : Nat} {call : InstallCall}
    {out : InstallOutcome}
    (hcall : s.calls[i]? = some call)
    (hclear : ∀ other ∈ s.calls.eraseIdx i,
      Clear call.request call.point out.nowMs other.request other.point) :
    InstallInv nodeId v₀ (s.runCall nodeId enabled i call out) := by
  have hfacts := h.facts i call hcall
  unfold InstallState.runCall
  split
  · split
    · exact h.advance hcall (by rfl) hclear
        (advances_same (keeps_of_free (by rfl) (by rfl) (by rfl)) (by trivial)) _
    · exact h.advance hcall (by rfl) hclear
        (advances_same (keeps_of_free (by rfl) (by rfl) (by rfl)) (by trivial)) _
  · generalize s.node.installFinish call.request call.response out.saved = result
    obtain ⟨node, response⟩ := result
    refine h.advance hcall ?_ hclear (advances_same (keeps_of_free ?_ ?_ ?_) ?_) _
    · rfl
    all_goals cases hsuccess : response.success <;> simp [openFiles, usesTemp, time?, Facts]
  · refine h.advance hcall ?_ hclear ?_ _
    · rfl
    · exact fileStep_advances (installTempPath_outside nodeId).dir h.wf hfacts

/-- Every step that is apart keeps the invariant. -/
theorem InstallInv.step (h : InstallInv nodeId v₀ s) (hstep : StepWhen nodeId enabled Apart s s') :
    InstallInv nodeId v₀ s' := by
  obtain ⟨action, hapart, hstep⟩ := hstep
  cases action with
  | receive request =>
    cases hstep
    refine ⟨h.wf, fun i call hcall => ?_, fun i j a b hne ha hb => ?_, fun index => ?_⟩
    · rw [List.getElem?_append] at hcall
      have := h.facts i call
      grind [Facts]
    · rw [List.getElem?_append] at ha hb
      have := h.separate i j a b hne
      have hfree : ∀ request' point', Separate request .received request' point' := fun _ _ =>
        ⟨by simp [usesTemp], by simp [time?], by simp [openFiles]⟩
      have hfree' := fun request' point' => (hfree request' point').symm
      grind
    · rcases h.labelled index with ⟨r, hmem, hrest⟩ | hleft
      · refine .inl ⟨r, ?_, hrest⟩
        simp only [received, List.map_append, List.mem_append]
        exact .inl hmem
      · exact .inr hleft
  | run i out =>
    simp only [InstallState.step] at hstep
    split at hstep
    · cases hstep
    · rename_i call hcall
      split at hstep
      · cases hstep
      · cases hstep
        exact h.runCall hcall (hapart call hcall)
  | other node =>
    cases hstep
    exact ⟨h.wf, h.facts, h.separate, h.labelled⟩

theorem InstallInv.run (h : InstallInv nodeId v₀ s)
    (hrun : Relation.ReflTransGen (StepWhen nodeId enabled Apart) s s') :
    InstallInv nodeId v₀ s' := by
  induction hrun with
  | refl => exact h
  | tail _ hstep ih => exact ih.step hstep

/-- A valid directory with the meta file of a request holds the file that the meta file names. -/
theorem snapshotPath_of_labelled {request : InstallSnapshotRequest Bytes} {index nowMs : Nat}
    {checksum : UInt32} {saved : SnapshotMeta} (hread : s.readSnapshot index = some saved)
    (hmeta : s.volume.Holds ⟨some (finalDir index), kSnapshotMetaFileName⟩
      (metaBytes (stagedFields request nowMs checksum))) :
    saved.snapshotPath = ⟨some (finalDir index), kSnapshotDataFileName⟩ ∧
      ∃ n, s.volume.find saved.snapshotPath = some n := by
  simp only [readSnapshot, readDirectorySnapshot, Option.bind_eq_bind,
    Option.bind_eq_some_iff] at hread
  obtain ⟨content, hcontent, fields, hfields, data, hdata, haccept⟩ := hread
  obtain ⟨n, hn, rfl⟩ := Option.map_eq_some_iff.mp hcontent
  obtain ⟨m, hm, _⟩ := Option.map_eq_some_iff.mp hdata
  have hname : fields.dataFileName = kSnapshotDataFileName := by
    simp only [readDirectoryMeta, Option.bind_eq_bind, Option.bind_eq_some_iff] at hfields
    obtain ⟨fields', hfields', hsame⟩ := hfields
    have heq : fields' = fields := by grind
    rw [hmeta n hn] at hfields'
    rw [← heq, readMetaFields_metaBytes (by simp [stagedFields, kSnapshotDataFileName, ascii])
      hfields']
    rfl
  have hpath : saved.snapshotPath = ⟨some (finalDir index), fields.dataFileName⟩ := by
    unfold acceptSnapshotData at haccept
    split at haccept
    · cases haccept
      rfl
    · cases haccept
  rw [hname] at hm hpath
  exact ⟨hpath, m, by rw [hpath, hm]⟩

/-- In every run whose handlers keep apart, a valid `snapshot_<index>` holds the data of a request
that was received with that index, unless its files are those of the start. -/
theorem published_snapshot_labelled (nodeId : NodeId) (enabled : Bool) {start s : InstallState}
    (hstart : Start start)
    (hrun : Relation.ReflTransGen (StepWhen nodeId enabled Apart) start s) {index : Nat}
    {saved : SnapshotMeta} (hread : s.readSnapshot index = some saved) :
    (∃ request ∈ s.received, request.lastIncludedIndex = index ∧
      s.volume.read saved.snapshotPath = some request.snapshotData) ∨
    LeftFrom start.volume s.volume (finalDir index) := by
  have hinv : InstallInv nodeId start.volume s := hstart.inv.run hrun
  rcases hinv.labelled index with ⟨request, hmem, hindex, hdata, nowMs, checksum, hmeta⟩ | hleft
  · obtain ⟨hpath, n, hn⟩ := snapshotPath_of_labelled hread hmeta
    refine .inl ⟨request, hmem, hindex, ?_⟩
    rw [Volume.read, hn, Option.map_some, hdata n (by rwa [hpath] at hn)]
  · exact .inr hleft

/-! ### Two runs

Handler 0 brings snapshot 1 and handler 1 snapshot 2. When handler 1 opens the temporary file behind
the write of handler 0 and in front of its copy, `snapshot_1` is published with the data of
snapshot 2. -/

/-- A schedule of steps. -/
def execWhen (nodeId : NodeId) (enabled : Bool) (allowed : InstallState → InstallAction → Prop)
    [∀ s action, Decidable (allowed s action)] (s : InstallState) :
    List InstallAction → Option InstallState
  | [] => some s
  | action :: rest =>
    if allowed s action then
      (s.step nodeId enabled action).bind fun s => execWhen nodeId enabled allowed s rest
    else none

theorem execWhen_run {allowed : InstallState → InstallAction → Prop}
    [∀ s action, Decidable (allowed s action)] {schedule : List InstallAction}
    (h : execWhen nodeId enabled allowed s schedule = some s') :
    Relation.ReflTransGen (StepWhen nodeId enabled allowed) s s' := by
  induction schedule generalizing s with
  | nil =>
    cases h
    exact .refl
  | cons action rest ih =>
    rw [execWhen] at h
    split at h
    · rename_i hallowed
      obtain ⟨next, hnext, hrest⟩ := Option.bind_eq_some_iff.mp h
      exact .head ⟨action, hallowed, hnext⟩ (ih hrest)
    · cases h

/-- A follower that has no snapshot. -/
def fresh : InstallState := ⟨.empty, RaftNode.recover 1 [2, 3] none, []⟩

def snapshotOne : InstallSnapshotRequest Bytes := ⟨1, 2, 1, 1, [11]⟩

def snapshotTwo : InstallSnapshotRequest Bytes := ⟨1, 2, 2, 1, [22]⟩

/-- The next `steps` operations of a handler go well. -/
def going (call steps : Nat) : List InstallAction :=
  List.replicate steps (.run call { count := 63 })

/-- Handler 0 runs up to the rename, in two pieces. -/
def installSchedule (between : List InstallAction) : List InstallAction :=
  [.receive snapshotOne, .receive snapshotTwo] ++ going 0 5 ++ between ++ going 0 18

theorem published_snapshot_labelled_two :
    ∃ (s : InstallState) (saved : SnapshotMeta),
      Relation.ReflTransGen (StepWhen 1 true Apart) fresh s ∧ s.readSnapshot 2 = some saved ∧
      ((∃ request ∈ s.received, request.lastIncludedIndex = 2 ∧
        s.volume.read saved.snapshotPath = some request.snapshotData) ∨
      LeftFrom fresh.volume s.volume (finalDir 2)) := by
  have hexec : (execWhen 1 true Apart fresh (installSchedule [] ++ going 1 23)).any (fun s =>
      (s.readSnapshot 2).isSome) = true := by
    decide +kernel
  simp only [Option.any_eq_true] at hexec
  obtain ⟨s, hs, hread⟩ := hexec
  obtain ⟨saved, hsaved⟩ := Option.isSome_iff_exists.mp hread
  have hrun := execWhen_run hs
  exact ⟨s, saved, hrun, hsaved,
    published_snapshot_labelled 1 true ⟨Volume.wf_empty, rfl⟩ hrun hsaved⟩

theorem published_snapshot_mislabelled :
    ∃ (s : InstallState) (saved : SnapshotMeta),
      Relation.ReflTransGen (StepWhen 1 true fun _ _ => True) fresh s ∧
      s.readSnapshot 1 = some saved ∧ ¬ LeftFrom fresh.volume s.volume (finalDir 1) ∧
      ¬ ∃ request ∈ s.received, request.lastIncludedIndex = 1 ∧
        s.volume.read saved.snapshotPath = some request.snapshotData := by
  have hexec : (execWhen 1 true (fun _ _ => True) fresh (installSchedule (going 1 4))).any (fun s =>
      (s.volume.find ⟨some (finalDir 1), kSnapshotDataFileName⟩).isSome &&
      (s.readSnapshot 1).any fun saved => s.received.all fun request =>
        request.lastIncludedIndex != 1 ||
          s.volume.read saved.snapshotPath != some request.snapshotData) = true := by
    decide +kernel
  simp only [Option.any_eq_true, Bool.and_eq_true, List.all_eq_true, Bool.or_eq_true,
    bne_iff_ne] at hexec
  obtain ⟨s, hs, hfile, saved, hsaved, hdata⟩ := hexec
  obtain ⟨n, hn⟩ := Option.isSome_iff_exists.mp hfile
  refine ⟨s, saved, execWhen_run hs, hsaved, fun hleft => ?_, ?_⟩
  · obtain ⟨hstart, _⟩ := hleft _ n hn
    cases hstart
  · rintro ⟨request, hmem, hindex, hread⟩
    rcases hdata request hmem with hne | hne
    · exact hne hindex
    · exact hne hread

end InstallState

end CquptRaft
