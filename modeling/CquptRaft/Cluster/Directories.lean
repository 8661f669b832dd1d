import CquptRaft.Cluster.SavedTerms

/-!
# What the snapshot directories hold

Every image in the cluster can be loaded. The newest snapshot of a directory reaches as far as
every boundary of its member, in memory, on disk and in the hands of a thread: a boundary moves
only behind a snapshot that has been saved, and pruning keeps the newest. A record in memory that
no snapshot reaches is on disk.
-/

namespace CquptRaft

open Replication Voting

variable {σ : Type} {sm : IStateMachine σ} {cfg : ClusterConfig} {H H' : History NodeId LogRecord}
  {members : Finset NodeId}

/-! ## Images -/

/-- The image can be loaded. -/
def Loads (sm : IStateMachine σ) (image : sm.Image) : Prop :=
  (sm.loadSnapshot image).isSome = true

theorem Loads.save (sm : IStateMachine σ) (kv : σ) :
    Loads sm (sm.saveSnapshot kv) := by simp [Loads, sm.load_save]

/-- Every image that the member holds can be loaded. -/
structure LoadsMember (sm : IStateMachine σ) (m : Member σ sm.Image) : Prop where
  snapshots : ∀ s ∈ m.snapshots, Loads sm s.image
  installs : ∀ handler ∈ m.installs, Loads sm handler.request.snapshotData
  temp : ∀ image ∈ m.installTemp, Loads sm image
  worker : ∀ index term image, m.worker = .captured index term image → Loads sm image

/-- A snapshot in flight can be loaded. -/
def LoadsMessage (sm : IStateMachine σ) (message : Message sm.Image) : Prop :=
  ∀ request, message.payload = .installRequest request → Loads sm request.snapshotData

theorem LoadsMember.save {m : Member σ sm.Image} (h : LoadsMember sm m) {input : Option sm.Image}
    (hinput : ∀ image ∈ input, Loads sm image) (index term : Nat) (outcome : SaveOutcome) :
    ∀ s ∈ (saveSnapshotFile m.snapshots input index term outcome).1, Loads sm s.image := by
  intro s hs
  rcases saveSnapshotFile_mem hs with hold | ⟨image, himage, rfl⟩
  · exact h.snapshots s hold
  · exact hinput image himage

/-- An image comes from the state machine, from the directory or from a message. -/
theorem LoadsMember.act {id : NodeId} {net : List (Message sm.Image)} {m m' : Member σ sm.Image}
    {action : Action} {outbox : Member.Outbox sm.Image} (h : LoadsMember sm m)
    (hnet : ∀ message ∈ net, LoadsMessage sm message)
    (hstep : CquptRaft.act sm cfg id net m action = some (m', outbox)) :
    LoadsMember sm m' ∧ ∀ message ∈ outbox, LoadsMessage sm message := by
  by_cases hother : action.appliesState = false
  · obtain ⟨hsame, houtbox⟩ := act_unrelated hother hstep
    refine ⟨⟨hsame.snapshots ▸ h.snapshots, hsame.installs ▸ h.installs, hsame.temp ▸ h.temp,
      hsame.worker ▸ h.worker⟩, fun message hmem request hrequest => ?_⟩
    have := houtbox message hmem
    rw [hrequest] at this
    cases this
  obtain ⟨hsnapshots, hinstalls, htemp, hworker⟩ := h
  cases action with
  | restart _ _ _ => cases hstep
  | crash =>
    cases hstep
    exact ⟨⟨hsnapshots, hinstalls, htemp, hworker⟩, by simp⟩
  | prune upto =>
    cases hstep
    exact ⟨⟨fun s hs => hsnapshots s (pruneSnapshots_mem hs), hinstalls, htemp, hworker⟩, by simp⟩
  | applyAcquire | onSnapshotTimer =>
    refine ⟨⟨?_, ?_, ?_, ?_⟩, ?_⟩ <;> grind [CquptRaft.act]
  | proposal k step =>
    obtain ⟨m₁, hmoved, heq⟩ := Option.map_eq_some_iff.mp hstep
    cases heq
    obtain ⟨p, node, phase, -, -, rfl⟩ := Member.proposal_cases hmoved
    exact ⟨⟨hsnapshots, hinstalls, htemp, hworker⟩, by simp⟩
  | sendSnapshot peer =>
    simp only [CquptRaft.act, Member.sendSnapshot] at hstep
    split at hstep
    · split at hstep <;> cases hstep
      · exact ⟨⟨hsnapshots, hinstalls, htemp, hworker⟩, by simp⟩
      · rename_i s hchoose
        refine ⟨⟨hsnapshots, hinstalls, htemp, hworker⟩, fun message hmem request hrequest => ?_⟩
        rw [List.mem_singleton.mp hmem] at hrequest
        cases hrequest
        exact hsnapshots s (chooseSnapshot_mem hchoose)
    · cases hstep
  | onInstallSnapshot k saved =>
    obtain ⟨message, hreceive, hstep⟩ := Option.bind_eq_some_iff.mp hstep
    have hmessage := hnet message (Member.receive_mem hreceive).1
    unfold Member.deliverInstallSnapshot at hstep
    split at hstep
    · rename_i request hpayload
      simp only [Option.some.injEq, Member.onInstallSnapshot] at hstep
      split at hstep <;> cases hstep
      · refine ⟨⟨hsnapshots, hinstalls, htemp, hworker⟩, ?_⟩
        simp [LoadsMessage]
      · refine ⟨⟨hsnapshots, fun handler hmem => ?_, htemp, hworker⟩, by simp⟩
        rcases List.mem_append.mp hmem with hold | hnew
        · exact hinstalls handler hold
        · rw [List.mem_singleton.mp hnew]
          exact hmessage request hpayload
    · cases hstep
  | installWrite k ok =>
    simp only [CquptRaft.act, Member.installWrite] at hstep
    split at hstep
    · rename_i handler hk
      have hhandler := hinstalls handler (List.mem_of_getElem? hk)
      split at hstep
      · split at hstep <;> cases hstep
        · refine ⟨⟨hsnapshots, fun other hmem => ?_, ?_, hworker⟩, by simp⟩
          · rcases List.mem_or_eq_of_mem_set hmem with hold | rfl
            · exact hinstalls other hold
            · exact hhandler
          · rintro image ⟨⟩
            exact hhandler
        · refine ⟨⟨hsnapshots, fun other hmem => ?_, by simp, hworker⟩, ?_⟩
          · exact hinstalls other (List.mem_of_mem_eraseIdx hmem)
          · simp [LoadsMessage]
      · cases hstep
    · cases hstep
  | installSave k outcome =>
    simp only [CquptRaft.act, Member.installSave] at hstep
    split at hstep
    · rename_i handler hk
      have hhandler := hinstalls handler (List.mem_of_getElem? hk)
      have hsave := LoadsMember.save ⟨hsnapshots, hinstalls, htemp, hworker⟩ htemp
        handler.request.lastIncludedIndex handler.request.lastIncludedTerm outcome
      split at hstep
      · split at hstep <;> rename_i heq <;> rw [heq] at hsave <;> cases hstep
        · refine ⟨⟨hsave, fun other hmem => ?_, by simp, hworker⟩, by simp⟩
          rcases List.mem_or_eq_of_mem_set hmem with hold | rfl
          · exact hinstalls other hold
          · exact hhandler
        · refine ⟨⟨hsave, fun other hmem => ?_, by simp, hworker⟩, ?_⟩
          · exact hinstalls other (List.mem_of_mem_eraseIdx hmem)
          · simp [LoadsMessage]
      · cases hstep
    · cases hstep
  | installLoad k ok =>
    simp only [CquptRaft.act, Member.installLoad] at hstep
    split at hstep
    · split at hstep
      · split at hstep <;> cases hstep
        · refine ⟨⟨hsnapshots, fun other hmem => ?_, htemp, hworker⟩, by simp⟩
          exact hinstalls other (List.mem_of_mem_eraseIdx hmem)
        · refine ⟨⟨hsnapshots, fun other hmem => ?_, htemp, hworker⟩, ?_⟩
          · exact hinstalls other (List.mem_of_mem_eraseIdx hmem)
          · simp [LoadsMessage]
      · cases hstep
    · cases hstep
  | installFinish saved =>
    simp only [CquptRaft.act, Member.installFinish] at hstep
    split at hstep
    · cases hstep
      exact ⟨⟨hsnapshots, hinstalls, htemp, hworker⟩, by simp [LoadsMessage]⟩
    · cases hstep
  | applyPick =>
    refine ⟨⟨?_, ?_, ?_, ?_⟩, ?_⟩ <;> grind [CquptRaft.act, Member.applyPick]
  | applyRun =>
    refine ⟨⟨?_, ?_, ?_, ?_⟩, ?_⟩ <;> grind [CquptRaft.act, Member.applyRun]
  | applyFinish saved =>
    refine ⟨⟨?_, ?_, ?_, ?_⟩, ?_⟩ <;> grind [CquptRaft.act, Member.applyFinish]
  | workerCapture ok =>
    have hcaptured := Loads.save sm m.kv
    refine ⟨⟨?_, ?_, ?_, ?_⟩, ?_⟩ <;> grind [CquptRaft.act, Member.workerCapture]
  | workerSave outcome =>
    obtain ⟨m₁, hmoved, heq⟩ := Option.map_eq_some_iff.mp hstep
    cases heq
    unfold Member.workerSave at hmoved
    split at hmoved
    · rename_i index term image hcaptured
      have himage : ∀ other ∈ some image, Loads sm other := by
        rintro _ ⟨⟩
        exact hworker index term image hcaptured
      have hsave := LoadsMember.save ⟨hsnapshots, hinstalls, htemp, hworker⟩ himage index term
        outcome
      cases hmoved
      refine ⟨⟨hsave, hinstalls, htemp, ?_⟩, by simp⟩
      grind
    · cases hmoved
  | workerCompact saved =>
    refine ⟨⟨?_, ?_, ?_, ?_⟩, ?_⟩ <;> grind [CquptRaft.act, Member.workerCompact]
  | _ => exact absurd rfl hother

/-- Every image of the cluster can be loaded. -/
structure LoadsInv (cfg : ClusterConfig) (c : Cluster σ sm.Image) : Prop where
  members : ∀ p ∈ cfg.ids, LoadsMember sm (c.members p)
  net : ∀ message ∈ c.net, LoadsMessage sm message

theorem LoadsInv.init : LoadsInv cfg (Cluster.init sm cfg) where
  members p _ := by constructor <;> simp [Cluster.init, Member.fresh]
  net := by simp [Cluster.init]

theorem LoadsInv.step {c c' : Cluster σ sm.Image} (h : LoadsInv cfg c)
    (hstep : Cluster.Step sm cfg c c') : LoadsInv cfg c' := by
  obtain ⟨id, action, hmoved⟩ := hstep
  obtain ⟨hid, m, outbox, hm, rfl⟩ := Cluster.step_cases hmoved
  have hmember : LoadsMember sm m ∧ ∀ message ∈ outbox, LoadsMessage sm message := by
    have hbefore := h.members id hid
    rcases memberStep_cases hm with ⟨-, hm⟩ | ⟨-, rfl, readable, saved, replaySaved, -, rfl⟩
    · exact hbefore.act h.net hm
    · refine ⟨?_, by simp⟩
      obtain ⟨n, ⟨-, ⟨kv, heq⟩ | heq⟩ | heq⟩ :=
        (c.members id).restart_recovered cfg id readable saved replaySaved <;> rw [heq]
      · exact ⟨hbefore.snapshots, by simp [Member.boot], hbefore.temp, by simp [Member.boot]⟩
      · exact ⟨hbefore.snapshots, hbefore.installs, hbefore.temp, hbefore.worker⟩
      · exact hbefore
  refine ⟨fun p hp => ?_, fun message hmem => ?_⟩
  · by_cases hpid : p = id
    · subst hpid
      simp only [Function.update_self]
      exact hmember.1
    · simp only [Function.update_of_ne hpid]
      exact h.members p hp
  · rcases List.mem_append.mp hmem with hold | hnew
    · exact h.net message hold
    · exact hmember.2 message hnew

theorem LoadsInv.run {c c' : Cluster σ sm.Image} (h : LoadsInv cfg c)
    (hrun : Cluster.Run sm cfg c c') : LoadsInv cfg c' := by
  induction hrun with
  | refl => exact h
  | tail _ hstep ih => exact ih.step hstep

/-! ## Coverage -/

section Covers

variable {Image : Type} {dir dir' : List (Snapshot Image)}

/-- A snapshot of the directory reaches index `k`. -/
def Covers (dir : List (Snapshot Image)) (k : Nat) : Prop := k = 0 ∨ ∃ s ∈ dir, k ≤ s.index

theorem Covers.of_le {j k : Nat} (h : Covers dir k) (hle : j ≤ k) : Covers dir j := by
  rcases h with rfl | ⟨s, hs, hk⟩
  · exact .inl (Nat.le_zero.mp hle)
  · exact .inr ⟨s, hs, hle.trans hk⟩

theorem Covers.mono {k : Nat} (h : Covers dir k)
    (hdir : ∀ s ∈ dir, ∃ s' ∈ dir', s.index ≤ s'.index) : Covers dir' k := by
  rcases h with rfl | ⟨s, hs, hk⟩
  · exact .inl rfl
  · obtain ⟨s', hs', hle⟩ := hdir s hs
    exact .inr ⟨s', hs', hk.trans hle⟩

/-- The list is from the newest to the oldest. -/
theorem listSnapshots_head {newest : Snapshot Image} (h : newest ∈ (listSnapshots dir).head?) :
    newest ∈ dir ∧ ∀ s ∈ dir, s.index ≤ newest.index := by
  have hsorted := List.pairwise_insertionSort (fun a b : Snapshot Image => b.index ≤ a.index) dir
  refine ⟨mem_listSnapshots.mp (List.mem_of_mem_head? h), fun s hs => ?_⟩
  obtain ⟨rest, hlist⟩ : ∃ rest, listSnapshots dir = newest :: rest := List.head?_eq_some_iff.mp h
  have hmem := mem_listSnapshots.mpr hs
  rw [listSnapshots] at hlist
  rw [hlist] at hsorted
  rw [listSnapshots, hlist] at hmem
  rcases List.mem_cons.mp hmem with rfl | htail
  · exact le_rfl
  · exact List.rel_of_pairwise_cons hsorted htail

theorem saveSnapshotFile_subset {s : Snapshot Image} (hs : s ∈ dir) (input : Option Image)
    (index term : Nat) (outcome : SaveOutcome) :
    s ∈ (saveSnapshotFile dir input index term outcome).1 := by
  unfold saveSnapshotFile
  split <;> simp [hs]

/-- Behind a save that succeeds there is a snapshot at its index. -/
theorem saveSnapshotFile_covers {input : Option Image} {index term : Nat} {outcome : SaveOutcome}
    (h : (saveSnapshotFile dir input index term outcome).2 = true) :
    Covers (saveSnapshotFile dir input index term outcome).1 index := by
  cases hfind : dir.find? (fun s => s.index == index) with
  | some existing =>
    have hindex : existing.index = index := by simpa using List.find?_some hfind
    have hdir : (saveSnapshotFile dir input index term outcome).1 = dir := by
      unfold saveSnapshotFile
      rw [hfind]
      cases outcome <;> rfl
    rw [hdir]
    exact .inr ⟨existing, List.mem_of_find?_eq_some hfind, hindex.ge⟩
  | none =>
    unfold saveSnapshotFile at h ⊢
    rw [hfind] at h ⊢
    cases input with
    | none => cases outcome <;> cases h
    | some image =>
      cases outcome with
      | ok => exact .inr ⟨_, List.mem_cons_self, le_rfl⟩
      | failed | failedAfterPublish => cases h

/-- Pruning keeps the newest snapshot. -/
theorem pruneSnapshots_newest (maxKeep upto : Nat) :
    ∀ s ∈ dir, ∃ s' ∈ pruneSnapshots dir maxKeep upto, s.index ≤ s'.index := by
  intro s hs
  cases hlist : listSnapshots dir with
  | nil =>
    have hmem := mem_listSnapshots.mpr hs
    rw [hlist] at hmem
    cases hmem
  | cons newest rest =>
    refine ⟨newest, ?_, (listSnapshots_head (by rw [hlist]; rfl)).2 s hs⟩
    obtain ⟨keep, hkeep⟩ : ∃ keep, max 1 maxKeep = keep + 1 :=
      Nat.exists_eq_succ_of_ne_zero (by omega)
    simp only [pruneSnapshots, hlist, hkeep, List.take_succ_cons]
    exact List.mem_append_left _ List.mem_cons_self

end Covers

/-- The newest snapshot of a directory never becomes older. -/
theorem act_covers {id : NodeId} {net : List (Message sm.Image)} {m m' : Member σ sm.Image}
    {action : Action} {outbox : Member.Outbox sm.Image}
    (h : act sm cfg id net m action = some (m', outbox)) :
    ∀ s ∈ m.snapshots, ∃ s' ∈ m'.snapshots, s.index ≤ s'.index := by
  intro s hs
  by_cases hother : action.appliesState = false
  · exact ⟨s, (act_unrelated hother h).same.snapshots ▸ hs, le_rfl⟩
  cases action with
  | restart _ _ _ => cases h
  | crash =>
    cases h
    exact ⟨s, hs, le_rfl⟩
  | prune upto =>
    cases h
    exact pruneSnapshots_newest _ upto s hs
  | proposal k step =>
    obtain ⟨m₁, hmoved, heq⟩ := Option.map_eq_some_iff.mp h
    cases heq
    obtain ⟨p, node, phase, -, -, rfl⟩ := Member.proposal_cases hmoved
    exact ⟨s, hs, le_rfl⟩
  | onInstallSnapshot _ _ =>
    obtain ⟨message, -, h⟩ := Option.bind_eq_some_iff.mp h
    refine ⟨s, ?_, le_rfl⟩
    grind [Member.deliverInstallSnapshot, Member.onInstallSnapshot]
  | applyAcquire | onSnapshotTimer | sendSnapshot _ | installWrite _ _ | installLoad _ _
  | installFinish _ | applyPick | applyRun | applyFinish _ | workerCapture _ | workerCompact _ =>
    refine ⟨s, ?_, le_rfl⟩
    grind [act, Member.sendSnapshot, Member.setReplicator, Member.installWrite,
      Member.advanceInstall, Member.failInstall, Member.installLoad, Member.installFinish,
      Member.applyPick, Member.applyRun, Member.applyFinish, Member.workerCapture,
      Member.workerCompact]
  | installSave k outcome =>
    refine ⟨s, ?_, le_rfl⟩
    simp only [act, Member.installSave] at h
    split at h
    · rename_i handler hk
      have hsaved := saveSnapshotFile_subset hs m.installTemp handler.request.lastIncludedIndex
        handler.request.lastIncludedTerm outcome
      grind [Member.advanceInstall, Member.failInstall]
    · cases h
  | workerSave outcome =>
    refine ⟨s, ?_, le_rfl⟩
    obtain ⟨m₁, hmoved, heq⟩ := Option.map_eq_some_iff.mp h
    cases heq
    unfold Member.workerSave at hmoved
    split at hmoved
    · rename_i index term image hworker
      have hsaved := saveSnapshotFile_subset hs (some image) index term outcome
      grind
    · cases hmoved
  | _ => exact absurd rfl hother

/-- A thread that is about to move the boundary has saved a snapshot there. -/
structure SavedThreads {Image : Type} (m : Member σ Image) : Prop where
  worker : ∀ index term, m.worker = .saved index term → Covers m.snapshots index
  installs : ∀ handler ∈ m.installs, handler.phase = .saved →
    Covers m.snapshots handler.request.lastIncludedIndex
  apply : ∀ handler, m.apply = .installing handler →
    Covers m.snapshots handler.request.lastIncludedIndex

theorem SavedThreads.act {id : NodeId} {net : List (Message sm.Image)} {m m' : Member σ sm.Image}
    {action : Action} {outbox : Member.Outbox sm.Image} (h : SavedThreads m)
    (hstep : CquptRaft.act sm cfg id net m action = some (m', outbox)) : SavedThreads m' := by
  by_cases hother : action.appliesState = false
  · obtain ⟨hsame, -⟩ := act_unrelated hother hstep
    refine ⟨?_, ?_, ?_⟩
    · rw [hsame.worker, hsame.snapshots]
      exact h.worker
    · rw [hsame.installs, hsame.snapshots]
      exact h.installs
    · rw [hsame.apply, hsame.snapshots]
      exact h.apply
  have hcovers : ∀ k, Covers m.snapshots k → Covers m'.snapshots k :=
    fun k hk => hk.mono (act_covers hstep)
  obtain ⟨hworker, hinstalls, hlock⟩ := h
  cases action with
  | restart _ _ _ => cases hstep
  | crash =>
    cases hstep
    exact ⟨hworker, hinstalls, hlock⟩
  | prune upto =>
    cases hstep
    exact ⟨fun index term hsaved => hcovers _ (hworker index term hsaved),
      fun handler hmem hphase => hcovers _ (hinstalls handler hmem hphase),
      fun handler hheld => hcovers _ (hlock handler hheld)⟩
  | proposal k step =>
    obtain ⟨m₁, hmoved, heq⟩ := Option.map_eq_some_iff.mp hstep
    cases heq
    obtain ⟨p, node, phase, -, -, rfl⟩ := Member.proposal_cases hmoved
    exact ⟨hworker, hinstalls, hlock⟩
  | applyAcquire | onSnapshotTimer | sendSnapshot _ | applyPick | applyRun | applyFinish _
  | workerCapture _ | workerCompact _ | installFinish _ =>
    constructor <;>
      grind [CquptRaft.act, Member.sendSnapshot, Member.setReplicator, Member.applyPick,
        Member.applyRun, Member.applyFinish, Member.workerCapture, Member.workerCompact,
        Member.installFinish]
  | onInstallSnapshot k saved =>
    obtain ⟨message, -, hstep⟩ := Option.bind_eq_some_iff.mp hstep
    constructor <;> grind [Member.deliverInstallSnapshot, Member.onInstallSnapshot]
  | installWrite k ok =>
    simp only [CquptRaft.act, Member.installWrite] at hstep
    split at hstep
    · rename_i handler hk
      split at hstep
      · split at hstep <;> cases hstep
        · refine ⟨hworker, fun other hmem hphase => ?_, hlock⟩
          rcases List.mem_or_eq_of_mem_set hmem with hold | rfl
          · exact hinstalls other hold hphase
          · cases hphase
        · exact ⟨hworker, fun other hmem => hinstalls other (List.mem_of_mem_eraseIdx hmem), hlock⟩
      · cases hstep
    · cases hstep
  | installSave k outcome =>
    simp only [CquptRaft.act, Member.installSave] at hstep
    split at hstep
    · rename_i handler hk
      split at hstep
      · split at hstep <;> rename_i snapshots heq <;> cases hstep
        · refine ⟨fun index term hsaved => hcovers _ (hworker index term hsaved),
            fun other hmem hphase => ?_, fun other hheld => hcovers _ (hlock other hheld)⟩
          rcases List.mem_or_eq_of_mem_set hmem with hold | rfl
          · exact hcovers _ (hinstalls other hold hphase)
          · have hsaved := saveSnapshotFile_covers (congrArg Prod.snd heq)
            rwa [heq] at hsaved
        · exact ⟨fun index term hsaved => hcovers _ (hworker index term hsaved),
            fun other hmem hphase =>
              hcovers _ (hinstalls other (List.mem_of_mem_eraseIdx hmem) hphase),
            fun other hheld => hcovers _ (hlock other hheld)⟩
      · cases hstep
    · cases hstep
  | installLoad k ok =>
    simp only [CquptRaft.act, Member.installLoad] at hstep
    split at hstep
    · rename_i handler hk _
      split at hstep
      · rename_i hphase
        split at hstep <;> cases hstep
        · refine ⟨hworker, fun other hmem => hinstalls other (List.mem_of_mem_eraseIdx hmem), ?_⟩
          rintro other ⟨⟩
          exact hinstalls handler (List.mem_of_getElem? hk) hphase
        · exact ⟨hworker, fun other hmem => hinstalls other (List.mem_of_mem_eraseIdx hmem), hlock⟩
      · cases hstep
    · cases hstep
  | workerSave outcome =>
    obtain ⟨m₁, hmoved, heq⟩ := Option.map_eq_some_iff.mp hstep
    cases heq
    unfold Member.workerSave at hmoved
    split at hmoved
    · rename_i index term image hcaptured
      have hsaved := @saveSnapshotFile_covers _ m.snapshots (some image) index term outcome
      generalize saveSnapshotFile m.snapshots (some image) index term outcome = result
        at hmoved hsaved
      obtain ⟨snapshots, ok⟩ := result
      cases hmoved
      refine ⟨fun index' term' heq => ?_,
        fun handler hmem hphase => hcovers _ (hinstalls handler hmem hphase),
        fun handler hheld => hcovers _ (hlock handler hheld)⟩
      cases ok with
      | false => cases heq
      | true =>
        cases heq
        exact hsaved rfl
    · cases hmoved
  | _ => exact absurd rfl hother

theorem SavedThreads.boundary {Image : Type} {net : List (Message Image)} {m : Member σ Image}
    {action : Action} {c : Call Image} {index term : Nat} (h : SavedThreads m)
    (hgrounded : c.Grounded net m action) (hc : c.boundary = some (index, term)) :
    Covers m.snapshots index := by
  cases c with
  | installFinish request response saved =>
    obtain ⟨handler, hlock, rfl, -⟩ := hgrounded
    cases hc
    exact h.apply handler hlock
  | compactAfterSnapshot index' term' saved =>
    cases hc
    exact h.worker index term hgrounded
  | _ => cases hc

/-! ## Records in memory and on disk -/

namespace RaftNode

theorem compactLogPrefixLocked_mem {n : RaftNode} {index term : Nat} {r : LogRecord}
    (hr : r ∈ (n.compactLogPrefixLocked index term).log) :
    r ∈ n.log ∨ (index, term) = (r.index, r.term) := by
  grind [compactLogPrefixLocked, restoreLogAfterSnapshotLocked]

theorem recover_mem {id : NodeId} {peers : List NodeId} {storage : Option PersistentRaftState}
    {r : LogRecord} (hr : r ∈ (recover id peers storage).log) :
    r = bootstrapRecord ∨ ∃ state ∈ storage, r ∈ state.log := by
  cases storage with
  | none => exact .inl (List.mem_singleton.mp hr)
  | some state =>
    by_cases hlog : state.log = []
    · have hempty : (clampRecoveredHardState state).log = [] := hlog
      simp only [recover, Option.map_some, if_pos hempty] at hr
      exact .inl (List.mem_singleton.mp hr)
    · have hne : (clampRecoveredHardState state).log ≠ [] := hlog
      simp only [recover, Option.map_some, if_neg hne] at hr
      exact .inr ⟨state, rfl, hr⟩

/-- A record behind a section was there before, is the boundary that the section brings, or has
been saved with the log. -/
theorem call_records {Image : Type} {n : RaftNode} (c : Call Image)
    (happend : ∀ request termSaved logSaved commitSaved,
      c = .onAppendEntries request termSaved logSaved commitSaved → (n.call c).log = n.log ∨
        ∃ state, (n.call c).storage = some state ∧ state.log = (n.call c).log)
    {r : LogRecord} (hr : r ∈ (n.call c).log) :
    r ∈ n.log ∨ c.boundary = some (r.index, r.term) ∨
      ∃ state ∈ (n.call c).storage, r ∈ state.log := by
  by_cases hc : c.writesLog = false
  · rw [(n.call_sameLog c hc).1] at hr
    exact .inl hr
  cases c with
  | appendLocalLogUnlocked commandData saved =>
    cases saved with
    | false => exact .inl hr
    | true => exact .inr (.inr ⟨_, rfl, hr⟩)
  | onAppendEntries request termSaved logSaved commitSaved =>
    rcases happend _ _ _ _ rfl with hlog | ⟨state, hstate, hlog⟩
    · rw [hlog] at hr
      exact .inl hr
    · exact .inr (.inr ⟨state, hstate, hlog ▸ hr⟩)
  | installFinish request response saved =>
    have hcompact := @compactLogPrefixLocked_mem n request.lastIncludedIndex
      request.lastIncludedTerm r
    grind [call, installFinish, adoptSnapshotLocked, persistStateLocked, Call.boundary]
  | compactAfterSnapshot index term saved =>
    have hcompact := @compactLogPrefixLocked_mem n index term r
    grind [call, compactAfterSnapshot, persistStateLocked, Call.boundary]
  | _ => exact absurd rfl hc

end RaftNode

/-- Every boundary of the member is covered by its directory, and every record in memory that is
not covered is on disk. -/
structure CoveredMember {Image : Type} (m : Member σ Image) : Prop extends SavedThreads m where
  memory : m.up = true → ∀ r ∈ m.node.log.head?, Covers m.snapshots r.index
  disk : ∀ state ∈ m.node.storage, ∀ r ∈ state.log.head?, Covers m.snapshots r.index
  stored : m.up = true → ∀ r ∈ m.node.log, ¬ Covers m.snapshots r.index →
    ∃ state ∈ m.node.storage, r ∈ state.log

theorem CoveredMember.act {id : NodeId} {net : List (Message sm.Image)}
    {m m' : Member σ sm.Image} {mem dur : Replica LogRecord} {action : Action}
    {outbox : Member.Outbox sm.Image} (h : CoveredMember m) (hup : m.up = true)
    (hp : ProcessInv H members id m mem dur) (hH : H.Valid members LogRecord.term)
    (hindexed : ∀ T, Indexed (H.leaderLog T))
    (hnet : ∀ message ∈ net, MessageInv H members message)
    (hstep : CquptRaft.act sm cfg id net m action = some (m', outbox)) : CoveredMember m' := by
  have hcovers : ∀ k, Covers m.snapshots k → Covers m'.snapshots k :=
    fun k hk => hk.mono (act_covers hstep)
  have hthreads := h.toSavedThreads.act hstep
  rcases act_call hstep with hsame | ⟨-, c, hcall, hgrounded⟩
  · refine ⟨hthreads, fun _ r hr => ?_, fun state hstate r hr => ?_, fun _ r hr hnot => ?_⟩
    · exact hcovers _ (h.memory hup r (hsame ▸ hr))
    · exact hcovers _ (h.disk state (hsame ▸ hstate) r hr)
    · rw [hsame] at hr ⊢
      exact h.stored hup r hr fun hk => hnot (hcovers _ hk)
  · have hinv := hp.node.represents.logInv
    have hmemory : ∀ r ∈ m'.node.log.head?, Covers m'.snapshots r.index := by
      intro r hr
      rw [hcall] at hr
      rcases RaftNode.call_head hinv c hr with hold | hnew
      · exact hcovers _ (h.memory hup r hold)
      · exact hcovers _ (h.boundary hgrounded hnew)
    have happend : ∀ request termSaved logSaved commitSaved,
        c = .onAppendEntries request termSaved logSaved commitSaved →
        (m.node.call c).log = m.node.log ∨
          ∃ state, (m.node.call c).storage = some state ∧ state.log = (m.node.call c).log := by
      rintro request termSaved logSaved commitSaved rfl
      obtain ⟨k, message, -, hk, hpayload⟩ := hgrounded
      have hmessage := hnet message (List.mem_of_getElem? hk)
      rw [MessageInv, hpayload] at hmessage
      exact hp.node.onAppendEntries_stored hH hindexed hmessage.1 termSaved logSaved commitSaved
    have hsaves := (RaftNode.call_saves m.node c hinv).storage
    rw [← hcall] at hsaves
    refine ⟨hthreads, fun _ => hmemory, fun state hstate r hr => ?_, fun _ r hr hnot => ?_⟩
    · rcases hsaves with hsame | ⟨state', hstate', -, hlog⟩
      · exact hcovers _ (h.disk state (hsame ▸ hstate) r hr)
      · obtain rfl : state' = state := Option.some.inj (hstate'.symm.trans hstate)
        rcases hlog with hlog | ⟨hlog, -⟩ <;> rw [hlog] at hr
        · exact hcovers _ (h.memory hup r hr)
        · exact hmemory r hr
    · have hr' := hr
      rw [hcall] at hr'
      rcases RaftNode.call_records c happend hr' with hold | hnew | hsaved
      · rcases hsaves with hsame | ⟨state, hstate, -, hlog⟩
        · rw [hsame]
          exact h.stored hup r hold fun hk => hnot (hcovers _ hk)
        · refine ⟨state, hstate, ?_⟩
          rcases hlog with hlog | ⟨hlog, -⟩ <;> rw [hlog]
          · exact hold
          · exact hr
      · exact absurd (hcovers _ (h.boundary hgrounded hnew)) hnot
      · rw [hcall]
        exact hsaved

/-- A restart finds every boundary covered. -/
theorem CoveredMember.recovered {m : Member σ sm.Image} (h : CoveredMember m) {id : NodeId}
    {peers : List NodeId} {config : SnapshotConfig} {readable : Nat → Bool} {n : RaftNode}
    (hn : RaftNode.Recovered sm (RaftNode.recover id peers m.node.storage) config m.snapshots
      readable n) :
    (∀ r ∈ n.log.head?, Covers m.snapshots r.index) ∧
      (∀ state ∈ n.storage, ∀ r ∈ state.log.head?, Covers m.snapshots r.index) ∧
      ∀ r ∈ n.log, ¬ Covers m.snapshots r.index → ∃ state ∈ n.storage, r ∈ state.log := by
  have hloaded : ∀ s kv, RaftNode.firstLoadable sm readable (listSnapshots m.snapshots) =
      some (s, kv) → ∀ r : LogRecord, (s.index, s.term) = (r.index, r.term) →
        Covers m.snapshots r.index := by
    intro s kv hfirst r heq
    refine .inr ⟨s, mem_listSnapshots.mp (RaftNode.firstLoadable_mem hfirst).1, ?_⟩
    exact (Prod.mk.inj heq).1.ge
  have hhead : ∀ r ∈ n.log.head?, Covers m.snapshots r.index := by
    have hrecovered : ∀ r ∈ (RaftNode.recover id peers m.node.storage).log.head?,
        Covers m.snapshots r.index := by
      intro r hr
      rcases RaftNode.recover_head hr with rfl | ⟨state, hstate, hr⟩
      · exact .inl rfl
      · exact h.disk state hstate r hr
    intro r hr
    rcases hn.log with ⟨-, hlog, -⟩ | ⟨s, kv, hfirst, hlog, -⟩ <;> rw [hlog] at hr
    · exact hrecovered r hr
    · exact (RaftNode.compactLogPrefixLocked_head hr).elim (hrecovered r) (hloaded s kv hfirst r)
  refine ⟨hhead, fun state hstate r hr => ?_, fun r hr hnot => ?_⟩
  · rcases hn.storage with hsame | ⟨state', hstate', hlog⟩
    · rw [hsame, RaftNode.recover_storage] at hstate
      exact h.disk state hstate r hr
    · obtain rfl : state' = state := Option.some.inj (hstate'.symm.trans hstate)
      exact hhead r (hlog ▸ hr)
  · rcases hn.storage with hsame | ⟨state, hstate, hlog⟩
    · rw [hsame, RaftNode.recover_storage]
      have hrecovered : r ∈ (RaftNode.recover id peers m.node.storage).log := by
        rcases hn.log with ⟨-, hlog, -⟩ | ⟨s, kv, hfirst, hlog, -⟩ <;> rw [hlog] at hr
        · exact hr
        · refine (RaftNode.compactLogPrefixLocked_mem hr).resolve_right fun heq => ?_
          exact hnot (hloaded s kv hfirst r heq)
      rcases RaftNode.recover_mem hrecovered with rfl | hold
      · exact absurd (.inl rfl) hnot
      · exact hold
    · exact ⟨state, hstate, hlog ▸ hr⟩

theorem CoveredMember.restart {m : Member σ sm.Image} (h : CoveredMember m) (hdown : m.up = false)
    (id : NodeId) (readable : Nat → Bool) (saved : Bool) (replaySaved : Nat → Bool) :
    CoveredMember (m.restart sm cfg id readable saved replaySaved) := by
  obtain ⟨n, ⟨hn, ⟨kv, heq⟩ | heq⟩ | heq⟩ :=
    m.restart_recovered cfg id readable saved replaySaved <;> rw [heq]
  · obtain ⟨hmemory, hdisk, hstored⟩ := h.recovered hn
    refine ⟨⟨?_, ?_, ?_⟩, fun _ => hmemory, hdisk, fun _ => hstored⟩ <;> simp [Member.boot]
  · refine ⟨⟨h.worker, h.installs, h.apply⟩, fun hup => ?_, (h.recovered hn).2.1, fun hup => ?_⟩
    · cases hdown.symm.trans hup
    · cases hdown.symm.trans hup
  · exact h

end CquptRaft
