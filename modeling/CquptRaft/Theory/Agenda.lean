import Mathlib.Order.Defs.LinearOrder

/-!
# Agendas

An agenda holds entries until they are due. What a client sees of it is a list of events: an entry
is put down under an id of its own, a cancellation answers whether the entry was still there, an
entry is taken at some time, and everything is dropped at once. `Agenda.Accepts` says which events
are right after which others.
-/

namespace Agenda

variable {T I F : Type*}

structure Entry (T I F : Type*) where
  deadline : T
  id : I
  fn : F
  deriving DecidableEq

inductive Event (T I F : Type*) where
  | scheduled (e : Entry T I F)
  /-- A cancellation with its answer. -/
  | cancelled (id : I) (answer : Bool)
  | taken (e : Entry T I F) (now : T)
  | cleared
  deriving DecidableEq

/-- Entries are due in the order of their deadlines, those with one deadline in the order of their
ids. -/
def Entry.Before [LT T] [LT I] (e u : Entry T I F) : Prop :=
  e.deadline < u.deadline ∨ e.deadline = u.deadline ∧ e.id < u.id

instance [LT T] [LT I] [DecidableEq T] [DecidableLT T] [DecidableLT I] :
    DecidableRel (Entry.Before (T := T) (I := I) (F := F)) :=
  fun e u => inferInstanceAs (Decidable (e.deadline < u.deadline ∨ _ ∧ e.id < u.id))

end Agenda

/-- What a history of events leaves behind: the entries still there, and every id that was ever
used. -/
structure Agenda (T I F : Type*) where
  pending : List (Agenda.Entry T I F)
  used : List I

namespace Agenda

variable {T I F : Type*}

def empty : Agenda T I F := ⟨[], []⟩

def takenId : Event T I F → Option I
  | .taken e _ => some e.id
  | _ => none

def scheduledId : Event T I F → Option I
  | .scheduled e => some e.id
  | _ => none

theorem mem_takenIds {id : I} {events : List (Event T I F)} :
    id ∈ events.filterMap takenId ↔ ∃ e now, .taken e now ∈ events ∧ e.id = id := by
  rw [List.mem_filterMap]
  constructor
  · rintro ⟨event, hmem, hid⟩
    cases event with
    | taken e now => exact ⟨e, now, hmem, by simpa [takenId] using hid⟩
    | scheduled e => simp [takenId] at hid
    | cancelled i b => simp [takenId] at hid
    | cleared => simp [takenId] at hid
  · rintro ⟨e, now, hmem, hid⟩
    exact ⟨_, hmem, by simp [takenId, hid]⟩

def Tidy (a : Agenda T I F) : Prop := ∀ e ∈ a.pending, e.id ∈ a.used

theorem Tidy.empty : (empty : Agenda T I F).Tidy := by simp [Tidy, Agenda.empty]

variable [DecidableEq I]

def next (a : Agenda T I F) : Event T I F → Agenda T I F
  | .scheduled e => ⟨e :: a.pending, e.id :: a.used⟩
  | .cancelled id _ => { a with pending := a.pending.filter (·.id ≠ id) }
  | .taken e _ => { a with pending := a.pending.filter (·.id ≠ e.id) }
  | .cleared => { a with pending := [] }

/-- The agenda behind a history, the oldest event first. -/
def after (events : List (Event T I F)) : Agenda T I F := events.foldl next empty

/-- A taken entry is due, and nothing that is due before it is still there. -/
def Accepts [LT T] [LE T] [LT I] (a : Agenda T I F) : Event T I F → Prop
  | .scheduled e => e.id ∉ a.used
  | .cancelled id answer => answer = true ↔ ∃ e ∈ a.pending, e.id = id
  | .taken e now => e ∈ a.pending ∧ e.deadline ≤ now ∧ ∀ u ∈ a.pending, ¬ u.Before e
  | .cleared => True

/-- Every event of the history is accepted by the agenda that the ones before it leave behind. -/
def Follows [LT T] [LE T] [LT I] (a : Agenda T I F) : List (Event T I F) → Prop
  | [] => True
  | event :: events => a.Accepts event ∧ (a.next event).Follows events

/-- The id was used, and its entry is gone. -/
def Retired (a : Agenda T I F) (id : I) : Prop := id ∈ a.used ∧ ∀ e ∈ a.pending, e.id ≠ id

theorem Tidy.next {a : Agenda T I F} (h : a.Tidy) (event : Event T I F) :
    (a.next event).Tidy := by
  intro e he
  cases event with
  | scheduled u =>
    rcases List.mem_cons.mp he with rfl | he
    · exact List.mem_cons_self
    · exact List.mem_cons_of_mem _ (h e he)
  | cancelled id answer => exact h e (List.mem_filter.mp he).1
  | taken u now => exact h e (List.mem_filter.mp he).1
  | cleared => simp [Agenda.next] at he

section

variable [LT T] [LE T] [LT I] {a : Agenda T I F} {id : I}

theorem follows_append {events rest : List (Event T I F)} :
    a.Follows (events ++ rest) ↔ a.Follows events ∧ (events.foldl next a).Follows rest := by
  induction events generalizing a with
  | nil => simp [Follows]
  | cons event events ih => simp [Follows, ih, and_assoc]

/-- An id stays retired: no entry is put down under it again. -/
theorem Retired.next (h : a.Retired id) {event : Event T I F} (haccepts : a.Accepts event) :
    (a.next event).Retired id := by
  obtain ⟨hused, hgone⟩ := h
  cases event with
  | scheduled e =>
    refine ⟨List.mem_cons_of_mem _ hused, fun u hu => ?_⟩
    rcases List.mem_cons.mp hu with rfl | hu
    · exact fun hid => haccepts (hid ▸ hused)
    · exact hgone u hu
  | cancelled i answer => exact ⟨hused, fun u hu => hgone u (List.mem_filter.mp hu).1⟩
  | taken e now => exact ⟨hused, fun u hu => hgone u (List.mem_filter.mp hu).1⟩
  | cleared => exact ⟨hused, fun u hu => absurd hu List.not_mem_nil⟩

theorem Tidy.retired_taken (h : a.Tidy) {e : Entry T I F} {now : T}
    (haccepts : a.Accepts (.taken e now)) : (a.next (.taken e now)).Retired e.id :=
  ⟨h e haccepts.1, fun u hu => by simpa using (List.mem_filter.mp hu).2⟩

theorem Tidy.retired_cancelled (h : a.Tidy) (haccepts : a.Accepts (.cancelled id true)) :
    (a.next (.cancelled id true)).Retired id := by
  obtain ⟨e, he, rfl⟩ := haccepts.mp rfl
  exact ⟨h e he, fun u hu => by simpa using (List.mem_filter.mp hu).2⟩

/-- Once an id is retired, its entry is not taken and no cancellation finds it. -/
theorem Retired.silent {events : List (Event T I F)} (h : a.Retired id) (hf : a.Follows events) :
    (∀ e now, .taken e now ∈ events → e.id ≠ id) ∧ ∀ b, .cancelled id b ∈ events → b = false := by
  induction events generalizing a with
  | nil => simp
  | cons event events ih =>
    obtain ⟨haccepts, hf⟩ := hf
    obtain ⟨htaken, hcancelled⟩ := ih (h.next haccepts) hf
    refine ⟨fun e now he => ?_, fun b hb => ?_⟩
    · rcases List.mem_cons.mp he with rfl | he
      · exact h.2 e haccepts.1
      · exact htaken e now he
    · rcases List.mem_cons.mp hb with rfl | hb
      · refine Bool.eq_false_iff.mpr fun hb => ?_
        obtain ⟨e, he, hid⟩ := haccepts.mp hb
        exact h.2 e he hid
      · exact hcancelled b hb

/-- No id is taken twice. -/
theorem Follows.nodup_takenIds {events : List (Event T I F)} (h : a.Tidy) (hf : a.Follows events) :
    (events.filterMap takenId).Nodup := by
  induction events generalizing a with
  | nil => exact List.nodup_nil
  | cons event events ih =>
    obtain ⟨haccepts, hf⟩ := hf
    have hrest := ih (h.next event) hf
    cases event with
    | taken e now =>
      refine List.nodup_cons.mpr ⟨fun hmem => ?_, hrest⟩
      obtain ⟨u, now', hu, hid⟩ := mem_takenIds.mp hmem
      exact ((h.retired_taken haccepts).silent hf).1 u now' hu hid
    | scheduled e => exact hrest
    | cancelled i b => exact hrest
    | cleared => exact hrest

/-- A used id is not put down again. -/
theorem Follows.notMem_scheduledIds {events : List (Event T I F)} (hused : id ∈ a.used)
    (hf : a.Follows events) : id ∉ events.filterMap scheduledId := by
  induction events generalizing a with
  | nil => exact List.not_mem_nil
  | cons event events ih =>
    obtain ⟨haccepts, hf⟩ := hf
    cases event with
    | scheduled e =>
      intro hmem
      rcases List.mem_cons.mp hmem with rfl | hmem
      · exact haccepts hused
      · exact ih (List.mem_cons_of_mem _ hused) hf hmem
    | taken e now => exact ih (a := a.next (.taken e now)) hused hf
    | cancelled i b => exact ih (a := a.next (.cancelled i b)) hused hf
    | cleared => exact ih (a := a.next .cleared) hused hf

theorem Follows.nodup_scheduledIds {events : List (Event T I F)} (hf : a.Follows events) :
    (events.filterMap scheduledId).Nodup := by
  induction events generalizing a with
  | nil => exact List.nodup_nil
  | cons event events ih =>
    obtain ⟨haccepts, hf⟩ := hf
    cases event with
    | scheduled e => exact List.nodup_cons.mpr ⟨hf.notMem_scheduledIds List.mem_cons_self, ih hf⟩
    | taken e now => exact ih hf
    | cancelled i b => exact ih hf
    | cleared => exact ih hf

/-- An event of a history is accepted by the agenda in front of it, which is tidy. -/
theorem Follows.at {before rest : List (Event T I F)} {event : Event T I F} (h : a.Tidy)
    (hf : a.Follows (before ++ event :: rest)) :
    (before.foldl Agenda.next a).Tidy ∧ (before.foldl Agenda.next a).Accepts event ∧
      ((before.foldl Agenda.next a).next event).Follows rest := by
  obtain ⟨-, hrest⟩ := follows_append.mp hf
  refine ⟨?_, hrest.1, hrest.2⟩
  clear hf hrest
  induction before generalizing a with
  | nil => exact h
  | cons event' before ih => exact ih (h.next event')

/-- After an entry was taken, no cancellation finds it. -/
theorem Follows.cancelled_after_taken {before rest : List (Event T I F)} {e : Entry T I F} {now : T}
    (h : a.Tidy) (hf : a.Follows (before ++ .taken e now :: rest)) {b : Bool}
    (hmem : .cancelled e.id b ∈ rest) : b = false := by
  obtain ⟨htidy, haccepts, hrest⟩ := hf.at h
  exact ((htidy.retired_taken haccepts).silent hrest).2 b hmem

/-- An entry whose cancellation was answered with yes is never taken, before or after. -/
theorem Follows.not_taken_of_cancelled {events : List (Event T I F)} (h : a.Tidy)
    (hf : a.Follows events) (hmem : .cancelled id true ∈ events) (e : Entry T I F) (now : T)
    (he : .taken e now ∈ events) : e.id ≠ id := by
  rintro rfl
  obtain ⟨before, rest, rfl⟩ := List.append_of_mem hmem
  rcases List.mem_append.mp he with hbefore | hrest
  · obtain ⟨before', rest', rfl⟩ := List.append_of_mem hbefore
    rw [List.append_assoc, List.cons_append] at hf
    have := hf.cancelled_after_taken h (b := true) (List.mem_append_right _ List.mem_cons_self)
    exact Bool.noConfusion this
  · obtain ⟨htidy, haccepts, hf⟩ := hf.at h
    rcases List.mem_cons.mp hrest with heq | hrest
    · cases heq
    · exact ((htidy.retired_cancelled haccepts).silent hf).1 e now hrest rfl

end

end Agenda
