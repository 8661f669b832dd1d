import Mathlib.Data.List.Basic

/-!
# Sessions at one replica

A replica works through a sequence of entries, and a client that stays with it sees a session: it
is told the places of its own writes, and it reads. The session is consistent when the places from
which its reads are answered never go back, neither behind one another nor behind a write that the
client has been told of.
-/

namespace Sessions

variable {W R : Type*}

inductive Event (W R : Type*) where
  /-- The client is told that its write is the entry at this place. -/
  | wrote (place : Nat) (write : W)
  | read (answer : R)
  deriving DecidableEq, Repr

/-- `Session Written Seen events reached`: the events, the oldest first, make a consistent session
that has reached this place. `Written` tells what stands at a place, and `Seen` what is read from
the entries up to a place. -/
inductive Session (Written : Nat → W → Prop) (Seen : Nat → R → Prop) : List (Event W R) → Nat → Prop
  | start : Session Written Seen [] 0
  | wrote {events : List (Event W R)} {reached place : Nat} {write : W}
      (h : Session Written Seen events reached) (hwrite : Written place write) :
      Session Written Seen (events ++ [.wrote place write]) (max reached place)
  | read {events : List (Event W R)} {reached place : Nat} {answer : R}
      (h : Session Written Seen events reached) (hle : reached ≤ place)
      (hread : Seen place answer) : Session Written Seen (events ++ [.read answer]) place

namespace Session

variable {Written Written' : Nat → W → Prop} {Seen Seen' : Nat → R → Prop}
  {events : List (Event W R)} {reached : Nat}

theorem mono (h : Session Written Seen events reached)
    (hwritten : ∀ place write, Written place write → Written' place write)
    (hseen : ∀ place answer, Seen place answer → Seen' place answer) :
    Session Written' Seen' events reached := by
  induction h with
  | start => exact .start
  | wrote _ hwrite ih => exact ih.wrote (hwritten _ _ hwrite)
  | read _ hle hread ih => exact ih.read hle (hseen _ _ hread)

/-- Every write of the session stands where the client was told, at a place that has been
reached. -/
theorem written (h : Session Written Seen events reached) {place : Nat} {write : W}
    (hmem : .wrote place write ∈ events) : Written place write ∧ place ≤ reached := by
  induction h with
  | start => exact absurd hmem List.not_mem_nil
  | wrote _ hwrite ih =>
    rcases List.mem_append.mp hmem with hold | hnew
    · exact ⟨(ih hold).1, Nat.le_trans (ih hold).2 (Nat.le_max_left _ _)⟩
    · cases List.mem_singleton.mp hnew
      exact ⟨hwrite, Nat.le_max_right _ _⟩
  | read _ hle _ ih =>
    rcases List.mem_append.mp hmem with hold | hnew
    · exact ⟨(ih hold).1, Nat.le_trans (ih hold).2 hle⟩
    · cases List.mem_singleton.mp hnew

/-- A read sees every write that the client was told of before it. -/
theorem seen (h : Session Written Seen events reached) {before rest : List (Event W R)}
    {answer : R} (hevents : events = before ++ .read answer :: rest) :
    ∃ place, place ≤ reached ∧ Seen place answer ∧
      ∀ earlier write, .wrote earlier write ∈ before → earlier ≤ place := by
  induction h generalizing rest with
  | start => exact absurd hevents (by simp)
  | wrote _ _ ih =>
    rcases List.eq_nil_or_concat rest with rfl | ⟨rest, last, rfl⟩
    · have := (List.append_inj' hevents rfl).2
      simp at this
    · rw [List.concat_eq_append, ← List.cons_append, ← List.append_assoc] at hevents
      obtain ⟨place, hplace, hrest⟩ := ih (List.append_inj' hevents rfl).1
      exact ⟨place, Nat.le_trans hplace (Nat.le_max_left _ _), hrest⟩
  | read hsession hle hread ih =>
    rcases List.eq_nil_or_concat rest with rfl | ⟨rest, last, rfl⟩
    · obtain ⟨rfl, hlast⟩ := List.append_inj' hevents rfl
      cases hlast
      exact ⟨_, Nat.le_refl _, hread,
        fun earlier write hmem => Nat.le_trans (hsession.written hmem).2 hle⟩
    · rw [List.concat_eq_append, ← List.cons_append, ← List.append_assoc] at hevents
      obtain ⟨place, hplace, hrest⟩ := ih (List.append_inj' hevents rfl).1
      exact ⟨place, Nat.le_trans hplace hle, hrest⟩

end Session

end Sessions
