import Mathlib
import MarkupNesting.Worker

/-! The steps of a worker and its clients: when each can be taken and what it leads to. -/

namespace MarkupNesting.Worker

variable {α β : Type} {handle : α → β} {w v : Worker α β}

namespace Label

def job? : Label α → Option α
  | submit job => some job
  | _ => none

def received? : Label α → Option Nat
  | receive number => some number
  | _ => none

def receiver? : Label α → Option Nat
  | receive number | drop number => some number
  | _ => none

/-- The answer that an event hands out. -/
def answer? (w : Worker α β) : Label α → Option β
  | receive number =>
    match w.receivers[number]? with
    | some (.holding answer) => some answer
    | _ => none
  | _ => none

end Label

/-- The jobs that a course of events hands in, in order. -/
def submitted (course : List (Label α)) : List α := course.filterMap Label.job?

theorem submitted_cons (l : Label α) (ls : List (Label α)) :
    submitted (l :: ls) = l.job?.toList ++ submitted ls := by
  rw [submitted, List.filterMap_cons]
  cases l.job? <;> rfl

/-- The answers that clients receive in a course of events, in order. -/
def handedOut (handle : α → β) (w : Worker α β) : List (Label α) → List β
  | [] => []
  | l :: ls => (l.answer? w).toList ++ ((w.step handle l).elim [] fun w => handedOut handle w ls)

theorem step_submit {job : α} :
    w.step handle (.submit job) = some v ↔ w.phase = .accepting ∧
      v = { w with
        queue := w.queue ++ [(w.receivers.length, job)]
        receivers := w.receivers ++ [.waiting] } := by
  by_cases h : w.phase = .accepting <;> simp [step, h, eq_comm]

theorem step_take :
    w.step handle .take = some v ↔ ∃ job queue, w.current = none ∧ w.queue = job :: queue ∧
      w.phase ≠ .joined ∧ v = { w with current := some job, queue } := by
  rw [step]
  cases hc : w.current with
  | some job => simp
  | none =>
    cases hq : w.queue with
    | nil => simp
    | cons job queue => by_cases h : w.phase = .joined <;> simp [h, eq_comm]

theorem step_reply :
    w.step handle .reply = some v ↔ ∃ number job, w.current = some (number, job) ∧
      v = { w with current := none, handled := w.handled ++ [number] }.deliver number (handle job) := by
  rw [step]
  cases hc : w.current with
  | none => simp
  | some p => simp [Prod.ext_iff, eq_comm]

theorem step_receive {number : Nat} :
    w.step handle (.receive number) = some v ↔ ∃ answer,
      w.receivers[number]? = some (.holding answer) ∧
      v = { w with receivers := w.receivers.set number (.received answer) } := by
  rw [step]
  split
  · next answer h => simp [h, eq_comm]
  · next h => simpa using fun answer h1 => absurd h1 (h answer)

theorem step_drop {number : Nat} :
    w.step handle (.drop number) = some v ↔ ∃ r, w.receivers[number]? = some r ∧ r ≠ .dropped ∧
      v = { w with receivers := w.receivers.set number .dropped } := by
  rw [step]
  split
  · next h => simp [h]
  · next h => simp [h]
  · next r hne h =>
    have hr : r ≠ .dropped := fun hr => hne hr
    simp [h, hr, eq_comm]

theorem step_close :
    w.step handle .close = some v ↔ w.phase = .accepting ∧ v = { w with phase := .closed } := by
  by_cases h : w.phase = .accepting <;> simp [step, h, eq_comm]

theorem step_join :
    w.step handle .join = some v ↔ (w.phase = .closed ∧ w.queue = [] ∧ w.current = none) ∧
      v = { w with phase := .joined } := by
  have hp : (w.phase = .closed && w.queue.isEmpty && w.current.isNone) = true ↔
      w.phase = .closed ∧ w.queue = [] ∧ w.current = none := by simp [and_assoc]
  rw [← hp, step]
  split
  · next h => rw [and_iff_right h, Option.some.injEq, eq_comm]
  · next h => exact ⟨fun hv => (nomatch hv), fun hv => absurd hv.1 h⟩

/-- An answer is sent if the receiver waits for it, and is lost otherwise. -/
theorem deliver_cases (w : Worker α β) (number : Nat) (answer : β) :
    (w.receivers[number]? = some .waiting ∧ w.deliver number answer =
        { w with
          receivers := w.receivers.set number (.holding answer)
          sent := w.sent ++ [(number, answer)] }) ∨
      (w.receivers[number]? ≠ some .waiting ∧ w.deliver number answer = w) := by
  rw [deliver]
  split
  · next h => exact .inl ⟨h, rfl⟩
  · next h => exact .inr ⟨h, rfl⟩

theorem run_cons_eq_some {l : Label α} {ls : List (Label α)} :
    run handle w (l :: ls) = some v ↔ ∃ u, w.step handle l = some u ∧ run handle u ls = some v := by
  rw [run, Option.bind_eq_some_iff]

theorem run_append (w : Worker α β) (ls ms : List (Label α)) :
    run handle w (ls ++ ms) = (run handle w ls).bind fun w => run handle w ms := by
  induction ls generalizing w with
  | nil => rfl
  | cons l ls ih =>
    rw [List.cons_append, run, run, Option.bind_assoc]
    congr 1
    funext u
    exact ih u

theorem step_keeps_sent {l : Label α} (h : w.step handle l = some v) : w.sent <+: v.sent := by
  cases l with
  | submit job =>
    obtain ⟨-, rfl⟩ := step_submit.mp h
    exact List.prefix_rfl
  | take =>
    obtain ⟨_, _, -, -, -, rfl⟩ := step_take.mp h
    exact List.prefix_rfl
  | reply =>
    obtain ⟨number, job, -, rfl⟩ := step_reply.mp h
    rcases deliver_cases { w with current := none, handled := w.handled ++ [number] } number
      (handle job) with ⟨-, hd⟩ | ⟨-, hd⟩
    · rw [hd]
      exact List.prefix_append _ _
    · rw [hd]
  | receive number =>
    obtain ⟨_, -, rfl⟩ := step_receive.mp h
    exact List.prefix_rfl
  | drop number =>
    obtain ⟨_, -, -, rfl⟩ := step_drop.mp h
    exact List.prefix_rfl
  | close =>
    obtain ⟨-, rfl⟩ := step_close.mp h
    exact List.prefix_rfl
  | join =>
    obtain ⟨-, rfl⟩ := step_join.mp h
    exact List.prefix_rfl

theorem run_keeps_sent {course : List (Label α)} (h : w.run handle course = some v) :
    w.sent <+: v.sent := by
  induction course generalizing w with
  | nil =>
    cases h
    exact List.prefix_rfl
  | cons l ls ih =>
    obtain ⟨u, hs, hr⟩ := run_cons_eq_some.mp h
    exact (step_keeps_sent hs).trans (ih hr)

end MarkupNesting.Worker
