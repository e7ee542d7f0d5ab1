import MarkupNesting.Proofs.Worker.Steps

/-! What becomes of one receiver has no part in anything else. Two states that differ in it alone go
on alike, so all that a client does with it can be left out, and it can be dropped at any time. -/

namespace MarkupNesting.Worker

variable {α β : Type} {handle : α → β} {w v : Worker α β}

/-- Whether two states differ at most in one receiver and what has been sent to it. -/
structure SameBut (number : Nat) (w v : Worker α β) : Prop where
  phase : w.phase = v.phase
  queue : w.queue = v.queue
  current : w.current = v.current
  handled : w.handled = v.handled
  length : w.receivers.length = v.receivers.length
  others : ∀ n, n ≠ number → w.receivers[n]? = v.receivers[n]?
  sent : w.sent.filter (·.1 ≠ number) = v.sent.filter (·.1 ≠ number)

namespace SameBut

variable {number : Nat}

theorem refl (number : Nat) (w : Worker α β) : SameBut number w w :=
  ⟨rfl, rfl, rfl, rfl, rfl, fun _ _ => rfl, rfl⟩

theorem set_left (h : SameBut number w v) (r : Receiver β) :
    SameBut number { w with receivers := w.receivers.set number r } v where
  phase := h.phase
  queue := h.queue
  current := h.current
  handled := h.handled
  length := by
    rw [List.length_set]
    exact h.length
  others := by
    intro n hn
    rw [List.getElem?_set_ne (Ne.symm hn)]
    exact h.others n hn
  sent := h.sent

theorem set_both (h : SameBut number w v) (n : Nat) (r : Receiver β) :
    SameBut number { w with receivers := w.receivers.set n r }
      { v with receivers := v.receivers.set n r } where
  phase := h.phase
  queue := h.queue
  current := h.current
  handled := h.handled
  length := by
    rw [List.length_set, List.length_set]
    exact h.length
  others := by
    intro m hm
    rw [List.getElem?_set, List.getElem?_set, h.length, h.others m hm]
  sent := h.sent

theorem symm (h : SameBut number w v) : SameBut number v w :=
  ⟨h.phase.symm, h.queue.symm, h.current.symm, h.handled.symm, h.length.symm,
    fun n hn => (h.others n hn).symm, h.sent.symm⟩

theorem deliver_left (h : SameBut number w v) (answer : β) :
    SameBut number (w.deliver number answer) v := by
  rcases deliver_cases w number answer with ⟨-, hd⟩ | ⟨-, hd⟩
  · rw [hd]
    have hs := h.set_left (.holding answer)
    refine ⟨hs.phase, hs.queue, hs.current, hs.handled, hs.length, hs.others, ?_⟩
    have ht := h.sent
    simpa using ht
  · rw [hd]
    exact h

theorem deliver (h : SameBut number w v) (n : Nat) (answer : β) :
    SameBut number (w.deliver n answer) (v.deliver n answer) := by
  by_cases hn : n = number
  · subst hn
    exact ((h.deliver_left answer).symm.deliver_left answer).symm
  · have hr := h.others n hn
    rcases deliver_cases w n answer with ⟨hw, hd⟩ | ⟨hw, hd⟩
    · rcases deliver_cases v n answer with ⟨-, he⟩ | ⟨hv, -⟩
      · rw [hd, he]
        have hs := h.set_both n (.holding answer)
        refine ⟨hs.phase, hs.queue, hs.current, hs.handled, hs.length, hs.others, ?_⟩
        rw [List.filter_append, List.filter_append, h.sent]
      · exact absurd (hr ▸ hw) hv
    · rcases deliver_cases v n answer with ⟨hv, -⟩ | ⟨-, he⟩
      · exact absurd (hr ▸ hv) hw
      · rw [hd, he]
        exact h

theorem step (h : SameBut number w v) {l : Label α} (hl : l.receiver? ≠ some number)
    {w' : Worker α β} (hs : w.step handle l = some w') :
    ∃ v', v.step handle l = some v' ∧ SameBut number w' v' := by
  cases l with
  | submit job =>
    obtain ⟨hp, rfl⟩ := step_submit.mp hs
    refine ⟨_, step_submit.mpr ⟨h.phase ▸ hp, rfl⟩, ?_⟩
    refine ⟨h.phase, ?_, h.current, h.handled, ?_, ?_, h.sent⟩
    · simp only [h.queue, h.length]
    · simp only [List.length_append, h.length]
    · intro n hn
      rw [List.getElem?_append, List.getElem?_append, h.length, h.others n hn]
  | take =>
    obtain ⟨job, queue, hc, hq, hp, rfl⟩ := step_take.mp hs
    exact ⟨_, step_take.mpr ⟨job, queue, h.current ▸ hc, h.queue ▸ hq, h.phase ▸ hp, rfl⟩,
      h.phase, rfl, rfl, h.handled, h.length, h.others, h.sent⟩
  | reply =>
    obtain ⟨n, job, hc, rfl⟩ := step_reply.mp hs
    refine ⟨_, step_reply.mpr ⟨n, job, h.current ▸ hc, rfl⟩, ?_⟩
    apply deliver
    exact ⟨h.phase, h.queue, rfl, congrArg (· ++ [n]) h.handled, h.length, h.others, h.sent⟩
  | receive n =>
    obtain ⟨answer, hr, rfl⟩ := step_receive.mp hs
    have hn : n ≠ number := fun hn => hl (congrArg some hn)
    rw [h.others n hn] at hr
    exact ⟨_, step_receive.mpr ⟨answer, hr, rfl⟩, h.set_both n _⟩
  | drop n =>
    obtain ⟨r, hr, hd, rfl⟩ := step_drop.mp hs
    have hn : n ≠ number := fun hn => hl (congrArg some hn)
    rw [h.others n hn] at hr
    exact ⟨_, step_drop.mpr ⟨r, hr, hd, rfl⟩, h.set_both n _⟩
  | close =>
    obtain ⟨hp, rfl⟩ := step_close.mp hs
    exact ⟨_, step_close.mpr ⟨h.phase ▸ hp, rfl⟩,
      rfl, h.queue, h.current, h.handled, h.length, h.others, h.sent⟩
  | join =>
    obtain ⟨⟨hp, hq, hc⟩, rfl⟩ := step_join.mp hs
    exact ⟨_, step_join.mpr ⟨⟨h.phase ▸ hp, h.queue ▸ hq, h.current ▸ hc⟩, rfl⟩,
      rfl, h.queue, h.current, h.handled, h.length, h.others, h.sent⟩

/-- What is done with the one receiver does not show elsewhere. -/
theorem step_left (h : SameBut number w v) {l : Label α} (hl : l.receiver? = some number)
    {w' : Worker α β} (hs : w.step handle l = some w') : SameBut number w' v := by
  cases l with
  | receive n =>
    obtain ⟨answer, -, rfl⟩ := step_receive.mp hs
    obtain rfl : n = number := Option.some.inj hl
    exact h.set_left _
  | drop n =>
    obtain ⟨r, -, -, rfl⟩ := step_drop.mp hs
    obtain rfl : n = number := Option.some.inj hl
    exact h.set_left _
  | submit | take | reply | close | join => cases hl

/-- A course of events leads on in the same way when all that is done with the one receiver is left
out. -/
theorem run (h : SameBut number w v) {course : List (Label α)} {w' : Worker α β}
    (hr : w.run handle course = some w') :
    ∃ v', v.run handle (course.filter (·.receiver? ≠ some number)) = some v' ∧
      SameBut number w' v' := by
  induction course generalizing w v with
  | nil =>
    cases hr
    exact ⟨v, rfl, h⟩
  | cons l ls ih =>
    obtain ⟨u, hs, hr⟩ := run_cons_eq_some.mp hr
    by_cases hl : l.receiver? = some number
    · rw [List.filter_cons_of_neg (by simpa using hl)]
      exact ih (h.step_left hl hs) hr
    · rw [List.filter_cons_of_pos (by simpa using hl)]
      obtain ⟨x, hx, hsame⟩ := h.step hl hs
      obtain ⟨v', hv, hsame⟩ := ih hsame hr
      exact ⟨v', run_cons_eq_some.mpr ⟨x, hx, hv⟩, hsame⟩

end SameBut

end MarkupNesting.Worker
