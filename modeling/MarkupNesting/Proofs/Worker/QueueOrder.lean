import MarkupNesting.Proofs.Worker.Steps

/-! The line of jobs. Whatever course events take, the jobs done, the one in hand and those in the
queue are all that have come in, in that order, and every answer that has been sent is with its own
job. -/

namespace MarkupNesting.Worker

variable {α β : Type} {handle : α → β} {w v : Worker α β}

theorem getElem?_set_eq_some {γ : Type} {xs : List γ} {i n : Nat} {x y : γ}
    (h : (xs.set i x)[n]? = some y) : (n = i ∧ y = x) ∨ (n ≠ i ∧ xs[n]? = some y) := by
  rw [List.getElem?_set] at h
  split at h
  · next hi =>
    split at h
    · exact .inl ⟨hi.symm, (Option.some.inj h).symm⟩
    · cases h
  · next hi => exact .inr ⟨fun hn => hi hn.symm, h⟩

/-- Whether a receiver is as it can be for the job with its number, when some jobs have been done
and some answers sent. -/
def FitsIn (done : Nat) (sent : List (Nat × β)) (n : Nat) : Receiver β → Prop
  | .waiting => done ≤ n
  | .holding answer | .received answer => (n, answer) ∈ sent
  | .dropped => True

/-- What holds of a worker that has been given some jobs: those done, the one in hand and those in
the queue are all of them, in order; and the answers sent are those to the jobs done. -/
structure Keeps (handle : α → β) (jobs : List α) (w : Worker α β) : Prop where
  handled : w.handled = List.range w.handled.length
  handled_le : w.handled.length ≤ jobs.length
  line : w.current.toList ++ w.queue = (jobs.mapIdx Prod.mk).drop w.handled.length
  receivers : w.receivers.length = jobs.length
  fits : ∀ n r, w.receivers[n]? = some r → FitsIn w.handled.length w.sent n r
  sent_sublist : (w.sent.map Prod.fst).Sublist w.handled
  sent_own : ∀ n answer, (n, answer) ∈ w.sent → jobs[n]?.map handle = some answer
  ended : w.phase = .joined → w.queue = [] ∧ w.current = none

theorem keeps_start : Keeps handle [] (start : Worker α β) where
  handled := rfl
  handled_le := Nat.le_refl 0
  line := rfl
  receivers := rfl
  fits := by simp [start]
  sent_sublist := List.Sublist.refl []
  sent_own := by simp [start]
  ended := fun _ => ⟨rfl, rfl⟩

theorem head_line {jobs : List α} {k number : Nat} {job : α} {rest : List (Nat × α)}
    (h : (number, job) :: rest = (jobs.mapIdx Prod.mk).drop k) :
    number = k ∧ jobs[k]? = some job ∧ rest = (jobs.mapIdx Prod.mk).drop (k + 1) := by
  have hhead : some (number, job) = jobs[k]?.map (Prod.mk k) := by
    have h0 := congrArg (·[0]?) h
    simpa only [List.getElem?_cons_zero, List.getElem?_drop, Nat.add_zero, List.getElem?_mapIdx] using h0
  obtain ⟨job', hj, hp⟩ := Option.map_eq_some_iff.mp hhead.symm
  obtain ⟨rfl, rfl⟩ := Prod.mk.inj hp
  refine ⟨rfl, hj, ?_⟩
  have htail := congrArg List.tail h
  rwa [List.tail_cons, List.tail_drop] at htail

namespace Keeps

variable {jobs : List α}

theorem submit (h : Keeps handle jobs w) (hp : w.phase = .accepting) (job : α) :
    Keeps handle (jobs ++ [job]) { w with
      queue := w.queue ++ [(w.receivers.length, job)]
      receivers := w.receivers ++ [.waiting] } where
  handled := h.handled
  handled_le := by
    rw [List.length_append]
    exact Nat.le_add_right_of_le h.handled_le
  line := by
    have hle : w.handled.length ≤ (jobs.mapIdx Prod.mk).length := by
      rw [List.length_mapIdx]
      exact h.handled_le
    rw [List.mapIdx_concat, List.drop_append_of_le_length hle, ← h.line, h.receivers,
      List.append_assoc]
  receivers := by
    rw [List.length_append, List.length_append, h.receivers]
    rfl
  fits := by
    intro n r hn
    rw [List.getElem?_append] at hn
    split at hn
    · exact h.fits n r hn
    · next hl =>
      rw [List.getElem?_singleton] at hn
      split at hn
      · cases hn
        exact Nat.le_trans h.handled_le (h.receivers ▸ Nat.le_of_not_lt hl)
      · cases hn
  sent_sublist := h.sent_sublist
  sent_own := by
    intro n answer hn
    have ho := h.sent_own n answer hn
    obtain ⟨job', hj, -⟩ := Option.map_eq_some_iff.mp ho
    obtain ⟨hl, -⟩ := List.getElem?_eq_some_iff.mp hj
    rw [List.getElem?_append_left hl]
    exact ho
  ended := by
    intro hj
    rw [hp] at hj
    cases hj

theorem take (h : Keeps handle jobs w) {job : Nat × α} {queue : List (Nat × α)}
    (hc : w.current = none) (hq : w.queue = job :: queue) (hp : w.phase ≠ .joined) :
    Keeps handle jobs { w with current := some job, queue } where
  handled := h.handled
  handled_le := h.handled_le
  line := by
    have hl := h.line
    rw [hc, hq] at hl
    exact hl
  receivers := h.receivers
  fits := h.fits
  sent_sublist := h.sent_sublist
  sent_own := h.sent_own
  ended := fun hj => absurd hj hp

theorem in_hand (h : Keeps handle jobs w) {number : Nat} {job : α}
    (hc : w.current = some (number, job)) :
    number = w.handled.length ∧ jobs[w.handled.length]? = some job ∧
      w.queue = (jobs.mapIdx Prod.mk).drop (w.handled.length + 1) := by
  have hl := h.line
  rw [hc] at hl
  exact head_line hl

/-- When another job has been done, the receivers of all others are as they can be. -/
theorem fits_next (h : Keeps handle jobs w) {n : Nat} {r : Receiver β}
    (hn : w.receivers[n]? = some r) (hw : n = w.handled.length → r ≠ .waiting)
    (more : List (Nat × β)) : FitsIn (w.handled.length + 1) (w.sent ++ more) n r := by
  have hf := h.fits n r hn
  cases r with
  | waiting => exact Nat.lt_of_le_of_ne hf fun hk => hw hk.symm rfl
  | holding answer => exact List.mem_append_left more hf
  | received answer => exact List.mem_append_left more hf
  | dropped => trivial

theorem reply (h : Keeps handle jobs w) {number : Nat} {job : α}
    (hc : w.current = some (number, job)) :
    Keeps handle jobs
      ({ w with current := none, handled := w.handled ++ [number] }.deliver number (handle job)) := by
  obtain ⟨rfl, hj, hq⟩ := h.in_hand hc
  have hlen : (w.handled ++ [w.handled.length]).length = w.handled.length + 1 := List.length_append
  have hrange : w.handled ++ [w.handled.length] = List.range (w.handled.length + 1) := by
    rw [List.range_succ, ← h.handled]
  have hlt : w.handled.length < jobs.length := (List.getElem?_eq_some_iff.mp hj).1
  have hp : w.phase ≠ .joined := by
    intro hp
    rw [(h.ended hp).2] at hc
    cases hc
  rcases deliver_cases { w with current := none, handled := w.handled ++ [w.handled.length] }
    w.handled.length (handle job) with ⟨-, hd⟩ | ⟨hr, hd⟩
  · rw [hd]
    exact {
      handled := by rw [hlen, hrange]
      handled_le := by rw [hlen]; exact hlt
      line := by rw [hlen]; exact hq
      receivers := by rw [List.length_set]; exact h.receivers
      fits := by
        intro n r hn
        rw [hlen]
        rcases getElem?_set_eq_some hn with ⟨rfl, rfl⟩ | ⟨hne, hn⟩
        · exact List.mem_append_right _ (List.mem_singleton_self _)
        · exact h.fits_next hn (fun hk => absurd hk hne) _
      sent_sublist := by
        rw [List.map_append]
        exact h.sent_sublist.append (List.Sublist.refl _)
      sent_own := by
        intro n answer hn
        rw [List.mem_append, List.mem_singleton] at hn
        rcases hn with hn | hn
        · exact h.sent_own n answer hn
        · obtain ⟨rfl, rfl⟩ := Prod.mk.inj hn
          rw [hj, Option.map_some]
      ended := fun hj => absurd hj hp }
  · rw [hd]
    exact {
      handled := by rw [hlen, hrange]
      handled_le := by rw [hlen]; exact hlt
      line := by rw [hlen]; exact hq
      receivers := h.receivers
      fits := by
        intro n r hn
        have hw : n = w.handled.length → r ≠ .waiting := by
          rintro rfl rfl
          exact hr hn
        have hf := h.fits_next hn hw []
        rw [List.append_nil] at hf
        rw [hlen]
        exact hf
      sent_sublist := h.sent_sublist.trans (List.sublist_append_left _ _)
      sent_own := h.sent_own
      ended := fun hj => absurd hj hp }

theorem set_receiver (h : Keeps handle jobs w) (number : Nat) {r : Receiver β}
    (hr : FitsIn w.handled.length w.sent number r) :
    Keeps handle jobs { w with receivers := w.receivers.set number r } where
  handled := h.handled
  handled_le := h.handled_le
  line := h.line
  receivers := by
    rw [List.length_set]
    exact h.receivers
  fits := by
    intro n s hn
    rcases getElem?_set_eq_some hn with ⟨rfl, rfl⟩ | ⟨-, hn⟩
    · exact hr
    · exact h.fits n s hn
  sent_sublist := h.sent_sublist
  sent_own := h.sent_own
  ended := h.ended

theorem set_phase (h : Keeps handle jobs w) (phase : Phase)
    (hp : phase = .joined → w.queue = [] ∧ w.current = none) : Keeps handle jobs { w with phase } :=
  ⟨h.handled, h.handled_le, h.line, h.receivers, h.fits, h.sent_sublist, h.sent_own, hp⟩

theorem step (h : Keeps handle jobs w) {l : Label α} (hs : w.step handle l = some v) :
    Keeps handle (jobs ++ l.job?.toList) v := by
  cases l with
  | submit job =>
    obtain ⟨hp, rfl⟩ := step_submit.mp hs
    exact h.submit hp job
  | take =>
    obtain ⟨job, queue, hc, hq, hp, rfl⟩ := step_take.mp hs
    simpa [Label.job?] using h.take hc hq hp
  | reply =>
    obtain ⟨number, job, hc, rfl⟩ := step_reply.mp hs
    simpa [Label.job?] using h.reply hc
  | receive number =>
    obtain ⟨answer, hr, rfl⟩ := step_receive.mp hs
    simpa [Label.job?] using
      h.set_receiver number (r := .received answer) (h.fits number (.holding answer) hr)
  | drop number =>
    obtain ⟨r, -, -, rfl⟩ := step_drop.mp hs
    simpa [Label.job?] using h.set_receiver number (r := .dropped) trivial
  | close =>
    obtain ⟨-, rfl⟩ := step_close.mp hs
    simpa [Label.job?] using h.set_phase .closed (fun hp => nomatch hp)
  | join =>
    obtain ⟨⟨-, hq, hc⟩, rfl⟩ := step_join.mp hs
    simpa [Label.job?] using h.set_phase .joined (fun _ => ⟨hq, hc⟩)

theorem run (h : Keeps handle jobs w) {course : List (Label α)}
    (hr : w.run handle course = some v) : Keeps handle (jobs ++ submitted course) v := by
  induction course generalizing w jobs with
  | nil =>
    cases hr
    rw [submitted, List.filterMap_nil, List.append_nil]
    exact h
  | cons l ls ih =>
    obtain ⟨u, hs, hr⟩ := run_cons_eq_some.mp hr
    have hu := ih (h.step hs) hr
    rwa [List.append_assoc, ← submitted_cons] at hu

theorem receiver_in_hand (h : Keeps handle jobs w) {number : Nat} {job : α}
    (hc : w.current = some (number, job)) (hd : w.receivers[number]? ≠ some .dropped) :
    w.receivers[number]? = some .waiting := by
  obtain ⟨rfl, hj, -⟩ := h.in_hand hc
  obtain ⟨hl, -⟩ := List.getElem?_eq_some_iff.mp hj
  rw [← h.receivers] at hl
  have hr := List.getElem?_eq_getElem hl
  have hf := h.fits _ _ hr
  have hunsent (answer : β) : (w.handled.length, answer) ∉ w.sent := by
    intro hs
    have hm := h.sent_sublist.subset (List.mem_map_of_mem hs)
    rw [h.handled, List.mem_range] at hm
    simp at hm
  cases hx : w.receivers[w.handled.length] with
  | waiting => rw [hr, hx]
  | holding answer =>
    rw [hx] at hf
    exact absurd hf (hunsent answer)
  | received answer =>
    rw [hx] at hf
    exact absurd hf (hunsent answer)
  | dropped => exact absurd (by rw [hr, hx]) hd

theorem all_handled (h : Keeps handle jobs w) (hq : w.queue = []) (hc : w.current = none) :
    w.handled = List.range jobs.length := by
  have hl := h.line
  rw [hq, hc, Option.toList_none, List.append_nil, eq_comm, List.drop_eq_nil_iff,
    List.length_mapIdx] at hl
  rw [h.handled, Nat.le_antisymm h.handled_le hl]

/-- The answer to a job that is done has been sent, unless its receiver has been dropped. -/
theorem sent_of_handled (h : Keeps handle jobs w) {number : Nat} {job : α}
    (hj : jobs[number]? = some job) (hn : number < w.handled.length) :
    w.receivers[number]? = some .dropped ∨ (number, handle job) ∈ w.sent := by
  obtain ⟨hl, -⟩ := List.getElem?_eq_some_iff.mp hj
  rw [← h.receivers] at hl
  have hr := List.getElem?_eq_getElem hl
  have hf := h.fits _ _ hr
  have hown (answer : β) (hs : (number, answer) ∈ w.sent) : (number, handle job) ∈ w.sent := by
    have ho := h.sent_own number answer hs
    rw [hj, Option.map_some, Option.some.injEq] at ho
    rwa [ho]
  cases hx : w.receivers[number] with
  | waiting =>
    rw [hx] at hf
    exact absurd hn (Nat.not_lt.mpr hf)
  | holding answer =>
    rw [hx] at hf
    exact .inr (hown answer hf)
  | received answer =>
    rw [hx] at hf
    exact .inr (hown answer hf)
  | dropped => exact .inl (by rw [hr, hx])

end Keeps

theorem toList_answer? {jobs : List α} (h : Keeps handle jobs w) {l : Label α}
    (hs : w.step handle l = some v) (more : List α) :
    (l.answer? w).toList.map some =
      l.received?.toList.map fun n => (jobs ++ more)[n]?.map handle := by
  cases l with
  | receive number =>
    obtain ⟨answer, hr, -⟩ := step_receive.mp hs
    have hsent := h.sent_own number answer (h.fits number _ hr)
    obtain ⟨job, hj, rfl⟩ := Option.map_eq_some_iff.mp hsent
    have hl := (List.getElem?_eq_some_iff.mp hj).1
    simp [Label.answer?, Label.received?, hr, List.getElem?_append_left hl, hj]
  | submit | take | reply | drop | close | join => rfl

/-- Every answer that is received is that to the job with the number of the receiver. -/
theorem map_handedOut {jobs : List α} (h : Keeps handle jobs w) {course : List (Label α)}
    (hr : w.run handle course = some v) :
    (handedOut handle w course).map some =
      (course.filterMap Label.received?).map fun n => (jobs ++ submitted course)[n]?.map handle := by
  induction course generalizing w jobs with
  | nil => rfl
  | cons l ls ih =>
    obtain ⟨u, hs, hr⟩ := run_cons_eq_some.mp hr
    have hl := toList_answer? h hs (l.job?.toList ++ submitted ls)
    have hls := ih (h.step hs) hr
    rw [List.append_assoc] at hls
    rw [handedOut, hs, Option.elim_some, List.map_append, hl, hls, submitted_cons,
      List.filterMap_eq_flatMap_toList, List.filterMap_eq_flatMap_toList, List.flatMap_cons,
      List.map_append]

end MarkupNesting.Worker
