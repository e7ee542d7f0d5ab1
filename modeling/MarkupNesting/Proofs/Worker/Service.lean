import MarkupNesting.Proofs.Worker.QueueOrder
import MarkupNesting.Proofs.Worker.Receivers

/-! What a worker does for its clients, whatever course events take. Jobs are done in the order in
which they came in; the answer to a job goes to the receiver of that job and to no other, once; a
receiver may be dropped without effect on the others; and when the worker has ended nothing is left. -/

namespace MarkupNesting.Worker

variable {α β : Type} {handle : α → β} {w v : Worker α β}

/-- The steps in which the worker does all that it has been given. -/
def remaining (w : Worker α β) : List (Label α) :=
  (w.current.toList.map fun _ => .reply) ++ w.queue.flatMap fun _ => [.take, .reply]

@[simp] theorem deliver_queue (w : Worker α β) (n : Nat) (answer : β) :
    (w.deliver n answer).queue = w.queue := by
  rcases deliver_cases w n answer with ⟨-, hd⟩ | ⟨-, hd⟩ <;> rw [hd]

@[simp] theorem deliver_current (w : Worker α β) (n : Nat) (answer : β) :
    (w.deliver n answer).current = w.current := by
  rcases deliver_cases w n answer with ⟨-, hd⟩ | ⟨-, hd⟩ <;> rw [hd]

@[simp] theorem deliver_phase (w : Worker α β) (n : Nat) (answer : β) :
    (w.deliver n answer).phase = w.phase := by
  rcases deliver_cases w n answer with ⟨-, hd⟩ | ⟨-, hd⟩ <;> rw [hd]

theorem exists_run_queue (handle : α → β) (hc : w.current = none)
    (hp : w.phase = .joined → w.queue = []) :
    ∃ v, w.run handle (w.queue.flatMap fun _ => [.take, .reply]) = some v ∧
      v.queue = [] ∧ v.current = none ∧ v.phase = w.phase := by
  induction hq : w.queue generalizing w with
  | nil => exact ⟨w, rfl, hq, hc, rfl⟩
  | cons job queue ih =>
    have hj : w.phase ≠ .joined := by
      intro hj
      rw [hp hj] at hq
      cases hq
    let u : Worker α β := { w with current := some job, queue }
    let x : Worker α β :=
      { u with current := none, handled := u.handled ++ [job.1] }.deliver job.1 (handle job.2)
    have ht : w.step handle .take = some u := step_take.mpr ⟨job, queue, hc, hq, hj, rfl⟩
    have hr : u.step handle .reply = some x := step_reply.mpr ⟨job.1, job.2, rfl, rfl⟩
    have hxp : x.phase = w.phase := deliver_phase _ _ _
    have hxq : x.queue = queue := deliver_queue _ _ _
    obtain ⟨v, hv, h1, h2, h3⟩ := ih (w := x) (deliver_current _ _ _)
      (fun h => absurd (hxp ▸ h) hj) hxq
    refine ⟨v, ?_, h1, h2, h3.trans hxp⟩
    rw [List.flatMap_cons]
    exact run_cons_eq_some.mpr ⟨u, ht, run_cons_eq_some.mpr ⟨x, hr, hv⟩⟩

/-- The worker is never stuck: it can do all that it has been given. -/
theorem exists_run_remaining (handle : α → β)
    (hw : w.phase = .joined → w.queue = [] ∧ w.current = none) :
    ∃ v, w.run handle w.remaining = some v ∧ v.queue = [] ∧ v.current = none ∧ v.phase = w.phase := by
  rw [remaining]
  cases hc : w.current with
  | none => exact exists_run_queue handle hc fun hj => (hw hj).1
  | some job =>
    have hj : w.phase ≠ .joined := by
      intro hj
      rw [(hw hj).2] at hc
      cases hc
    let x : Worker α β :=
      { w with current := none, handled := w.handled ++ [job.1] }.deliver job.1 (handle job.2)
    have hr : w.step handle .reply = some x := step_reply.mpr ⟨job.1, job.2, hc, rfl⟩
    have hxp : x.phase = w.phase := deliver_phase _ _ _
    have hxq : x.queue = w.queue := deliver_queue _ _ _
    obtain ⟨v, hv, h1, h2, h3⟩ := exists_run_queue handle (w := x)
      (deliver_current _ _ _) (fun h => absurd (hxp ▸ h) hj)
    rw [hxq] at hv
    exact ⟨v, run_cons_eq_some.mpr ⟨x, hr, hv⟩, h1, h2, h3.trans hxp⟩

theorem mem_remaining {l : Label α} (h : l ∈ w.remaining) : l = .take ∨ l = .reply := by
  rw [remaining, List.mem_append, List.mem_map, List.mem_flatMap] at h
  rcases h with ⟨_, -, rfl⟩ | ⟨_, -, h⟩
  · exact .inr rfl
  · simpa using h

theorem submitted_remaining (w : Worker α β) : submitted w.remaining = [] := by
  rw [submitted, List.filterMap_eq_nil_iff]
  intro l hl
  rcases mem_remaining hl with rfl | rfl <;> rfl

def numbered (first : Nat) (jobs : List α) : List (Nat × α) := (jobs.zipIdx first).map Prod.swap

theorem run_submits (handle : α → β) (jobs : List α) (queue : List (Nat × α))
    (receivers : List (Receiver β)) (handled : List Nat) (sent : List (Nat × β)) :
    run handle ⟨.accepting, queue, none, receivers, handled, sent⟩ (jobs.map .submit) =
      some ⟨.accepting, queue ++ numbered receivers.length jobs, none,
        receivers ++ List.replicate jobs.length .waiting, handled, sent⟩ := by
  induction jobs generalizing queue receivers with
  | nil => simp [run, numbered]
  | cons job jobs ih =>
    have h1 := ih (queue ++ [(receivers.length, job)]) (receivers ++ [.waiting])
    rw [List.map_cons, run]
    simpa [step, numbered, List.replicate_succ] using h1

theorem run_works (handle : α → β) (jobs : List α) (done : List β) (handled : List Nat)
    (sent : List (Nat × β)) :
    ∃ handled' sent',
      run handle ⟨.accepting, numbered done.length jobs, none,
          done.map .holding ++ List.replicate jobs.length .waiting, handled, sent⟩
        (jobs.flatMap fun _ => [.take, .reply]) =
      some ⟨.accepting, [], none, (done ++ jobs.map handle).map .holding, handled', sent'⟩ := by
  induction jobs generalizing done handled sent with
  | nil => exact ⟨handled, sent, by simp [run, numbered]⟩
  | cons job jobs ih =>
    obtain ⟨handled', sent', h⟩ := ih (done ++ [handle job]) (handled ++ [done.length])
      (sent ++ [(done.length, handle job)])
    refine ⟨handled', sent', ?_⟩
    have hr : (done.map .holding ++ List.replicate (job :: jobs).length .waiting :
        List (Receiver β))[done.length]? = some .waiting := by
      rw [List.getElem?_append_right (by simp)]
      simp
    rw [List.flatMap_cons]
    refine run_cons_eq_some.mpr ⟨_, step_take.mpr ⟨(done.length, job), numbered (done.length + 1) jobs,
      rfl, by simp [numbered], by simp, rfl⟩, ?_⟩
    refine run_cons_eq_some.mpr ⟨_, step_reply.mpr ⟨done.length, job, rfl, rfl⟩, ?_⟩
    simp only [deliver, hr]
    simpa [List.replicate_succ] using h

theorem run_receives (handle : α → β) (got rest : List β) (handled : List Nat)
    (sent : List (Nat × β)) :
    run handle (⟨.accepting, [], none, got.map .received ++ rest.map .holding, handled, sent⟩ :
        Worker α β) ((List.range' got.length rest.length).map .receive) =
      some ⟨.accepting, [], none, (got ++ rest).map .received, handled, sent⟩ := by
  induction rest generalizing got with
  | nil => simp [run]
  | cons answer rest ih =>
    have h := ih (got ++ [answer])
    have hr : (got.map .received ++ (answer :: rest).map .holding : List (Receiver β))[got.length]? =
        some (.holding answer) := by
      rw [List.getElem?_append_right (by simp)]
      simp
    rw [List.length_cons, List.range'_succ, List.map_cons]
    refine run_cons_eq_some.mpr ⟨_, step_receive.mpr ⟨answer, hr, rfl⟩, ?_⟩
    simpa using h

theorem run_oneByOne (handle : α → β) (jobs : List α) (got : List β) (handled : List Nat)
    (sent : List (Nat × β)) :
    ∃ handled' sent',
      run handle ⟨.accepting, [], none, got.map .received, handled, sent⟩
        ((jobs.zipIdx got.length).flatMap fun (job, number) =>
          [.submit job, .take, .reply, .receive number]) =
      some ⟨.accepting, [], none, (got ++ jobs.map handle).map .received, handled', sent'⟩ := by
  induction jobs generalizing got handled sent with
  | nil => exact ⟨handled, sent, by simp [run]⟩
  | cons job jobs ih =>
    obtain ⟨handled', sent', h⟩ := ih (got ++ [handle job]) (handled ++ [got.length])
      (sent ++ [(got.length, handle job)])
    refine ⟨handled', sent', ?_⟩
    have hl : (got.map .received ++ [.waiting] : List (Receiver β))[got.length]? = some .waiting := by
      simp
    rw [List.zipIdx_cons, List.flatMap_cons]
    refine run_cons_eq_some.mpr ⟨_, step_submit.mpr ⟨rfl, rfl⟩, ?_⟩
    refine run_cons_eq_some.mpr ⟨_, step_take.mpr ⟨(got.length, job), [], rfl, by simp, by simp, rfl⟩,
      ?_⟩
    refine run_cons_eq_some.mpr ⟨_, step_reply.mpr ⟨got.length, job, rfl, rfl⟩, ?_⟩
    simp only [deliver, hl]
    refine run_cons_eq_some.mpr ⟨_, step_receive.mpr ⟨handle job, by simp, rfl⟩, ?_⟩
    simpa using h

theorem answers_allAtOnce (handle : α → β) (jobs : List α) :
    answers handle (allAtOnce jobs) = jobs.map handle := by
  obtain ⟨handled, sent, hw⟩ := run_works handle jobs [] [] []
  have hs := run_submits handle jobs [] [] [] []
  have hr := run_receives handle [] (jobs.map handle) handled sent
  have hrun : run handle start (allAtOnce jobs) =
      some ⟨.joined, [], none, (jobs.map handle).map .received, handled, sent⟩ := by
    rw [List.length_map, List.length_nil, ← List.range_eq_range'] at hr
    simp only [List.length_nil, List.map_nil, List.nil_append] at hs hw hr
    rw [allAtOnce, run_append, run_append, run_append, start, hs, Option.bind_some, hw,
      Option.bind_some, hr]
    rfl
  rw [answers, hrun]
  simp [received, List.filterMap_map, Function.comp_def]

theorem answers_oneByOne (handle : α → β) (jobs : List α) :
    answers handle (oneByOne jobs) = jobs.map handle := by
  obtain ⟨handled, sent, hw⟩ := run_oneByOne handle jobs [] [] []
  have hrun : run handle start (oneByOne jobs) =
      some ⟨.joined, [], none, (jobs.map handle).map .received, handled, sent⟩ := by
    rw [oneByOne, run_append]
    simp only [List.length_nil, List.map_nil, List.nil_append] at hw
    rw [start, hw]
    rfl
  rw [answers, hrun]
  simp [received, List.filterMap_map, Function.comp_def]

/-- What holds of a worker after a course of events from the start. -/
structure Served (handle : α → β) (course : List (Label α)) (w : Worker α β) : Prop where
  /-- Jobs are done in the order in which they came in. -/
  in_order : w.handled <+: List.range (submitted course).length
  /-- No receiver is sent more than one answer, -/
  once : (w.sent.map Prod.fst).Nodup
  /-- and that is the answer to its own job. -/
  own : ∀ n answer, (n, answer) ∈ w.sent → (submitted course)[n]?.map handle = some answer
  held : ∀ n answer, w.receivers[n]? = some (.holding answer) ∨
    w.receivers[n]? = some (.received answer) → (n, answer) ∈ w.sent
  /-- When a job has been done, the answer is sent if the receiver has not been dropped. -/
  answered : ∀ before after u, course = before ++ .reply :: after →
    run handle start before = some u → ∃ n job, u.current = some (n, job) ∧
      (submitted course)[n]? = some job ∧
      (u.receivers[n]? ≠ some .dropped → (n, handle job) ∈ w.sent)
  /-- If a receiver is dropped at some time, all else goes on as it would have, -/
  dropped : ∀ n before after u u', course = before ++ after → run handle start before = some u →
    u.step handle (.drop n) = some u' →
    ∃ v, u'.run handle (after.filter (·.receiver? ≠ some n)) = some v ∧ SameBut n w v
  /-- and it has gone on as it would have if nothing had been done with the receiver. -/
  undropped : ∀ n, ∃ v, run handle start (course.filter (·.receiver? ≠ some n)) = some v ∧
    SameBut n w v
  /-- The worker can do all that is left, and then end if it is to. -/
  finishes : ∃ v, w.run handle w.remaining = some v ∧
    v.handled = List.range (submitted course).length ∧
    (w.phase = .closed → ∃ u, v.step handle .join = some u)
  /-- When the worker has ended all jobs are done, and answered if the receiver was there. -/
  ended : w.phase = .joined → w.handled = List.range (submitted course).length ∧
    ∀ n job, (submitted course)[n]? = some job →
      w.receivers[n]? = some .dropped ∨ (n, handle job) ∈ w.sent
  /-- Clients that receive the answers in the order of the jobs get those to the jobs. -/
  received : course.filterMap Label.received? = List.range (submitted course).length →
    handedOut handle start course = (submitted course).map handle

theorem submitted_append (ls ms : List (Label α)) :
    submitted (ls ++ ms) = submitted ls ++ submitted ms := List.filterMap_append

theorem sent_of_reply {before after : List (Label α)} {u : Worker α β}
    (hu : run handle start before = some u) (hw : u.run handle (.reply :: after) = some w) :
    ∃ n job, u.current = some (n, job) ∧ (submitted before)[n]? = some job ∧
      (u.receivers[n]? ≠ some .dropped → (n, handle job) ∈ w.sent) := by
  have hk : Keeps handle (submitted before) u := keeps_start.run hu
  obtain ⟨x, hs, hr⟩ := run_cons_eq_some.mp hw
  obtain ⟨n, job, hc, rfl⟩ := step_reply.mp hs
  obtain ⟨hn, hj, -⟩ := hk.in_hand hc
  refine ⟨n, job, hc, hn ▸ hj, fun hd => ?_⟩
  have hwait := hk.receiver_in_hand hc hd
  rcases deliver_cases { u with current := none, handled := u.handled ++ [n] } n (handle job) with
    ⟨-, he⟩ | ⟨hne, -⟩
  · refine (run_keeps_sent hr).subset ?_
    rw [he]
    exact List.mem_append_right _ (List.mem_singleton_self _)
  · exact absurd hwait hne

theorem handedOut_in_order {course : List (Label α)} (h : run handle start course = some w)
    (hr : course.filterMap Label.received? = List.range (submitted course).length) :
    handedOut handle start course = (submitted course).map handle := by
  have hm := map_handedOut keeps_start h
  have hall : (List.range (submitted course).length).map (fun n => (submitted course)[n]?.map handle) =
      ((submitted course).map handle).map some := by
    refine List.ext_getElem (by simp) fun n h1 h2 => ?_
    simp at h2
    simp [h2]
  rw [hr, List.nil_append, hall] at hm
  exact List.map_injective_iff.mpr (Option.some_injective β) hm

theorem served {course : List (Label α)} (h : run handle start course = some w) :
    Served handle course w := by
  have hk : Keeps handle (submitted course) w := keeps_start.run h
  exact {
    in_order := by
      rw [hk.handled, ← Nat.min_eq_left hk.handled_le, ← List.take_range]
      exact List.take_prefix _ _
    once := by
      have hn := hk.handled ▸ List.nodup_range
      exact hn.sublist hk.sent_sublist
    own := hk.sent_own
    held := by
      rintro n answer (hr | hr)
      · exact hk.fits n _ hr
      · exact hk.fits n _ hr
    answered := by
      rintro before after u rfl hu
      rw [run_append, hu, Option.bind_some] at h
      obtain ⟨n, job, hc, hj, hs⟩ := sent_of_reply hu h
      refine ⟨n, job, hc, ?_, hs⟩
      have hl := (List.getElem?_eq_some_iff.mp hj).1
      rw [submitted_append, List.getElem?_append_left hl, hj]
    dropped := by
      rintro n before after u u' rfl hu hd
      rw [run_append, hu, Option.bind_some] at h
      exact ((SameBut.refl n u).step_left rfl hd).symm.run h
    undropped := fun n => (SameBut.refl n start).run h
    finishes := by
      obtain ⟨v, hv, hq, hc, hp⟩ := exists_run_remaining handle hk.ended
      have hkv := hk.run hv
      rw [submitted_remaining, List.append_nil] at hkv
      exact ⟨v, hv, hkv.all_handled hq hc,
        fun hw => ⟨_, step_join.mpr ⟨⟨hp.trans hw, hq, hc⟩, rfl⟩⟩⟩
    ended := by
      intro hp
      obtain ⟨hq, hc⟩ := hk.ended hp
      have ha := hk.all_handled hq hc
      refine ⟨ha, fun n job hj => hk.sent_of_handled hj ?_⟩
      rw [ha, List.length_range]
      exact (List.getElem?_eq_some_iff.mp hj).1
    received := handedOut_in_order h }

/-- Whatever course events take, jobs are done in order, every answer goes to the receiver of its
job, and nothing is lost when the worker ends. So requests that are all given at once, one at a time
or independently have the same responses, in their order. -/
theorem serves_in_order :
    (∀ {α β : Type} (handle : α → β) (course : List (Label α)) (w : Worker α β),
      run handle start course = some w → Served handle course w) ∧
    ∀ requests : List Request,
      respondQueued requests = requests.map Request.respond ∧
      respondInTurn requests = requests.map Request.respond ∧
      respondAll requests = requests.map Request.respond :=
  ⟨fun _ _ _ h => served h, fun requests =>
    ⟨answers_allAtOnce Request.respond requests, answers_oneByOne Request.respond requests, rfl⟩⟩

/-- The first of two receivers is dropped before its job is done; the worker ends after both. -/
theorem serves_in_order_dropped :
    let course : List (Label Nat) :=
      [.submit 5, .take, .submit 7, .drop 0, .reply, .close, .take, .reply, .receive 1, .join]
    let w : Worker Nat Nat :=
      ⟨.joined, [], none, [.dropped, .received 8], [0, 1], [(1, 8)]⟩
    run (· + 1) start course = some w ∧ Served (· + 1) course w := by
  intro course w
  have h : run (· + 1) start course = some w := rfl
  exact ⟨h, serves_in_order.1 _ course w h⟩

end MarkupNesting.Worker
