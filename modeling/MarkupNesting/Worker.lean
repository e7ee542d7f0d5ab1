import MarkupNesting.Analysis

/-! A worker that does jobs one at a time, in the order in which they came in. Clients hand in jobs
and hold a receiver for each; they may drop a receiver at any time. A label that does not apply in a
state leads nowhere: in particular no job is handed in once a worker is closed, so there is no
answer that says that it has stopped. -/

namespace MarkupNesting

inductive Receiver (β : Type) where
  | waiting
  | holding (answer : β)
  | received (answer : β)
  | dropped
deriving DecidableEq

inductive Phase where
  | accepting
  | closed
  | joined
deriving DecidableEq

/-- The state of a worker and its clients. Jobs are numbered as they come in. -/
structure Worker (α β : Type) where
  phase : Phase
  queue : List (Nat × α)
  current : Option (Nat × α)
  receivers : List (Receiver β)
  /-- The jobs that have been done, in order. -/
  handled : List Nat
  /-- The answers that have been sent, in order. -/
  sent : List (Nat × β)

namespace Worker

variable {α β : Type}

inductive Label (α : Type) where
  | submit (job : α)
  | take
  | reply
  | receive (number : Nat)
  | drop (number : Nat)
  | close
  | join

def start : Worker α β := ⟨.accepting, [], none, [], [], []⟩

def deliver (w : Worker α β) (number : Nat) (answer : β) : Worker α β :=
  match w.receivers[number]? with
  | some .waiting =>
    { w with
      receivers := w.receivers.set number (.holding answer)
      sent := w.sent ++ [(number, answer)] }
  | _ => w

def step (handle : α → β) (w : Worker α β) : Label α → Option (Worker α β)
  | .submit job =>
    if w.phase = .accepting then
      some { w with
        queue := w.queue ++ [(w.receivers.length, job)]
        receivers := w.receivers ++ [.waiting] }
    else none
  | .take =>
    match w.current, w.queue with
    | none, job :: queue =>
      if w.phase = .joined then none else some { w with current := some job, queue }
    | _, _ => none
  | .reply =>
    match w.current with
    | some (number, job) =>
      some ({ w with current := none, handled := w.handled ++ [number] }.deliver number (handle job))
    | none => none
  | .receive number =>
    match w.receivers[number]? with
    | some (.holding answer) => some { w with receivers := w.receivers.set number (.received answer) }
    | _ => none
  | .drop number =>
    match w.receivers[number]? with
    | some .dropped | none => none
    | some _ => some { w with receivers := w.receivers.set number .dropped }
  | .close => if w.phase = .accepting then some { w with phase := .closed } else none
  | .join =>
    if w.phase = .closed && w.queue.isEmpty && w.current.isNone then some { w with phase := .joined }
    else none

def run (handle : α → β) (w : Worker α β) : List (Label α) → Option (Worker α β)
  | [] => some w
  | l :: ls => (w.step handle l).bind fun w => run handle w ls

def received (w : Worker α β) : List β :=
  w.receivers.filterMap fun
    | .received answer => some answer
    | _ => none

/-- All jobs are handed in, done, and their answers received in turn. -/
def allAtOnce (jobs : List α) : List (Label α) :=
  jobs.map .submit ++ jobs.flatMap (fun _ => [.take, .reply]) ++
    (List.range jobs.length).map .receive ++ [.close, .join]

/-- Every job is handed in when the answer to the one before has been received. -/
def oneByOne (jobs : List α) : List (Label α) :=
  jobs.zipIdx.flatMap (fun (job, number) => [.submit job, .take, .reply, .receive number]) ++
    [.close, .join]

def answers (handle : α → β) (course : List (Label α)) : List β :=
  match run handle start course with
  | some w => w.received
  | none => []

end Worker

/-- The responses of a worker that is given all requests first. -/
def respondQueued (requests : List Request) : List Response :=
  Worker.answers Request.respond (Worker.allAtOnce requests)

def respondInTurn (requests : List Request) : List Response :=
  Worker.answers Request.respond (Worker.oneByOne requests)

def respondAll (requests : List Request) : List Response := requests.map Request.respond

end MarkupNesting
