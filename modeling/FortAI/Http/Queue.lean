import FortAI.Machine.Ring
import Mathlib.Data.List.Nodup
import Mathlib.Data.List.FinRange

/-!
# The queue between the acceptor and the workers

The threaded transport of `fortai_http_transport_run`: one thread accepts connections and puts their
descriptors into a ring (`fortai_queue_push`), the workers take them out and serve them
(`fortai_http_worker`).  Each section of code that holds the mutex is one step.  A thread that waits
for a condition may wake up at any time, so a section that ends in a wait is a step without effect.

* `Inv.step` : what one step preserves.
* `disciplined_of_reachable` : in every run the ring is in order, and every accepted descriptor is
  closed once.
-/

namespace FortAI

namespace Http

/-- Where the thread of `fortai_http_transport_run` is. -/
inductive Acceptor (Fd : Type*)
  /-- At the test of the accept loop. -/
  | testing
  /-- In `accept`. -/
  | accepting
  /-- Before a section of `fortai_queue_push`. -/
  | pushing (client : Fd)
  /-- Behind a `fortai_queue_push` that failed. -/
  | refused (client : Fd)
  /-- Behind the accept loop. -/
  | leaving
  /-- `stopping` is set; the workers are joined. -/
  | joining
  | ended

/-- Where a thread of `fortai_http_worker` is. -/
inductive Worker (Fd : Type*)
  /-- Before the section that takes a descriptor. -/
  | polling
  /-- Before `fortai_close_client`. -/
  | serving (client : Fd)
  /-- Behind it. -/
  | finishing
  | returned

/-- The state of the threads, of `fortai_request_queue` and of `fortai_stop`, and what has happened
so far. -/
structure Transport (Fd : Type*) (workers capacity : ℕ) where
  queue : Ring Fd capacity
  active : ℕ
  stopping : Bool
  stop : Bool
  acceptor : Acceptor Fd
  worker : Fin workers → Worker Fd
  /-- What `accept` returned. -/
  accepted : List Fd
  /-- What was taken out of the ring, and by which worker. -/
  taken : List (Fin workers × Fd)
  /-- The calls of `fortai_close_client`. -/
  passed : List (Fin workers × Fd)
  /-- What the accepting thread closed itself. -/
  closed : List Fd

/-- What can happen next. -/
inductive Event (Fd : Type*) (workers : ℕ)
  /-- A signal sets `fortai_stop`. -/
  | signal
  /-- The test of the accept loop. -/
  | test
  | accept (client : Fd)
  /-- `accept` returns with `EINTR`. -/
  | interrupted
  /-- `accept` fails. -/
  | failed
  /-- A section of `fortai_queue_push`. -/
  | push
  /-- The accepting thread closes a descriptor that was not put into the queue. -/
  | close
  /-- The section that sets `stopping`. -/
  | shut
  /-- The section of a worker that takes a descriptor. -/
  | poll (i : Fin workers)
  /-- `fortai_close_client` -/
  | serve (i : Fin workers)
  /-- The section of a worker behind `fortai_close_client`. -/
  | finish (i : Fin workers)
  /-- All threads are joined. -/
  | join

namespace Worker

variable {Fd : Type*}

def client : Worker Fd → Option Fd
  | serving client => some client
  | _ => none

def hasReturned : Worker Fd → Bool
  | returned => true
  | _ => false

end Worker

namespace Acceptor

variable {Fd : Type*}

/-- The descriptor that the thread has not yet passed on. -/
def own : Acceptor Fd → List Fd
  | pushing client => [client]
  | refused client => [client]
  | _ => []

/-- The thread is in the accept loop. -/
def inLoop : Acceptor Fd → Bool
  | leaving => false
  | joining => false
  | ended => false
  | _ => true

/-- The thread has set `stopping`. -/
def hasShut : Acceptor Fd → Bool
  | joining => true
  | ended => true
  | _ => false

end Acceptor

namespace Transport

variable {Fd : Type*} {workers capacity : ℕ}

/-- `fortai_queue_push` from where the mutex is locked, up to a wait or the return. -/
def push (s : Transport Fd workers capacity) (client : Fd) : Transport Fd workers capacity :=
  if s.queue.count = capacity ∧ ¬ s.stopping ∧ ¬ s.stop then s
  else if s.stopping ∨ s.stop then { s with acceptor := .refused client }
  else { s with queue := s.queue.put client, acceptor := .testing }

/-- The first section of `fortai_http_worker`, up to a wait or the end of the section. -/
def poll (s : Transport Fd workers capacity) (i : Fin workers) : Transport Fd workers capacity :=
  if s.queue.count = 0 ∧ ¬ s.stopping then s
  else if s.queue.count = 0 then { s with worker := Function.update s.worker i .returned }
  else
    { s with
      queue := s.queue.take
      active := s.active + 1
      worker := Function.update s.worker i (.serving s.queue.front)
      taken := s.taken ++ [(i, s.queue.front)] }

/-- A step; `none` when it cannot happen. -/
def step (s : Transport Fd workers capacity) : Event Fd workers → Option (Transport Fd workers capacity)
  | .signal => some { s with stop := true }
  | .test =>
    match s.acceptor with
    | .testing => some { s with acceptor := if s.stop then .leaving else .accepting }
    | _ => none
  | .accept client =>
    match s.acceptor with
    | .accepting =>
      some { s with acceptor := .pushing client, accepted := s.accepted ++ [client] }
    | _ => none
  | .interrupted =>
    match s.acceptor with
    | .accepting => some { s with acceptor := .testing }
    | _ => none
  | .failed =>
    match s.acceptor with
    | .accepting => some { s with acceptor := .leaving }
    | _ => none
  | .push =>
    match s.acceptor with
    | .pushing client => some (s.push client)
    | _ => none
  | .close =>
    match s.acceptor with
    | .refused client => some { s with acceptor := .leaving, closed := s.closed ++ [client] }
    | _ => none
  | .shut =>
    match s.acceptor with
    | .leaving => some { s with acceptor := .joining, stopping := true }
    | _ => none
  | .poll i =>
    match s.worker i with
    | .polling => some (s.poll i)
    | _ => none
  | .serve i =>
    match s.worker i with
    | .serving client =>
      some { s with
        worker := Function.update s.worker i .finishing
        passed := s.passed ++ [(i, client)] }
    | _ => none
  | .finish i =>
    match s.worker i with
    | .finishing =>
      some { s with active := s.active - 1, worker := Function.update s.worker i .polling }
    | _ => none
  | .join =>
    match s.acceptor with
    | .joining => if ∀ i, (s.worker i).hasReturned then some { s with acceptor := .ended } else none
    | _ => none

/-- The state in which the accept loop is entered: the slots are whatever `calloc` left there. -/
def start (slots : ℕ → Fd) : Transport Fd workers capacity where
  queue := ⟨slots, 0, 0, 0⟩
  active := 0
  stopping := false
  stop := false
  acceptor := .testing
  worker _ := .polling
  accepted := []
  taken := []
  passed := []
  closed := []

/-- The states of all runs. -/
inductive Reachable (slots : ℕ → Fd) : Transport Fd workers capacity → Prop
  | start : Reachable slots (start slots)
  | step {s s' : Transport Fd workers capacity} {e : Event Fd workers} :
    Reachable slots s → s.step e = some s' → Reachable slots s'

/-- What the workers have taken and not yet passed on. -/
def held (worker : Fin workers → Worker Fd) : List (Fin workers × Fd) :=
  (List.finRange workers).filterMap fun i => (worker i).client.map (i, ·)

/-- The ring is in order, and every accepted descriptor is closed once. -/
structure Disciplined (s : Transport Fd workers capacity) : Prop where
  count_le : s.queue.count ≤ capacity
  tail_eq : s.queue.tail = (s.queue.head + s.queue.count) % capacity
  /-- The ring holds the accepted descriptors that are not yet taken, in the order of their arrival;
  only the last one may still be, or have been, with the accepting thread. -/
  accepted_eq : s.accepted =
    s.taken.map Prod.snd ++ (s.queue.contents ++ (s.acceptor.own ++ s.closed))
  /-- What a worker has taken it passes on once. -/
  taken_perm : s.taken.Perm (s.passed ++ held s.worker)
  /-- Every accepted descriptor is passed on by a worker, closed by the accepting thread, or still
  waits, and only one of these. -/
  accepted_perm : s.accepted.Perm ((s.passed.map Prod.snd ++ s.closed) ++
    ((held s.worker).map Prod.snd ++ (s.queue.contents ++ s.acceptor.own)))
  /-- In the end none of them waits. -/
  closed_once : (∀ i, (s.worker i).hasReturned = true) →
    s.accepted.Perm (s.passed.map Prod.snd ++ s.closed)

/-- What holds in all states. -/
structure Inv (s : Transport Fd workers capacity) : Prop where
  ordered : s.queue.Ordered
  accepted_eq : s.accepted =
    s.taken.map Prod.snd ++ (s.queue.contents ++ (s.acceptor.own ++ s.closed))
  taken_perm : s.taken.Perm (s.passed ++ held s.worker)
  stopping_eq : s.stopping = s.acceptor.hasShut
  closed_eq : s.acceptor.inLoop = true → s.closed = []
  drained : ∀ i, (s.worker i).hasReturned = true → s.stopping = true ∧ s.queue.count = 0

theorem inv_start (slots : ℕ → Fd) : (start slots : Transport Fd workers capacity).Inv where
  ordered := ⟨Nat.zero_le _, Nat.zero_mod _, (Nat.zero_mod _).symm⟩
  accepted_eq := rfl
  taken_perm := by
    have hnone : held (fun _ : Fin workers => (Worker.polling : Worker Fd)) = [] := by
      rw [held, List.filterMap_eq_nil_iff]
      exact fun _ _ => rfl
    show ([] : List (Fin workers × Fd)).Perm ([] ++ held fun _ => .polling)
    rw [hnone]
    exact List.Perm.nil
  stopping_eq := rfl
  closed_eq _ := rfl
  drained _ h := absurd h Bool.false_ne_true

/-! ### The workers -/

/-- What the other workers hold. -/
def heldByOthers (worker : Fin workers → Worker Fd) (i : Fin workers) : List (Fin workers × Fd) :=
  ((List.finRange workers).erase i).filterMap fun j => (worker j).client.map (j, ·)

theorem held_perm (worker : Fin workers → Worker Fd) (i : Fin workers) :
    (held worker).Perm (((worker i).client.map (i, ·)).toList ++ heldByOthers worker i) := by
  have hperm := (List.perm_cons_erase (List.mem_finRange i)).filterMap
    fun j => (worker j).client.map (j, ·)
  rw [List.filterMap_cons] at hperm
  refine hperm.trans (List.Perm.of_eq ?_)
  cases (worker i).client <;> rfl

theorem heldByOthers_update (worker : Fin workers → Worker Fd) (i : Fin workers) (w : Worker Fd) :
    heldByOthers (Function.update worker i w) i = heldByOthers worker i := by
  refine List.filterMap_congr fun j hj => ?_
  have hne : j ≠ i := fun h => (List.nodup_finRange workers).not_mem_erase (h ▸ hj)
  rw [Function.update_of_ne hne]

/-- What is held when a worker goes on. -/
theorem held_update (worker : Fin workers → Worker Fd) (i : Fin workers) (w : Worker Fd) :
    (held (Function.update worker i w)).Perm
      ((w.client.map (i, ·)).toList ++ heldByOthers worker i) := by
  have hperm := held_perm (Function.update worker i w) i
  rwa [heldByOthers_update, Function.update_self] at hperm

/-- A worker that holds nothing before and behind a step. -/
theorem held_update_none {worker : Fin workers → Worker Fd} {i : Fin workers} {w : Worker Fd}
    (hi : (worker i).client = none) (hw : w.client = none) :
    (held (Function.update worker i w)).Perm (held worker) := by
  have hbefore := held_perm worker i
  have hbehind := held_update worker i w
  rw [hi] at hbefore
  rw [hw] at hbehind
  exact hbehind.trans hbefore.symm

theorem hasReturned_update {worker : Fin workers → Worker Fd} {i j : Fin workers} {w : Worker Fd}
    (hw : w.hasReturned = false) (h : (Function.update worker i w j).hasReturned = true) :
    (worker j).hasReturned = true := by
  by_cases hj : j = i
  · rw [hj, Function.update_self, hw] at h
    exact absurd h Bool.false_ne_true
  · rwa [Function.update_of_ne hj] at h

/-! ### The steps -/

variable {s : Transport Fd workers capacity}

theorem Inv.push (h : s.Inv) {client : Fd} (hacceptor : s.acceptor = .pushing client) :
    (s.push client).Inv := by
  have hclosed : s.closed = [] := h.closed_eq (by rw [hacceptor]; rfl)
  have hstopping : s.stopping = false := by
    rw [h.stopping_eq, hacceptor]
    rfl
  have haccepted := h.accepted_eq
  rw [hacceptor] at haccepted
  rw [Transport.push]
  split_ifs with hwait hstop
  · exact h
  · exact { h with
      accepted_eq := haccepted
      stopping_eq := hstopping
      closed_eq := fun _ => hclosed }
  · have hroom : s.queue.count < capacity := by
      refine lt_of_le_of_ne h.ordered.count_le fun hfull => hwait ⟨hfull, ?_⟩
      exact not_or.mp hstop
    exact {
      ordered := h.ordered.put hroom client
      accepted_eq := by
        show s.accepted = s.taken.map Prod.snd ++ ((s.queue.put client).contents ++ ([] ++ s.closed))
        rw [Ring.contents_put h.ordered hroom, haccepted, List.append_assoc]
        rfl
      taken_perm := h.taken_perm
      stopping_eq := hstopping
      closed_eq := fun _ => hclosed
      -- no worker returns before `stopping` is set
      drained := fun i hi => absurd ((h.drained i hi).1.symm.trans hstopping) Bool.noConfusion }

theorem Inv.poll (h : s.Inv) {i : Fin workers} (hworker : s.worker i = .polling) :
    (s.poll i).Inv := by
  have hnone : (s.worker i).client = none := by
    rw [hworker]
    rfl
  rw [Transport.poll]
  split_ifs with hwait hempty
  · exact h
  · have hstopping : s.stopping = true := by
      by_contra hstopping
      exact hwait ⟨hempty, hstopping⟩
    exact { h with
      taken_perm := h.taken_perm.trans ((held_update_none hnone rfl).symm.append_left s.passed)
      drained := fun _ _ => ⟨hstopping, hempty⟩ }
  · have hpos : 0 < s.queue.count := Nat.pos_of_ne_zero hempty
    exact {
      ordered := h.ordered.take hpos
      accepted_eq := by
        show s.accepted = (s.taken ++ [(i, s.queue.front)]).map Prod.snd ++
          (s.queue.take.contents ++ (s.acceptor.own ++ s.closed))
        rw [h.accepted_eq, Ring.contents_take h.ordered hpos, List.map_append, List.append_assoc]
        rfl
      taken_perm := by
        have hbefore := held_perm s.worker i
        rw [hnone] at hbefore
        have hbehind := held_update s.worker i (.serving s.queue.front)
        refine (List.perm_append_comm.trans ((h.taken_perm.trans
          (hbefore.append_left s.passed)).cons _)).trans ?_
        exact List.perm_middle.symm.trans (hbehind.symm.append_left s.passed)
      stopping_eq := h.stopping_eq
      closed_eq := h.closed_eq
      drained := fun j hj => by
        have hreturned := (h.drained j (hasReturned_update rfl hj)).2
        exact absurd hreturned hempty }

theorem Inv.serve (h : s.Inv) {i : Fin workers} {client : Fd} (hworker : s.worker i = .serving client) :
    Inv { s with
      worker := Function.update s.worker i .finishing
      passed := s.passed ++ [(i, client)] } :=
  { h with
    taken_perm := by
      have hbefore := held_perm s.worker i
      rw [hworker] at hbefore
      have hbehind := held_update s.worker i .finishing
      refine h.taken_perm.trans ((hbefore.append_left s.passed).trans ?_)
      show (s.passed ++ ([(i, client)] ++ heldByOthers s.worker i)).Perm _
      rw [← List.append_assoc]
      exact hbehind.symm.append_left _
    drained := fun j hj => h.drained j (hasReturned_update rfl hj) }

theorem Inv.finish (h : s.Inv) {i : Fin workers} (hworker : s.worker i = .finishing) :
    Inv { s with active := s.active - 1, worker := Function.update s.worker i .polling } := by
  have hnone : (s.worker i).client = none := by
    rw [hworker]
    rfl
  exact { h with
    taken_perm := h.taken_perm.trans ((held_update_none hnone rfl).symm.append_left s.passed)
    drained := fun j hj => h.drained j (hasReturned_update rfl hj) }

/-- The accepting thread goes on without passing on a descriptor. -/
theorem Inv.move (h : s.Inv) {a : Acceptor Fd} (hown : a.own = s.acceptor.own)
    (hshut : a.hasShut = s.acceptor.hasShut) (hloop : a.inLoop = true → s.acceptor.inLoop = true) :
    Inv { s with acceptor := a } :=
  { h with
    accepted_eq := by
      rw [h.accepted_eq, ← hown]
    stopping_eq := h.stopping_eq.trans hshut.symm
    closed_eq := fun ha => h.closed_eq (hloop ha) }

theorem Inv.accept (h : s.Inv) (hacceptor : s.acceptor = .accepting) (client : Fd) :
    Inv { s with acceptor := .pushing client, accepted := s.accepted ++ [client] } := by
  have hclosed : s.closed = [] := h.closed_eq (by rw [hacceptor]; rfl)
  have haccepted := h.accepted_eq
  rw [hacceptor, hclosed] at haccepted
  exact { h with
    accepted_eq := by
      show s.accepted ++ [client] = s.taken.map Prod.snd ++ (s.queue.contents ++ ([client] ++ s.closed))
      rw [haccepted, hclosed, List.append_assoc, List.append_assoc]
      rfl
    stopping_eq := by rw [h.stopping_eq, hacceptor]; rfl
    closed_eq := fun _ => hclosed }

theorem Inv.close (h : s.Inv) {client : Fd} (hacceptor : s.acceptor = .refused client) :
    Inv { s with acceptor := .leaving, closed := s.closed ++ [client] } := by
  have hclosed : s.closed = [] := h.closed_eq (by rw [hacceptor]; rfl)
  have haccepted := h.accepted_eq
  rw [hacceptor, hclosed] at haccepted
  exact { h with
    accepted_eq := by
      rw [haccepted, hclosed]
      rfl
    stopping_eq := by rw [h.stopping_eq, hacceptor]; rfl
    closed_eq := fun hloop => absurd hloop Bool.false_ne_true }

theorem Inv.shut (h : s.Inv) (hacceptor : s.acceptor = .leaving) :
    Inv { s with acceptor := .joining, stopping := true } := by
  have hstopping : s.stopping = false := by
    rw [h.stopping_eq, hacceptor]
    rfl
  have haccepted := h.accepted_eq
  rw [hacceptor] at haccepted
  exact { h with
    accepted_eq := haccepted
    stopping_eq := rfl
    closed_eq := fun hloop => absurd hloop Bool.false_ne_true
    drained := fun j hj => absurd ((h.drained j hj).1.symm.trans hstopping) Bool.noConfusion }

/-- Every step keeps the invariant. -/
theorem Inv.step (h : s.Inv) {e : Event Fd workers} {s' : Transport Fd workers capacity}
    (hstep : s.step e = some s') : s'.Inv := by
  cases e with
  | signal =>
    cases hstep
    exact { h with }
  | test =>
    cases hacceptor : s.acceptor <;> simp only [Transport.step, hacceptor, reduceCtorEq] at hstep
    cases hstep
    split_ifs
    · exact h.move (by rw [hacceptor]; rfl) (by rw [hacceptor]; rfl) (by rw [hacceptor]; exact fun _ => rfl)
    · exact h.move (by rw [hacceptor]; rfl) (by rw [hacceptor]; rfl) (by rw [hacceptor]; exact fun _ => rfl)
  | accept client =>
    cases hacceptor : s.acceptor <;> simp only [Transport.step, hacceptor, reduceCtorEq] at hstep
    cases hstep
    exact h.accept hacceptor client
  | interrupted =>
    cases hacceptor : s.acceptor <;> simp only [Transport.step, hacceptor, reduceCtorEq] at hstep
    cases hstep
    exact h.move (by rw [hacceptor]; rfl) (by rw [hacceptor]; rfl) (by rw [hacceptor]; exact fun _ => rfl)
  | failed =>
    cases hacceptor : s.acceptor <;> simp only [Transport.step, hacceptor, reduceCtorEq] at hstep
    cases hstep
    exact h.move (by rw [hacceptor]; rfl) (by rw [hacceptor]; rfl) (by rw [hacceptor]; exact fun _ => rfl)
  | push =>
    cases hacceptor : s.acceptor <;> simp only [Transport.step, hacceptor, reduceCtorEq] at hstep
    cases hstep
    exact h.push hacceptor
  | close =>
    cases hacceptor : s.acceptor <;> simp only [Transport.step, hacceptor, reduceCtorEq] at hstep
    cases hstep
    exact h.close hacceptor
  | shut =>
    cases hacceptor : s.acceptor <;> simp only [Transport.step, hacceptor, reduceCtorEq] at hstep
    cases hstep
    exact h.shut hacceptor
  | poll i =>
    cases hworker : s.worker i <;> simp only [Transport.step, hworker, reduceCtorEq] at hstep
    cases hstep
    exact h.poll hworker
  | serve i =>
    cases hworker : s.worker i <;> simp only [Transport.step, hworker, reduceCtorEq] at hstep
    cases hstep
    exact h.serve hworker
  | finish i =>
    cases hworker : s.worker i <;> simp only [Transport.step, hworker, reduceCtorEq] at hstep
    cases hstep
    exact h.finish hworker
  | join =>
    cases hacceptor : s.acceptor <;> simp only [Transport.step, hacceptor, reduceCtorEq] at hstep
    split_ifs at hstep
    cases hstep
    exact h.move (by rw [hacceptor]; rfl) (by rw [hacceptor]; rfl) (by rw [hacceptor]; exact id)

theorem inv_of_reachable {slots : ℕ → Fd} (h : Reachable slots s) : s.Inv := by
  induction h with
  | start => exact inv_start slots
  | step _ hstep ih => exact ih.step hstep

/-! ### Whole runs -/

theorem held_of_returned {worker : Fin workers → Worker Fd}
    (h : ∀ i, (worker i).hasReturned = true) : held worker = [] := by
  rw [held, List.filterMap_eq_nil_iff]
  intro i _
  have hi := h i
  cases hworker : worker i with
  | returned => rfl
  | polling | serving | finishing =>
    rw [hworker] at hi
    exact absurd hi Bool.false_ne_true

theorem own_of_hasShut {a : Acceptor Fd} (h : a.hasShut = true) : a.own = [] := by
  cases a with
  | joining | ended => rfl
  | testing | accepting | pushing | refused | leaving => exact absurd h Bool.false_ne_true

theorem Inv.accepted_perm (h : s.Inv) :
    s.accepted.Perm ((s.passed.map Prod.snd ++ s.closed) ++
      ((held s.worker).map Prod.snd ++ (s.queue.contents ++ s.acceptor.own))) := by
  have htaken := (h.taken_perm.map Prod.snd).append_right
    (s.queue.contents ++ (s.acceptor.own ++ s.closed))
  rw [← h.accepted_eq, List.map_append, List.append_assoc] at htaken
  refine htaken.trans ?_
  rw [List.append_assoc]
  refine List.Perm.append_left _ ?_
  rw [← List.append_assoc s.queue.contents, ← List.append_assoc]
  exact List.perm_append_comm

/-- **The queue keeps its discipline** in every run with at least one worker. -/
theorem disciplined_of_reachable {n : ℕ} {s : Transport Fd (n + 1) capacity} {slots : ℕ → Fd}
    (h : Reachable slots s) : s.Disciplined := by
  have hinv := inv_of_reachable h
  refine ⟨hinv.ordered.count_le, hinv.ordered.tail_eq, hinv.accepted_eq, hinv.taken_perm,
    hinv.accepted_perm, ?_⟩
  intro hreturned
  obtain ⟨hstopping, hempty⟩ := hinv.drained 0 (hreturned 0)
  have hcontents : s.queue.contents = [] := by
    rw [Ring.contents, hempty]
    rfl
  have hown : s.acceptor.own = [] := own_of_hasShut (hinv.stopping_eq.symm.trans hstopping)
  have hall := hinv.accepted_perm
  rwa [held_of_returned hreturned, hcontents, hown, List.map_nil, List.append_nil, List.append_nil,
    List.append_nil] at hall

/-- The state behind a list of events. -/
def run (s : Transport Fd workers capacity) (events : List (Event Fd workers)) :
    Option (Transport Fd workers capacity) :=
  events.foldlM step s

theorem reachable_run {slots : ℕ → Fd} {events : List (Event Fd workers)}
    {s s' : Transport Fd workers capacity} (h : Reachable slots s) (hrun : s.run events = some s') :
    Reachable slots s' := by
  induction events generalizing s with
  | nil => exact Option.some.inj hrun ▸ h
  | cons e events ih =>
    rw [run, List.foldlM_cons] at hrun
    obtain ⟨t, ht, hrest⟩ := Option.bind_eq_some_iff.mp hrun
    exact ih (h.step ht) hrest

local instance twoWorkers : NeZero 2 := ⟨by decide⟩

/-- Two workers and a ring of one slot: a third connection finds it full when the signal comes. -/
def shutdownRun : Option (Transport ℕ 2 1) :=
  (start fun _ => 0).run [.test, .accept 7, .push, .poll 1, .test, .accept 9, .push, .test, .accept 3,
    .push, .signal, .push, .close, .shut, .poll 0, .serve 1, .finish 1, .poll 1, .serve 0, .finish 0,
    .poll 0, .join]

theorem disciplined_shutdownRun :
    ∃ s, shutdownRun = some s ∧ s.Disciplined ∧ s.passed = [(1, 7), (0, 9)] ∧ s.closed = [3] := by
  obtain ⟨s, hs⟩ : ∃ s, shutdownRun = some s := Option.isSome_iff_exists.mp (by decide)
  have hpassed : shutdownRun.map Transport.passed = some [(1, 7), (0, 9)] := by decide
  have hclosed : shutdownRun.map Transport.closed = some [3] := by decide
  rw [hs] at hpassed hclosed
  exact ⟨s, hs, disciplined_of_reachable (reachable_run .start hs), Option.some.inj hpassed,
    Option.some.inj hclosed⟩

end Transport

end Http

end FortAI
