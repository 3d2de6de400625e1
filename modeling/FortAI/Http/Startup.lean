import Mathlib.Data.List.Count
import Mathlib.Data.Int.Notation
import Mathlib.Data.Nat.Notation

/-!
# Start-up of the transport and its listener

`transportRun` is `fortai_http_transport_run`, with `runCpuProcessSlots` and the two accept loops
under it, seen from one process: the `Outcomes` say how each call of the operating system ends, and
the result is the list of what the process did with the listener.

* `acceptLoop_serves` : a loop that starts on an open listener leaves it open and takes every
  connection it is offered.
* `transportRun_sound` : what holds of a run with a listener, by how it ends.
* `keepsListener_iff` : the listener is kept in every run but those in which the process slots
  turn out to be unavailable.  There the listener is closed before the fallback, which goes on to
  accept on it.
-/

namespace FortAI

namespace Http

namespace Startup

/-- What `fork` returns: it fails, or it returns in the child, or in the parent. -/
inductive Fork
  | failed
  | child
  | parent
  deriving DecidableEq

/-- `FORTAI_SLOT_MODE` -/
inductive SlotMode
  | process
  | serialized
  deriving DecidableEq

/-- What a pass of an accept loop meets. -/
inductive Turn (Client : Type)
  /-- `fortai_stop` is set. -/
  | stopped
  /-- `accept` returns with `EINTR`. -/
  | interrupted
  /-- `accept` fails otherwise. -/
  | failed
  /-- `accept` returns a connection; `queued` says whether the queue takes it. -/
  | client (c : Client) (queued : Bool)

/-- The arguments, the configuration, and the outcomes of the calls. -/
structure Outcomes (Client : Type) where
  cuda : Bool
  /-- `fortai_parse_parallel_slots` -/
  slots : ℕ
  /-- `fortai_parse_worker_count` -/
  workers : ℕ
  /-- `fortai_install_signal_handlers` -/
  handlers : Bool
  /-- `fortai_open_listener` -/
  listener : Bool
  setenv : SlotMode → Bool
  /-- The table of the child processes is allocated. -/
  children : Bool
  fork : ℕ → Fork
  /-- The ring of the queue and the table of the workers are allocated. -/
  buffers : Bool
  /-- `pthread_mutex_init`, and `pthread_cond_init` of the three conditions. -/
  mutex : Bool
  available : Bool
  space : Bool
  drained : Bool
  /-- `pthread_create` of a worker. -/
  thread : ℕ → Bool
  turn : ℕ → Turn Client

/-- What the process does with the listener; a connection it takes comes with the slot mode. -/
inductive ListenerEvent (Client : Type)
  | opened
  | accept
  | taken (c : Client) (mode : Option SlotMode)
  | closed

/-- What the process has done so far, and `FORTAI_SLOT_MODE`. -/
structure Process (Client : Type) where
  events : List (ListenerEvent Client)
  mode : Option SlotMode

/-- How far a run has come. -/
inductive Ending
  /-- It is in an accept loop. -/
  | running
  /-- The child process has called `_exit`. -/
  | exited
  | returned (v : ℤ)
  deriving DecidableEq

namespace ListenerEvent

variable {Client : Type}

def isOpened : ListenerEvent Client → Bool
  | opened => true
  | _ => false

def isClosed : ListenerEvent Client → Bool
  | closed => true
  | _ => false

def client : ListenerEvent Client → Option Client
  | taken c _ => some c
  | _ => none

end ListenerEvent

namespace Turn

variable {Client : Type}

def taken : Turn Client → List Client
  | client c _ => [c]
  | _ => []

/-- The loop of a process slot goes on: `fortai_process_accept_loop`. -/
def processGoesOn : Turn Client → Bool
  | interrupted => true
  | client _ _ => true
  | _ => false

/-- The loop in front of the queue goes on. -/
def queueGoesOn : Turn Client → Bool
  | interrupted => true
  | client _ queued => queued
  | _ => false

end Turn

namespace Process

variable {Client : Type}

def emit (p : Process Client) (e : ListenerEvent Client) : Process Client :=
  { p with events := p.events ++ [e] }

/-- The listener is open: it was opened and not closed. -/
def listening (p : Process Client) : Bool :=
  p.events.any ListenerEvent.isOpened && !p.events.any ListenerEvent.isClosed

/-- `setenv("FORTAI_SLOT_MODE", mode, 1)` -/
def setMode (o : Outcomes Client) (mode : SlotMode) (p : Process Client) : Process Client :=
  if o.setenv mode then { p with mode := some mode } else p

end Process

section
variable {Client : Type}

/-! ### The transport -/

/-- The test of `fortai_stop` and the call of `accept`.  On a descriptor that is closed the call
fails, whatever the turn says. -/
def accept (p : Process Client) (turn : Turn Client) : Process Client × Turn Client :=
  match turn with
  | .stopped => (p, .stopped)
  | turn =>
    if p.listening then
      match turn with
      | .client c queued => ((p.emit .accept).emit (.taken c p.mode), .client c queued)
      | turn => (p.emit .accept, turn)
    else (p.emit .accept, .failed)

/-- An accept loop for so many passes, and the turn at which it ended. -/
def acceptLoop (goesOn : Turn Client → Bool) :
    (ℕ → Turn Client) → ℕ → Process Client → Process Client × Option (Turn Client)
  | _, 0, p => (p, none)
  | turn, passes + 1, p =>
    let (p, last) := accept p (turn 0)
    if goesOn last then acceptLoop goesOn (fun i => turn (i + 1)) passes p else (p, some last)

/-- `fortai_process_accept_loop` -/
def processAcceptLoop (o : Outcomes Client) (passes : ℕ) (p : Process Client) :
    Process Client × Ending :=
  match acceptLoop Turn.processGoesOn o.turn passes p with
  | (p, none) => (p, .running)
  | (p, some .stopped) => (p, .returned 0)
  | (p, some _) => (p, .returned (-1))

/-- The first of the forks that does not return in the parent. -/
def firstFork (o : Outcomes Client) : Option Fork :=
  ((List.range' 1 (o.slots - 1)).map o.fork).find? (· ≠ .parent)

/-- `fortai_run_cpu_process_slots` -/
def runCpuProcessSlots (o : Outcomes Client) (passes : ℕ) (p : Process Client) :
    Process Client × Ending :=
  if o.slots ≤ 1 then (p, .returned (-2))
  else if !o.children then (p, .returned (-2))
  else
    match firstFork o with
    | some .child =>
      match processAcceptLoop o passes p with
      | (p, .running) => (p, .running)
      | (p, _) => (p.emit .closed, .exited)
    | some .failed => (p, .returned (-2))
    | _ => processAcceptLoop o passes p

/-- The workers that are started, before the first `pthread_create` that fails. -/
def startedWorkers (o : Outcomes Client) : ℕ :=
  ((List.range o.workers).takeWhile o.thread).length

/-- The part of `fortai_http_transport_run` behind the process slots. -/
def runWorkers (o : Outcomes Client) (passes : ℕ) (p : Process Client) : Process Client × Ending :=
  if !o.buffers then (p.emit .closed, .returned (-1))
  else if !o.mutex || !o.available || !o.space || !o.drained then
    (p.emit .closed, .returned (-1))
  else if startedWorkers o = 0 then (p.emit .closed, .returned (-1))
  else
    match acceptLoop Turn.queueGoesOn o.turn passes p with
    | (p, none) => (p, .running)
    | (p, some _) => (p.emit .closed, .returned 0)

/-- `fortai_http_transport_run` -/
def transportRun (o : Outcomes Client) (passes : ℕ) : Process Client × Ending :=
  let p : Process Client := ⟨[], none⟩
  if !o.handlers then (p, .returned (-1))
  else if !o.listener then (p, .returned (-1))
  else
    let p := p.emit .opened
    if !o.cuda && decide (1 < o.slots) then
      if !o.setenv .process then (p.emit .closed, .returned (-1))
      else
        match runCpuProcessSlots o passes (p.setMode o .process) with
        | (p, .returned v) =>
          if v ≠ -2 then (p.emit .closed, .returned v)
          else runWorkers o passes ((p.emit .closed).setMode o .serialized)
        | r => r
    else runWorkers o passes (p.setMode o .serialized)

/-! ### What is asked of a run -/

/-- The listener is open at each call of `accept`. -/
def AcceptsOpen (events : List (ListenerEvent Client)) : Prop :=
  ∀ before behind, events = before ++ .accept :: behind →
    before.any ListenerEvent.isOpened = true ∧ before.any ListenerEvent.isClosed = false

/-- The connections a loop is offered. -/
def offered (goesOn : Turn Client → Bool) : (ℕ → Turn Client) → ℕ → List Client
  | _, 0 => []
  | turn, passes + 1 =>
    (turn 0).taken ++ if goesOn (turn 0) then offered goesOn (fun i => turn (i + 1)) passes else []

def TriesSlots (o : Outcomes Client) : Prop :=
  o.handlers = true ∧ o.listener = true ∧ o.cuda = false ∧ 1 < o.slots ∧ o.setenv .process = true

/-- The process slots are unavailable: the table of the children is not allocated, or one of the
forks fails. -/
def SlotsUnavailable (o : Outcomes Client) : Prop :=
  TriesSlots o ∧ (o.children = false ∨ firstFork o = some .failed)

/-- What the workers need, and at least one of them. -/
def WorkersReady (o : Outcomes Client) : Prop :=
  o.buffers = true ∧ o.mutex = true ∧ o.available = true ∧ o.space = true ∧ o.drained = true ∧
    startedWorkers o ≠ 0

/-- The process serves with the queue and its workers: without process slots, or when they are
unavailable. -/
def ServesQueue (o : Outcomes Client) : Prop :=
  o.handlers = true ∧ o.listener = true ∧ (o.cuda = true ∨ o.slots ≤ 1 ∨ SlotsUnavailable o) ∧
    WorkersReady o

/-- The process is one of the process slots. -/
def ServesSlot (o : Outcomes Client) : Prop := TriesSlots o ∧ ¬ SlotsUnavailable o

/-- The listener is open at each `accept` and closed once by the end; the connections offered are
taken, and with the serialized model when the process slots are unavailable. -/
structure KeepsListener (o : Outcomes Client) (passes : ℕ) : Prop where
  accepts : AcceptsOpen (transportRun o passes).1.events
  closes : (transportRun o passes).2 ≠ .running →
    (transportRun o passes).1.events.any ListenerEvent.isOpened = true →
      (transportRun o passes).1.events.countP ListenerEvent.isClosed = 1
  queue : ServesQueue o →
    (transportRun o passes).1.events.filterMap ListenerEvent.client =
      offered Turn.queueGoesOn o.turn passes
  slot : ServesSlot o →
    (transportRun o passes).1.events.filterMap ListenerEvent.client =
      offered Turn.processGoesOn o.turn passes
  serialized : SlotsUnavailable o → o.setenv .serialized = true →
    ∀ c mode, .taken c mode ∈ (transportRun o passes).1.events → mode = some .serialized

/-! ### Accept loops -/

/-- The listener is open, and was at each `accept` so far. -/
structure Open (p : Process Client) : Prop where
  opened : p.events.any ListenerEvent.isOpened = true
  not_closed : p.events.any ListenerEvent.isClosed = false
  accepts : AcceptsOpen p.events

theorem acceptsOpen_emit {p : Process Client} (h : AcceptsOpen p.events)
    {e : ListenerEvent Client} (he : e = .accept → p.listening = true) :
    AcceptsOpen (p.emit e).events := by
  intro before behind heq
  have heq : p.events ++ [e] = before ++ .accept :: behind := heq
  rcases List.append_eq_append_iff.mp heq with ⟨x, hbefore, hrest⟩ | ⟨x, hevents, hrest⟩
  · -- the call is the new event
    cases x with
    | nil =>
      have hlisten := he (List.cons.inj hrest).1
      rw [hbefore, List.append_nil]
      simpa [Process.listening] using hlisten
    | cons y x =>
      have hnil := (List.cons.inj hrest).2
      simp at hnil
  · cases x with
    | nil =>
      have hlisten := he (List.cons.inj hrest).1.symm
      rw [List.append_nil] at hevents
      rw [← hevents]
      simpa [Process.listening] using hlisten
    | cons y x =>
      have hy := (List.cons.inj hrest).1
      exact h before x (by rw [hevents, ← hy])

namespace Open

variable {p : Process Client}

theorem listening (h : Open p) : p.listening = true := by
  rw [Process.listening, h.opened, h.not_closed]
  rfl

theorem emit (h : Open p) {e : ListenerEvent Client} (he : e.isClosed = false) :
    Open (p.emit e) where
  opened := by simp [Process.emit, h.opened]
  not_closed := by simp [Process.emit, h.not_closed, he]
  accepts := acceptsOpen_emit h.accepts fun _ => h.listening

theorem setMode (h : Open p) (o : Outcomes Client) (mode : SlotMode) : Open (p.setMode o mode) := by
  rw [Process.setMode]
  split_ifs
  · exact ⟨h.opened, h.not_closed, h.accepts⟩
  · exact h

theorem closed (h : Open p) : AcceptsOpen (p.emit .closed).events :=
  acceptsOpen_emit h.accepts fun he => by cases he

theorem count_closed (h : Open p) : (p.emit .closed).events.countP ListenerEvent.isClosed = 1 := by
  have hzero : p.events.countP ListenerEvent.isClosed = 0 := by
    rw [List.countP_eq_zero]
    simpa using h.not_closed
  rw [Process.emit, List.countP_append, hzero]
  rfl

/-- A pass takes what it is offered. -/
theorem accept (h : Open p) (turn : Turn Client) :
    Open (accept p turn).1 ∧ (Startup.accept p turn).2 = turn ∧
      (Startup.accept p turn).1.events.filterMap ListenerEvent.client =
        p.events.filterMap ListenerEvent.client ++ turn.taken := by
  have haccept := h.emit (e := .accept) rfl
  cases turn with
  | stopped => exact ⟨h, rfl, (List.append_nil _).symm⟩
  | interrupted =>
    have hturn : Startup.accept p .interrupted = (p.emit .accept, .interrupted) := if_pos h.listening
    refine hturn ▸ ⟨haccept, rfl, ?_⟩
    simp only [Process.emit, List.filterMap_append]
    rfl
  | failed =>
    have hturn : Startup.accept p .failed = (p.emit .accept, .failed) := if_pos h.listening
    refine hturn ▸ ⟨haccept, rfl, ?_⟩
    simp only [Process.emit, List.filterMap_append]
    rfl
  | client c queued =>
    have hturn : Startup.accept p (.client c queued) =
        ((p.emit .accept).emit (.taken c p.mode), .client c queued) := if_pos h.listening
    refine hturn ▸ ⟨haccept.emit rfl, rfl, ?_⟩
    simp only [Process.emit, List.filterMap_append, List.append_assoc]
    rfl

end Open

/-- A loop on an open listener leaves it open, and takes every connection it is offered. -/
theorem acceptLoop_serves (goesOn : Turn Client → Bool) (passes : ℕ) (turn : ℕ → Turn Client)
    {p : Process Client} (h : Open p) :
    Open (acceptLoop goesOn turn passes p).1 ∧
      (acceptLoop goesOn turn passes p).1.events.filterMap ListenerEvent.client =
        p.events.filterMap ListenerEvent.client ++ offered goesOn turn passes := by
  induction passes generalizing turn p with
  | zero => exact ⟨h, (List.append_nil _).symm⟩
  | succ passes ih =>
    obtain ⟨hopen, hlast, htaken⟩ := h.accept (turn 0)
    simp only [acceptLoop, offered, hlast]
    split_ifs with hgo
    · obtain ⟨hrest, hoffered⟩ := ih (fun i => turn (i + 1)) hopen
      exact ⟨hrest, by rw [hoffered, htaken, List.append_assoc]⟩
    · exact ⟨hopen, by rw [htaken, List.append_nil]⟩

/-! ### How a run ends -/

/-- An open process that closes its listener, or goes on in its loop. -/
inductive Ends (served : List Client) : Process Client × Ending → Prop
  | running {p : Process Client} (h : Open p) (hserved : p.events.filterMap ListenerEvent.client = served) :
      Ends served (p, .running)
  | closed {p : Process Client} {e : Ending} (h : Open p)
      (hserved : p.events.filterMap ListenerEvent.client = served) : Ends served (p.emit .closed, e)

namespace Ends

variable {served : List Client} {r : Process Client × Ending}

theorem accepts (h : Ends served r) : AcceptsOpen r.1.events := by
  cases h with
  | running h _ => exact h.accepts
  | closed h _ => exact h.closed

theorem closes (h : Ends served r) (hend : r.2 ≠ .running) :
    r.1.events.countP ListenerEvent.isClosed = 1 := by
  cases h with
  | running _ _ => exact absurd rfl hend
  | closed h _ => exact h.count_closed

theorem served_eq (h : Ends served r) : r.1.events.filterMap ListenerEvent.client = served := by
  cases h with
  | running _ hserved => exact hserved
  | closed h hserved =>
    rw [Process.emit, List.filterMap_append, hserved]
    exact List.append_nil served

end Ends

section
variable {o : Outcomes Client} {passes : ℕ} {p : Process Client}

/-- The loop of a process slot returns 0 or -1, or it is running. -/
theorem processAcceptLoop_ends (h : Open p) (hp : p.events.filterMap ListenerEvent.client = []) :
    Open (processAcceptLoop o passes p).1 ∧
      (processAcceptLoop o passes p).1.events.filterMap ListenerEvent.client =
        offered Turn.processGoesOn o.turn passes ∧
      ((processAcceptLoop o passes p).2 = .running ∨ (processAcceptLoop o passes p).2 = .returned 0 ∨
        (processAcceptLoop o passes p).2 = .returned (-1)) := by
  obtain ⟨hopen, hserved⟩ := acceptLoop_serves Turn.processGoesOn passes o.turn h
  rw [hp, List.nil_append] at hserved
  rw [processAcceptLoop]
  split
  · next q hloop =>
    rw [hloop] at hopen hserved
    exact ⟨hopen, hserved, .inl rfl⟩
  · next q hloop =>
    rw [hloop] at hopen hserved
    exact ⟨hopen, hserved, .inr (.inl rfl)⟩
  · next q last _ hloop =>
    rw [hloop] at hopen hserved
    exact ⟨hopen, hserved, .inr (.inr rfl)⟩

theorem runWorkers_ready (hready : WorkersReady o) (h : Open p)
    (hp : p.events.filterMap ListenerEvent.client = []) :
    Ends (offered Turn.queueGoesOn o.turn passes) (runWorkers o passes p) := by
  obtain ⟨hbuffers, hmutex, havailable, hspace, hdrained, hstarted⟩ := hready
  obtain ⟨hopen, hserved⟩ := acceptLoop_serves Turn.queueGoesOn passes o.turn h
  rw [hp, List.nil_append] at hserved
  rw [runWorkers, if_neg (by simp [hbuffers]),
    if_neg (by simp [hmutex, havailable, hspace, hdrained]), if_neg hstarted]
  split
  · next q hloop =>
    rw [hloop] at hopen hserved
    exact .running hopen hserved
  · next q last hloop =>
    rw [hloop] at hopen hserved
    exact .closed hopen hserved

/-- Without workers the listener is closed at once. -/
theorem runWorkers_unready (hready : ¬ WorkersReady o) (p : Process Client) :
    runWorkers o passes p = (p.emit .closed, .returned (-1)) := by
  rw [runWorkers]
  split_ifs with hbuffers hinit hstarted
  · rfl
  · rfl
  · rfl
  · refine absurd ?_ hready
    simp only [Bool.not_eq_true', Bool.or_eq_true, not_or, Bool.not_eq_false] at hbuffers hinit
    exact ⟨hbuffers, hinit.1.1.1, hinit.1.1.2, hinit.1.2, hinit.2, hstarted⟩

theorem runCpuProcessSlots_unavailable (hslots : 1 < o.slots)
    (h : o.children = false ∨ firstFork o = some .failed) :
    runCpuProcessSlots o passes p = (p, .returned (-2)) := by
  rw [runCpuProcessSlots, if_neg (by omega)]
  rcases h with h | h
  · rw [if_pos (by simp [h])]
  · split_ifs with hchildren
    · rfl
    · rw [h]

/-- A process slot: the parent comes back from its loop with the listener open, a child closes it and
exits. -/
theorem runCpuProcessSlots_available (hslots : 1 < o.slots) (hchildren : o.children = true)
    (hfork : firstFork o ≠ some .failed) (h : Open p)
    (hp : p.events.filterMap ListenerEvent.client = []) :
    Ends (offered Turn.processGoesOn o.turn passes)
      (match runCpuProcessSlots o passes p with
        | (p, .returned v) =>
          if v ≠ -2 then (p.emit .closed, .returned v)
          else runWorkers o passes ((p.emit .closed).setMode o .serialized)
        | r => r) := by
  obtain ⟨hopen, hserved, hresult⟩ := @processAcceptLoop_ends _ o passes p h hp
  rw [runCpuProcessSlots, if_neg (by omega), if_neg (by simp [hchildren])]
  cases hloop : processAcceptLoop o passes p with
  | mk q result =>
    rw [hloop] at hopen hserved hresult
    cases hfirst : firstFork o with
    | none =>
      rcases hresult with rfl | rfl | rfl
      · exact .running hopen hserved
      · exact .closed hopen hserved
      · exact .closed hopen hserved
    | some fork =>
      cases fork with
      | failed => exact absurd hfirst hfork
      | child =>
        rcases hresult with rfl | rfl | rfl
        · exact .running hopen hserved
        · exact .closed hopen hserved
        · exact .closed hopen hserved
      | parent =>
        have := List.find?_some hfirst
        simp at this

/-! ### Runs -/

/-- The process when its listener is open. -/
def listeningProcess : Process Client := (⟨[], none⟩ : Process Client).emit .opened

theorem listeningProcess_open : Open (listeningProcess : Process Client) where
  opened := rfl
  not_closed := rfl
  accepts := acceptsOpen_emit (fun before behind h => by simp at h) fun he => by cases he

@[simp] theorem setMode_events (p : Process Client) (mode : SlotMode) :
    (p.setMode o mode).events = p.events := by
  rw [Process.setMode]
  split_ifs <;> rfl

/-- The part of a run behind the opening of the listener. -/
theorem transportRun_listening (hhandlers : o.handlers = true) (hlistener : o.listener = true) :
    transportRun o passes =
      if !o.cuda && decide (1 < o.slots) then
        if !o.setenv .process then (listeningProcess.emit .closed, .returned (-1))
        else
          match runCpuProcessSlots o passes (listeningProcess.setMode o .process) with
          | (p, .returned v) =>
            if v ≠ -2 then (p.emit .closed, .returned v)
            else runWorkers o passes ((p.emit .closed).setMode o .serialized)
          | r => r
      else runWorkers o passes (listeningProcess.setMode o .serialized) := by
  rw [transportRun]
  simp only [hhandlers, hlistener, Bool.not_true, Bool.false_eq_true, if_false]
  rfl

theorem triesSlots_iff (hhandlers : o.handlers = true) (hlistener : o.listener = true) :
    TriesSlots o ↔ (!o.cuda && decide (1 < o.slots)) = true ∧ o.setenv .process = true := by
  simp [TriesSlots, hhandlers, hlistener, and_assoc]

theorem transportRun_slot (h : ServesSlot o) :
    Ends (offered Turn.processGoesOn o.turn passes) (transportRun o passes) := by
  obtain ⟨htries, havailable⟩ := h
  obtain ⟨hcondition, hsetenv⟩ := (triesSlots_iff htries.1 htries.2.1).mp htries
  have hchildren : o.children = true := by
    by_contra hchildren
    exact havailable ⟨htries, .inl (Bool.not_eq_true _ ▸ hchildren)⟩
  rw [transportRun_listening htries.1 htries.2.1, if_pos hcondition, if_neg (by simp [hsetenv])]
  refine runCpuProcessSlots_available htries.2.2.2.1 hchildren
    (fun hfork => havailable ⟨htries, .inr hfork⟩) (listeningProcess_open.setMode o _) ?_
  rw [setMode_events]
  rfl

theorem transportRun_queue (h : ServesQueue o) (havailable : ¬ SlotsUnavailable o) :
    Ends (offered Turn.queueGoesOn o.turn passes) (transportRun o passes) := by
  obtain ⟨hhandlers, hlistener, hmode, hready⟩ := h
  have hcondition : ¬ (!o.cuda && decide (1 < o.slots)) = true := by
    rcases hmode with hcuda | hslots | hunavailable
    · simp [hcuda]
    · simp [hslots]
    · exact absurd hunavailable havailable
  rw [transportRun_listening hhandlers hlistener, if_neg hcondition]
  refine runWorkers_ready hready (listeningProcess_open.setMode o _) ?_
  rw [setMode_events]
  rfl

/-- A process that serves nothing closes its listener. -/
theorem transportRun_none (hhandlers : o.handlers = true) (hlistener : o.listener = true)
    (hqueue : ¬ ServesQueue o) (hslot : ¬ ServesSlot o) (havailable : ¬ SlotsUnavailable o) :
    Ends [] (transportRun o passes) := by
  rw [transportRun_listening hhandlers hlistener]
  split_ifs with hcondition hsetenv
  · exact .closed listeningProcess_open rfl
  · refine absurd ⟨?_, havailable⟩ hslot
    exact (triesSlots_iff hhandlers hlistener).mpr ⟨hcondition, by simpa using hsetenv⟩
  · have hready : ¬ WorkersReady o := by
      refine fun hready => hqueue ⟨hhandlers, hlistener, ?_, hready⟩
      simp only [Bool.and_eq_true, Bool.not_eq_true', decide_eq_true_eq, not_and,
        Nat.not_lt] at hcondition
      cases hcuda : o.cuda with
      | true => exact .inl rfl
      | false => exact .inr (.inl (hcondition hcuda))
    rw [runWorkers_unready hready]
    exact .closed (listeningProcess_open.setMode o _) (by rw [setMode_events]; rfl)

/-- Without a listener nothing is done. -/
theorem transportRun_unopened (h : ¬ (o.handlers = true ∧ o.listener = true)) :
    transportRun o passes = (⟨[], none⟩, .returned (-1)) := by
  rw [transportRun]
  cases hhandlers : o.handlers with
  | false => rfl
  | true =>
    cases hlistener : o.listener with
    | false => rfl
    | true => exact absurd ⟨hhandlers, hlistener⟩ h

theorem keepsListener_of_ends {served : List Client} (h : Ends served (transportRun o passes))
    (hqueue : ServesQueue o → served = offered Turn.queueGoesOn o.turn passes)
    (hslot : ServesSlot o → served = offered Turn.processGoesOn o.turn passes)
    (havailable : ¬ SlotsUnavailable o) : KeepsListener o passes where
  accepts := h.accepts
  closes hend _ := h.closes hend
  queue hserves := h.served_eq.trans (hqueue hserves)
  slot hserves := h.served_eq.trans (hslot hserves)
  serialized hunavailable := absurd hunavailable havailable

theorem not_servesSlot_of_queue (h : ServesQueue o) : ¬ ServesSlot o := by
  rintro ⟨htries, havailable⟩
  rcases h.2.2.1 with hcuda | hslots | hunavailable
  · rw [htries.2.2.1] at hcuda
    exact Bool.false_ne_true hcuda
  · exact absurd htries.2.2.2.1 (Nat.not_lt.mpr hslots)
  · exact havailable hunavailable

theorem keepsListener_of_available (havailable : ¬ SlotsUnavailable o) : KeepsListener o passes := by
  by_cases hopened : o.handlers = true ∧ o.listener = true
  · by_cases hqueue : ServesQueue o
    · exact keepsListener_of_ends (transportRun_queue hqueue havailable) (fun _ => rfl)
        (fun hslot => absurd hslot (not_servesSlot_of_queue hqueue)) havailable
    by_cases hslot : ServesSlot o
    · exact keepsListener_of_ends (transportRun_slot hslot) (fun h => absurd h hqueue) (fun _ => rfl)
        havailable
    · exact keepsListener_of_ends
        (transportRun_none hopened.1 hopened.2 hqueue hslot havailable)
        (fun h => absurd h hqueue) (fun h => absurd h hslot) havailable
  · have hrun := @transportRun_unopened _ o passes hopened
    refine ⟨?_, ?_, fun h => absurd ⟨h.1, h.2.1⟩ hopened, fun h => absurd ⟨h.1.1, h.1.2.1⟩ hopened,
      fun h => absurd h havailable⟩
    · rw [hrun]
      intro before behind heq
      simp at heq
    · rw [hrun]
      intro _ h
      exact absurd h Bool.false_ne_true

/-- The process behind the close that comes before the fallback. -/
def abandoned (o : Outcomes Client) : Process Client :=
  (((listeningProcess.setMode o .process).emit .closed).setMode o .serialized)

theorem transportRun_unavailable (h : SlotsUnavailable o) :
    transportRun o passes = runWorkers o passes (abandoned o) := by
  obtain ⟨htries, hreason⟩ := h
  obtain ⟨hcondition, hsetenv⟩ := (triesSlots_iff htries.1 htries.2.1).mp htries
  rw [transportRun_listening htries.1 htries.2.1, if_pos hcondition, if_neg (by simp [hsetenv]),
    runCpuProcessSlots_unavailable htries.2.2.2.1 hreason]
  exact if_neg (by simp)

theorem abandoned_events (o : Outcomes Client) : (abandoned o).events = [.opened, .closed] := by
  rw [abandoned, setMode_events, Process.emit, setMode_events]
  rfl

/-- The fallback accepts on the closed listener, or closes it again. -/
theorem not_keepsListener_of_unavailable (h : SlotsUnavailable o) : ¬ KeepsListener o 1 := by
  have hclosed : (abandoned o).listening = false := by
    rw [Process.listening, abandoned_events]
    rfl
  have htwice : ((abandoned o).emit .closed).events.countP ListenerEvent.isClosed = 2 := by
    rw [Process.emit, abandoned_events]
    rfl
  have hopened : ((abandoned o).emit .closed).events.any ListenerEvent.isOpened = true := by
    rw [Process.emit, abandoned_events]
    rfl
  intro hkeeps
  have haccepts := hkeeps.accepts
  have hcloses := hkeeps.closes
  rw [transportRun_unavailable h] at haccepts hcloses
  by_cases hready : WorkersReady o
  · obtain ⟨hbuffers, hmutex, havailable, hspace, hdrained, hstarted⟩ := hready
    rw [runWorkers, if_neg (by simp [hbuffers]),
      if_neg (by simp [hmutex, havailable, hspace, hdrained]), if_neg hstarted] at haccepts hcloses
    by_cases hstop : o.turn 0 = .stopped
    · have hloop : acceptLoop Turn.queueGoesOn o.turn 1 (abandoned o) =
          (abandoned o, some .stopped) := by
        simp [acceptLoop, hstop, accept, Turn.queueGoesOn]
      rw [hloop] at hcloses
      have hone := hcloses (fun he => by cases he) hopened
      rw [htwice] at hone
      exact absurd hone (by decide)
    · have haccept : accept (abandoned o) (o.turn 0) = ((abandoned o).emit .accept, .failed) := by
        cases hturn : o.turn 0 with
        | stopped => exact absurd hturn hstop
        | interrupted | failed | client => simp [accept, hclosed]
      have hloop : acceptLoop Turn.queueGoesOn o.turn 1 (abandoned o) =
          ((abandoned o).emit .accept, some .failed) := by
        simp [acceptLoop, haccept, Turn.queueGoesOn]
      rw [hloop] at haccepts
      have hbefore := haccepts [.opened, .closed] [.closed]
        (by simp [Process.emit, abandoned_events])
      exact Bool.false_ne_true hbefore.2.symm
  · rw [runWorkers_unready hready] at hcloses
    have hone := hcloses (fun he => by cases he) hopened
    rw [htwice] at hone
    exact absurd hone (by decide)

end

/-- The listener is kept in all runs just when the process slots are not found unavailable. -/
theorem keepsListener_iff (o : Outcomes Client) :
    (∀ passes, KeepsListener o passes) ↔ ¬ SlotsUnavailable o := by
  constructor
  · exact fun hall h => not_keepsListener_of_unavailable h (hall 1)
  · exact fun havailable passes => keepsListener_of_available havailable

end

/-- Two slots are configured and `fork` fails. -/
def forkFails : Outcomes ℕ where
  cuda := false
  slots := 2
  workers := 1
  handlers := true
  listener := true
  setenv _ := true
  children := true
  fork _ := .failed
  buffers := true
  mutex := true
  available := true
  space := true
  drained := true
  thread _ := true
  turn _ := .client 7 true

theorem not_keepsListener_forkFails : ¬ KeepsListener forkFails 1 := by
  refine not_keepsListener_of_unavailable ⟨⟨rfl, rfl, rfl, by decide, rfl⟩, .inr ?_⟩
  decide

end Startup

end Http

end FortAI
