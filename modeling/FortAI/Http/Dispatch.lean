import FortAI.Http.Authorization
import FortAI.Http.Response
import FortAI.Machine.Loop

/-!
# Dispatching a request

`dispatchRequest` is `fortai_dispatch_request`: it calls `handle` (`fortai_native_http_handle`, for
a text model) and, when the reply does not fit the response buffer, calls it again with a larger
one.  What the handler does before and after a generation (routing and validation, the pages it
prints) is a parameter, a `Server`; lengths are those of texts in memory, far below `2 ^ 31`.

* `handle_eq` : what a call does to the state does not depend on the buffer.
* `Handler.run_ne_exhausted` : every retry has a larger buffer, so the retries end.
* `handledOnce_iff` : a dispatch has the effects of one call exactly when the request gets to the
  handler and its first reply is not retried.
-/

namespace FortAI

namespace Http

open CString

/-- `FORTAI_HTTP_MAX_RESPONSE` -/
def maxResponse : ℕ := 64 * 1024 * 1024

/-- A content type; the longest variable that holds one has 64 characters. -/
structure ContentType where
  bytes : Bytes
  short : bytes.length ≤ 64

def ContentType.json : ContentType := ⟨ascii "application/json", by decide⟩

/-- What `fortai_native_service_complete_text_sampling` returns for a prompt. -/
structure Generated where
  text : Bytes
  tokens : ℕ
  promptTokens : ℕ

/-- What the handler finds a request to ask for. -/
inductive Plan (Options : Type*)
  /-- An answer without a generation: a page, a list, an error in the request. -/
  | answer (status : ℤ) (mime : ContentType) (text : Bytes)
  /-- A completion for one prompt. -/
  | prompt (options : Options) (text : Bytes)
  /-- Completions for an array of prompts. -/
  | batch (options : Options) (texts : List Bytes)

/-- The counters of the handler, and what else of the process a request can see or change. -/
structure State (W : Type*) where
  requestCount : ℕ
  generationCount : ℕ
  /-- The prompts `fortai_native_service_complete_text_sampling` was called with so far. -/
  invocations : List Bytes
  world : W

/-- The rest of the handler: routing and validation, the service, and the pages of a reply. -/
structure Server (W O : Type*) where
  plan : State W → Bytes → Plan O × W
  complete : O → Bytes → W → Option Generated × W
  page : O → Generated → W → ContentType × Bytes
  batchPage : O → List Generated → W → Bytes

/-- What a call of the handler returns: its code, and what it wrote to its arguments. -/
structure Answer where
  code : ℤ
  status : ℤ
  mime : Bytes
  text : Bytes

/-- `copy_result`, for a content type buffer of 128 bytes: a text that does not fit is not copied,
and the code asks for a buffer. -/
def copyResult (status : ℤ) (mime : ContentType) (text : Bytes) (capacity : ℕ) : Answer :=
  if capacity ≤ text.length ∨ 128 ≤ mime.bytes.length + 1 then
    ⟨-(max (text.length + 1) (mime.bytes.length + 1) : ℕ), status, [], []⟩
  else ⟨0, status, mime.bytes, text⟩

/-- `error_body`, for a message without characters that JSON escapes. -/
def errorBody (message : String) : Bytes :=
  ascii "\x7b\"error\":\x7b\"message\":\"" ++ ascii message ++
    ascii "\",\"type\":\"fortai_server_error\"\x7d\x7d\n"

section Handler

variable {W O : Type*} (server : Server W O)

/-- A call of `fortai_native_service_complete_text_sampling`. -/
def complete (options : O) (prompt : Bytes) (s : State W) : Option Generated × State W :=
  let r := server.complete options prompt s.world
  (r.1, { s with invocations := s.invocations ++ [prompt], world := r.2 })

/-- The loop over a prompt array; it ends with the first failure. -/
def completeBatch (options : O) : List Bytes → State W → Option (List Generated) × State W
  | [], s => (some [], s)
  | prompt :: prompts, s =>
    match complete server options prompt s with
    | (none, s') => (none, s')
    | (some generated, s') =>
      match completeBatch options prompts s' with
      | (none, s'') => (none, s'')
      | (some rest, s'') => (some (generated :: rest), s'')

/-- What a call of the handler has to say, and the state it leaves. -/
def respond (request : Bytes) (s : State W) : (ℤ × ContentType × Bytes) × State W :=
  let s := { s with requestCount := s.requestCount + 1 }
  match server.plan s request with
  | (.answer status mime text, world) => ((status, mime, text), { s with world })
  | (.prompt options prompt, world) =>
    match complete server options prompt { s with world } with
    | (none, s') => ((500, .json, errorBody "FortAI generation failed"), s')
    | (some generated, s') =>
      let s' := { s' with generationCount := s'.generationCount + 1 }
      ((200, server.page options generated s'.world), s')
  | (.batch options prompts, world) =>
    match completeBatch server options prompts { s with world } with
    | (none, s') => ((500, .json, errorBody "FortAI generation failed for prompt batch"), s')
    | (some generated, s') =>
      ((200, .json, server.batchPage options generated s'.world),
        { s' with generationCount := s'.generationCount + prompts.length })

/-- `fortai_native_http_handle` -/
def handle (request : Bytes) (capacity : ℕ) (s : State W) : Answer × State W :=
  let r := respond server request s
  (copyResult r.1.1 r.1.2.1 r.1.2.2 capacity, r.2)

end Handler

/-! ### The transport -/

/-- The retry loop of `fortai_dispatch_request`, between two calls of the handler. -/
structure Attempt (W : Type*) where
  capacity : ℕ
  answer : Answer
  state : State W

/-- One pass: a negative code is a request for a buffer. -/
def attempt {W O : Type*} (server : Server W O) (allocates : ℕ → Bool) (request : Bytes)
    (a : Attempt W) : Flow (Attempt W) Unit :=
  let r := handle server request a.capacity a.state
  let a' : Attempt W := ⟨a.capacity, r.1, r.2⟩
  if 0 ≤ r.1.code then .done () a'
  else
    let required := (-r.1.code).toNat
    if required = 0 ∨ maxResponse < required then .abort () a'
    else if !allocates (required + 1) then .abort () a'
    else .next () { a' with capacity := required + 1 }

/-- What a dispatch leaves: the bytes the socket took, whether the call returns 0, and the state. -/
structure Outcome (W : Type*) where
  sent : Bytes
  ok : Bool
  state : State W

def isOptions (request : Bytes) : Bool :=
  8 ≤ request.length && startsNoCase (ascii "OPTIONS ") request

def unauthorizedBody : Bytes :=
  ascii "\x7b\"error\":\x7b\"message\":\"unauthorized\"," ++
    ascii "\"type\":\"authentication_error\"\x7d\x7d\n"

/-- A response, and what sending it leaves. -/
def reply {W : Type*} (host : Host) (sends : List Send) (request : Bytes) (status : ℤ)
    (mime text : Bytes) (s : State W) : Outcome W :=
  let r := httpStatus host.getenv sends status mime text (requestOrigin request)
  ⟨r.1, r.2, s⟩

/-- What `fortai_dispatch_request` does after its loop. -/
def conclude {W : Type*} (host : Host) (sends : List Send) (request : Bytes) :
    Ending (Attempt W) → Option (Outcome W)
  | .exhausted _ => none
  | .aborted a => some ⟨[], false, a.state⟩
  | .finished a =>
    if a.answer.code ≠ 0 then some ⟨[], false, a.state⟩
    else some (reply host sends request a.answer.status a.answer.mime a.answer.text a.state)

/-- `fortai_dispatch_request`, with a first response buffer of `initial` bytes; `none` when it does
not return. -/
def dispatchRequest {W O : Type*} (server : Server W O) (host : Host) (allocates : ℕ → Bool)
    (sends : List Send) (initial : ℕ) (request : Bytes) (s : State W) : Option (Outcome W) :=
  if !allocates initial then some ⟨[], false, s⟩
  else if isOptions request then
    some (reply host sends request 204 (ascii "text/plain; charset=utf-8") [] s)
  else
    match authorized host request with
    | none => none
    | some false =>
      some (reply host sends request 401 (ascii "application/json") unauthorizedBody s)
    | some true =>
      -- the buffer grows with every pass, so no run takes as many passes
      conclude host sends request
        (Loop.run (attempt server allocates request) (maxResponse + 3)
          ⟨initial, ⟨0, 500, [], []⟩, s⟩)

/-! ### One call of the handler -/

section Handler

variable {W O : Type*} (server : Server W O)

theorem complete_spec (options : O) (prompt : Bytes) (s : State W) :
    (complete server options prompt s).2.requestCount = s.requestCount ∧
      (complete server options prompt s).2.generationCount = s.generationCount ∧
      (complete server options prompt s).2.invocations = s.invocations ++ [prompt] :=
  ⟨rfl, rfl, rfl⟩

/-- The loop leaves the counters alone; when it succeeds it has called the service once for each
prompt. -/
theorem completeBatch_spec (options : O) :
    ∀ (prompts : List Bytes) (s : State W),
      (completeBatch server options prompts s).2.requestCount = s.requestCount ∧
        (completeBatch server options prompts s).2.generationCount = s.generationCount ∧
        ((completeBatch server options prompts s).1.isSome →
          (completeBatch server options prompts s).2.invocations = s.invocations ++ prompts) := by
  intro prompts
  induction prompts with
  | nil => intro s; exact ⟨rfl, rfl, fun _ => (List.append_nil _).symm⟩
  | cons prompt prompts ih =>
    intro s
    obtain ⟨hreq, hgen, hinv⟩ := complete_spec server options prompt s
    cases hc : complete server options prompt s with
    | mk result s' =>
      rw [hc] at hreq hgen hinv
      cases result with
      | none =>
        simp only [completeBatch, hc]
        exact ⟨hreq, hgen, fun h => Bool.noConfusion h⟩
      | some generated =>
        obtain ⟨hreq', hgen', hinv'⟩ := ih s'
        cases hb : completeBatch server options prompts s' with
        | mk rest s'' =>
          rw [hb] at hreq' hgen' hinv'
          cases rest with
          | none =>
            simp only [completeBatch, hc, hb]
            exact ⟨hreq'.trans hreq, hgen'.trans hgen, fun h => Bool.noConfusion h⟩
          | some rest =>
            simp only [completeBatch, hc, hb]
            refine ⟨hreq'.trans hreq, hgen'.trans hgen, fun _ => ?_⟩
            rw [hinv' rfl, hinv, List.append_assoc]
            rfl

/-- The prompts of a request whose completions succeed; none for a request without a generation. -/
def prompts (request : Bytes) (s : State W) : Option (List Bytes) :=
  let s := { s with requestCount := s.requestCount + 1 }
  match server.plan s request with
  | (.answer _ _ _, _) => some []
  | (.prompt options prompt, world) =>
    if (complete server options prompt { s with world }).1.isSome then some [prompt] else none
  | (.batch options prompts, world) =>
    if (completeBatch server options prompts { s with world }).1.isSome then some prompts else none

/-- The effects of one call: a request is counted, and when its completions succeed so are its
prompts, each of which the service was called with once. -/
def HandledOnce (request : Bytes) (s s' : State W) : Prop :=
  s'.requestCount = s.requestCount + 1 ∧
    ∀ texts ∈ prompts server request s,
      s'.generationCount = s.generationCount + texts.length ∧
        s'.invocations = s.invocations ++ texts

theorem respond_handledOnce (request : Bytes) (s : State W) :
    HandledOnce server request s (respond server request s).2 := by
  cases hplan : server.plan { s with requestCount := s.requestCount + 1 } request with
  | mk plan world =>
    cases plan with
    | answer status mime text =>
      simp only [HandledOnce, respond, prompts, hplan]
      refine ⟨trivial, fun texts htexts => ?_⟩
      rw [Option.mem_def, Option.some.injEq] at htexts
      rw [← htexts]
      exact ⟨rfl, (List.append_nil _).symm⟩
    | prompt options prompt =>
      obtain ⟨hreq, hgen, hinv⟩ := complete_spec server options prompt
        { s with requestCount := s.requestCount + 1, world }
      cases hc : complete server options prompt
          { s with requestCount := s.requestCount + 1, world } with
      | mk result s' =>
        rw [hc] at hreq hgen hinv
        cases result with
        | none =>
          simp only [HandledOnce, respond, prompts, hplan, hc]
          exact ⟨hreq, fun texts htexts => absurd htexts (by simp)⟩
        | some generated =>
          simp only [HandledOnce, respond, prompts, hplan, hc]
          refine ⟨hreq, fun texts htexts => ?_⟩
          simp only [Option.isSome_some, if_true, Option.mem_def, Option.some.injEq] at htexts
          rw [← htexts]
          exact ⟨congrArg (· + 1) hgen, hinv⟩
    | batch options texts =>
      obtain ⟨hreq, hgen, hinv⟩ := completeBatch_spec server options texts
        { s with requestCount := s.requestCount + 1, world }
      cases hc : completeBatch server options texts
          { s with requestCount := s.requestCount + 1, world } with
      | mk result s' =>
        rw [hc] at hreq hgen hinv
        cases result with
        | none =>
          simp only [HandledOnce, respond, prompts, hplan, hc]
          exact ⟨hreq, fun texts htexts => absurd htexts (by simp)⟩
        | some generated =>
          simp only [HandledOnce, respond, prompts, hplan, hc]
          refine ⟨hreq, fun texts' htexts => ?_⟩
          simp only [Option.isSome_some, if_true, Option.mem_def, Option.some.injEq] at htexts
          rw [← htexts]
          exact ⟨congrArg (· + texts.length) hgen, hinv rfl⟩

/-- What a call does to the state does not depend on the buffer. -/
theorem handle_state (request : Bytes) (capacity : ℕ) (s : State W) :
    (handle server request capacity s).2 = (respond server request s).2 := rfl

/-! ### Retries -/

/-- The text of the reply. -/
def replyText (request : Bytes) (s : State W) : Bytes := (respond server request s).1.2.2

/-- The buffer a reply that does not fit asks for. -/
def required (request : Bytes) (s : State W) : ℕ :=
  max ((replyText server request s).length + 1) ((respond server request s).1.2.1.bytes.length + 1)

/-- A pass leaves the loop when the reply fits, and goes round again when it can have a buffer of
the length it asks for. -/
theorem attempt_eq (allocates : ℕ → Bool) (request : Bytes) (a : Attempt W) :
    attempt server allocates request a =
      let a' : Attempt W :=
        ⟨a.capacity, (handle server request a.capacity a.state).1,
          (respond server request a.state).2⟩
      if a.capacity ≤ (replyText server request a.state).length then
        if required server request a.state ≤ maxResponse ∧
            allocates (required server request a.state + 1) = true then
          .next () { a' with capacity := required server request a.state + 1 }
        else .abort () a'
      else .done () a' := by
  have hmime := (respond server request a.state).1.2.1.short
  by_cases hfit : a.capacity ≤ (replyText server request a.state).length
  · have hcode : (handle server request a.capacity a.state).1.code =
        -(required server request a.state : ℤ) := by
      rw [handle, copyResult, if_pos (.inl hfit)]
      rfl
    have hpos : 0 < required server request a.state := by rw [required]; omega
    have hneg : ¬ (0 : ℤ) ≤ -(required server request a.state : ℤ) := by omega
    have hnat : (-(-(required server request a.state : ℤ))).toNat =
        required server request a.state := by
      rw [Int.neg_neg, Int.toNat_natCast]
    simp only [attempt, hcode, if_neg hneg, hnat, if_pos hfit, handle_state]
    by_cases hmax : required server request a.state ≤ maxResponse
    · rw [if_neg (by omega)]
      by_cases halloc : allocates (required server request a.state + 1) = true
      · simp [halloc, hmax]
      · simp [halloc]
    · rw [if_pos (.inr (by omega)), if_neg (fun h => hmax h.1)]
  · have hcode : (handle server request a.capacity a.state).1.code = 0 := by
      rw [handle, copyResult, if_neg]
      rintro (h | h)
      · exact hfit h
      · omega
    simp only [attempt, hcode, if_pos (Int.le_refl 0), if_neg hfit, handle_state]

/-- Every pass counts a request. -/
theorem attempt_counts {allocates : ℕ → Bool} {request : Bytes} {a a' : Attempt W} {e : Unit}
    (h : attempt server allocates request a = .next e a' ∨
      attempt server allocates request a = .done e a' ∨
      attempt server allocates request a = .abort e a') :
    a'.state.requestCount = a.state.requestCount + 1 := by
  have hcount := (respond_handledOnce server request a.state).1
  rw [attempt_eq] at h
  simp only at h
  split_ifs at h <;> simp only [Flow.next.injEq, Flow.done.injEq, Flow.abort.injEq,
    true_and, false_or, or_false, or_self] at h
  all_goals
    rw [← h]
    exact hcount

/-- Every retry has a larger buffer, so the retries end. -/
theorem attempts_end (allocates : ℕ → Bool) (request : Bytes) (a : Attempt W) :
    ∀ a', Loop.run (attempt server allocates request) (maxResponse + 3) a ≠ .exhausted a' := by
  refine Loop.run_ne_exhausted (fun _ => True) (fun a => maxResponse + 2 - a.capacity) ?_ _ _
    trivial (by omega)
  intro a e a' _ h
  rw [attempt_eq] at h
  simp only at h
  split_ifs at h with hfit hretry
  rw [Flow.next.injEq] at h
  obtain ⟨-, rfl⟩ := h
  have hlarger : (replyText server request a.state).length + 1 ≤ required server request a.state :=
    Nat.le_max_left _ _
  exact ⟨trivial, by simp only; omega⟩

/-- The retries count at least one request. -/
theorem attempts_count {allocates : ℕ → Bool} {request : Bytes} {n : ℕ} {a a' : Attempt W}
    (h : Loop.run (attempt server allocates request) n a = .finished a' ∨
      Loop.run (attempt server allocates request) n a = .aborted a') :
    a.state.requestCount + 1 ≤ a'.state.requestCount := by
  have hrun := Loop.run_induction (attempt server allocates request)
    (fun b => a.state.requestCount ≤ b.state.requestCount)
    (fun b => a.state.requestCount + 1 ≤ b.state.requestCount)
    (fun b => a.state.requestCount + 1 ≤ b.state.requestCount) (fun _ => True)
    (fun b e b' hb _ hpass => by have := attempt_counts server (.inl hpass); omega)
    (fun b e b' hb _ hpass => by have := attempt_counts server (.inr (.inl hpass)); omega)
    (fun b e b' hb _ hpass => by have := attempt_counts server (.inr (.inr hpass)); omega)
    n a le_rfl (fun _ _ => trivial)
  rcases h with h | h
  · rw [h] at hrun
    exact hrun
  · rw [h] at hrun
    exact hrun

/-! ### Dispatches -/

/-- The first reply does not fit, and there is a buffer for another. -/
def Retried (allocates : ℕ → Bool) (initial : ℕ) (request : Bytes) (s : State W) : Prop :=
  initial ≤ (replyText server request s).length ∧ required server request s ≤ maxResponse ∧
    allocates (required server request s + 1) = true

variable (host : Host) (allocates : ℕ → Bool) (sends : List Send) (initial : ℕ) (request : Bytes)
  (s : State W)

theorem dispatch_handled (halloc : allocates initial = true) (hoptions : isOptions request = false)
    (hauth : authorized host request = some true) :
    dispatchRequest server host allocates sends initial request s =
      conclude host sends request
        (Loop.run (attempt server allocates request) (maxResponse + 3)
          ⟨initial, ⟨0, 500, [], []⟩, s⟩) := by
  simp only [dispatchRequest, halloc, hoptions, hauth, Bool.not_true, Bool.false_eq_true, if_false]

/-- The state is that of the last call of the handler. -/
theorem conclude_state {ending : Ending (Attempt W)} {a : Attempt W}
    (h : ending = .finished a ∨ ending = .aborted a) :
    ∃ outcome, conclude host sends request ending = some outcome ∧ outcome.state = a.state := by
  rcases h with rfl | rfl
  · by_cases hcode : a.answer.code ≠ 0
    · exact ⟨_, if_pos hcode, rfl⟩
    · exact ⟨_, if_neg hcode, rfl⟩
  · exact ⟨_, rfl, rfl⟩

/-- The first pass is the only one unless the reply is retried. -/
theorem dispatch_of_not_retried (halloc : allocates initial = true)
    (hoptions : isOptions request = false) (hauth : authorized host request = some true)
    (h : ¬ Retried server allocates initial request s) :
    ∃ outcome, dispatchRequest server host allocates sends initial request s = some outcome ∧
      outcome.state = (respond server request s).2 := by
  have hfirst := attempt_eq server allocates request ⟨initial, ⟨0, 500, [], []⟩, s⟩
  simp only at hfirst
  rw [dispatch_handled server host allocates sends initial request s halloc hoptions hauth]
  by_cases hfit : initial ≤ (replyText server request s).length
  · rw [if_pos hfit, if_neg fun hr => h ⟨hfit, hr⟩] at hfirst
    exact conclude_state host sends request (.inr (Loop.run_of_abort hfirst))
  · rw [if_neg hfit] at hfirst
    exact conclude_state host sends request (.inl (Loop.run_of_done hfirst))

/-- A retry counts the request again. -/
theorem dispatch_of_retried (halloc : allocates initial = true)
    (hoptions : isOptions request = false) (hauth : authorized host request = some true)
    (h : Retried server allocates initial request s) :
    ∃ outcome, dispatchRequest server host allocates sends initial request s = some outcome ∧
      s.requestCount + 2 ≤ outcome.state.requestCount := by
  have hfirst := attempt_eq server allocates request ⟨initial, ⟨0, 500, [], []⟩, s⟩
  simp only at hfirst
  rw [if_pos h.1, if_pos h.2] at hfirst
  have hcount := (respond_handledOnce server request s).1
  have hend := attempts_end server allocates request ⟨initial, ⟨0, 500, [], []⟩, s⟩
  rw [dispatch_handled server host allocates sends initial request s halloc hoptions hauth]
  rw [Loop.run_of_next hfirst] at hend ⊢
  obtain ⟨a, ha⟩ : ∃ a, Loop.run (attempt server allocates request) (maxResponse + 2)
        ⟨required server request s + 1, (handle server request initial s).1,
          (respond server request s).2⟩ = .finished a ∨
      Loop.run (attempt server allocates request) (maxResponse + 2)
        ⟨required server request s + 1, (handle server request initial s).1,
          (respond server request s).2⟩ = .aborted a := by
    cases hrun : Loop.run (attempt server allocates request) (maxResponse + 2)
        ⟨required server request s + 1, (handle server request initial s).1,
          (respond server request s).2⟩ with
    | exhausted a => exact absurd hrun (hend a)
    | aborted a => exact ⟨a, .inr rfl⟩
    | finished a => exact ⟨a, .inl rfl⟩
  have hmore : (respond server request s).2.requestCount + 1 ≤ a.state.requestCount :=
    attempts_count server ha
  obtain ⟨outcome, hout, hstate⟩ := conclude_state host sends request ha
  exact ⟨outcome, hout, by rw [hstate]; omega⟩

/-- **When a request is handled once.**  A dispatch counts one request, counts its prompts when their
completions succeed, and calls the service once for each of them, exactly when it gets to the handler
(the first buffer can be allocated, the request is not an `OPTIONS` request, and it is authorized)
and the first reply is not retried: it fits the first buffer, or there is no buffer for it. -/
theorem handledOnce_iff :
    (∃ outcome ∈ dispatchRequest server host allocates sends initial request s,
        HandledOnce server request s outcome.state) ↔
      allocates initial = true ∧ isOptions request = false ∧
        authorized host request = some true ∧ ¬ Retried server allocates initial request s := by
  constructor
  · rintro ⟨outcome, hout, honce⟩
    have hcount := honce.1
    have huncounted : s.requestCount ≠ s.requestCount + 1 := by omega
    rw [Option.mem_def] at hout
    by_cases halloc : allocates initial = true
    swap
    · -- no buffer: the handler is not called
      simp only [dispatchRequest, halloc, Bool.not_false, if_true, Option.some.injEq] at hout
      rw [← hout] at hcount
      exact absurd hcount huncounted
    cases hoptions : isOptions request with
    | true =>
      simp only [dispatchRequest, halloc, hoptions, Bool.not_true, Bool.false_eq_true, if_false,
        if_true, Option.some.injEq] at hout
      rw [← hout] at hcount
      exact absurd hcount huncounted
    | false =>
      cases hauth : authorized host request with
      | none =>
        simp [dispatchRequest, halloc, hoptions, hauth] at hout
      | some allowed =>
        cases allowed with
        | false =>
          simp only [dispatchRequest, halloc, hoptions, hauth, Bool.not_true, Bool.false_eq_true,
            if_false, Option.some.injEq] at hout
          rw [← hout] at hcount
          exact absurd hcount huncounted
        | true =>
          refine ⟨halloc, rfl, rfl, fun hretried => ?_⟩
          obtain ⟨outcome', hout', hmore⟩ := dispatch_of_retried server host allocates sends
            initial request s halloc hoptions hauth hretried
          rw [hout, Option.some.injEq] at hout'
          rw [hout'] at hcount
          omega
  · rintro ⟨halloc, hoptions, hauth, hretried⟩
    obtain ⟨outcome, hout, hstate⟩ := dispatch_of_not_retried server host allocates sends initial
      request s halloc hoptions hauth hretried
    refine ⟨outcome, hout, ?_⟩
    rw [hstate]
    exact respond_handledOnce server request s

end Handler

/-- A server that is asked to complete the text `x`, does so with a text as long as the first response
buffer, and whose pages are the text. -/
def longServer : Server Unit Unit where
  plan := fun s _ => (.prompt () (ascii "x"), s.world)
  complete := fun _ _ world => (some ⟨List.replicate 65536 120, 1, 1⟩, world)
  page := fun _ generated _ => (.json, generated.text)
  batchPage := fun _ _ _ => []

/-- The request for it. -/
def completionRequest : Bytes :=
  ascii "POST /completion HTTP/1.1\r\nContent-Length: 14\r\n\r\n\x7b\"prompt\":\"x\"\x7d"

/-- A host without keys. -/
def openHost : Host := ⟨fun _ => none, fun _ => none⟩

/-- One request whose completion is generated twice. -/
theorem handled_twice :
    ∃ outcome ∈ dispatchRequest longServer openHost (fun _ => true) [.sent 70000, .sent 70000] 65536
        completionRequest ⟨0, 0, [], ()⟩,
      outcome.state.requestCount = 2 ∧ outcome.state.generationCount = 2 ∧
        outcome.state.invocations = [ascii "x", ascii "x"] ∧
        ¬ HandledOnce longServer completionRequest ⟨0, 0, [], ()⟩ outcome.state := by
  have htext (request : Bytes) (s : State Unit) :
      (replyText longServer request s).length = 65536 := List.length_replicate
  have hrequired (request : Bytes) (s : State Unit) : required longServer request s = 65537 := by
    rw [required, htext]
    rfl
  have hmax : 65537 ≤ maxResponse := by decide
  have hoptions : isOptions completionRequest = false := by decide +kernel
  have hauth : authorized openHost completionRequest = some true := by decide +kernel
  -- the first buffer is too small, the second holds the text
  have hfirst := attempt_eq longServer (fun _ => true) completionRequest ⟨65536, ⟨0, 500, [], []⟩, ⟨0, 0, [], ()⟩⟩
  simp only [htext, hrequired, le_refl, if_true, hmax, true_and] at hfirst
  have hsecond (answer : Answer) (s : State Unit) :=
    attempt_eq longServer (fun _ => true) completionRequest ⟨65537 + 1, answer, s⟩
  simp only [htext, if_neg (by decide : ¬ 65537 + 1 ≤ 65536)] at hsecond
  have hrun (n : ℕ) := (Loop.run_of_next (n := n + 1) hfirst).trans
    (Loop.run_of_done (hsecond _ _))
  obtain ⟨outcome, hout, hstate⟩ := conclude_state openHost [.sent 70000, .sent 70000]
    completionRequest (.inl (hrun (maxResponse + 1)))
  refine ⟨outcome, ?_, ?_⟩
  · rw [Option.mem_def, dispatch_handled longServer openHost (fun _ => true) _ 65536 _ _ rfl
      hoptions hauth]
    exact hout
  · rw [hstate]
    exact ⟨rfl, rfl, rfl, fun h => absurd h.1 (by decide)⟩

end Http

end FortAI
