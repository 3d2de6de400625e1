import FortAI.Http.Header

/-!
# The response on the wire

`httpStatus` is `fortai_http_status`: it prints the status line and the header lines into a buffer
of 2048 bytes and hands them, and then the body, to `send`.  `readReply` is what the other end
does with these bytes: the header block ends at the first `"\r\n\r\n"`, the lines before it are the
status line and the headers, and what follows is the body.

* `sendAll_delivered` : a call of `sendAll` that reports success has handed over every byte.
* `readReply_joined` : a block of lines, a blank line and a body are read back as such.
* `framed_iff` : the response is framed exactly when the `Origin` of the request is empty: the
  format string prints either the blank line or the line `Vary: Origin`, never both.
-/

namespace FortAI

namespace Http

open CString

/-! ### Sending -/

/-- What one call of `send` does: it takes at most so many bytes, or is interrupted, or fails. -/
inductive Send
  | sent (n : ℕ)
  | interrupted
  | failed
  deriving DecidableEq

/-- `fortai_send_all`, for a socket that answers its calls with `sends`: the bytes the socket took,
its further answers, and whether the call reports success. -/
def sendAll : List Send → Bytes → Bytes × List Send × Bool
  | sends, [] => ([], sends, true)
  | [], _ :: _ => ([], [], false)
  | .interrupted :: sends, b :: data => sendAll sends (b :: data)
  | .failed :: sends, _ :: _ => ([], sends, false)
  | .sent 0 :: sends, _ :: _ => ([], sends, false)
  | .sent (n + 1) :: sends, b :: data =>
    let rest := sendAll sends ((b :: data).drop (n + 1))
    ((b :: data).take (n + 1) ++ rest.1, rest.2)

theorem sendAll_delivered :
    ∀ {sends : List Send} {data : Bytes}, (sendAll sends data).2.2 = true →
      (sendAll sends data).1 = data := by
  intro sends
  induction sends with
  | nil =>
    intro data h
    cases data with
    | nil => rfl
    | cons b data => exact absurd h Bool.false_ne_true
  | cons answer sends ih =>
    intro data h
    cases data with
    | nil => rw [sendAll]
    | cons b data =>
      cases answer with
      | interrupted =>
        rw [sendAll] at h ⊢
        exact ih h
      | failed => rw [sendAll] at h; exact absurd h Bool.false_ne_true
      | sent n =>
        cases n with
        | zero => rw [sendAll] at h; exact absurd h Bool.false_ne_true
        | succ n =>
          rw [sendAll] at h ⊢
          show (b :: data).take (n + 1) ++ (sendAll sends _).1 = b :: data
          rw [ih h, List.take_append_drop]

/-! ### The response -/

/-- `fortai_http_reason` -/
def httpReason (status : ℤ) : Bytes :=
  if status = 200 then ascii "OK"
  else if status = 204 then ascii "No Content"
  else if status = 401 then ascii "Unauthorized"
  else if status = 400 then ascii "Bad Request"
  else if status = 404 then ascii "Not Found"
  else if status = 500 then ascii "Internal Server Error"
  else ascii "FortAI Response"

def configuredOrigins (getenv : Environment) : Bytes :=
  safeEnv getenv "FORTAI_CORS_ORIGINS" (ascii "*")

def corsMethods (getenv : Environment) : Bytes :=
  safeEnv getenv "FORTAI_CORS_METHODS" (ascii "GET, POST, DELETE, OPTIONS")

def corsHeaders (getenv : Environment) : Bytes :=
  safeEnv getenv "FORTAI_CORS_HEADERS" (ascii "*")

def credentials (getenv : Environment) : Bool :=
  let value := safeEnv getenv "FORTAI_CORS_CREDENTIALS" (ascii "true")
  !equalNoCase value (ascii "0") && !equalNoCase value (ascii "false") &&
    !equalNoCase value (ascii "off")

/-- `allow_origin`, printed into a buffer of 512 bytes. -/
def allowOrigin (getenv : Environment) (origin : Bytes) : Bytes :=
  if credentials getenv ∧ corsOriginAllowed (configuredOrigins getenv) origin then
    origin.take 511
  else (configuredOrigins getenv).take 511

/-- What the format string of `fortai_http_status` prints. -/
def headerText (getenv : Environment) (status : ℤ) (mime : Bytes) (length : ℕ)
    (origin : Bytes) : Bytes :=
  ascii "HTTP/1.1 " ++ signed status ++ ascii " " ++ httpReason status ++ crlf ++
    ascii "Content-Type: " ++ mime ++ crlf ++ ascii "Content-Length: " ++ decimal length ++ crlf ++
    ascii "Connection: close" ++ crlf ++ ascii "X-FortAI-Backend: fortai" ++ crlf ++
    ascii "Access-Control-Allow-Origin: " ++ allowOrigin getenv origin ++ crlf ++
    ascii "Access-Control-Allow-Methods: " ++ corsMethods getenv ++ crlf ++
    ascii "Access-Control-Allow-Headers: " ++ corsHeaders getenv ++ crlf ++
    ascii "Access-Control-Allow-Credentials: " ++
    (if credentials getenv then ascii "true" else ascii "false") ++ crlf ++
    (if origin ≠ [] then ascii "Vary: Origin" else []) ++ crlf

/-- `fortai_http_status`: the bytes the socket took, and whether the call returns 0. -/
def httpStatus (getenv : Environment) (sends : List Send) (status : ℤ) (mime body origin : Bytes) :
    Bytes × Bool :=
  let header := headerText getenv status mime body.length origin
  if 2048 ≤ header.length then ([], false)
  else
    let head := sendAll sends header
    if !head.2.2 then (head.1, false)
    else
      let rest := sendAll head.2.1 body
      (head.1 ++ rest.1, rest.2.2)

/-- A call that returns 0 has sent the header and the body. -/
theorem httpStatus_sent {getenv : Environment} {sends : List Send} {status : ℤ}
    {mime body origin : Bytes} (h : (httpStatus getenv sends status mime body origin).2 = true) :
    (httpStatus getenv sends status mime body origin).1 =
      headerText getenv status mime body.length origin ++ body := by
  simp only [httpStatus] at h ⊢
  by_cases hfit : 2048 ≤ (headerText getenv status mime body.length origin).length
  · rw [if_pos hfit] at h
    exact absurd h Bool.false_ne_true
  · rw [if_neg hfit] at h ⊢
    by_cases hok : (sendAll sends (headerText getenv status mime body.length origin)).2.2 = true
    · simp only [hok, Bool.not_true, Bool.false_eq_true, if_false] at h ⊢
      rw [sendAll_delivered hok, sendAll_delivered h]
    · simp only [hok, Bool.not_false, if_true] at h
      exact absurd h Bool.false_ne_true

/-! ### Reading a response -/

/-- The lines of a block, split at every `"\r\n"`. -/
def lines (s : Bytes) : List Bytes :=
  match h : find crlf s with
  | none => [s]
  | some i => s.take i :: lines (s.drop (i + 2))
termination_by s.length
decreasing_by
  have := find_add_length_le (by decide) h
  rw [show crlf.length = 2 from rfl] at this
  rw [List.length_drop]
  omega

/-- A response as its reader takes it apart. -/
structure Reply where
  status : Bytes
  headers : List Bytes
  body : Bytes
  deriving DecidableEq

/-- The header block ends at the first blank line; what follows is the body. -/
def readReply (sent : Bytes) : Option Reply :=
  match find (crlf ++ crlf) sent with
  | none => none
  | some i =>
    match lines (sent.take i) with
    | [] => none
    | status :: headers => some ⟨status, headers, sent.drop (i + 4)⟩

/-- The number in the `Content-Length` header. -/
def contentLength (headers : List Bytes) : Option ℕ :=
  (headers.find? (startsNoCase (ascii "Content-Length:"))).bind fun line =>
    let digits := (line.drop 15).dropWhile isBlank
    if digits ≠ [] ∧ digits.all isDigit then some (value digits) else none

/-- The bytes are one response: its headers are among the intended ones, `Content-Length` counts
the bytes behind the header block, and these are the body. -/
def Framed (sent status : Bytes) (intended : List Bytes) (body : Bytes) : Prop :=
  ∃ reply ∈ readReply sent, reply.status = status ∧ (∀ line ∈ reply.headers, line ∈ intended) ∧
    contentLength reply.headers = some reply.body.length ∧ reply.body = body

/-! ### Blocks of lines -/

/-- Lines with `"\r\n"` between them. -/
def joined : Bytes → List Bytes → Bytes
  | line, [] => line
  | line, next :: block => line ++ (crlf ++ joined next block)

/-- A line that holds something, and no CR. -/
def Solid (line : Bytes) : Prop := line ≠ [] ∧ (13 : Byte) ∉ line

theorem lines_joined :
    ∀ {line : Bytes} {block : List Bytes}, (∀ l ∈ line :: block, Solid l) →
      lines (joined line block) = line :: block := by
  intro line block
  induction block generalizing line with
  | nil =>
    intro h
    have hno : find crlf line = none := by
      rw [find_eq_none (by decide)]
      intro hin
      exact (h line (List.mem_cons_self ..)).2 (hin.subset (by decide))
    rw [joined, lines, hno]
  | cons next block ih =>
    intro h
    rw [List.forall_mem_cons] at h
    rw [joined, lines, find_line_end h.1.2]
    show (line ++ (crlf ++ joined next block)).take line.length ::
      lines ((line ++ (crlf ++ joined next block)).drop (line.length + 2)) = _
    rw [List.take_left, ← List.drop_drop, List.drop_left]
    exact congrArg (line :: ·) (ih h.2)

/-- The first blank line behind a block of solid lines is the one that follows it. -/
theorem find_blank :
    ∀ {line : Bytes} {block : List Bytes} (body : Bytes), (∀ l ∈ line :: block, Solid l) →
      find (crlf ++ crlf) (joined line block ++ (crlf ++ crlf ++ body)) =
        some (joined line block).length := by
  intro line block
  induction block generalizing line with
  | nil =>
    intro body h
    exact find_cons_append _ (h line (List.mem_cons_self ..)).2 (List.prefix_append _ _)
  | cons next block ih =>
    intro body h
    rw [List.forall_mem_cons] at h
    obtain ⟨b, next', hnext⟩ := List.exists_cons_of_ne_nil (h.2 next (List.mem_cons_self ..)).1
    have hb : b ≠ 13 := by
      rintro rfl
      exact (h.2 next (List.mem_cons_self ..)).2 (hnext ▸ List.mem_cons_self ..)
    -- the line end before `next` is not a blank line, since `next` does not begin with a CR
    have hhead : ∃ t, joined next block ++ (crlf ++ crlf ++ body) = b :: t := by
      cases block with
      | nil => exact ⟨_, by rw [joined, hnext]; rfl⟩
      | cons l block => exact ⟨_, by rw [joined, hnext]; rfl⟩
    obtain ⟨t, ht⟩ := hhead
    have h13 : ¬ crlf ++ crlf <+: 13 :: 10 :: b :: t := by
      intro hp
      have := (List.cons_prefix_cons.mp (List.cons_prefix_cons.mp hp).2).2
      exact hb (List.cons_prefix_cons.mp this).1.symm
    have h10 : ¬ crlf ++ crlf <+: 10 :: b :: t := by
      intro hp
      exact absurd (List.cons_prefix_cons.mp hp).1 (by decide)
    have hrest := ih body h.2
    rw [ht] at hrest
    rw [joined, List.append_assoc, List.append_assoc, ht]
    rw [show crlf ++ crlf = 13 :: [10, 13, 10] from rfl, find_skip _ h.1.2]
    rw [show crlf ++ b :: t = 13 :: 10 :: b :: t from rfl]
    rw [show (13 :: [10, 13, 10] : Bytes) = crlf ++ crlf from rfl,
      find_cons_of_not_starts h13, find_cons_of_not_starts h10, hrest]
    simp only [Option.map_some, List.length_append, Option.some.injEq]
    rw [show crlf.length = 2 from rfl]
    omega

/-- What a reader takes for the body follows a blank line. -/
theorem exists_of_readReply {sent : Bytes} {reply : Reply} (h : readReply sent = some reply) :
    ∃ before, sent = before ++ (crlf ++ crlf) ++ reply.body := by
  cases hi : find (crlf ++ crlf) sent with
  | none => simp [readReply, hi] at h
  | some i =>
    obtain ⟨rest, hrest⟩ := prefix_of_find hi
    have hsent : sent = sent.take i ++ (crlf ++ crlf) ++ rest := by
      rw [List.append_assoc, hrest, List.take_append_drop]
    refine ⟨sent.take i, ?_⟩
    have hbody : sent.drop (i + 4) = rest := by
      rw [← List.drop_drop, ← hrest]
      rfl
    cases hl : lines (sent.take i) with
    | nil => simp [readReply, hi, hl] at h
    | cons status headers =>
      simp only [readReply, hi, hl, hbody, Option.some.injEq] at h
      rw [← h]
      exact hsent

/-- A block of solid lines, a blank line and a body are read back as such. -/
theorem readReply_joined {line : Bytes} {block : List Bytes} (body : Bytes)
    (h : ∀ l ∈ line :: block, Solid l) :
    readReply (joined line block ++ (crlf ++ crlf ++ body)) = some ⟨line, block, body⟩ := by
  rw [readReply, find_blank body h]
  simp only [List.take_left, lines_joined h]
  rw [← List.drop_drop, List.drop_left]
  rfl

/-! ### Framing of a response -/

/-- The `Origin` value `fortai_dispatch_request` captures, a C string in a buffer of 512 bytes. -/
def requestOrigin (request : Bytes) : Bytes := text (copyHeaderValue request (ascii "Origin") 512)

def statusLine (status : ℤ) : Bytes :=
  ascii "HTTP/1.1 " ++ signed status ++ ascii " " ++ httpReason status

/-- The header lines every response carries. -/
def headerLines (getenv : Environment) (mime : Bytes) (length : ℕ) (origin : Bytes) : List Bytes :=
  [ascii "Content-Type: " ++ mime,
    ascii "Content-Length: " ++ decimal length,
    ascii "Connection: close",
    ascii "X-FortAI-Backend: fortai",
    ascii "Access-Control-Allow-Origin: " ++ allowOrigin getenv origin,
    ascii "Access-Control-Allow-Methods: " ++ corsMethods getenv,
    ascii "Access-Control-Allow-Headers: " ++ corsHeaders getenv,
    ascii "Access-Control-Allow-Credentials: " ++
      if credentials getenv then ascii "true" else ascii "false"]

/-- The headers the transport means to send: those of every response, and `Vary: Origin`. -/
def intendedHeaders (getenv : Environment) (mime : Bytes) (length : ℕ) (origin : Bytes) :
    List Bytes :=
  headerLines getenv mime length origin ++ [ascii "Vary: Origin"]

theorem headerText_eq (getenv : Environment) (status : ℤ) (mime : Bytes) (length : ℕ)
    (origin : Bytes) :
    headerText getenv status mime length origin =
      joined (statusLine status) (headerLines getenv mime length origin) ++
        (crlf ++ ((if origin ≠ [] then ascii "Vary: Origin" else []) ++ crlf)) := by
  unfold headerText statusLine headerLines
  simp only [joined]
  simp only [List.append_assoc]

theorem not_mem_safeEnv {getenv : Environment} {name : String} {fallback : Bytes}
    (h : (13 : Byte) ∉ fallback) : (13 : Byte) ∉ safeEnv getenv name fallback := by
  rw [safeEnv]
  cases getenv name with
  | none => exact h
  | some value =>
    show (13 : Byte) ∉ if _ then fallback else value
    split_ifs with hv
    · exact h
    · exact fun h13 => hv (.inr (.inl h13))

theorem not_mem_httpReason (status : ℤ) : (13 : Byte) ∉ httpReason status := by
  unfold httpReason
  split_ifs <;> decide

/-- Without an `Origin` the configured origins are allowed. -/
theorem allowOrigin_nil (getenv : Environment) :
    allowOrigin getenv [] = (configuredOrigins getenv).take 511 := by
  simp [allowOrigin, corsOriginAllowed]

theorem solid_append {literal : Bytes} (h : Solid literal) {value : Bytes}
    (hv : (13 : Byte) ∉ value) : Solid (literal ++ value) :=
  ⟨List.append_ne_nil_of_left_ne_nil h.1 _, List.not_mem_append h.2 hv⟩

theorem solid_statusLine (status : ℤ) : Solid (statusLine status) := by
  refine solid_append (solid_append (solid_append ⟨by decide, by decide⟩ ?_) (by decide)) ?_
  · exact not_mem_signed (by decide) (by decide)
  · exact not_mem_httpReason status

theorem solid_headerLines {getenv : Environment} {mime : Bytes} (hmime : (13 : Byte) ∉ mime)
    (length : ℕ) : ∀ line ∈ headerLines getenv mime length [], Solid line := by
  have horigin : (13 : Byte) ∉ allowOrigin getenv [] := by
    rw [allowOrigin_nil]
    exact fun h => not_mem_safeEnv (by decide) (List.mem_of_mem_take h)
  simp only [headerLines, List.forall_mem_cons]
  refine ⟨solid_append ⟨by decide, by decide⟩ hmime,
    solid_append ⟨by decide, by decide⟩ (not_mem_decimal (by decide)),
    ⟨by decide, by decide⟩, ⟨by decide, by decide⟩,
    solid_append ⟨by decide, by decide⟩ horigin,
    solid_append ⟨by decide, by decide⟩ (not_mem_safeEnv (by decide)),
    solid_append ⟨by decide, by decide⟩ (not_mem_safeEnv (by decide)),
    solid_append ⟨by decide, by decide⟩ ?_, List.forall_mem_nil _⟩
  split <;> decide

theorem contentLength_headerLines (getenv : Environment) (mime : Bytes) (length : ℕ)
    (origin : Bytes) : contentLength (headerLines getenv mime length origin) = some length := by
  have htype : startsNoCase (ascii "Content-Length:") (ascii "Content-Type: " ++ mime) = false := by
    refine not_startsNoCase 9 (by decide) ?_
    rw [List.take_append_of_le_length (by decide)]
    decide
  have hlength : startsNoCase (ascii "Content-Length:")
      (ascii "Content-Length: " ++ decimal length) = true := by
    rw [startsNoCase, List.take_append_of_le_length (by decide)]
    decide
  obtain ⟨b, digits, hdigits⟩ := List.exists_cons_of_ne_nil (decimal_ne_nil length)
  have hblank : isBlank b = false := by
    have hb := isDigit_of_mem_decimal b (hdigits ▸ List.mem_cons_self ..)
    cases h : isBlank b with
    | false => rfl
    | true =>
      simp only [isBlank, Bool.or_eq_true, decide_eq_true_eq] at h
      rcases h with rfl | rfl <;> exact absurd hb (by decide)
  have hvalue : ((ascii "Content-Length: " ++ decimal length).drop 15).dropWhile isBlank =
      decimal length := by
    rw [List.drop_append_of_le_length (by decide), hdigits]
    show ([space] ++ b :: digits).dropWhile isBlank = b :: digits
    rw [List.singleton_append, List.dropWhile_cons_of_pos (by decide),
      List.dropWhile_cons_of_neg (by rw [hblank]; exact Bool.false_ne_true)]
  rw [contentLength, headerLines, List.find?_cons_of_neg (by rw [htype]; exact Bool.false_ne_true),
    List.find?_cons_of_pos hlength, Option.bind_some, hvalue]
  have hall : (decimal length).all isDigit = true := List.all_eq_true.mpr isDigit_of_mem_decimal
  rw [if_pos ⟨decimal_ne_nil length, hall⟩, value_decimal]

/-- With an empty `Origin` the last line is followed by the blank line and the body. -/
theorem framed_of_nil {getenv : Environment} {status : ℤ} {mime body : Bytes}
    (hmime : (13 : Byte) ∉ mime) :
    Framed (headerText getenv status mime body.length [] ++ body) (statusLine status)
      (intendedHeaders getenv mime body.length []) body := by
  refine ⟨⟨statusLine status, headerLines getenv mime body.length [], body⟩, ?_, rfl, ?_, ?_, rfl⟩
  · rw [headerText_eq, List.append_assoc]
    exact readReply_joined body
      (List.forall_mem_cons.mpr ⟨solid_statusLine status, solid_headerLines hmime body.length⟩)
  · intro line hline
    exact List.mem_append_left _ hline
  · exact contentLength_headerLines ..

/-- With an `Origin` the line `Vary: Origin` takes the place of the blank line, so no header block
ends where the body begins. -/
theorem not_framed_of_origin {getenv : Environment} {status : ℤ} {mime body origin : Bytes}
    (h : origin ≠ []) {line : Bytes} {intended : List Bytes} :
    ¬ Framed (headerText getenv status mime body.length origin ++ body) line intended body := by
  rintro ⟨reply, hread, -, -, -, hbody⟩
  obtain ⟨before, hsent⟩ := exists_of_readReply hread
  rw [hbody] at hsent
  have hheader := List.append_cancel_right hsent
  have hblank : crlf ++ crlf <:+ headerText getenv status mime body.length origin :=
    ⟨before, hheader.symm⟩
  have hvary : ascii "in\r\n" <:+ headerText getenv status mime body.length origin := by
    have hend : ascii "in\r\n" <:+ ascii "Vary: Origin" ++ crlf := by decide
    rw [headerText_eq, if_pos h, ← List.append_assoc]
    exact hend.trans (List.suffix_append _ _)
  have heq := (List.suffix_of_suffix_length_le hblank hvary (by decide)).eq_of_length (by decide)
  exact absurd heq (by decide)

/-- **When a response is framed.**  A response that was sent whole is read back with its body
exactly when the `Origin` captured from the request is empty. -/
theorem framed_iff (getenv : Environment) (sends : List Send) (status : ℤ)
    {mime : Bytes} (hmime : (13 : Byte) ∉ mime ∧ (10 : Byte) ∉ mime) (body request : Bytes)
    (hsent : (httpStatus getenv sends status mime body (requestOrigin request)).2 = true) :
    Framed (httpStatus getenv sends status mime body (requestOrigin request)).1
        (statusLine status)
        (intendedHeaders getenv mime body.length (requestOrigin request)) body ↔
      requestOrigin request = [] := by
  rw [httpStatus_sent hsent]
  constructor
  · intro hframed
    by_contra hne
    exact not_framed_of_origin hne hframed
  · intro hnil
    rw [hnil]
    exact framed_of_nil hmime.1

/-- A request without `Origin`, answered in three pieces and one interruption. -/
theorem framed_iff_health :
    Framed
      (httpStatus (fun _ => none) [.sent 100, .interrupted, .sent 1000, .sent 2] 200
        (ascii "application/json") (ascii "{}")
        (requestOrigin (ascii "GET /health HTTP/1.1\r\nHost: a\r\n\r\n"))).1
      (statusLine 200)
      (intendedHeaders (fun _ => none) (ascii "application/json") 2
        (requestOrigin (ascii "GET /health HTTP/1.1\r\nHost: a\r\n\r\n")))
      (ascii "{}") :=
  (framed_iff (fun _ => none) [.sent 100, .interrupted, .sent 1000, .sent 2] 200
    (by decide) (ascii "{}") (ascii "GET /health HTTP/1.1\r\nHost: a\r\n\r\n")
    (by decide +kernel)).mpr (by decide +kernel)

/-- A request with an `Origin`: the response is sent whole, and its body is read as a header. -/
theorem not_framed_origin :
    (httpStatus (fun _ => none) [.sent 1000, .sent 2] 200 (ascii "application/json") (ascii "{}")
        (requestOrigin (ascii "GET /health HTTP/1.1\r\nOrigin: http://a\r\n\r\n"))).2 = true ∧
      ¬ Framed
        (httpStatus (fun _ => none) [.sent 1000, .sent 2] 200 (ascii "application/json")
          (ascii "{}") (requestOrigin (ascii "GET /health HTTP/1.1\r\nOrigin: http://a\r\n\r\n"))).1
        (statusLine 200)
        (intendedHeaders (fun _ => none) (ascii "application/json") 2
          (requestOrigin (ascii "GET /health HTTP/1.1\r\nOrigin: http://a\r\n\r\n")))
        (ascii "{}") := by
  refine ⟨by decide +kernel, ?_⟩
  rw [httpStatus_sent (by decide +kernel)]
  exact not_framed_of_origin (by decide +kernel)

end Http

end FortAI
