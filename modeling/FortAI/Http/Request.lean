import FortAI.Http.Header

/-!
# Reading a request

`readRequest` is `fortai_http_read_request`, for a socket with any bytes to come that answers each
`recv` with any number of them.  An accepted request is a header section, the bytes up to and
including the first `"\r\n\r\n"`, and a body of the length that section declares.

* `scanContentLength_eq` : the length is read at the last `Content-Length` line of the section.
* `Accepted.exists_body` : how an accepted request splits.
* `accepted_of_length` : a section that settles its length is accepted with every body of that
  length.
-/

namespace FortAI

namespace Http

open CString

/-- `FORTAI_HTTP_MAX_REQUEST` -/
def maxRequest : ℕ := 16 * 1024 * 1024

def blankLine : Bytes := crlf ++ crlf

/-- What one call of `recv` does: it returns at most so many bytes, or is interrupted, or fails.
A peer that closed the connection is `received 0`. -/
inductive Recv
  | received (n : ℕ)
  | interrupted
  | failed
  deriving DecidableEq

/-- The loop over the header lines: `cursor` is `line`, `room` the distance from it to the
separator, `c` the length read so far. -/
def scanContentLength (cursor : Bytes) (room c : ℕ) : ℕ :=
  if _h : room = 0 then c
  else
    match find crlf (text cursor) with
    | none => c
    | some next =>
      if room < next then c
      else
        scanContentLength (cursor.drop (next + 2)) (room - (next + 2))
          (if startsNoCase (ascii "Content-Length:") cursor then strtoull (text (cursor.drop 15))
          else c)
termination_by room

/-- The buffer after the test at the head of the loop: it is doubled when it is full. -/
def grownCapacity (allocates : ℕ → Bool) (capacity length : ℕ) : Option ℕ :=
  if capacity = length then
    if min (capacity * 2) maxRequest = capacity then none
    else if allocates (min (capacity * 2) maxRequest + 1) then some (min (capacity * 2) maxRequest)
    else none
  else some capacity

/-- What a pass does with the bytes received so far: go on, give up or accept. -/
inductive Verdict
  | more (contentLength : ℕ)
  | reject
  | accept (request : Bytes)
  deriving DecidableEq

def examine (request : Bytes) (contentLength : ℕ) : Verdict :=
  match find blankLine (text request) with
  | none => .more contentLength
  | some separator =>
    let length := scanContentLength request separator contentLength
    if maxRequest < length ∨ maxRequest - length < separator + 4 then .reject
    else if separator + 4 + length ≤ request.length then
      .accept (request.take (separator + 4 + length))
    else .more length

/-- The loop of `fortai_http_read_request`.  The list of answers ends where the peer sends no more
and keeps the connection. -/
def readLoop (allocates : ℕ → Bool) :
    List Recv → Bytes → ℕ → Bytes → ℕ → Option Bytes
  | [], _, _, _, _ => none
  | answer :: answers, incoming, capacity, request, contentLength =>
    if maxRequest ≤ request.length then none
    else
      match grownCapacity allocates capacity request.length with
      | none => none
      | some capacity =>
        match answer with
        | .failed => none
        | .interrupted => readLoop allocates answers incoming capacity request contentLength
        | .received n =>
          let taken := incoming.take (min n (capacity - request.length))
          if taken = [] then none
          else
            match examine (request ++ taken) contentLength with
            | .reject => none
            | .accept accepted => some accepted
            | .more length =>
              readLoop allocates answers (incoming.drop taken.length) capacity (request ++ taken)
                length

/-- `fortai_http_read_request` -/
def readRequest (allocates : ℕ → Bool) (answers : List Recv) (incoming : Bytes) : Option Bytes :=
  if allocates (65536 + 1) then readLoop allocates answers incoming 65536 [] 0 else none

/-- Some peer gets this request accepted. -/
def Accepted (request : Bytes) : Prop :=
  ∃ allocates answers incoming, readRequest allocates answers incoming = some request

/-- The bytes up to and including the first blank line. -/
def headerSection (request : Bytes) : Bytes :=
  match find blankLine (text request) with
  | none => request
  | some separator => request.take (separator + 4)

/-! ### Header sections -/

/-- A text without NUL that ends with its first blank line. -/
structure IsSection (s : Bytes) : Prop where
  nul_free : (0 : Byte) ∉ s
  blank : ∃ before, s = before ++ blankLine ∧ find blankLine s = some before.length

/-- What is left of a section behind some of its lines. -/
structure Ended (s : Bytes) : Prop where
  nul_free : (0 : Byte) ∉ s
  ends : s = [] ∨ s = crlf ∨ blankLine <:+ s

theorem IsSection.ended {s : Bytes} (h : IsSection s) : Ended s := by
  obtain ⟨before, hs, -⟩ := h.blank
  exact ⟨h.nul_free, .inr (.inr ⟨before, hs.symm⟩)⟩

theorem Ended.terminated {s : Bytes} (h : Ended s) : Terminated s := by
  refine ⟨h.nul_free, ?_⟩
  rcases h.ends with rfl | rfl | hs
  · exact .inl rfl
  · exact .inr List.suffix_rfl
  · exact .inr ((List.suffix_append crlf crlf).trans hs)

theorem Ended.drop {s : Bytes} (h : Ended s) {i : ℕ} (hi : find crlf s = some i) :
    Ended (s.drop (i + 2)) ∧ (4 < s.length → i ≤ s.length - 4) := by
  have hnul : (0 : Byte) ∉ s.drop (i + 2) := fun h0 => h.nul_free (List.mem_of_mem_drop h0)
  rcases h.ends with rfl | rfl | ⟨t, rfl⟩
  · exact ⟨⟨hnul, .inl List.drop_nil⟩, by simp⟩
  · have h0 : i = 0 := by
      rw [find_eq_some_zero List.prefix_rfl, Option.some.injEq] at hi
      exact hi.symm
    subst h0
    exact ⟨⟨hnul, .inl rfl⟩, by simp [crlf]⟩
  · have hlen : (t ++ blankLine).length - 4 = t.length := by
      rw [List.length_append]
      rfl
    rw [hlen]
    rcases find_crlf_cases hi with rfl | hle
    · refine ⟨⟨hnul, .inr (.inl ?_)⟩, fun _ => le_rfl⟩
      rw [← List.drop_drop, List.drop_left]
      rfl
    · refine ⟨⟨hnul, .inr (.inr ?_)⟩, fun _ => by omega⟩
      rw [List.drop_append_of_le_length hle]
      exact List.suffix_append _ _

/-! ### The declared length -/

/-- What follows `Content-Length:` in the last line that begins so. -/
def declaration (s : Bytes) : Option Bytes :=
  match _h : find crlf s with
  | none => none
  | some next =>
    match declaration (s.drop (next + 2)) with
    | some rest => some rest
    | none => if startsNoCase (ascii "Content-Length:") s then some (s.drop 15) else none
termination_by s.length
decreasing_by
  have := find_add_length_le (by decide) _h
  rw [show crlf.length = 2 from rfl] at this
  rw [List.length_drop]
  omega

/-- The length read when `body` is what has arrived behind the section. -/
def declaredLength (s body : Bytes) : ℕ :=
  match declaration s with
  | none => 0
  | some rest => strtoull (rest ++ text body)

/-- A name without CR cannot reach over the end of a line. -/
theorem startsNoCase_append (name : Bytes) {s : Bytes} (hname : (13 : Byte) ∉ name.map lower) {i : ℕ}
    (hi : find crlf s = some i) (t : Bytes) :
    startsNoCase name (s ++ t) = startsNoCase name s ∧
      (startsNoCase name s = true → name.length ≤ s.length) := by
  have hlen := find_add_length_le (by decide) hi
  by_cases hle : name.length ≤ s.length
  · refine ⟨?_, fun _ => hle⟩
    rw [startsNoCase, startsNoCase, List.take_append_of_le_length hle]
  · -- the CR that ends the line would have to be in the name
    have hcr : (13 : Byte) ∈ (s.map lower) := by
      obtain ⟨u, hu⟩ := prefix_of_find hi
      have h13 : (13 : Byte) ∈ s.drop i := hu ▸ List.mem_append_left _ (List.mem_cons_self ..)
      exact List.mem_map.mpr ⟨13, List.mem_of_mem_drop h13, by decide⟩
    have hno (u : Bytes) (hu : s <+: u) (hk : s.length ≤ name.length) :
        startsNoCase name u = false := by
      rw [startsNoCase, decide_eq_false_iff_not]
      intro heq
      refine hname (heq ▸ ?_)
      obtain ⟨v, rfl⟩ := hu
      rw [List.take_append, List.take_of_length_le hk, List.map_append]
      exact List.mem_append_left _ hcr
    have hs := hno s List.prefix_rfl (by omega)
    refine ⟨(hno (s ++ t) (List.prefix_append s t) (by omega)).trans hs.symm, fun h => ?_⟩
    rw [hs] at h
    exact Bool.noConfusion h

theorem declaration_of_find {s : Bytes} {i : ℕ} (hi : find crlf s = some i) :
    declaration s =
      match declaration (s.drop (i + 2)) with
      | some rest => some rest
      | none => if startsNoCase (ascii "Content-Length:") s then some (s.drop 15) else none := by
  rw [declaration, hi]

theorem declaration_of_short {s : Bytes} (h : s.length < 15) : declaration s = none := by
  induction hn : s.length using Nat.strong_induction_on generalizing s with
  | _ n ih =>
    cases hi : find crlf s with
    | none => rw [declaration, hi]
    | some i =>
      have hlen := find_add_length_le (by decide) hi
      rw [show crlf.length = 2 from rfl] at hlen
      have hdrop : (s.drop (i + 2)).length < n := by rw [List.length_drop]; omega
      have hstart : startsNoCase (ascii "Content-Length:") s = false := by
        rw [startsNoCase, decide_eq_false_iff_not]
        intro heq
        have := congrArg List.length heq
        rw [List.length_map, List.length_map, List.length_take,
          show (ascii "Content-Length:").length = 15 from rfl] at this
        omega
      rw [declaration_of_find hi, ih _ hdrop (by omega) rfl, hstart]
      rfl

/-- The length is read at the last `Content-Length` line, or stays what it was. -/
theorem scanContentLength_eq {s : Bytes} (hs : Ended s) (body : Bytes) (c : ℕ) :
    scanContentLength (s ++ body) (s.length - 4) c =
      match declaration s with
      | none => c
      | some rest => strtoull (rest ++ text body) := by
  induction hn : s.length using Nat.strong_induction_on generalizing s c with
  | _ n ih =>
    by_cases hshort : n ≤ 4
    · rw [scanContentLength, dif_pos (by omega), declaration_of_short (by omega)]
    · have hne : s ≠ [] := by
        rintro rfl
        exact hshort (by rw [← hn]; exact Nat.zero_le 4)
      obtain ⟨i, hi⟩ := hs.terminated.exists_find hne
      have hlen := find_add_length_le (by decide) hi
      rw [show crlf.length = 2 from rfl] at hlen
      obtain ⟨hrest, hroom⟩ := hs.drop hi
      obtain ⟨hstart, hreach⟩ :=
        startsNoCase_append (ascii "Content-Length:") (by decide) hi body
      have hfind : find crlf (text (s ++ body)) = some i := by
        rw [text_append hs.nul_free]
        exact find_append (by decide) _ hi
      have hdrop : (s ++ body).drop (i + 2) = s.drop (i + 2) ++ body :=
        List.drop_append_of_le_length (by omega)
      have hlength : (s.drop (i + 2)).length = n - (i + 2) := by rw [List.length_drop, hn]
      rw [scanContentLength, dif_neg (by omega), hfind]
      simp only [if_neg (by omega : ¬ n - 4 < i), hstart, hdrop]
      rw [show n - 4 - (i + 2) = n - (i + 2) - 4 by omega,
        ← hlength, ih _ (by omega) hrest _ rfl, declaration_of_find hi]
      cases declaration (s.drop (i + 2)) with
      | some rest => rfl
      | none =>
        cases hc : startsNoCase (ascii "Content-Length:") s with
        | false => rfl
        | true =>
          have h15 : 15 ≤ s.length := hreach hc
          simp only [if_true]
          rw [List.drop_append_of_le_length h15,
            text_append fun h => hs.nul_free (List.mem_of_mem_drop h)]

theorem declaration_suffix {s rest : Bytes} (h : declaration s = some rest) : rest <:+ s := by
  induction hn : s.length using Nat.strong_induction_on generalizing s with
  | _ n ih =>
    cases hi : find crlf s with
    | none =>
      rw [declaration, hi] at h
      exact absurd h (by simp)
    | some i =>
      have hlen := find_add_length_le (by decide) hi
      rw [show crlf.length = 2 from rfl] at hlen
      rw [declaration_of_find hi] at h
      cases hd : declaration (s.drop (i + 2)) with
      | some rest' =>
        rw [hd] at h
        have hdrop : (s.drop (i + 2)).length < n := by rw [List.length_drop]; omega
        exact (ih _ hdrop (hd.trans h) rfl).trans (List.drop_suffix _ _)
      | none =>
        simp only [hd] at h
        split_ifs at h
        rw [Option.some.injEq] at h
        rw [← h]
        exact List.drop_suffix _ _

/-- The section settles the length of the body: its last `Content-Length` line is not blank. -/
def Settled (s : Bytes) : Prop := ∀ rest ∈ declaration s, rest.dropWhile isSpace ≠ []

theorem IsSection.length_eq {s : Bytes} (hs : IsSection s) :
    find blankLine s = some (s.length - 4) ∧ 4 ≤ s.length := by
  obtain ⟨before, hbefore, hfind⟩ := hs.blank
  have hlen : s.length = before.length + 4 := by
    rw [hbefore, List.length_append]
    rfl
  exact ⟨by rw [hfind, hlen]; rfl, by omega⟩

theorem IsSection.find_text {s : Bytes} (hs : IsSection s) (t : Bytes) :
    find blankLine (text (s ++ t)) = some (s.length - 4) := by
  rw [text_append hs.nul_free]
  exact find_append (by decide) _ hs.length_eq.1

/-- Before the last byte of the section there is no blank line. -/
theorem IsSection.find_take {s : Bytes} (hs : IsSection s) (t : Bytes) {k : ℕ} (hk : k < s.length) :
    find blankLine (text ((s ++ t).take k)) = none := by
  have htake : (s ++ t).take k = s.take k := List.take_append_of_le_length (by omega)
  rw [htake, text_eq_self fun h => hs.nul_free (List.mem_of_mem_take h)]
  cases hi : find blankLine (s.take k) with
  | none => rfl
  | some i =>
    have hlen : i + 4 ≤ _ := find_add_length_le (by decide) hi
    have hwhole := find_append (by decide) (s.drop k) hi
    rw [List.take_append_drop, hs.length_eq.1, Option.some.injEq] at hwhole
    rw [List.length_take] at hlen
    omega

/-- The section of a request is told by any bytes that begin with it. -/
theorem IsSection.eq {s s' t t' : Bytes} (hs : IsSection s) (hs' : IsSection s')
    (h : s ++ t = s' ++ t') : s = s' := by
  have hfind := hs.find_text t
  rw [h, hs'.find_text t', Option.some.injEq] at hfind
  have := hs.length_eq.2
  have := hs'.length_eq.2
  exact List.append_inj_left h (by omega)

theorem IsSection.of_find {request : Bytes} {i : ℕ} (h : find blankLine (text request) = some i) :
    IsSection (request.take (i + 4)) ∧ (request.take (i + 4)).length = i + 4 := by
  have hlen : i + 4 ≤ (text request).length := find_add_length_le (by decide) h
  have htake : request.take (i + 4) = (text request).take (i + 4) :=
    List.IsPrefix.eq_of_length
      (List.prefix_of_prefix_length_le (List.take_prefix _ _)
        ((List.take_prefix _ _).trans (text_prefix_self request)) (by
          have := (text_prefix_self request).length_le
          rw [List.length_take, List.length_take]
          omega)) (by
        have := (text_prefix_self request).length_le
        rw [List.length_take, List.length_take]
        omega)
  have hlength : ((text request).take (i + 4)).length = i + 4 := by
    rw [List.length_take]
    omega
  rw [htake]
  refine ⟨⟨fun h0 => not_mem_text request (List.mem_of_mem_take h0),
    ⟨(text request).take i, ?_, ?_⟩⟩, hlength⟩
  · obtain ⟨u, hu⟩ := prefix_of_find h
    rw [List.take_add, ← hu]
    rfl
  · have hstands : blankLine <+: ((text request).take (i + 4)).drop i := by
      have := prefix_of_find h
      rw [List.drop_take, Nat.add_sub_cancel_left]
      exact List.prefix_take_iff.mpr ⟨this, le_rfl⟩
    obtain ⟨j, hj, hfind⟩ := find_le (by decide) hstands
    have := find_append (by decide) ((text request).drop (i + 4)) hfind
    rw [List.take_append_drop, h, Option.some.injEq] at this
    rw [hfind, this, List.length_take]
    rw [Nat.min_eq_left (by omega)]

theorem headerSection_append {s : Bytes} (hs : IsSection s) (t : Bytes) :
    headerSection (s ++ t) = s := by
  have := hs.length_eq.2
  rw [headerSection, hs.find_text t]
  show (s ++ t).take (s.length - 4 + 4) = s
  rw [Nat.sub_add_cancel this, List.take_left]

/-- A section that settles its length does so whatever has arrived behind it. -/
theorem declaredLength_of_settled {s : Bytes} (hs : IsSection s) (h : Settled s) (t : Bytes) :
    declaredLength s t = declaredLength s [] := by
  cases hd : declaration s with
  | none => simp only [declaredLength, hd]
  | some rest =>
    have hrest := h rest hd
    have hne : rest ≠ [] := by
      rintro rfl
      exact hrest rfl
    have hlf : [10] <:+ rest := by
      have hend : [10] <:+ s := by
        obtain ⟨before, hbefore, -⟩ := hs.blank
        rw [hbefore]
        exact (show [10] <:+ blankLine by decide).trans (List.suffix_append _ _)
      exact List.suffix_of_suffix_length_le hend (declaration_suffix hd)
        (List.length_pos_iff.mpr hne)
    simp only [declaredLength, hd]
    rw [strtoull_append hrest hlf, strtoull_append hrest hlf]

/-! ### Acceptance -/

/-- What a pass decides once a section has arrived. -/
theorem examine_section {s : Bytes} (hs : IsSection s) (t : Bytes) (c : ℕ) :
    examine (s ++ t) c =
      let length := (declaration s).elim c fun rest => strtoull (rest ++ text t)
      if maxRequest < length ∨ maxRequest - length < s.length then .reject
      else if length ≤ t.length then .accept (s ++ t.take length)
      else .more length := by
  have h4 := hs.length_eq.2
  have hscan : scanContentLength (s ++ t) (s.length - 4) c =
      (declaration s).elim c fun rest => strtoull (rest ++ text t) := by
    rw [scanContentLength_eq hs.ended]
    cases declaration s <;> rfl
  simp only [examine, hs.find_text t, hscan, Nat.sub_add_cancel h4, List.length_append,
    Nat.add_le_add_iff_left, List.take_length_add_append]

/-- A length other than 0 was read in the section. -/
def Fresh (request : Bytes) (c : ℕ) : Prop :=
  c ≠ 0 → ∃ s t, IsSection s ∧ request = s ++ t ∧ declaration s ≠ none

theorem Fresh.append {request : Bytes} {c : ℕ} (h : Fresh request c) (t : Bytes) :
    Fresh (request ++ t) c := by
  intro hc
  obtain ⟨s, u, hs, rfl, hd⟩ := h hc
  exact ⟨s, u ++ t, hs, List.append_assoc _ _ _, hd⟩

/-- Once the section has arrived, the length read is the one it declares. -/
theorem Fresh.length_eq {s t : Bytes} {c : ℕ} (hs : IsSection s) (h : Fresh (s ++ t) c) :
    ((declaration s).elim c fun rest => strtoull (rest ++ text t)) = declaredLength s t := by
  cases hd : declaration s with
  | some rest => simp only [declaredLength, hd, Option.elim_some]
  | none =>
    simp only [declaredLength, hd, Option.elim_none]
    by_contra hc
    obtain ⟨s', t', hs', heq, hd'⟩ := h hc
    rw [hs.eq hs' heq] at hd
    exact hd' hd

/-- What the bytes of an accepted request are. -/
def Whole (request : Bytes) : Prop :=
  ∃ s t, IsSection s ∧ request = s ++ t.take (declaredLength s t) ∧ declaredLength s t ≤ t.length ∧
    s.length + declaredLength s t ≤ maxRequest

/-- A pass keeps the length read true to the section, and accepts whole requests only. -/
theorem examine_spec {request : Bytes} {c : ℕ} (h : Fresh request c) :
    match examine request c with
    | .more c' => Fresh request c'
    | .reject => True
    | .accept accepted => Whole accepted := by
  cases hfind : find blankLine (text request) with
  | none =>
    have : examine request c = .more c := by rw [examine, hfind]
    rw [this]
    exact h
  | some i =>
    obtain ⟨hs, -⟩ := IsSection.of_find hfind
    rw [← List.take_append_drop (i + 4) request] at h ⊢
    rw [examine_section hs, h.length_eq hs]
    simp only
    split_ifs with hlimit hwhole
    · trivial
    · exact ⟨_, _, hs, rfl, hwhole, by omega⟩
    · intro hc
      refine ⟨_, _, hs, rfl, fun hd => hc ?_⟩
      simp only [declaredLength, hd]

theorem whole_of_readLoop (allocates : ℕ → Bool) :
    ∀ {answers : List Recv} {incoming : Bytes} {capacity : ℕ} {request : Bytes} {c : ℕ}
      {accepted : Bytes}, Fresh request c →
      readLoop allocates answers incoming capacity request c = some accepted → Whole accepted := by
  intro answers
  induction answers with
  | nil => intro _ _ _ _ _ _ h; exact absurd h (by simp [readLoop])
  | cons answer answers ih =>
    intro incoming capacity request c accepted hfresh h
    rw [readLoop] at h
    by_cases hmax : maxRequest ≤ request.length
    · rw [if_pos hmax] at h
      exact absurd h (by simp)
    · rw [if_neg hmax] at h
      cases hgrow : grownCapacity allocates capacity request.length with
      | none => simp [hgrow] at h
      | some capacity' =>
        simp only [hgrow] at h
        cases answer with
        | failed => simp at h
        | interrupted => exact ih hfresh h
        | received n =>
          simp only at h
          have hspec := examine_spec
            (hfresh.append (incoming.take (min n (capacity' - request.length))))
          split_ifs at h with hnone
          cases hex : examine (request ++ incoming.take (min n (capacity' - request.length))) c with
          | more c' =>
            rw [hex] at h hspec
            exact ih hspec h
          | reject => simp [hex] at h
          | accept r =>
            rw [hex] at h hspec
            rw [Option.some.injEq] at h
            rw [← h]
            exact hspec

/-- **An accepted request** is a header section and a body, of the length the section declares when
it settles one. -/
theorem Accepted.exists_body {request : Bytes} (h : Accepted request) :
    ∃ s body, IsSection s ∧ request = s ++ body ∧ headerSection request = s ∧
      s.length + body.length ≤ maxRequest ∧
      (Settled s → body.length = declaredLength s []) := by
  obtain ⟨allocates, answers, incoming, hread⟩ := h
  rw [readRequest] at hread
  split_ifs at hread
  obtain ⟨s, t, hs, hrequest, hle, hmax⟩ :=
    whole_of_readLoop allocates (fun hc => absurd rfl hc) hread
  have hlen : (t.take (declaredLength s t)).length = declaredLength s t := by
    rw [List.length_take, Nat.min_eq_left hle]
  refine ⟨s, _, hs, hrequest, hrequest ▸ headerSection_append hs _, by omega, fun hsettled => ?_⟩
  rw [hlen, declaredLength_of_settled hs hsettled]

/-! ### Every body of the declared length is accepted -/

theorem exists_grownCapacity {capacity length : ℕ} (hpos : 0 < capacity)
    (hle : length ≤ capacity) (hmax : capacity ≤ maxRequest) (hlength : length < maxRequest) :
    ∃ capacity', grownCapacity (fun _ => true) capacity length = some capacity' ∧
      length < capacity' ∧ capacity' ≤ maxRequest := by
  by_cases heq : capacity = length
  · refine ⟨min (capacity * 2) maxRequest, ?_, by omega, Nat.min_le_right _ _⟩
    rw [grownCapacity, if_pos heq, if_neg (by omega)]
    rfl
  · exact ⟨capacity, by rw [grownCapacity, if_neg heq], by omega, hmax⟩

/-- A peer that fills the buffer with every `recv`: each pass takes another part of the request,
and none accepts before the last. -/
theorem readLoop_whole {s body : Bytes} (hs : IsSection s) (hsettled : Settled s)
    (hbody : body.length = declaredLength s []) (hmax : s.length + body.length ≤ maxRequest) :
    ∀ (n k capacity c : ℕ), s.length + body.length - k ≤ n → k < s.length + body.length →
      0 < capacity → k ≤ capacity → capacity ≤ maxRequest → Fresh ((s ++ body).take k) c →
      readLoop (fun _ => true) (List.replicate n (.received maxRequest)) ((s ++ body).drop k)
        capacity ((s ++ body).take k) c = some (s ++ body) := by
  intro n
  induction n with
  | zero => intro k _ _ hn hk; omega
  | succ n ih =>
    intro k capacity c hn hk hpos hcap hlimit hfresh
    have hk' : ((s ++ body).take k).length = k := by
      rw [List.length_take, List.length_append]
      omega
    obtain ⟨capacity', hgrow, hroom, hlimit'⟩ :=
      exists_grownCapacity hpos hcap hlimit (by omega)
    -- the bytes of this pass end at `m`
    obtain ⟨m, hm⟩ : ∃ m, m = min capacity' (s.length + body.length) := ⟨_, rfl⟩
    have htaken : ((s ++ body).drop k).take (min maxRequest (capacity' - k)) =
        ((s ++ body).drop k).take (m - k) := by
      have hlen : ((s ++ body).drop k).length = s.length + body.length - k := by
        rw [List.length_drop, List.length_append]
      by_cases h : capacity' ≤ s.length + body.length
      · rw [Nat.min_eq_right (by omega), hm, Nat.min_eq_left h]
      · rw [List.take_of_length_le (by omega), List.take_of_length_le (by omega)]
    have hlength : (((s ++ body).drop k).take (m - k)).length = m - k := by
      rw [List.length_take, List.length_drop, List.length_append]
      omega
    have hne : ((s ++ body).drop k).take (m - k) ≠ [] :=
      List.ne_nil_of_length_pos (by omega)
    have happend : (s ++ body).take k ++ ((s ++ body).drop k).take (m - k) = (s ++ body).take m := by
      rw [← List.take_add, Nat.add_sub_cancel' (by omega)]
    have hdrop : ((s ++ body).drop k).drop (m - k) = (s ++ body).drop m := by
      rw [List.drop_drop, Nat.add_sub_cancel' (by omega)]
    have hfresh' : Fresh ((s ++ body).take m) c := by
      rw [← happend]
      exact hfresh.append _
    rw [List.replicate_succ, readLoop, hk', if_neg (by omega), hgrow]
    simp only [htaken, if_neg hne, happend, hlength, hdrop]
    have hnext {c' : ℕ} (hlt : m < s.length + body.length)
        (hex : examine ((s ++ body).take m) c = .more c') :
        readLoop (fun _ => true) (List.replicate n (.received maxRequest)) ((s ++ body).drop m)
          capacity' ((s ++ body).take m) c' = some (s ++ body) := by
      have hspec := examine_spec hfresh'
      rw [hex] at hspec
      exact ih m capacity' c' (by omega) hlt (by omega) (by omega) hlimit' hspec
    by_cases hshort : m < s.length
    · -- the blank line has not arrived
      have hno := hs.find_take body hshort
      have hex : examine ((s ++ body).take m) c = .more c := by rw [examine, hno]
      rw [hex]
      exact hnext (by omega) hex
    · have htake : (s ++ body).take m = s ++ body.take (m - s.length) := by
        rw [List.take_append, List.take_of_length_le (by omega)]
      rw [htake] at hfresh'
      have hex := examine_section hs (body.take (m - s.length)) c
      rw [hfresh'.length_eq hs, declaredLength_of_settled hs hsettled, ← hbody, ← htake] at hex
      simp only [if_neg (by omega : ¬ (maxRequest < body.length ∨ maxRequest - body.length < s.length)),
        List.length_take] at hex
      by_cases hlast : m = s.length + body.length
      · rw [if_pos (by omega)] at hex
        rw [hex, List.take_take, Nat.min_eq_left (by omega), List.take_length]
      · rw [if_neg (by omega)] at hex
        rw [hex]
        exact hnext (by omega) hex

/-- A section that settles its length is accepted with every body of that length. -/
theorem accepted_of_length {s body : Bytes} (hs : IsSection s) (hsettled : Settled s)
    (hbody : body.length = declaredLength s []) (hmax : s.length + body.length ≤ maxRequest) :
    Accepted (s ++ body) := by
  have h4 := hs.length_eq.2
  refine ⟨fun _ => true, List.replicate (s.length + body.length) (.received maxRequest), s ++ body,
    ?_⟩
  exact readLoop_whole hs hsettled hbody hmax _ 0 65536 0 (by omega) (by omega) (by omega)
    (by omega) (by decide) (fun hc => absurd rfl hc)

/-- A section that declares the length of the body when all of it has arrived is accepted with that
body, when both fit the first buffer. -/
theorem accepted_at_once {s body : Bytes} (hs : IsSection s)
    (hbody : declaredLength s body = body.length) (hmax : s.length + body.length ≤ 65536) :
    Accepted (s ++ body) := by
  have h4 := hs.length_eq.2
  have hmr : maxRequest = 16777216 := rfl
  refine ⟨fun _ => true, [.received 65536], s ++ body, ?_⟩
  have htaken : (s ++ body).take (min 65536 (65536 - ([] : Bytes).length)) = s ++ body := by
    refine List.take_of_length_le ?_
    rw [List.length_append, List.length_nil]
    omega
  have hne : s ++ body ≠ [] := List.ne_nil_of_length_pos (by rw [List.length_append]; omega)
  have hex := examine_section hs body 0
  have hfresh : Fresh (s ++ body) 0 := fun hc => absurd rfl hc
  rw [hfresh.length_eq hs, hbody] at hex
  simp only [if_neg (by omega : ¬ (maxRequest < body.length ∨ maxRequest - body.length < s.length)),
    le_refl, if_true, List.take_length] at hex
  rw [readRequest, if_pos rfl, readLoop, if_neg (by rw [List.length_nil]; omega)]
  have hgrow : grownCapacity (fun _ => true) 65536 ([] : Bytes).length = some 65536 := by decide
  rw [hgrow]
  simp only [htaken, if_neg hne, List.nil_append, hex]

end Http

end FortAI
