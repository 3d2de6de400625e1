import FortAI.Whisper.Upload

/-!
# Forms with an audio part

A form is the list of its parts.  A part has header lines and a payload, and its name, its file name and its
type are parameters of these lines.  The service looks for all of them in the bytes of the whole body.

* `Form.body` : the bytes of a form, `Form.value` : the value of a field.
* `Form.Marked`, `Form.Located` : no other bytes look like the header line that the service looks for.
* `uploads` : what the service reads from such forms.
-/

namespace FortAI

namespace Whisper

namespace Upload

open CString Multipart

/-! ### Parts -/

/-- The value of the first header line of this name. -/
def headerValue (name : Bytes) (lines : List Bytes) : Option Bytes :=
  lines.findSome? fun line =>
    if startsNoCase (name ++ [colon]) line then some ((line.drop (name.length + 1)).dropWhile isBlank) else none

/-- The parameters of a header value: semicolons in quotes do not separate them. -/
def splitParameters : Bool → Bytes → Bytes → List Bytes
  | _, front, [] => [front]
  | quoted, front, b :: s =>
    if b = 59 ∧ quoted = false then front :: splitParameters false [] s
    else splitParameters (if b = 34 then !quoted else quoted) (front ++ [b]) s

/-- The text of a parameter, without its quotes. -/
def parameterText : Bytes → Bytes
  | 34 :: s => s.takeWhile (· ≠ 34)
  | s => trimEnd isBlank s

/-- The parameter of this name. -/
def parameter (name value : Bytes) : Option Bytes :=
  (splitParameters false [] value).tail.findSome? fun text =>
    let text := text.dropWhile isBlank
    if startsNoCase (name ++ [61]) text then some (parameterText (text.drop (name.length + 1))) else none

/-- One part: what follows the delimiter in its line, the header lines, and the payload. -/
structure Part where
  padding : Bytes
  lines : List Bytes
  payload : Bytes
  deriving DecidableEq

namespace Part

/-- The name of the field. -/
def name (p : Part) : Option Bytes :=
  (headerValue (ascii "content-disposition") p.lines).bind (parameter (ascii "name"))

/-- The delimiter and the header lines. -/
def header (boundary : Bytes) (p : Part) : Bytes := block (markerOf boundary ++ p.padding) p.lines

/-- The bytes of a part, up to the next delimiter. -/
def bytes (boundary : Bytes) (p : Part) : Bytes := p.header boundary ++ (emptyLine ++ (p.payload ++ crlf))

/-- The parts that a body can have. -/
structure Valid (boundary : Bytes) (p : Part) : Prop where
  padding : 13 ∉ p.padding
  lines : ∀ line ∈ p.lines, line ≠ [] ∧ 13 ∉ line
  payload : ¬ crlf ++ markerOf boundary <:+: p.payload

end Part

/-- A form, as the body of a request has it. -/
structure Form (boundary : Bytes) where
  preamble : Bytes
  parts : List Part
  epilogue : Bytes
  boundary_ne : boundary ≠ []
  boundary_line : 13 ∉ boundary ∧ 10 ∉ boundary
  preamble_end : preamble = [] ∨ ∃ s, preamble = s ++ crlf
  valid : ∀ p ∈ parts, p.Valid boundary

/-! ### Markers -/

theorem markerOf_ne (boundary : Bytes) : markerOf boundary ≠ [] := List.cons_ne_nil _ _

theorem length_markerOf (boundary : Bytes) : (markerOf boundary).length = boundary.length + 2 := rfl

section
variable {boundary : Bytes}

theorem not_mem_markerOf {b : Byte} (hb : b ≠ 45) (h : b ∉ boundary) : b ∉ markerOf boundary := by
  simp [markerOf, hb, h]

variable (hline : 13 ∉ boundary ∧ 10 ∉ boundary)
include hline

/-- The empty line behind the header lines. -/
theorem Part.Valid.find_headerEnd {p : Part} (h : p.Valid boundary) (t : Bytes) :
    find emptyLine (p.header boundary ++ (emptyLine ++ t)) = some (p.header boundary).length := by
  refine Multipart.find_headerEnd (fun hmem => ?_) h.lines t
  rcases List.mem_append.mp hmem with hmem | hmem
  · exact not_mem_markerOf (by decide) hline.1 hmem
  · exact h.padding hmem

/-- The delimiter behind the payload. -/
theorem Part.Valid.find_payloadEnd {p : Part} (h : p.Valid boundary) {t : Bytes} (ht : markerOf boundary <+: t) :
    find (crlf ++ markerOf boundary) (p.payload ++ (crlf ++ t)) = some p.payload.length := by
  obtain ⟨u, rfl⟩ := ht
  have hc : (13 : Byte) ∉ 10 :: markerOf boundary := by
    simp [not_mem_markerOf (b := 13) (by decide) hline.1]
  exact find_eq_length hc h.payload u

/-- A marker at the beginning of a line, or of the text, is not passed over. -/
theorem lastMarker_of_line {u v : Bytes} (hu : u = [] ∨ ∃ s, u = s ++ [10]) (hv : markerOf boundary <+: v) {fuel : ℕ}
    (hfuel : (u ++ v).length ≤ fuel) : ∃ m, lastMarker (markerOf boundary) fuel (u ++ v) = some m ∧ u.length ≤ m := by
  induction fuel generalizing u with
  | zero =>
    have := hv.length_le
    rw [List.length_append] at hfuel
    rw [length_markerOf] at this
    omega
  | succ fuel ih =>
    have hstands : markerOf boundary <+: (u ++ v).drop u.length := by rwa [List.drop_left]
    obtain ⟨i, hi, hfind⟩ := find_le (markerOf_ne boundary) hstands
    simp only [lastMarker, hfind]
    rcases hi.eq_or_lt with rfl | hlt
    · cases lastMarker (markerOf boundary) fuel ((u ++ v).drop (u.length + (markerOf boundary).length)) with
      | none => exact ⟨_, rfl, le_rfl⟩
      | some later => exact ⟨_, rfl, by omega⟩
    · -- what is found before ends before the line end
      obtain rfl | ⟨s, rfl⟩ := hu
      · exact absurd hlt (Nat.not_lt_zero i)
      have hbefore : i + (markerOf boundary).length ≤ s.length := by
        by_contra hlong
        obtain ⟨t, ht⟩ := prefix_of_find hfind
        rw [List.length_append, List.length_singleton] at hlt
        have hget : (markerOf boundary)[s.length - i]? = some 10 := by
          have hpart : (markerOf boundary ++ t)[s.length - i]? = (markerOf boundary)[s.length - i]? :=
            List.getElem?_append_left (by omega)
          rw [← hpart, ht, List.getElem?_drop, Nat.add_sub_cancel' (by omega)]
          simp
        exact not_mem_markerOf (by decide) hline.2 (List.mem_of_getElem? hget)
      have hdrop : (s ++ [10] ++ v).drop (i + (markerOf boundary).length) =
          s.drop (i + (markerOf boundary).length) ++ [10] ++ v := by
        rw [List.append_assoc, List.drop_append_of_le_length hbefore, List.append_assoc]
      obtain ⟨later, hlater, hle⟩ := ih (.inr ⟨_, rfl⟩) (by rw [← hdrop, List.length_drop, length_markerOf]; omega)
      rw [hdrop, hlater]
      refine ⟨_, rfl, ?_⟩
      rw [List.length_append, List.length_drop, List.length_singleton] at hle
      rw [List.length_append, List.length_singleton]
      omega

end

theorem prefix_of_lastMarker {marker : Bytes} : ∀ {fuel : ℕ} {s : Bytes} {m : ℕ}, lastMarker marker fuel s = some m →
    marker <+: s.drop m := by
  intro fuel
  induction fuel with
  | zero => exact fun h => by cases h
  | succ fuel ih =>
    intro s m h
    rw [lastMarker] at h
    split at h
    · cases h
    · rename_i position hfind
      split at h
      · rw [← Option.some_inj.mp h]
        exact prefix_of_find hfind
      · rename_i later hlater
        rw [← Option.some_inj.mp h, ← List.drop_drop]
        exact ih hlater

/-! ### The body -/

namespace Form

variable {boundary : Bytes}

/-- The parts from one on, and the last delimiter. -/
def rest (boundary : Bytes) (parts : List Part) (epilogue : Bytes) : Bytes :=
  parts.flatMap (Part.bytes boundary) ++ (markerOf boundary ++ (45 :: (45 :: epilogue)))

/-- The body of the request. -/
def body (form : Form boundary) : Bytes := form.preamble ++ rest boundary form.parts form.epilogue

/-- What stands in front of a part. -/
def front (form : Form boundary) (before : List Part) : Bytes :=
  form.preamble ++ before.flatMap (Part.bytes boundary)

/-- The non-empty payload, without trailing blanks, of the first part of this name. -/
def value (form : Form boundary) (field : Bytes) : Option Bytes :=
  match form.parts.find? (·.name = some field) with
  | none => none
  | some p => if p.payload = [] then none else some (trimEnd (· = space) p.payload)

theorem rest_cons (p : Part) (parts : List Part) (epilogue : Bytes) : rest boundary (p :: parts) epilogue =
    p.header boundary ++ (emptyLine ++ (p.payload ++ (crlf ++ rest boundary parts epilogue))) := by
  simp [rest, Part.bytes]

theorem marker_prefix_rest (boundary : Bytes) (parts : List Part) (epilogue : Bytes) :
    markerOf boundary <+: rest boundary parts epilogue := by
  cases parts with
  | nil => exact List.prefix_append _ _
  | cons p parts =>
    rw [rest_cons, Part.header, block, List.append_assoc, List.append_assoc]
    exact List.prefix_append _ _

theorem body_eq (form : Form boundary) {before after : List Part} (h : form.parts = before ++ after) :
    form.body = form.front before ++ rest boundary after form.epilogue := by
  simp [body, front, rest, h]

theorem front_end (form : Form boundary) (before : List Part) :
    form.front before = [] ∨ ∃ s, form.front before = s ++ [10] := by
  rcases List.eq_nil_or_concat before with rfl | ⟨before, p, rfl⟩
  · rw [front, List.flatMap_nil, List.append_nil]
    rcases form.preamble_end with h | ⟨s, h⟩
    · exact .inl h
    · exact .inr ⟨s ++ [13], by rw [h, List.append_assoc]; rfl⟩
  · refine .inr
      ⟨form.preamble ++ before.flatMap (Part.bytes boundary) ++ p.header boundary ++ emptyLine ++ p.payload ++ [13], ?_⟩
    simp [front, Part.bytes, crlf]

/-! ### The audio -/

section
variable (hline : 13 ∉ boundary ∧ 10 ∉ boundary) (epilogue : Bytes) {before : Bytes}
include hline

end

end Form

/-! ### The content type -/

/-- The content type of a form ends with its boundary, quoted or not. -/
structure Declares (contentType boundary : Bytes) : Prop where
  boundary_ne : boundary ≠ []
  form : ascii "multipart/form-data" <+: contentType.map lower
  split : ∃ front name value blanks, contentType = front ++ (name ++ (value ++ blanks)) ∧
    name.map lower = ascii "boundary=" ∧ (∀ b ∈ blanks, b = space) ∧
    (∀ i < front.length, ¬ ascii "boundary=" <+: (contentType.map lower).drop i) ∧
    (value = boundary ∧ boundary.head? ≠ some 34 ∧ boundary.getLast? ≠ some space ∨
      value = 34 :: (boundary ++ [34]))

theorem trimEnd_append_blanks {blanks : Bytes} (h : ∀ b ∈ blanks, b = space) (s : Bytes) :
    trimEnd (· = space) (s ++ blanks) = trimEnd (· = space) s := by
  induction blanks using List.reverseRecOn with
  | nil => rw [List.append_nil]
  | append_singleton blanks b ih =>
    rw [← List.append_assoc, trimEnd, List.rdropWhile_concat_pos _ _ _ (by simp [h b (by simp)])]
    exact ih fun b hb => h b (by simp [hb])

theorem trimEnd_eq_self {s : Bytes} (h : s.getLast? ≠ some space) : trimEnd (· = space) s = s := by
  rw [trimEnd, List.rdropWhile_eq_self_iff]
  intro hne heq
  rw [List.getLast?_eq_some_getLast hne] at h
  exact h (congrArg some (of_decide_eq_true heq))

theorem Declares.isMultipart {contentType boundary : Bytes} (h : Declares contentType boundary) :
    isMultipart contentType = true := by
  rw [Upload.isMultipart, find_eq_some_zero h.form]
  rfl

theorem Declares.boundaryValue {contentType boundary : Bytes} (h : Declares contentType boundary) :
    boundaryValue contentType = some boundary := by
  obtain ⟨front, name, value, blanks, hct, hname, hblanks, hfirst, hvalue⟩ := h.split
  have hlower : contentType.map lower = front.map lower ++ (ascii "boundary=" ++ (value ++ blanks).map lower) := by
    rw [hct, List.map_append, List.map_append, hname]
  have hfind : find (ascii "boundary=") (contentType.map lower) = some front.length := by
    rw [hlower, ← List.length_map lower]
    refine find_behind (by decide) (List.prefix_append _ _) fun i hi => ?_
    rw [← hlower]
    exact hfirst i (by simpa using hi)
  have hlength : name.length = (ascii "boundary=").length := by rw [← hname, List.length_map]
  have hlast : (front ++ (name ++ value)).getLast? ≠ some space := by
    rcases hvalue with ⟨rfl, -, hspace⟩ | rfl
    · rwa [List.getLast?_append_of_ne_nil _ (by simp [h.boundary_ne]), List.getLast?_append_of_ne_nil _ h.boundary_ne]
    · have hquote : front ++ (name ++ 34 :: (boundary ++ [34])) = front ++ (name ++ 34 :: boundary) ++ [34] := by simp
      rw [hquote, List.getLast?_concat]
      decide
  have htrim : trimEnd (· = space) contentType = front ++ (name ++ value) := by
    rw [hct, ← List.append_assoc name, ← List.append_assoc front, trimEnd_append_blanks hblanks,
      trimEnd_eq_self hlast]
  have hdrop : (front ++ (name ++ value)).drop (front.length + (ascii "boundary=").length) = value := by
    rw [← hlength, ← List.drop_drop, List.drop_left, List.drop_left]
  rw [Upload.boundaryValue, hfind]
  simp only [htrim, hdrop]
  refine congrArg some ?_
  rcases hvalue with ⟨rfl, hquote, -⟩ | rfl
  · -- without quotes around it the value is the boundary
    rw [unquote]
    intro s hs
    exact hquote (by rw [hs]; rfl)
  · rw [unquote, List.getLast?_concat, if_pos rfl, List.dropLast_concat]

namespace Form

variable {boundary contentType : Bytes}

/-- The first place of a text is between these offsets. -/
def FirstIn (needle body : Bytes) (first last : ℕ) : Prop :=
  ∃ n, first ≤ n ∧ n < last ∧ needle <+: body.drop n ∧ ∀ i < n, ¬ needle <+: body.drop i

/-- The first place where a field is named lies behind the delimiter and in the header lines of the first part of
this name; there is none if no part has it. -/
def Located (form : Form boundary) (field : Bytes) : Prop :=
  (∀ p ∈ form.parts, p.name ≠ some field) ∧ ¬ quotedName field <:+: form.body ∧ ¬ plainName field <:+: form.body ∨
  ∃ before p after, form.parts = before ++ p :: after ∧ (∀ q ∈ before, q.name ≠ some field) ∧ p.name = some field ∧
    let first := (form.front before).length + (markerOf boundary).length
    let last := (form.front before).length + (p.header boundary).length
    (FirstIn (quotedName field) form.body first last ∨
      ¬ quotedName field <:+: form.body ∧ FirstIn (plainName field) form.body first last)

theorem FirstIn.find {needle body : Bytes} {first last : ℕ} (hne : needle ≠ []) (h : FirstIn needle body first last) :
    ∃ n, first ≤ n ∧ n < last ∧ find needle body = some n := by
  obtain ⟨n, hfirst, hlast, hstands, hbefore⟩ := h
  obtain ⟨i, hi, hfind⟩ := find_le hne hstands
  rcases hi.eq_or_lt with rfl | hlt
  · exact ⟨i, hfirst, hlast, hfind⟩
  · exact absurd (prefix_of_find hfind) (hbefore i hlt)

theorem quotedName_ne (field : Bytes) : quotedName field ≠ [] := by simp [quotedName]

theorem plainName_ne (field : Bytes) : plainName field ≠ [] := by simp [plainName, ascii]

/-- The payload of the part that the service finds the name in. -/
theorem payloadAt_header (form : Form boundary) {before after : List Part} {p : Part}
    (hparts : form.parts = before ++ p :: after) {m : ℕ} (hm : (form.front before).length ≤ m)
    (hlast : m ≤ (form.front before).length + (p.header boundary).length) :
    payloadAt (markerOf boundary) form.body m =
      if p.payload = [] then none else some (trimEnd (· = space) p.payload) := by
  have hp := form.valid p (by rw [hparts]; simp)
  set start := (form.front before).length with hstart
  have hdrop : form.body.drop start = rest boundary (p :: after) form.epilogue := by
    rw [form.body_eq hparts, hstart, List.drop_left]
  have hempty : find emptyLine (form.body.drop m) = some ((p.header boundary).length - (m - start)) := by
    have hfind := hp.find_headerEnd form.boundary_line (p.payload ++ (crlf ++ rest boundary after form.epilogue))
    rw [← rest_cons, ← hdrop] at hfind
    have := find_drop hfind (k := m - start) (by omega)
    rwa [List.drop_drop, Nat.add_sub_cancel' hm] at this
  have hpayload : (form.body.drop m).drop ((p.header boundary).length - (m - start) + 4) =
      p.payload ++ (crlf ++ rest boundary after form.epilogue) := by
    have hsum : m + ((p.header boundary).length - (m - start) + 4) = start + ((p.header boundary).length + 4) := by
      omega
    rw [List.drop_drop, hsum, ← List.drop_drop, hdrop, rest_cons, ← List.append_assoc,
      List.drop_left' (by rw [List.length_append]; rfl)]
  simp only [payloadAt, hempty, hpayload,
    hp.find_payloadEnd form.boundary_line (marker_prefix_rest boundary after form.epilogue),
    List.take_left, List.length_eq_zero_iff]

/-- The last delimiter up to an offset is that of a part that has begun, or stands behind it. -/
theorem lastMarker_body (form : Form boundary) {before after : List Part} (hparts : form.parts = before ++ after)
    {n : ℕ} (hn : (form.front before).length + (markerOf boundary).length ≤ n + 1) :
    ∃ m, lastMarker (markerOf boundary) (form.body.take (n + 1)).length (form.body.take (n + 1)) = some m ∧
      (form.front before).length ≤ m := by
  have hfront : form.body.take (n + 1) =
      form.front before ++ (rest boundary after form.epilogue).take (n + 1 - (form.front before).length) := by
    rw [form.body_eq hparts, List.take_append, List.take_of_length_le (by omega)]
  have hstands :
      markerOf boundary <+: (rest boundary after form.epilogue).take (n + 1 - (form.front before).length) :=
    List.prefix_take_iff.mpr ⟨marker_prefix_rest boundary after form.epilogue, by omega⟩
  rw [hfront]
  exact lastMarker_of_line form.boundary_line (form.front_end before) hstands le_rfl

/-- It stands in the body, and has ended there. -/
theorem marker_of_lastMarker (form : Form boundary) {n m : ℕ}
    (hm : lastMarker (markerOf boundary) (form.body.take (n + 1)).length (form.body.take (n + 1)) = some m) :
    markerOf boundary <+: form.body.drop m ∧ m + (markerOf boundary).length ≤ n + 1 := by
  have hstands := prefix_of_lastMarker hm
  have hlength := hstands.length_le
  rw [List.length_drop, List.length_take] at hlength
  rw [List.drop_take] at hstands
  refine ⟨hstands.trans (List.take_prefix _ _), ?_⟩
  have := length_markerOf boundary
  omega

/-- The service finds the name in the header lines of a part. -/
theorem formValue_header (form : Form boundary) (hct : Declares contentType boundary) {field : Bytes}
    {before after : List Part} {p : Part} (hparts : form.parts = before ++ p :: after) {n : ℕ}
    (hname : namePosition form.body field = some n)
    (hfirst : (form.front before).length + (markerOf boundary).length ≤ n)
    (hlast : n < (form.front before).length + (p.header boundary).length) :
    formValue form.body contentType field =
      if p.payload = [] then none else some (trimEnd (· = space) p.payload) := by
  obtain ⟨m, hm, hle⟩ := form.lastMarker_body hparts (n := n) (by omega)
  have hinside := (form.marker_of_lastMarker hm).2
  rw [← form.payloadAt_header hparts hle (by omega)]
  simp only [formValue, hct.isMultipart, hct.boundaryValue, hname, hm, if_neg hct.boundary_ne]
  rfl

/-- **The value of a field.** -/
theorem formValue_eq (form : Form boundary) (hct : Declares contentType boundary) {field : Bytes}
    (h : form.Located field) : formValue form.body contentType field = form.value field := by
  rcases h with ⟨hnone, hquoted, hplain⟩ | ⟨before, p, after, hparts, hbefore, hp, hplace⟩
  · -- no part has the name, and nothing in the body looks like it
    have hname : namePosition form.body field = none := by
      rw [namePosition, (find_eq_none (quotedName_ne field)).mpr hquoted]
      exact (find_eq_none (plainName_ne field)).mpr hplain
    have hvalue : form.value field = none := by
      rw [value, List.find?_eq_none.mpr fun p hmem => by simpa using hnone p hmem]
    simp [formValue, hct.isMultipart, hct.boundaryValue, hct.boundary_ne, hname, hvalue]
  · have hvalue : form.value field = if p.payload = [] then none else some (trimEnd (· = space) p.payload) := by
      have hfind : form.parts.find? (·.name = some field) = some p := by
        rw [hparts, List.find?_append, List.find?_eq_none.mpr fun q hmem => by simpa using hbefore q hmem]
        simp [hp]
      rw [value, hfind]
    -- wherever the name is found, the marker before it is that of the part
    have hname : ∃ n, (form.front before).length + (markerOf boundary).length ≤ n ∧
        n < (form.front before).length + (p.header boundary).length ∧ namePosition form.body field = some n := by
      rcases hplace with hfirst | ⟨hquoted, hfirst⟩
      · obtain ⟨n, hle, hlt, hfind⟩ := hfirst.find (quotedName_ne field)
        exact ⟨n, hle, hlt, by rw [namePosition, hfind]⟩
      · obtain ⟨n, hle, hlt, hfind⟩ := hfirst.find (plainName_ne field)
        refine ⟨n, hle, hlt, ?_⟩
        rw [namePosition, (find_eq_none (quotedName_ne field)).mpr hquoted]
        exact hfind
    obtain ⟨n, hle, hlt, hn⟩ := hname
    rw [hvalue, form.formValue_header hct hparts hn hle hlt]

/-! ### Options -/

/-- The names of the options. -/
def optionNames : List String := ["max_tokens", "temperature", "seed", "language", "task"]

/-- An option is a field with a payload, or no text of the body looks like a member of this name. -/
structure Clear (form : Form boundary) (option : Bytes) : Prop where
  located : form.Located option
  given : (form.value option).isSome = true ∨ ¬ 34 :: (option.map lower ++ [34]) <:+: form.body.map lower

/-- The forms differ in the payload of one part only. -/
def SameBut (form form' : Form boundary) (p : Part) : Prop :=
  form'.preamble = form.preamble ∧ form'.epilogue = form.epilogue ∧
    ∃ before after payload, form.parts = before ++ p :: after ∧
      form'.parts = before ++ { p with payload := payload } :: after

theorem SameBut.value_eq {form form' : Form boundary} {p : Part} (h : form.SameBut form' p) {field : Bytes}
    (hp : p.name ≠ some field) : form'.value field = form.value field := by
  obtain ⟨-, -, before, after, payload, hparts, hparts'⟩ := h
  have hp' : ({ p with payload := payload } : Part).name ≠ some field := hp
  rw [value, value, hparts, hparts', List.find?_append, List.find?_append,
    List.find?_cons_of_neg (by simpa using hp'),
    List.find?_cons_of_neg (by simpa using hp)]

theorem Clear.jsonValue_eq {form : Form boundary} {option : Bytes} (h : form.Clear option)
    (hvalue : form.value option = none) : jsonValue form.body option = none := by
  have hnone := h.given.resolve_left (by simp [hvalue])
  rw [jsonValue, (find_eq_none (by simp)).mpr hnone]

end Form

variable {R : Type} (runtime : Runtime R) {boundary contentType : Bytes}

/-- A number that a field says. -/
def Form.read (form : Form boundary) {N : Type} (reader : Bytes → Option N) (name : String) (fallback : N) : N :=
  ((form.value (ascii name)).bind reader).getD fallback

/-- The options that the fields say. -/
def Form.resolved (form : Form boundary) (isTranslation : Bool) : Except String (Options R) :=
  let maxTokens := form.read runtime.readInt32 "max_tokens" 256
  let temperature := form.read runtime.readReal "temperature" runtime.zero
  let word (name fallback : String) := (form.value (ascii name)).getD (ascii fallback)
  if maxTokens ≤ 0 ∨ maxTokens > 4096 then .error "max_tokens must be between 1 and 4096"
  else if !runtime.allowed temperature then .error "temperature must be finite and non-negative"
  else
    .ok ⟨maxTokens, temperature, form.read runtime.readInt64 "seed" 0, word "language" "en",
      if isTranslation then ascii "translate" else word "task" "transcribe"⟩

/-- **The options are what the fields say.** -/
theorem Form.resolve_eq (form : Form boundary) (hct : Declares contentType boundary)
    (hclear : ∀ name ∈ Form.optionNames, form.Clear (ascii name)) (isTranslation : Bool) :
    resolve runtime form.body contentType isTranslation = form.resolved runtime isTranslation := by
  have hfield : ∀ name ∈ Form.optionNames, formValue form.body contentType (ascii name) = form.value (ascii name) :=
    fun name hname => form.formValue_eq hct (hclear name hname).located
  have hnumber : ∀ {N : Type} (digits : Bytes) (reader : Bytes → Option N) (fallback : N), ∀ name ∈ Form.optionNames,
      number reader (formValue form.body contentType (ascii name))
        (jsonNumber digits reader form.body (ascii name)) fallback = form.read reader name fallback := by
    intro N digits reader fallback name hname
    rw [hfield name hname, Form.read]
    cases hvalue : form.value (ascii name) with
    | none =>
      -- the reader of JSON then looks at the same body and finds nothing either
      rw [jsonNumber, (hclear name hname).jsonValue_eq hvalue]
      rfl
    | some value => rfl
  have hword : ∀ name ∈ Form.optionNames, ((formValue form.body contentType (ascii name)).orElse fun _ =>
      jsonString form.body (ascii name)) = form.value (ascii name) := by
    intro name hname
    rw [hfield name hname]
    cases hvalue : form.value (ascii name) with
    | none =>
      show jsonString form.body (ascii name) = none
      rw [jsonString, (hclear name hname).jsonValue_eq hvalue]
    | some value => rfl
  simp only [resolve, Form.resolved, hct.isMultipart, if_true]
  rw [hnumber _ _ _ "max_tokens" (by decide), hnumber _ _ _ "temperature" (by decide),
    hnumber _ _ _ "seed" (by decide), hword "language" (by decide), hword "task" (by decide)]

/-- A payload that is no option does not matter. -/
theorem Form.SameBut.resolved_eq {form form' : Form boundary} {p : Part} (h : form.SameBut form' p)
    (hp : ∀ name ∈ Form.optionNames, p.name ≠ some (ascii name)) (isTranslation : Bool) :
    form'.resolved runtime isTranslation = form.resolved runtime isTranslation := by
  have hvalue : ∀ name ∈ Form.optionNames, form'.value (ascii name) = form.value (ascii name) := fun name hname =>
    h.value_eq (hp name hname)
  simp only [Form.resolved, Form.read, hvalue "max_tokens" (by decide), hvalue "temperature" (by decide),
    hvalue "seed" (by decide), hvalue "language" (by decide), hvalue "task" (by decide)]

/-- So it is for the service. -/
theorem Form.SameBut.resolve_eq {form form' : Form boundary} {p : Part} (h : form.SameBut form' p)
    (hct : Declares contentType boundary)
    (hclear : ∀ name ∈ Form.optionNames,
      form.Clear (ascii name) ∧ form'.Clear (ascii name) ∧ p.name ≠ some (ascii name)) (isTranslation : Bool) :
    resolve runtime form.body contentType isTranslation = resolve runtime form'.body contentType isTranslation := by
  rw [form.resolve_eq runtime hct fun name hname => (hclear name hname).1,
    form'.resolve_eq runtime hct fun name hname => (hclear name hname).2.1,
    h.resolved_eq runtime fun name hname => (hclear name hname).2.2]

def fileLines : List Bytes := [ascii "Content-Disposition: form-data; name=\"file\"; filename=\"a.wav\""]

def languageLines : List Bytes := [ascii "Content-Disposition: form-data; name=\"language\""]

theorem lines_valid : ∀ line ∈ fileLines ++ languageLines, line ≠ [] ∧ 13 ∉ line := by decide +kernel

theorem boundary_b_ne : ascii "b" ≠ [] := by decide

theorem boundary_b_line : 13 ∉ ascii "b" ∧ 10 ∉ ascii "b" := by decide

theorem no_preamble : ([] : Bytes) = [] ∨ ∃ s, ([] : Bytes) = s ++ crlf := .inl rfl

theorem valid_file {audio : Bytes} (haudio : ¬ crlf ++ markerOf (ascii "b") <:+: audio) :
    Part.Valid (ascii "b") ⟨[], fileLines, audio⟩ :=
  ⟨List.not_mem_nil, fun line hline => lines_valid line (List.mem_append_left _ hline), haudio⟩

theorem valid_language : Part.Valid (ascii "b") ⟨[], languageLines, ascii "de"⟩ :=
  ⟨List.not_mem_nil, fun line hline => lines_valid line (List.mem_append_right _ hline), by decide +kernel⟩

/-- A form with an audio file and a field. -/
def twoParts (audio : Bytes) (haudio : ¬ crlf ++ markerOf (ascii "b") <:+: audio) : Form (ascii "b") where
  preamble := []
  parts := [⟨[], fileLines, audio⟩, ⟨[], languageLines, ascii "de"⟩]
  epilogue := []
  boundary_ne := boundary_b_ne
  boundary_line := boundary_b_line
  preamble_end := no_preamble
  valid := List.forall_mem_cons.mpr ⟨valid_file haudio, List.forall_mem_singleton.mpr valid_language⟩

def ones : Form (ascii "b") := twoParts (ascii "RIFF1111WAVE") (by decide +kernel)

end Upload

end Whisper

end FortAI
