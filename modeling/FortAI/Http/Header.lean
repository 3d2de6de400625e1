import FortAI.Machine.CString

/-!
# Header values and configuration of the transport

`copyHeaderValue`, `corsOriginAllowed` and `safeEnv` are the functions of the same names
(`fortai_copy_header_value`, `fortai_cors_origin_allowed`, `fortai_safe_env`).  A pointer into a
buffer is the list of the bytes from it to the end of the buffer.

* `copyHeaderValue_eq` : the value is that of the first line named so, among the lines the scan
  sees.
* `scanLines_append` : the lines of a terminated text are those of the text with any bytes behind
  it, before the lines of these bytes.
-/

namespace FortAI

namespace Http

open CString

/-- `getenv`; the values are C strings. -/
abbrev Environment := String → Option Bytes

/-- `fortai_safe_env` -/
def safeEnv (getenv : Environment) (name : String) (fallback : Bytes) : Bytes :=
  match getenv name with
  | none => fallback
  | some value => if value = [] ∨ 13 ∈ value ∨ 10 ∈ value then fallback else value

/-- The offset of `line_end`: the next `"\r\n"` before a NUL, or the end of the request. -/
def lineEnd (cursor : Bytes) : ℕ := (find crlf (text cursor)).getD cursor.length

/-- The test of one line: longer than the name, the name in either case, then a colon. -/
def isNamed (name line : Bytes) : Bool :=
  name.length < line.length && startsNoCase name line &&
    (line.drop name.length).head? = some colon

/-- The bytes copied from a line with that name; none when a CR or LF is among them. -/
def lineValue (name : Bytes) (capacity : ℕ) (line : Bytes) : Bytes :=
  let first := (line.drop (name.length + 1)).dropWhile isBlank
  let value := (trimEnd isBlank first).take (capacity - 1)
  if 13 ∈ value ∨ 10 ∈ value then [] else value

theorem drop_lineEnd_lt {cursor : Bytes} (h : cursor ≠ []) (n : ℕ) :
    (cursor.drop (lineEnd cursor + (n + 1))).length < cursor.length := by
  have := List.length_pos_iff.mpr h
  rw [List.length_drop]
  omega

/-- `fortai_copy_header_value`: the bytes written to `value` before its NUL.  The function returns
their number, and the C string in `value` is `text` of them. -/
def copyHeaderValue (cursor name : Bytes) (capacity : ℕ) : Bytes :=
  if h : cursor = [] then []
  else if isNamed name (cursor.take (lineEnd cursor)) then
    lineValue name capacity (cursor.take (lineEnd cursor))
  else if lineEnd cursor = cursor.length then []
  else copyHeaderValue (cursor.drop (lineEnd cursor + 2)) name capacity
termination_by cursor.length
decreasing_by exact drop_lineEnd_lt h 1

/-- The lines the scan of `copyHeaderValue` stops at. -/
def scanLines (cursor : Bytes) : List Bytes :=
  if h : cursor = [] then []
  else
    cursor.take (lineEnd cursor) ::
      if lineEnd cursor = cursor.length then [] else scanLines (cursor.drop (lineEnd cursor + 2))
termination_by cursor.length
decreasing_by exact drop_lineEnd_lt h 1

/-- The value is that of the first line of that name. -/
theorem copyHeaderValue_eq (name : Bytes) (capacity : ℕ) (cursor : Bytes) :
    copyHeaderValue cursor name capacity =
      (((scanLines cursor).find? (isNamed name)).map (lineValue name capacity)).getD [] := by
  induction cursor using scanLines.induct with
  | case1 => simp [copyHeaderValue, scanLines]
  | case2 cursor hne ih =>
    rw [copyHeaderValue, scanLines]
    simp only [hne, dite_false]
    cases hn : isNamed name (cursor.take (lineEnd cursor)) with
    | true => simp only [if_true, List.find?_cons_of_pos hn, Option.map_some, Option.getD_some]
    | false =>
      rw [List.find?_cons_of_neg (Bool.eq_false_iff.mp hn)]
      by_cases he : lineEnd cursor = cursor.length
      · simp [he]
      · simp only [Bool.false_eq_true, he, if_false, ih]

/-! ### Lists of origins -/

/-- The entry a list separated by commas goes on with; `trim` says which bytes at its end do not
belong to it. -/
def nextEntry (trim : Byte → Bool) (cursor : Bytes) : Bytes :=
  trimEnd trim ((cursor.dropWhile fun b => isBlank b || b = comma).takeWhile (· ≠ comma))

/-- Where the list is read on: behind the comma when one follows the entry at once, and else where
the entry ends. -/
def afterEntry (trim : Byte → Bool) (cursor : Bytes) : Bytes :=
  match (cursor.dropWhile fun b => isBlank b || b = comma).drop (nextEntry trim cursor).length with
  | [] => []
  | b :: rest => if b = comma then rest else b :: rest

theorem afterEntry_le (trim : Byte → Bool) (cursor : Bytes) :
    (afterEntry trim cursor).length ≤
      (cursor.dropWhile fun b => isBlank b || b = comma).length - (nextEntry trim cursor).length := by
  rw [← List.length_drop, afterEntry]
  cases (cursor.dropWhile _).drop (nextEntry trim cursor).length with
  | nil => exact le_rfl
  | cons b rest =>
    show (if b = comma then rest else b :: rest).length ≤ rest.length + 1
    split
    · omega
    · exact le_rfl

/-- An entry that begins with a byte that is not trimmed is read, so the list gets shorter. -/
theorem afterEntry_lt {cursor : Bytes} (h : cursor ≠ []) :
    (afterEntry isBlank cursor).length < cursor.length := by
  have hle := afterEntry_le isBlank cursor
  have hskip : (cursor.dropWhile fun b => isBlank b || b = comma).length ≤ cursor.length :=
    (List.dropWhile_suffix _).length_le
  have hpos := List.length_pos_iff.mpr h
  by_cases hnil : (cursor.dropWhile fun b => isBlank b || b = comma) = []
  · rw [hnil, List.length_nil] at hle
    omega
  · have hentry : nextEntry isBlank cursor ≠ [] := by
      have hhead := List.head_dropWhile_not (fun b => isBlank b || b = comma) hnil
      obtain ⟨b, rest, hb⟩ := List.exists_cons_of_ne_nil hnil
      simp only [hb, List.head_cons, Bool.or_eq_false_iff, decide_eq_false_iff_not] at hhead
      rw [nextEntry, hb, List.takeWhile_cons_of_pos (by simpa using hhead.2)]
      intro htrim
      have := List.rdropWhile_eq_nil_iff.mp htrim b (List.mem_cons_self ..)
      rw [hhead.1] at this
      exact Bool.noConfusion this
    have := List.length_pos_iff.mpr hentry
    omega

/-- The loop of `fortai_cors_origin_allowed` over the configured origins. -/
def listsOrigin (origin cursor : Bytes) : Bool :=
  if _h : cursor = [] then false
  else if (nextEntry isBlank cursor).length = origin.length ∧
      equalNoCase (nextEntry isBlank cursor) origin then true
  else listsOrigin origin (afterEntry isBlank cursor)
termination_by cursor.length
decreasing_by exact afterEntry_lt _h

/-- `fortai_cors_origin_allowed` -/
def corsOriginAllowed (configured origin : Bytes) : Bool :=
  if origin = [] then false
  else if configured = ascii "*" then true
  else if equalNoCase configured (ascii "localhost") then
    (find (ascii "localhost") origin).isSome || (find (ascii "127.0.0.1") origin).isSome ||
      (find (ascii "[::1]") origin).isSome
  else listsOrigin origin configured

/-! ### Terminated text -/

/-- A text without NUL in which every line ends with `"\r\n"`. -/
structure Terminated (s : Bytes) : Prop where
  nul_free : (0 : Byte) ∉ s
  ends : s = [] ∨ crlf <:+ s

namespace Terminated

variable {s : Bytes}

theorem exists_find (hs : Terminated s) (hne : s ≠ []) : ∃ i, find crlf s = some i := by
  rw [← Option.ne_none_iff_exists', ne_eq, find_eq_none (by decide), not_not]
  exact (hs.ends.resolve_left hne).isInfix

/-- What follows a line of a terminated text is a terminated text. -/
theorem drop (hs : Terminated s) {i : ℕ} (hi : find crlf s = some i) :
    Terminated (s.drop (i + 2)) := by
  refine ⟨fun h => hs.nul_free (List.mem_of_mem_drop h), ?_⟩
  rcases hs.ends with rfl | ⟨t, rfl⟩
  · exact .inl List.drop_nil
  · rw [← List.append_nil crlf] at hi
    rcases find_crlf_cases hi with rfl | hle
    · exact .inl (by rw [← List.drop_drop, List.drop_left]; rfl)
    · right
      rw [List.drop_append_of_le_length hle]
      exact List.suffix_append _ _

theorem lineEnd_append (hs : Terminated s) {i : ℕ} (hi : find crlf s = some i) (t : Bytes) :
    lineEnd (s ++ t) = i := by
  rw [lineEnd, text_append hs.nul_free, find_append (by decide) _ hi]
  rfl

/-- The lines of a terminated text come before those of the bytes behind it. -/
theorem scanLines_append (hs : Terminated s) (t : Bytes) :
    scanLines (s ++ t) = scanLines s ++ scanLines t := by
  induction hn : s.length using Nat.strong_induction_on generalizing s with
  | _ n ih =>
    by_cases hne : s = []
    · subst hne
      rw [List.nil_append, scanLines.eq_def []]
      simp
    · obtain ⟨i, hi⟩ := hs.exists_find hne
      have hlen := find_add_length_le (by decide) hi
      rw [show crlf.length = 2 from rfl] at hlen
      have hend : lineEnd s = i := by simpa using hs.lineEnd_append hi []
      rw [scanLines, scanLines.eq_def s]
      simp only [List.append_eq_nil_iff, hne, false_and, dite_false, hs.lineEnd_append hi, hend,
        List.length_append, List.cons_append]
      rw [if_neg (by omega), if_neg (by omega), List.take_append_of_le_length (by omega),
        List.drop_append_of_le_length (by omega)]
      rw [ih _ (by rw [List.length_drop]; omega) (hs.drop hi) rfl]

end Terminated

end Http

end FortAI
