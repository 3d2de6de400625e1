import FortAI.Http.Authorization
import FortAI.Http.Response

/-!
# Header values and the header section

The scan of `copyHeaderValue` does not stop at the blank line: it goes on through the body.  Two
accepted requests with one header section therefore agree on the value of a header exactly when
the section itself has a line of that name, or settles a length too short for the body to hold one.

* `agree_of_decides`, `decides_of_agree` : when two requests agree on a header.
* `section_decides` : the same for all headers, with what follows for the `Origin` of the reply and
  for the decision of `authorized`.
-/

namespace FortAI

namespace Http

open CString

/-- The name of a header field. -/
structure HeaderName where
  bytes : Bytes
  nul_free : (0 : Byte) ∉ bytes
  cr_free : (13 : Byte) ∉ bytes
  lf_free : (10 : Byte) ∉ bytes

namespace HeaderName

def origin : HeaderName := ⟨ascii "Origin", by decide, by decide, by decide⟩
def authorization : HeaderName := ⟨ascii "Authorization", by decide, by decide, by decide⟩
def xApiKey : HeaderName := ⟨ascii "X-Api-Key", by decide, by decide, by decide⟩

end HeaderName

/-- Some line of the section has that name. -/
def HasLine (s : Bytes) (name : HeaderName) : Prop :=
  ∃ line ∈ scanLines s, isNamed name.bytes line = true

instance (s : Bytes) (name : HeaderName) : Decidable (HasLine s name) :=
  inferInstanceAs (Decidable (∃ line ∈ scanLines s, _))

instance (s : Bytes) : Decidable (Settled s) :=
  inferInstanceAs (Decidable (∀ rest ∈ declaration s, _))

/-- The section decides the value of a header: it has a line of that name, or a body of the length
it settles cannot hold one with a value. -/
def Decides (s : Bytes) (name : HeaderName) : Prop :=
  HasLine s name ∨ Settled s ∧ declaredLength s [] < name.bytes.length + 2

instance (s : Bytes) (name : HeaderName) : Decidable (Decides s name) :=
  inferInstanceAs (Decidable (_ ∨ _))

/-- Accepted requests with that header section give `f` one value. -/
def Agree {α : Type*} (s : Bytes) (f : Bytes → α) : Prop :=
  ∀ request request', Accepted request → Accepted request' → headerSection request = s →
    headerSection request' = s → f request = f request'

/-! ### Values -/

/-- The value is that of the section's own line, or what the scan finds in the body. -/
theorem copyHeaderValue_append {s : Bytes} (hs : IsSection s) (body : Bytes) (name : HeaderName)
    (capacity : ℕ) :
    copyHeaderValue (s ++ body) name.bytes capacity =
      if HasLine s name then copyHeaderValue s name.bytes capacity
      else copyHeaderValue body name.bytes capacity := by
  rw [copyHeaderValue_eq, copyHeaderValue_eq, copyHeaderValue_eq,
    hs.ended.terminated.scanLines_append, List.find?_append]
  by_cases h : HasLine s name
  · obtain ⟨line, hline, hnamed⟩ := h
    have hsome : ((scanLines s).find? (isNamed name.bytes)).isSome :=
      List.find?_isSome.mpr ⟨line, hline, hnamed⟩
    obtain ⟨found, hfound⟩ := Option.isSome_iff_exists.mp hsome
    rw [if_pos ⟨line, hline, hnamed⟩, hfound]
    rfl
  · have hnone : (scanLines s).find? (isNamed name.bytes) = none :=
      List.find?_eq_none.mpr fun line hline hnamed => h ⟨line, hline, hnamed⟩
    rw [if_neg h, hnone]
    rfl

/-- Every line of a buffer is no longer than it. -/
theorem length_le_of_mem_scanLines {cursor line : Bytes} (h : line ∈ scanLines cursor) :
    line.length ≤ cursor.length := by
  induction cursor using scanLines.induct with
  | case1 =>
    rw [scanLines, dif_pos rfl] at h
    exact absurd h (List.not_mem_nil)
  | case2 cursor hne ih =>
    rw [scanLines, dif_neg hne, List.mem_cons] at h
    rcases h with rfl | h
    · rw [List.length_take]
      omega
    · split_ifs at h
      · exact absurd h (List.not_mem_nil)
      · have := ih h
        rw [List.length_drop] at this
        omega

/-- A body of no more bytes than the name and a colon holds no value. -/
theorem copyHeaderValue_short {body : Bytes} {name : HeaderName} (capacity : ℕ)
    (h : body.length < name.bytes.length + 2) : copyHeaderValue body name.bytes capacity = [] := by
  rw [copyHeaderValue_eq]
  cases hfind : (scanLines body).find? (isNamed name.bytes) with
  | none => rfl
  | some line =>
    have hle := length_le_of_mem_scanLines (List.mem_of_find?_eq_some hfind)
    have hnil : line.drop (name.bytes.length + 1) = [] := List.drop_eq_nil_of_le (by omega)
    simp [lineValue, hnil, trimEnd]

/-- A text without line ends is one line. -/
theorem scanLines_single {s : Bytes} (hcr : (13 : Byte) ∉ s) (hne : s ≠ []) : scanLines s = [s] := by
  have hno : find crlf (text s) = none := by
    rw [find_eq_none (by decide)]
    intro hin
    exact hcr ((text_prefix_self s).subset (hin.subset (by decide)))
  rw [scanLines, dif_neg hne, lineEnd, hno]
  simp

/-- A line made of the name, a colon and letters. -/
def headerLine (name : HeaderName) (letter : Byte) (n : ℕ) : Bytes :=
  name.bytes ++ colon :: List.replicate n letter

theorem copyHeaderValue_headerLine (name : HeaderName) {letter : Byte} (hblank : isBlank letter = false)
    (hcr : letter ≠ 13) (hlf : letter ≠ 10) (n capacity : ℕ) :
    copyHeaderValue (headerLine name letter (n + 1)) name.bytes capacity =
      List.replicate (min (n + 1) (capacity - 1)) letter := by
  have hline : (13 : Byte) ∉ headerLine name letter (n + 1) := by
    rw [headerLine, List.mem_append, List.mem_cons, List.mem_replicate]
    rintro (h | h | h)
    · exact name.cr_free h
    · exact absurd h (by decide)
    · exact hcr h.2.symm
  have hne : headerLine name letter (n + 1) ≠ [] := by simp [headerLine]
  have hnamed : isNamed name.bytes (headerLine name letter (n + 1)) = true := by
    simp [isNamed, headerLine, startsNoCase]
  have hfirst : ((headerLine name letter (n + 1)).drop (name.bytes.length + 1)).dropWhile isBlank =
      List.replicate (n + 1) letter := by
    rw [headerLine, ← List.drop_drop, List.drop_left]
    show (List.replicate (n + 1) letter).dropWhile isBlank = _
    rw [List.replicate_succ, List.dropWhile_cons_of_neg (by simp [hblank])]
  have htrim : trimEnd isBlank (List.replicate (n + 1) letter) = List.replicate (n + 1) letter := by
    refine List.rdropWhile_eq_self_iff.mpr fun h => ?_
    rw [List.getLast_replicate, hblank]
    exact Bool.false_ne_true
  rw [copyHeaderValue_eq, scanLines_single hline hne, List.find?_cons_of_pos hnamed,
    Option.map_some, Option.getD_some, lineValue, hfirst, htrim, List.take_replicate,
    Nat.min_comm, if_neg]
  rw [List.mem_replicate, List.mem_replicate]
  rintro (h | h)
  · exact hcr h.2.symm
  · exact hlf h.2.symm

/-- Letters alone are no header. -/
theorem copyHeaderValue_letters (name : HeaderName) {letter : Byte} (hcolon : letter ≠ colon)
    (hcr : letter ≠ 13) (n capacity : ℕ) :
    copyHeaderValue (List.replicate n letter) name.bytes capacity = [] := by
  cases n with
  | zero => simp [copyHeaderValue]
  | succ n =>
    have hline : (13 : Byte) ∉ List.replicate (n + 1) letter := by
      rw [List.mem_replicate]
      exact fun h => hcr h.2.symm
    have hnamed : isNamed name.bytes (List.replicate (n + 1) letter) = false := by
      rw [isNamed, Bool.and_eq_false_iff]
      right
      rw [decide_eq_false_iff_not, List.head?_drop, List.getElem?_replicate]
      split_ifs
      · rw [Option.some.injEq]
        exact hcolon
      · simp
    rw [copyHeaderValue_eq, scanLines_single hline (by simp), List.find?_cons_of_neg (by simp [hnamed])]
    rfl

/-- A line without a colon is passed over. -/
theorem copyHeaderValue_skip {line : Bytes} (hnul : (0 : Byte) ∉ line) (hcr : (13 : Byte) ∉ line)
    (hcolon : colon ∉ line) (rest : Bytes) (name : HeaderName) (capacity : ℕ) :
    copyHeaderValue (line ++ (crlf ++ rest)) name.bytes capacity =
      copyHeaderValue rest name.bytes capacity := by
  have hend : lineEnd (line ++ (crlf ++ rest)) = line.length := by
    rw [lineEnd, text_append hnul, text_append (by decide), find_line_end hcr]
    rfl
  have hnamed : isNamed name.bytes line = false := by
    rw [isNamed, Bool.and_eq_false_iff]
    right
    rw [decide_eq_false_iff_not, List.head?_drop]
    exact fun h => hcolon (List.mem_of_getElem? h)
  have hne : line ++ (crlf ++ rest) ≠ [] := by simp [crlf]
  have hlen : line.length ≠ (line ++ (crlf ++ rest)).length := by
    rw [List.length_append, List.length_append, show crlf.length = 2 from rfl]
    omega
  rw [copyHeaderValue, dif_neg hne, hend, List.take_left, hnamed, if_neg Bool.false_ne_true,
    if_neg hlen, ← List.drop_drop, List.drop_left]
  rfl

/-! ### Bodies -/

/-- The section of an accepted request. -/
def Received (s : Bytes) : Prop := ∃ request, Accepted request ∧ headerSection request = s

theorem Received.isSection {s : Bytes} (h : Received s) :
    IsSection s ∧ (Settled s → s.length + declaredLength s [] ≤ maxRequest) := by
  obtain ⟨request, hacc, hsection⟩ := h
  obtain ⟨s', body, hs, -, hs', hmax, hlength⟩ := hacc.exists_body
  rw [hs'] at hsection
  rw [← hsection]
  exact ⟨hs, fun h => hlength h ▸ hmax⟩

/-- Accepted requests with that section are the section and a body. -/
theorem exists_body_of_section {s request : Bytes} (hacc : Accepted request)
    (hsection : headerSection request = s) :
    ∃ body, request = s ++ body ∧ (Settled s → body.length = declaredLength s []) := by
  obtain ⟨s', body, -, hrequest, hs', -, hlength⟩ := hacc.exists_body
  rw [hs'] at hsection
  rw [← hsection]
  exact ⟨body, hrequest, hlength⟩

/-- The section settles the length of the body, or a body with a line of that name fits the first
buffer of `readRequest` behind it. -/
def HasRoom (s : Bytes) (name : HeaderName) : Prop :=
  Settled s ∨ s.length + name.bytes.length + 30 ≤ 65536

instance (s : Bytes) (name : HeaderName) : Decidable (HasRoom s name) :=
  inferInstanceAs (Decidable (_ ∨ _))

theorem not_settled {s : Bytes} (h : ¬ Settled s) (t : Bytes) :
    ∃ blanks, blanks.dropWhile isSpace = [] ∧ declaredLength s t = strtoull (blanks ++ text t) := by
  rw [Settled] at h
  push Not at h
  obtain ⟨rest, hrest, hblank⟩ := h
  rw [Option.mem_def] at hrest
  exact ⟨rest, hblank, by rw [declaredLength, hrest]⟩

/-- Some accepted request with that section has no header lines in its body. -/
theorem exists_plain {s : Bytes} (hs : Received s) {name : HeaderName} (hroom : HasRoom s name) :
    ∃ body, Accepted (s ++ body) ∧
      ∀ (name' : HeaderName) (capacity : ℕ), copyHeaderValue body name'.bytes capacity = [] := by
  obtain ⟨hsec, hmax⟩ := hs.isSection
  by_cases hsettled : Settled s
  · refine ⟨List.replicate (declaredLength s []) 120, ?_, fun name' capacity =>
      copyHeaderValue_letters name' (by decide) (by decide) _ _⟩
    exact accepted_of_length hsec hsettled List.length_replicate
      (by rw [List.length_replicate]; exact hmax hsettled)
  · have hsmall := hroom.resolve_left hsettled
    refine ⟨[], accepted_at_once hsec ?_ (by rw [List.length_nil]; omega), fun name' capacity => ?_⟩
    · obtain ⟨blanks, hblanks, hlength⟩ := not_settled hsettled []
      rw [hlength, text, List.takeWhile_nil, List.append_nil, strtoull, hblanks]
      decide
    · rw [copyHeaderValue, dif_pos rfl]

/-- A header the section does not decide can be given a value of letters by the body. -/
theorem exists_planted {s : Bytes} (hs : Received s) {name : HeaderName} (hroom : HasRoom s name)
    (hd : ¬ Decides s name) :
    ∃ n > 0, ∀ letter : Byte, isBlank letter = false → letter ≠ 13 → letter ≠ 10 →
      ∃ body, Accepted (s ++ body) ∧
        ∀ capacity, copyHeaderValue body name.bytes capacity =
          List.replicate (min n (capacity - 1)) letter := by
  obtain ⟨hsec, hmax⟩ := hs.isSection
  rw [Decides, not_or] at hd
  by_cases hsettled : Settled s
  · -- the body is one line of the declared length
    have hlong : name.bytes.length + 2 ≤ declaredLength s [] := by
      by_contra h
      exact hd.2 ⟨hsettled, by omega⟩
    obtain ⟨n, hn⟩ := Nat.exists_eq_add_of_le hlong
    refine ⟨n + 1, Nat.succ_pos n, fun letter hblank hcr hlf =>
      ⟨headerLine name letter (n + 1), ?_, fun capacity =>
        copyHeaderValue_headerLine name hblank hcr hlf n capacity⟩⟩
    have hlength : (headerLine name letter (n + 1)).length = declaredLength s [] := by
      simp only [headerLine, List.length_append, List.length_cons, List.length_replicate]
      omega
    exact accepted_of_length hsec hsettled hlength (hlength ▸ hmax hsettled)
  · -- the body begins with its own length
    have hsmall := hroom.resolve_left hsettled
    have hdigits : (decimal (name.bytes.length + 30)).length ≤ 5 := by
      rw [decimal, List.length_map, Nat.length_toDigits_le_iff (by decide) (by decide)]
      omega
    obtain ⟨n, hn⟩ := Nat.exists_eq_add_of_le hdigits
    refine ⟨22 + n, by omega, fun letter hblank hcr hlf =>
      ⟨decimal (name.bytes.length + 30) ++ (crlf ++ headerLine name letter (21 + n + 1)), ?_,
        fun capacity => ?_⟩⟩
    · have hlength : (decimal (name.bytes.length + 30) ++
          (crlf ++ headerLine name letter (21 + n + 1))).length = name.bytes.length + 30 := by
        simp only [headerLine, List.length_append, List.length_cons, List.length_replicate,
          show crlf.length = 2 from rfl]
        omega
      refine accepted_at_once hsec ?_ (by rw [hlength]; omega)
      obtain ⟨blanks, hblanks, hdeclared⟩ := not_settled hsettled
        (decimal (name.bytes.length + 30) ++ (crlf ++ headerLine name letter (21 + n + 1)))
      rw [hdeclared, hlength, text_append (not_mem_decimal (by decide)), text_append (by decide)]
      exact strtoull_decimal hblanks (by rw [ullongMax]; omega) rfl
    · rw [copyHeaderValue_skip (not_mem_decimal (by decide)) (not_mem_decimal (by decide))
        (not_mem_decimal (by decide)), copyHeaderValue_headerLine name hblank hcr hlf]
      rw [show 21 + n + 1 = 22 + n by omega]

/-! ### Agreement -/

/-- A header the section decides has one value in all accepted requests. -/
theorem agree_of_decides {s : Bytes} {name : HeaderName} (hd : Decides s name) :
    Agree s fun request => copyHeaderValue request name.bytes := by
  have hvalue : ∀ request, Accepted request → headerSection request = s →
      copyHeaderValue request name.bytes = fun capacity =>
        if HasLine s name then copyHeaderValue s name.bytes capacity else [] := by
    intro request hacc hsection
    obtain ⟨body, hrequest, hlength⟩ := exists_body_of_section hacc hsection
    have hs := (show Received s from ⟨request, hacc, hsection⟩).isSection.1
    funext capacity
    rw [hrequest, copyHeaderValue_append hs]
    rcases hd with hline | ⟨hsettled, hshort⟩
    · rw [if_pos hline, if_pos hline]
    · have hbody : body.length < name.bytes.length + 2 := by rw [hlength hsettled]; exact hshort
      rw [copyHeaderValue_short capacity hbody]
  intro request request' hacc hacc' hsection hsection'
  exact (hvalue request hacc hsection).trans (hvalue request' hacc' hsection').symm

/-- What the scan finds in the body is the value when the section has no line of that name. -/
theorem copyHeaderValue_body {s : Bytes} (hs : IsSection s) {name : HeaderName}
    (hline : ¬ HasLine s name) (body : Bytes) :
    copyHeaderValue (s ++ body) name.bytes = copyHeaderValue body name.bytes := by
  funext capacity
  rw [copyHeaderValue_append hs, if_neg hline]

/-- A header the section does not decide has different values in two accepted requests, and `f`
tells them apart when it tells a value of letters from none. -/
theorem not_agree {α : Type*} {s : Bytes} (hs : Received s) {name : HeaderName}
    (hroom : HasRoom s name) (hd : ¬ Decides s name) {f : Bytes → α} {g : (ℕ → Bytes) → α}
    (hf : ∀ request, f request = g (copyHeaderValue request name.bytes))
    (hg : ∀ n > 0, g (fun capacity => List.replicate (min n (capacity - 1)) 120) ≠ g fun _ => []) :
    ¬ Agree s f := by
  intro hagree
  have hsec := hs.isSection.1
  obtain ⟨plain, hplain, hnone⟩ := exists_plain hs hroom
  obtain ⟨n, hn, hletters⟩ := exists_planted hs hroom hd
  obtain ⟨body, hbody, hvalue⟩ := hletters 120 (by decide) (by decide) (by decide)
  have heq := hagree _ _ hbody hplain (headerSection_append hsec _) (headerSection_append hsec _)
  have hline : ¬ HasLine s name := fun h => hd (.inl h)
  rw [hf, hf, copyHeaderValue_body hsec hline, copyHeaderValue_body hsec hline,
    funext hvalue, funext (hnone name)] at heq
  exact hg n hn heq

theorem decides_of_agree {s : Bytes} (hs : Received s) {name : HeaderName}
    (hroom : HasRoom s name) (h : Agree s fun request => copyHeaderValue request name.bytes) :
    Decides s name := by
  by_contra hd
  refine not_agree hs hroom hd (g := id) (fun _ => rfl) (fun n hn heq => ?_) h
  have := congrFun heq 2
  simp only [id_eq, List.replicate_eq_nil_iff] at this
  omega

theorem origin_agree {s : Bytes} (hd : Decides s .origin) : Agree s requestOrigin := by
  intro request request' hacc hacc' hsection hsection'
  have heq := agree_of_decides hd request request' hacc hacc' hsection hsection'
  exact congrArg (fun value => text (value 512)) heq

theorem decides_of_origin_agree {s : Bytes} (hs : Received s) (hroom : HasRoom s .origin)
    (h : Agree s requestOrigin) : Decides s .origin := by
  by_contra hd
  refine not_agree hs hroom hd (g := fun value => text (value 512)) (fun _ => rfl)
    (fun n hn heq => ?_) h
  have hnul : (0 : Byte) ∉ List.replicate (min n 511) (120 : Byte) := by
    rw [List.mem_replicate]
    exact fun h => absurd h.2 (by decide)
  have hnil : text (List.replicate (min n 511) 120) = [] := heq
  rw [text_eq_self hnul, List.replicate_eq_nil_iff] at hnil
  omega

/-! ### The decision of `authorized` -/

/-- The request line ends in the section: it has the two blanks around the path. -/
def HasPath (s : Bytes) : Prop := 2 ≤ s.count space

instance (s : Bytes) : Decidable (HasPath s) := inferInstanceAs (Decidable (_ ≤ _))

theorem copyRequestPath_append {s : Bytes} (h : HasPath s) (t : Bytes) (capacity : ℕ) :
    copyRequestPath (s ++ t) capacity = copyRequestPath s capacity := by
  have hmem : space ∈ s := List.count_pos_iff.mp (by have : 2 ≤ s.count space := h; omega)
  obtain ⟨a, b, rfl, ha⟩ := List.eq_append_cons_of_mem hmem
  have hcount : 2 ≤ (a ++ space :: b).count space := h
  rw [List.count_append, List.count_cons_self, List.count_eq_zero_of_not_mem ha] at hcount
  have hmem' : space ∈ b := List.count_pos_iff.mp (by omega)
  obtain ⟨c, d, rfl, hc⟩ := List.eq_append_cons_of_mem hmem'
  have hfirst (u : Bytes) : find [space] (a ++ space :: u) = some a.length :=
    find_cons_append _ ha (List.prefix_append [space] u)
  have hsecond (u : Bytes) : find [space] (c ++ space :: u) = some c.length :=
    find_cons_append _ hc (List.prefix_append [space] u)
  have hdrop (u : Bytes) : (a ++ space :: u).drop (a.length + 1) = u := by
    rw [← List.drop_drop, List.drop_left]
    rfl
  simp only [copyRequestPath, List.append_assoc, List.cons_append, hfirst, hdrop, hsecond,
    List.take_left]

theorem publicPath_append {s : Bytes} (hs : IsSection s) (h : HasPath s) (getenv : Environment)
    (t : Bytes) : publicPath getenv (s ++ t) = publicPath getenv s := by
  have hget : ascii "GET " <+: s ++ t ↔ ascii "GET " <+: s := by
    constructor
    · intro hp
      exact List.prefix_of_prefix_length_le hp (List.prefix_append s t) hs.length_eq.2
    · intro hp
      exact hp.trans (List.prefix_append s t)
  simp only [publicPath, copyRequestPath_append h, hget]

/-- The section decides the value the keys are compared with. -/
def DecidesKey (s : Bytes) : Prop :=
  copyHeaderValue s (ascii "Authorization") 2048 ≠ [] ∨
    Decides s .authorization ∧ Decides s .xApiKey

instance (s : Bytes) : Decidable (DecidesKey s) := inferInstanceAs (Decidable (_ ∨ _))

theorem hasLine_of_value {s : Bytes} {name : HeaderName} {capacity : ℕ}
    (h : copyHeaderValue s name.bytes capacity ≠ []) : HasLine s name := by
  by_contra hline
  have hnone : (scanLines s).find? (isNamed name.bytes) = none :=
    List.find?_eq_none.mpr fun line hmem hnamed => hline ⟨line, hmem, hnamed⟩
  rw [copyHeaderValue_eq, hnone] at h
  exact h rfl

theorem authorization_agree {s : Bytes} (hd : DecidesKey s) : Agree s authorization := by
  intro request request' hacc hacc' hsection hsection'
  rcases hd with hvalue | ⟨hauth, hkey⟩
  · have hline : HasLine s .authorization := hasLine_of_value hvalue
    have heq : ∀ request, Accepted request → headerSection request = s →
        authorization request = copyHeaderValue s (ascii "Authorization") 2048 := by
      intro request hacc hsection
      obtain ⟨body, hrequest, -⟩ := exists_body_of_section hacc hsection
      have hs := (show Received s from ⟨request, hacc, hsection⟩).isSection.1
      have happend := copyHeaderValue_append hs body .authorization 2048
      rw [if_pos hline, ← hrequest] at happend
      have happend' : copyHeaderValue request (ascii "Authorization") 2048 =
        copyHeaderValue s (ascii "Authorization") 2048 := happend
      rw [authorization, happend', if_neg hvalue]
    rw [heq request hacc hsection, heq request' hacc' hsection']
  · have h₁ : copyHeaderValue request (ascii "Authorization") =
        copyHeaderValue request' (ascii "Authorization") :=
      agree_of_decides hauth request request' hacc hacc' hsection hsection'
    have h₂ : copyHeaderValue request (ascii "X-Api-Key") =
        copyHeaderValue request' (ascii "X-Api-Key") :=
      agree_of_decides hkey request request' hacc hacc' hsection hsection'
    simp only [authorization, h₁, h₂]

/-- The section decides the path: the request line ends in it, or there is no body. -/
def DecidesPath (s : Bytes) : Prop := HasPath s ∨ Settled s ∧ declaredLength s [] = 0

instance (s : Bytes) : Decidable (DecidesPath s) := inferInstanceAs (Decidable (_ ∨ _))

/-- A section that decides the path and the value of the key decides who is let in. -/
theorem authorized_agree {s : Bytes} (hpath : DecidesPath s) (hd : DecidesKey s) (host : Host) :
    Agree s (authorized host) := by
  intro request request' hacc hacc' hsection hsection'
  rcases hpath with hpath | ⟨hsettled, hzero⟩
  case inr =>
    have hself : ∀ request, Accepted request → headerSection request = s → request = s := by
      intro request hacc hsection
      obtain ⟨body, hrequest, hlength⟩ := exists_body_of_section hacc hsection
      have hnil : body = [] := List.eq_nil_of_length_eq_zero ((hlength hsettled).trans hzero)
      rw [hrequest, hnil, List.append_nil]
    rw [hself request hacc hsection, hself request' hacc' hsection']
  have hpublic : ∀ request, Accepted request → headerSection request = s →
      publicPath host.getenv request = publicPath host.getenv s := by
    intro request hacc hsection
    obtain ⟨body, hrequest, -⟩ := exists_body_of_section hacc hsection
    have hs := (show Received s from ⟨request, hacc, hsection⟩).isSection.1
    rw [hrequest, publicPath_append hs hpath]
  have hvalue := authorization_agree hd request request' hacc hacc' hsection hsection'
  simp only [authorized, hpublic request hacc hsection, hpublic request' hacc' hsection', hvalue]

/-! ### A host that tells keys apart -/

/-- A host with one key and a prefix for its paths. -/
def keyHost (apiPrefix key : Bytes) : Host where
  getenv := fun name =>
    if name = "LLAMA_API_KEY" then some key
    else if name = "FORTAI_API_PREFIX" then some apiPrefix
    else none
  file := fun _ => none

/-- A path begins with at most one of two prefixes, so it is not public behind the other. -/
theorem exists_private (request : Bytes) :
    ∃ apiPrefix, ∀ key, publicPath (keyHost apiPrefix key).getenv request = false := by
  have hprefix (key apiPrefix : Bytes) (h : apiPrefix = ascii "/a" ∨ apiPrefix = ascii "/b")
      (hpath : ¬ apiPrefix <+: text (copyRequestPath request 2048)) :
      publicPath (keyHost apiPrefix key).getenv request = false := by
    have hun : unprefixed (keyHost apiPrefix key).getenv (text (copyRequestPath request 2048)) =
        none := by
      have hget : (keyHost apiPrefix key).getenv "FORTAI_API_PREFIX" = some apiPrefix := rfl
      rcases h with rfl | rfl
      · have hnormal : trimSlashes (ascii "/a") = ascii "/a" := by decide
        have h1 : ¬ (ascii "/a" = [] ∨ ascii "/a" = ascii "/") := by decide
        have h2 : ¬ 2048 ≤ (ascii "/a").length := by decide
        have h3 : (ascii "/a").head? = some 47 := by decide
        simp only [unprefixed, hget, if_neg h1, if_neg h2, if_pos h3, hnormal, if_pos hpath]
      · have hnormal : trimSlashes (ascii "/b") = ascii "/b" := by decide
        have h1 : ¬ (ascii "/b" = [] ∨ ascii "/b" = ascii "/") := by decide
        have h2 : ¬ 2048 ≤ (ascii "/b").length := by decide
        have h3 : (ascii "/b").head? = some 47 := by decide
        simp only [unprefixed, hget, if_neg h1, if_neg h2, if_pos h3, hnormal, if_pos hpath]
    rw [publicPath, hun]
    split_ifs <;> rfl
  by_cases ha : ascii "/a" <+: text (copyRequestPath request 2048)
  · refine ⟨ascii "/b", fun key => hprefix key _ (.inr rfl) fun hb => ?_⟩
    have := (List.prefix_of_prefix_length_le ha hb (by decide)).eq_of_length (by decide)
    exact absurd this (by decide)
  · exact ⟨ascii "/a", fun key => hprefix key _ (.inl rfl) ha⟩

/-- A key of letters is one entry of the configured list. -/
theorem keyEquals_letters {letter : Byte} (hblank : isTrailing letter = false)
    (hcomma : letter ≠ comma) (n : ℕ) (key : Bytes) :
    keyEquals (List.replicate (n + 1) letter) key =
      some (decide (key = List.replicate (n + 1) letter)) := by
  have hskip : (isBlank letter || decide (letter = comma)) = false := by
    simp only [isTrailing, Bool.or_eq_false_iff] at hblank
    simp [hblank.1.1, hcomma]
  have hdrop : (List.replicate (n + 1) letter).dropWhile (fun b => isBlank b || b = comma) =
      List.replicate (n + 1) letter := by
    rw [List.replicate_succ, List.dropWhile_cons_of_neg (by simp [hskip])]
  have hentry : nextEntry isTrailing (List.replicate (n + 1) letter) =
      List.replicate (n + 1) letter := by
    have htake : (List.replicate (n + 1) letter).takeWhile (· ≠ comma) =
        List.replicate (n + 1) letter := by
      refine List.takeWhile_eq_self_iff.mpr fun b hb => ?_
      rw [(List.mem_replicate.mp hb).2]
      exact decide_eq_true hcomma
    have htrim : (List.replicate (n + 1) letter).rdropWhile isTrailing =
        List.replicate (n + 1) letter := by
      refine List.rdropWhile_eq_self_iff.mpr fun h => ?_
      rw [List.getLast_replicate, hblank]
      exact Bool.false_ne_true
    rw [nextEntry, hdrop, htake]
    exact htrim
  have hafter : afterEntry isTrailing (List.replicate (n + 1) letter) = [] := by
    rw [afterEntry, hdrop, hentry, List.drop_length]
  rw [keyEquals, dif_neg (by simp), hentry, hafter]
  by_cases hkey : key = List.replicate (n + 1) letter
  · rw [if_pos hkey.symm, decide_eq_true hkey]
  · rw [if_neg fun h => hkey h.symm, dif_pos (by simp), keyEquals, dif_pos rfl,
      decide_eq_false hkey]

/-- Behind its private prefix the host lets in who has the key. -/
theorem authorized_keyHost {apiPrefix request : Bytes} {letter : Byte} {n : ℕ}
    (hprivate : publicPath (keyHost apiPrefix (List.replicate (n + 1) letter)).getenv request = false)
    (hblank : isTrailing letter = false) (hcomma : letter ≠ comma) :
    authorized (keyHost apiPrefix (List.replicate (n + 1) letter)) request =
      some (decide (authorization request ≠ [] ∧
        candidate (authorization request) = List.replicate (n + 1) letter)) := by
  have hkeys : configuredKeys (keyHost apiPrefix (List.replicate (n + 1) letter)).getenv =
      List.replicate (n + 1) letter := by
    simp [configuredKeys, firstSet, keyHost]
  have hfile : keyFile (keyHost apiPrefix (List.replicate (n + 1) letter)).getenv = [] := by
    simp [keyFile, firstSet, keyHost]
  have hne : List.replicate (n + 1) letter ≠ [] := by simp
  have hclean (b : Byte) (hb : isTrailing b = true) : b ∉ List.replicate (n + 1) letter := by
    rw [List.mem_replicate]
    rintro ⟨-, rfl⟩
    rw [hblank] at hb
    exact Bool.noConfusion hb
  rw [authorized, hprivate, hkeys, hfile]
  simp only [Bool.false_eq_true, if_false, hne, false_and, ne_eq, not_true_eq_false,
    keyEquals_letters hblank hcomma, decide_false]
  by_cases hnone : authorization request = []
  · simp only [hnone, if_true, not_true_eq_false, false_and, decide_false]
  · by_cases hkey : candidate (authorization request) = List.replicate (n + 1) letter
    · have hbad : ¬ (List.replicate (n + 1) letter = [] ∨ 13 ∈ List.replicate (n + 1) letter ∨
          10 ∈ List.replicate (n + 1) letter) := by
        rintro (h | h | h)
        · exact hne h
        · exact hclean 13 (by decide) h
        · exact hclean 10 (by decide) h
      simp only [hnone, if_false, hkey, if_neg hbad, decide_true, not_false_eq_true, and_self]
    · simp only [hnone, if_false, hkey, decide_false, and_false]
      split_ifs <;> rfl

/-- A value of letters is a key. -/
theorem candidate_letters {letter : Byte} (hnul : letter ≠ 0) (hblank : isBlank letter = false)
    (hb : lower letter ≠ 98) (n : ℕ) :
    candidate (List.replicate (n + 1) letter) = List.replicate (n + 1) letter := by
  have hno : (0 : Byte) ∉ List.replicate (n + 1) letter := by
    rw [List.mem_replicate]
    exact fun h => hnul h.2.symm
  have hbearer : startsNoCase (ascii "Bearer ") (List.replicate (n + 1) letter) = false := by
    refine not_startsNoCase 1 (by decide) ?_
    rw [List.replicate_succ]
    show [lower letter] ≠ [98]
    simpa using hb
  rw [candidate, text_eq_self hno]
  simp only [hbearer, Bool.false_eq_true, if_false]
  rw [List.replicate_succ, List.dropWhile_cons_of_neg (by simp [hblank])]

/-- Two keys cannot both be what one request offers: if bodies can offer either, and one offers
neither by a header, then the decision depends on the body. -/
theorem not_authorized_agree {s : Bytes} (hs : Received s) (hpath : HasPath s) {n : ℕ}
    {plain body body' : Bytes} (hplain : Accepted (s ++ plain)) (hbody : Accepted (s ++ body))
    (hbody' : Accepted (s ++ body'))
    (hvalue : authorization (s ++ body) = List.replicate (n + 1) 107)
    (hvalue' : authorization (s ++ body') = List.replicate (n + 1) 106) :
    ¬ ∀ host, Agree s (authorized host) := by
  intro hagree
  have hsec := hs.isSection.1
  obtain ⟨apiPrefix, hprivate⟩ := exists_private s
  have hoffers (letter : Byte) (hblank : isTrailing letter = false) (hcomma : letter ≠ comma)
      (hnul : letter ≠ 0) (hb : lower letter ≠ 98) (b : Bytes) (hb' : Accepted (s ++ b))
      (hoffer : authorization (s ++ b) = List.replicate (n + 1) letter) :
      candidate (authorization (s ++ plain)) = List.replicate (n + 1) letter := by
    have hblank' : isBlank letter = false := by
      simp only [isTrailing, Bool.or_eq_false_iff] at hblank
      exact hblank.1.1
    have heq := hagree (keyHost apiPrefix (List.replicate (n + 1) letter)) _ _ hb' hplain
      (headerSection_append hsec _) (headerSection_append hsec _)
    have hclosed (t : Bytes) : publicPath
        (keyHost apiPrefix (List.replicate (n + 1) letter)).getenv (s ++ t) = false := by
      rw [publicPath_append hsec hpath, hprivate]
    have hcandidate : candidate (authorization (s ++ b)) = List.replicate (n + 1) letter := by
      rw [hoffer, candidate_letters hnul hblank' hb]
    have hne : authorization (s ++ b) ≠ [] := by rw [hoffer]; simp
    rw [authorized_keyHost (hclosed b) hblank hcomma,
      authorized_keyHost (hclosed plain) hblank hcomma, decide_eq_true ⟨hne, hcandidate⟩,
      Option.some.injEq] at heq
    exact (of_decide_eq_true heq.symm).2
  have h107 := hoffers 107 (by decide) (by decide) (by decide) (by decide) body hbody hvalue
  have h106 := hoffers 106 (by decide) (by decide) (by decide) (by decide) body' hbody' hvalue'
  rw [h107, List.replicate_succ, List.replicate_succ, List.cons.injEq] at h106
  exact absurd h106.1 (by decide)

/-- If every host decides alike about all accepted requests with that section, the section decides
the value the keys are compared with. -/
theorem decidesKey_of_agree {s : Bytes} (hs : Received s) (hpath : DecidesPath s)
    (hauth : HasRoom s .authorization) (hkey : HasRoom s .xApiKey)
    (h : ∀ host, Agree s (authorized host)) : DecidesKey s := by
  rcases hpath with hpath | ⟨hsettled, hzero⟩
  case inr => exact .inr ⟨.inr ⟨hsettled, by omega⟩, .inr ⟨hsettled, by omega⟩⟩
  by_contra hd
  rw [DecidesKey, not_or, not_not, not_and_or] at hd
  obtain ⟨hnil, hd⟩ := hd
  have hsec := hs.isSection.1
  by_cases hda : Decides s .authorization
  · have hdk := hd.resolve_left (not_not.mpr hda)
    have hline : ¬ HasLine s .xApiKey := fun h => hdk (.inl h)
    obtain ⟨plain, hplain, hnone⟩ := exists_plain hs hkey
    obtain ⟨n, hn, hletters⟩ := exists_planted hs hkey hdk
    obtain ⟨body, hbody, hvalue⟩ := hletters 107 (by decide) (by decide) (by decide)
    obtain ⟨body', hbody', hvalue'⟩ := hletters 106 (by decide) (by decide) (by decide)
    obtain ⟨m, hm⟩ := Nat.exists_eq_succ_of_ne_zero (by omega : min n (2048 - 1) ≠ 0)
    -- no body gives `Authorization` a value
    have hempty (b : Bytes) (hb : Accepted (s ++ b)) :
        copyHeaderValue (s ++ b) (ascii "Authorization") 2048 = [] := by
      have heq := congrFun (agree_of_decides hda _ _ hb hplain (headerSection_append hsec _)
        (headerSection_append hsec _)) 2048
      have happend := copyHeaderValue_append hsec plain .authorization 2048
      have hplain' : copyHeaderValue (s ++ plain) HeaderName.authorization.bytes 2048 = [] := by
        rw [happend, hnone]
        split_ifs
        · exact hnil
        · rfl
      exact heq.trans hplain'
    have hoffer (b : Bytes) (hb : Accepted (s ++ b)) :
        authorization (s ++ b) = copyHeaderValue b HeaderName.xApiKey.bytes 2048 := by
      rw [authorization, if_pos (hempty b hb)]
      exact congrFun (copyHeaderValue_body hsec hline b) 2048
    refine not_authorized_agree hs hpath (n := m) hplain hbody hbody' ?_ ?_ h
    · rw [hoffer body hbody, hvalue, hm]
    · rw [hoffer body' hbody', hvalue', hm]
  · have hline : ¬ HasLine s .authorization := fun h => hda (.inl h)
    obtain ⟨plain, hplain, -⟩ := exists_plain hs hauth
    obtain ⟨n, hn, hletters⟩ := exists_planted hs hauth hda
    obtain ⟨body, hbody, hvalue⟩ := hletters 107 (by decide) (by decide) (by decide)
    obtain ⟨body', hbody', hvalue'⟩ := hletters 106 (by decide) (by decide) (by decide)
    obtain ⟨m, hm⟩ := Nat.exists_eq_succ_of_ne_zero (by omega : min n (2048 - 1) ≠ 0)
    have hoffer (b : Bytes) {letter : Byte}
        (hb : copyHeaderValue b HeaderName.authorization.bytes 2048 =
          List.replicate (m + 1) letter) :
        authorization (s ++ b) = List.replicate (m + 1) letter := by
      have hval : copyHeaderValue (s ++ b) (ascii "Authorization") 2048 =
          List.replicate (m + 1) letter := by
        rw [← hb]
        exact congrFun (copyHeaderValue_body hsec hline b) 2048
      rw [authorization, hval, if_neg (by simp)]
    refine not_authorized_agree hs hpath (n := m) hplain hbody hbody' ?_ ?_ h
    · exact hoffer body (by rw [hvalue, hm])
    · exact hoffer body' (by rw [hvalue', hm])

/-- **When headers come from the header section.**  For the section of any accepted request: a
header it decides has one value in all accepted requests with that section, and the `Origin` of the
reply with it; when it decides the path and the value of the key, every host decides alike about all
of them.  Where a body with such a line has room, each of these conditions is also necessary. -/
theorem section_decides {s : Bytes} (hs : Received s) :
    (∀ name : HeaderName,
      (Decides s name → Agree s fun request => copyHeaderValue request name.bytes) ∧
        (HasRoom s name → (Agree s fun request => copyHeaderValue request name.bytes) →
          Decides s name)) ∧
      ((Decides s .origin → Agree s requestOrigin) ∧
        (HasRoom s .origin → Agree s requestOrigin → Decides s .origin)) ∧
      (DecidesPath s →
        (DecidesKey s → ∀ host, Agree s (authorized host)) ∧
          (HasRoom s .authorization → HasRoom s .xApiKey → (∀ host, Agree s (authorized host)) →
            DecidesKey s)) := by
  refine ⟨fun name => ⟨agree_of_decides, decides_of_agree hs⟩,
    ⟨origin_agree, decides_of_origin_agree hs⟩, fun hpath => ⟨?_, ?_⟩⟩
  · intro hd host
    exact authorized_agree hpath hd host
  · intro hauth hkey h
    exact decidesKey_of_agree hs hpath hauth hkey h

/-- A section with an `Origin` line, which leaves room for a key in the body. -/
def originSection : Bytes :=
  ascii "POST /a HTTP/1.1\r\nOrigin: http://a\r\nContent-Length: 16\r\n\r\n"

theorem section_decides_origin :
    Agree originSection requestOrigin ∧
      ¬ Agree originSection
        fun request => copyHeaderValue request HeaderName.authorization.bytes := by
  have hs : Received originSection :=
    ⟨originSection ++ ascii "0123456789abcdef",
      ⟨fun _ => true, [.received 40, .received 40], originSection ++ ascii "0123456789abcdef",
        by decide +kernel⟩, by decide +kernel⟩
  refine ⟨(section_decides hs).2.1.1 (by decide +kernel), fun hagree => ?_⟩
  have hno : ¬ Decides originSection .authorization := by decide +kernel
  exact hno (((section_decides hs).1 .authorization).2 (by decide +kernel) hagree)

/-- A host whose key is `k`. -/
def oneKey : Host where
  getenv := fun name => if name = "LLAMA_API_KEY" then some (ascii "k") else none
  file := fun _ => none

/-- A request with a body of 22 bytes. -/
def post (body : String) : Bytes :=
  ascii "POST /v1/completions HTTP/1.1\r\nContent-Length: 22\r\n\r\n" ++ ascii body

/-- Three accepted requests with one header section: the body of the second is taken for its
`Authorization` header and lets it in, that of the third for its `Origin`. -/
theorem header_from_body :
    (Accepted (post "xxxxxxxxxxxxxxxxxxxxxx") ∧ Accepted (post "Authorization:Bearer k") ∧
      Accepted (post "Origin: http://evil.ab")) ∧
      headerSection (post "Authorization:Bearer k") =
        headerSection (post "xxxxxxxxxxxxxxxxxxxxxx") ∧
      headerSection (post "Origin: http://evil.ab") =
        headerSection (post "xxxxxxxxxxxxxxxxxxxxxx") ∧
      copyHeaderValue (post "Authorization:Bearer k") (ascii "Authorization") 2048 ≠
        copyHeaderValue (post "xxxxxxxxxxxxxxxxxxxxxx") (ascii "Authorization") 2048 ∧
      requestOrigin (post "Origin: http://evil.ab") ≠
        requestOrigin (post "xxxxxxxxxxxxxxxxxxxxxx") ∧
      authorized oneKey (post "xxxxxxxxxxxxxxxxxxxxxx") = some false ∧
      authorized oneKey (post "Authorization:Bearer k") = some true := by
  have haccepted (body : String)
      (h : readRequest (fun _ => true) [.received 65536] (post body) = some (post body)) :
      Accepted (post body) :=
    ⟨fun _ => true, [.received 65536], post body, h⟩
  refine ⟨⟨haccepted _ (by decide +kernel), haccepted _ (by decide +kernel),
    haccepted _ (by decide +kernel)⟩, ?_⟩
  decide +kernel

end Http

end FortAI
