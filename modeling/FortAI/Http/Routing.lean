import FortAI.Http.Prefix

/-!
# The routing of a request

`route` names the branch of `fortai_native_http_handle` that answers a request, from the request
line on (a Whisper model has a handler of its own, to which the request goes before that).  The
authorization has read the same request line with `copyRequestPath`, into a buffer of 2048 bytes.

* `copyRequestPath_of_parsed` : the authorization tests the first 2047 bytes of the path the router
  parses.
* `isPublic_eq_false_iff` : the branches that are not public, and the requests they answer.
* `publicPath_iff` : when the authorization takes a protected path for a public one.
* `sound_iff` : without a key, a protected branch is reached exactly by the requests of `CutOff`.
-/

namespace FortAI

namespace Http

open CString Character

/-! ### The request line -/

structure Parsed where
  method : Bytes
  path : Bytes
  body : Bytes
  deriving DecidableEq

/-- `parse_http_request`; `none` when it is not `okay`. -/
def parseHttpRequest (raw : Bytes) : Option Parsed :=
  let firstSpace := index raw [space]
  if firstSpace ≤ 1 then none
  else
    let secondSpace := index (raw.drop firstSpace) [space]
    if secondSpace ≤ 1 then none
    else
      let headerEnd := index raw (crlf ++ crlf)
      if headerEnd = 0 then none
      else
        let line := (raw.drop firstSpace).take (secondSpace - 1)
        let query := index line (ascii "?")
        some {
          method := raw.take (firstSpace - 1)
          path := if 0 < query then line.take (query - 1) else line
          body := raw.drop (headerEnd + 3) }

/-! ### The branches -/

/-- The branches of `fortai_native_http_handle`. -/
inductive Route where
  | malformed | metrics | staticFile | webUi | webUiDisabled | health | props | propsUpdate
  | slots | tokenize | detokenize | applyTemplate | models | completion | notAvailable
  deriving DecidableEq

/-- The web UI, the health report, the model list, a static file, or an error body. -/
def Route.isPublic : Route → Bool
  | .malformed | .staticFile | .webUi | .webUiDisabled | .health | .models | .notAvailable => true
  | .metrics | .props | .propsUpdate | .slots | .tokenize | .detokenize | .applyTemplate
  | .completion => false

/-- `server_web_ui_enabled` -/
def serverWebUiEnabled (getenv : Environment) : Bool :=
  let primary := (getenv "FORTAI_NO_WEBUI").getD []
  let value := if primary = [] then (getenv "LLAMACPP_NO_WEBUI").getD [] else primary
  if 0 < value.length ∧ value.length ≤ 16 then
    ¬ same (trim value) (ascii "1") ∧ ¬ same (trim value) (ascii "true")
  else true

/-- The media type `server_static_file` takes from the path. -/
def staticMime (path : Bytes) : Bytes :=
  if 0 < index path (ascii ".html") ∨ 0 < index path (ascii ".htm") then
    ascii "text/html; charset=utf-8"
  else if 0 < index path (ascii ".css") then ascii "text/css; charset=utf-8"
  else if 0 < index path (ascii ".js") then ascii "application/javascript; charset=utf-8"
  else if 0 < index path (ascii ".json") then ascii "application/json"
  else if 0 < index path (ascii ".txt") ∨ 0 < index path (ascii ".md") then
    ascii "text/plain; charset=utf-8"
  else if 0 < index path (ascii ".svg") then ascii "image/svg+xml"
  else if 0 < index path (ascii ".png") then ascii "image/png"
  else if 0 < index path (ascii ".jpg") ∨ 0 < index path (ascii ".jpeg") then ascii "image/jpeg"
  else if 0 < index path (ascii ".ico") then ascii "image/x-icon"
  else ascii "application/octet-stream"

/-- `server_static_file`: the contents of the file and its media type. -/
def serverStaticFile (host : Host) (path : Bytes) : Option (Bytes × Bytes) :=
  if path.head? ≠ some 47 ∨ 0 < index path (ascii "..") then none
  else
    let root := trim (serverTextDefault host.getenv "STATIC_PATH" [])
    if root = [] then none
    else
      let relative := if same path (ascii "/") then ascii "/index.html" else path
      let fileName :=
        if root.getLast? = some 47 then
          root ++ if 1 < relative.length then relative.tail else ascii "index.html"
        else root ++ relative
      match host.file fileName with
      | none => none
      | some bytes => if 67108864 < bytes.length then none else some (bytes, staticMime path)

/-- The static files come first on a GET. -/
def servesStatic (host : Host) (method path : Bytes) : Bool :=
  same method (ascii "GET") ∧ trim (serverTextDefault host.getenv "STATIC_PATH" []) ≠ [] ∧
    (serverStaticFile host path).isSome

/-- The chain of tests on `path_value` and the method. -/
def routePath (host : Host) (method path : Bytes) : Route :=
  if same path (ascii "/metrics") ∧ ¬ same method (ascii "POST") then .metrics
  else if servesStatic host method path then .staticFile
  else if same path (ascii "/") ∨ same path (ascii "/ui") ∨ same path (ascii "/index.html") then
    if serverWebUiEnabled host.getenv then .webUi else .webUiDisabled
  else if same path (ascii "/health") ∨ same path (ascii "/v1/health") then .health
  else if same path (ascii "/props") ∧ same method (ascii "GET") then .props
  else if same path (ascii "/props") ∧ same method (ascii "POST") then .propsUpdate
  else if same path (ascii "/slots") ∧ same method (ascii "GET") then .slots
  else if same path (ascii "/tokenize") ∧ same method (ascii "POST") then .tokenize
  else if same path (ascii "/detokenize") ∧ same method (ascii "POST") then .detokenize
  else if same path (ascii "/apply-template") ∧ same method (ascii "POST") then .applyTemplate
  else if (same path (ascii "/v1/models") ∨ ascii "/v1/models/" <+: path) ∧
      ¬ same method (ascii "POST") then .models
  else if ¬ same method (ascii "POST") ∨
      ¬ (same path (ascii "/v1/chat/completions") ∨ same path (ascii "/chat/completions") ∨
        same path (ascii "/v1/completions") ∨ same path (ascii "/completion") ∨
        same path (ascii "/v1/responses")) then .notAvailable
  else .completion

/-- The branch that answers a request. -/
def route (host : Host) (request : Bytes) : Route :=
  match parseHttpRequest request with
  | none => .malformed
  | some parsed => routePath host parsed.method (applyApiPrefix host.getenv parsed.path)

/-! ### The two parsers -/

theorem ascii_mark : ascii "?" = [63] := by decide

/-- The request line the parser accepts: a method, a blank, the target, a blank. -/
theorem exists_of_parsed {raw : Bytes} {parsed : Parsed} (h : parseHttpRequest raw = some parsed) :
    ∃ target rest, raw = parsed.method ++ space :: (target ++ space :: rest) ∧
      parsed.method ≠ [] ∧ space ∉ parsed.method ∧ target ≠ [] ∧ space ∉ target ∧
      parsed.path = target.takeWhile (· ≠ 63) := by
  unfold parseHttpRequest at h
  simp only [ascii_mark, take_index] at h
  split_ifs at h with hfirst hsecond hend
  obtain ⟨method, rest, rfl, hmethod, hindex⟩ := exists_of_index (s := raw) (c := space) (by omega)
  have hdrop : (method ++ space :: rest).drop (method.length + 1) = rest := by
    rw [← List.drop_drop, List.drop_left]
    rfl
  rw [hindex, hdrop] at h hsecond
  obtain ⟨target, rest, rfl, htarget, hindex'⟩ := exists_of_index (s := rest) (c := space) (by omega)
  rw [hindex', Nat.add_sub_cancel, Nat.add_sub_cancel, List.take_left, List.take_left,
    Option.some.injEq] at h
  subst h
  have hmethod' : method ≠ [] := by
    rintro rfl
    rw [hindex] at hfirst
    exact hfirst (Nat.le_refl 1)
  have htarget' : target ≠ [] := by
    rintro rfl
    rw [hindex'] at hsecond
    exact hsecond (Nat.le_refl 1)
  exact ⟨target, rest, rfl, hmethod', hmethod, htarget', htarget, rfl⟩

/-- The authorization tests the first 2047 bytes of the path the router parses. -/
theorem copyRequestPath_of_parsed {raw : Bytes} {parsed : Parsed}
    (h : parseHttpRequest raw = some parsed) (capacity : ℕ) :
    copyRequestPath raw capacity = parsed.path.take (capacity - 1) := by
  obtain ⟨target, rest, rfl, -, hmethod, -, htarget, hpath⟩ := exists_of_parsed h
  have hfirst := find_cons_append (s := parsed.method) (space :: (target ++ space :: rest)) hmethod
    (q := []) (List.prefix_append [space] _)
  have hsecond := find_cons_append (s := target) (space :: rest) htarget
    (q := []) (List.prefix_append [space] _)
  have hdrop : (parsed.method ++ space :: (target ++ space :: rest)).drop
      (parsed.method.length + 1) = target ++ space :: rest := by
    rw [← List.drop_drop, List.drop_left]
    rfl
  rw [copyRequestPath, hfirst]
  simp only [hdrop, hsecond, List.take_left, hpath]

theorem space_not_mem_path {raw : Bytes} {parsed : Parsed}
    (h : parseHttpRequest raw = some parsed) : space ∉ parsed.path := by
  obtain ⟨target, rest, -, -, -, -, htarget, hpath⟩ := exists_of_parsed h
  rw [hpath]
  exact fun hmem => htarget ((List.takeWhile_prefix _).subset hmem)

/-- Both tell a GET by the same bytes. -/
theorem get_of_parsed {raw : Bytes} {parsed : Parsed} (h : parseHttpRequest raw = some parsed) :
    ascii "GET " <+: raw ↔ parsed.method = ascii "GET" := by
  obtain ⟨target, rest, rfl, -, hmethod, -⟩ := exists_of_parsed h
  constructor
  · intro hget
    have hfind : find [space] (ascii "GET " ++ ([] : Bytes)) = some 3 := by decide
    obtain ⟨tail, htail⟩ := hget
    have hfirst := find_cons_append (s := parsed.method) (space :: (target ++ space :: rest))
      hmethod (q := []) (List.prefix_append [space] _)
    have hfirst' := find_append (List.cons_ne_nil space []) tail hfind
    rw [List.append_nil, htail, hfirst, Option.some.injEq] at hfirst'
    have := congrArg (List.take 3) htail
    rw [List.take_append_of_le_length hfirst'.ge, List.take_of_length_le hfirst'.le] at this
    exact this.symm
  · intro hget
    rw [hget]
    exact ⟨target ++ space :: rest, rfl⟩

/-! ### The protected branches -/

def getRoutes : List Bytes := [ascii "/props", ascii "/slots"]

def postRoutes : List Bytes :=
  [ascii "/props", ascii "/tokenize", ascii "/detokenize", ascii "/apply-template",
    ascii "/v1/chat/completions", ascii "/chat/completions", ascii "/v1/completions",
    ascii "/completion", ascii "/v1/responses"]

/-- The routes that only a key opens. -/
def Protected (method path : Bytes) : Prop :=
  path = ascii "/metrics" ∧ method ≠ ascii "POST" ∨
    method = ascii "GET" ∧ path ∈ getRoutes ∨ method = ascii "POST" ∧ path ∈ postRoutes

/-- A file of the static path answers in place of the branch. -/
def Shadowed (host : Host) (method path : Bytes) : Prop :=
  path ≠ ascii "/metrics" ∧ servesStatic host method path

theorem isPublic_of_protected {host : Host} {method path : Bytes} (hblank : space ∉ method)
    (h : Protected method path) (hfile : ¬ Shadowed host method path) :
    (routePath host method path).isPublic = false := by
  have hstatic (hne : path ≠ ascii "/metrics") : servesStatic host method path = false := by
    cases hserved : servesStatic host method path with
    | false => rfl
    | true => exact absurd ⟨hne, hserved⟩ hfile
  rcases h with ⟨rfl, hmethod⟩ | ⟨rfl, hpath⟩ | ⟨rfl, hpath⟩
  · have hpost : ¬ same method (ascii "POST") = true := fun hsame =>
      hmethod ((same_iff_eq hblank (by decide)).mp hsame)
    rw [routePath, if_pos ⟨by decide, hpost⟩]
    rfl
  · simp only [getRoutes, List.mem_cons, List.not_mem_nil, or_false] at hpath
    rcases hpath with rfl | rfl
    all_goals
      have := hstatic (by decide)
      rw [routePath, this]
      rfl
  · simp only [postRoutes, List.mem_cons, List.not_mem_nil, or_false] at hpath
    rcases hpath with rfl | rfl | rfl | rfl | rfl | rfl | rfl | rfl | rfl
    all_goals
      have := hstatic (by decide)
      rw [routePath, this]
      rfl

/-- One test of the chain. -/
theorem isPublic_ite {c : Prop} [Decidable c] {a b : Route}
    (h : (if c then a else b).isPublic = false) :
    c ∧ a.isPublic = false ∨ ¬ c ∧ b.isPublic = false := by
  split_ifs at h with hc
  · exact Or.inl ⟨hc, h⟩
  · exact Or.inr ⟨hc, h⟩

theorem protected_of_isPublic {host : Host} {method path : Bytes} (hmethod : space ∉ method)
    (hpath : space ∉ path) (h : (routePath host method path).isPublic = false) :
    Protected method path ∧ ¬ Shadowed host method path := by
  have heq {t : Bytes} (ht : space ∉ t) : same path t = true ↔ path = t := same_iff_eq hpath ht
  have hmeq {t : Bytes} (ht : space ∉ t) : same method t = true ↔ method = t :=
    same_iff_eq hmethod ht
  unfold routePath at h
  rcases isPublic_ite h with ⟨hmetrics, -⟩ | ⟨-, h⟩
  · have hroute := (heq (by decide)).mp hmetrics.1
    refine ⟨Or.inl ⟨hroute, fun hpost => hmetrics.2 ?_⟩, fun hshadow => hshadow.1 hroute⟩
    exact (hmeq (by decide)).mpr hpost
  rcases isPublic_ite h with ⟨-, h⟩ | ⟨hstatic, h⟩
  · exact Bool.noConfusion h
  refine ⟨?_, fun hshadow => hstatic hshadow.2⟩
  rcases isPublic_ite h with ⟨-, h⟩ | ⟨-, h⟩
  · rcases isPublic_ite h with ⟨-, h⟩ | ⟨-, h⟩
    · exact Bool.noConfusion h
    · exact Bool.noConfusion h
  rcases isPublic_ite h with ⟨-, h⟩ | ⟨-, h⟩
  · exact Bool.noConfusion h
  have hget {t : Bytes} (ht : space ∉ t) (hmem : t ∈ getRoutes)
      (htest : same path t = true ∧ same method (ascii "GET") = true) : Protected method path :=
    Or.inr (Or.inl ⟨(hmeq (by decide)).mp htest.2, (heq ht).mp htest.1 ▸ hmem⟩)
  have hpost {t : Bytes} (ht : space ∉ t) (hmem : t ∈ postRoutes)
      (htest : same path t = true ∧ same method (ascii "POST") = true) : Protected method path :=
    Or.inr (Or.inr ⟨(hmeq (by decide)).mp htest.2, (heq ht).mp htest.1 ▸ hmem⟩)
  rcases isPublic_ite h with ⟨htest, -⟩ | ⟨-, h⟩
  · exact hget (by decide) (by decide) htest
  rcases isPublic_ite h with ⟨htest, -⟩ | ⟨-, h⟩
  · exact hpost (by decide) (by decide) htest
  rcases isPublic_ite h with ⟨htest, -⟩ | ⟨-, h⟩
  · exact hget (by decide) (by decide) htest
  rcases isPublic_ite h with ⟨htest, -⟩ | ⟨-, h⟩
  · exact hpost (by decide) (by decide) htest
  rcases isPublic_ite h with ⟨htest, -⟩ | ⟨-, h⟩
  · exact hpost (by decide) (by decide) htest
  rcases isPublic_ite h with ⟨htest, -⟩ | ⟨-, h⟩
  · exact hpost (by decide) (by decide) htest
  rcases isPublic_ite h with ⟨-, h⟩ | ⟨-, h⟩
  · exact Bool.noConfusion h
  rcases isPublic_ite h with ⟨-, h⟩ | ⟨hnone, -⟩
  · exact Bool.noConfusion h
  rw [not_or, not_not, not_not] at hnone
  obtain ⟨hmethod, hroute⟩ := hnone
  rcases hroute with hroute | hroute | hroute | hroute | hroute
  all_goals exact hpost (by decide) (by decide) ⟨hroute, hmethod⟩

/-- All protected routes, whatever the method. -/
def protectedRoutes : List Bytes := ascii "/metrics" :: (getRoutes ++ postRoutes)

theorem mem_of_protected {method path : Bytes} (h : Protected method path) :
    path ∈ protectedRoutes := by
  rcases h with ⟨rfl, -⟩ | ⟨-, h⟩ | ⟨-, h⟩
  · exact List.mem_cons_self
  · exact List.mem_cons_of_mem _ (List.mem_append_left _ h)
  · exact List.mem_cons_of_mem _ (List.mem_append_right _ h)

/-- A protected route begins with a slash, has no blank, dot or NUL, and ends no public path. -/
theorem protectedRoutes_spec : ∀ r ∈ protectedRoutes,
    r.head? = some 47 ∧ (46 : Byte) ∉ r ∧ (0 : Byte) ∉ r ∧ space ∉ r ∧ r.length ≤ 20 ∧
      r ≠ ascii "/" ∧ r ≠ mismatchPath ∧ ∀ p ∈ publicPaths, ¬ r <:+ p := by
  decide +kernel

/-- Of the beginnings of a protected route, only the slash alone is a public path. -/
theorem take_mem_publicPaths {r : Bytes} (hr : r ∈ protectedRoutes) (k : ℕ) :
    r.take k ∈ publicPaths ↔ k = 1 := by
  have hshort : ∀ r ∈ protectedRoutes, ∀ k ≤ 20, r.take k ∈ publicPaths ↔ k = 1 := by
    decide +kernel
  by_cases hk : k ≤ 20
  · exact hshort r hr k hk
  · have hlength := (protectedRoutes_spec r hr).2.2.2.2.1
    rw [List.take_of_length_le (by omega), ← List.take_of_length_le hlength,
      hshort r hr 20 (Nat.le_refl 20)]
    omega

/-! ### What the authorization tests -/

/-- The path ends in the suffix of a static file. -/
def hasStaticSuffix (path : Bytes) : Bool :=
  match lastDot path with
  | none => false
  | some suffix => staticSuffixes.any (equalNoCase suffix)

/-- Behind the last dot there is no slash in the name of a static file. -/
theorem hasStaticSuffix_append (s : Bytes) {t : Bytes} (hdot : (46 : Byte) ∉ t)
    (hslash : (47 : Byte) ∈ t) : hasStaticSuffix (s ++ t) = false := by
  have hkeep : (s ++ t).rtakeWhile (· ≠ 46) = s.rtakeWhile (· ≠ 46) ++ t := by
    rw [List.rtakeWhile, List.reverse_append, List.takeWhile_append_of_pos, List.reverse_append,
      List.reverse_reverse]
    · rfl
    · intro b hb
      rw [decide_eq_true_eq]
      rintro rfl
      exact hdot (List.mem_reverse.mp hb)
  have hsuffix : ∀ name ∈ staticSuffixes, (47 : Byte) ∉ name.map lower := by decide +kernel
  rw [hasStaticSuffix, lastDot]
  split_ifs with hs
  · rw [hkeep]
    simp only
    rw [List.any_eq_false]
    intro name hname heq
    have hmap := of_decide_eq_true heq
    refine hsuffix name hname (hmap ▸ List.mem_map.mpr ⟨47, ?_, rfl⟩)
    exact List.mem_cons_of_mem _ (List.mem_append_right _ hslash)
  · rfl

/-- `fortai_public_path`, once the prefix is off. -/
def Tested (getenv : Environment) (get : Prop) (path : Bytes) : Prop :=
  path ∈ publicPaths ∨
    get ∧ safeEnv getenv "FORTAI_STATIC_PATH" [] ≠ [] ∧ hasStaticSuffix path = true

theorem publicPath_eq_true (getenv : Environment) (request : Bytes) :
    publicPath getenv request = true ↔ copyRequestPath request 2048 ≠ [] ∧
      ∃ path, unprefixed getenv (text (copyRequestPath request 2048)) = some path ∧
        Tested getenv (ascii "GET " <+: request) path := by
  rw [publicPath]
  by_cases hempty : copyRequestPath request 2048 = []
  · rw [if_pos hempty]
    exact ⟨fun h => Bool.noConfusion h, fun h => absurd hempty h.1⟩
  rw [if_neg hempty]
  cases unprefixed getenv (text (copyRequestPath request 2048)) with
  | none => exact ⟨fun h => Bool.noConfusion h, fun ⟨_, _, h, _⟩ => nomatch h⟩
  | some path =>
    simp only [Option.some.injEq, exists_eq_left', Tested, ne_eq, hempty,
      not_false_eq_true, true_and]
    by_cases hpublic : path ∈ publicPaths
    · rw [if_pos hpublic]
      exact ⟨fun _ => Or.inl hpublic, fun _ => rfl⟩
    · rw [if_neg hpublic]
      by_cases hget : ¬ ascii "GET " <+: request ∨ safeEnv getenv "FORTAI_STATIC_PATH" [] = []
      · rw [if_pos hget]
        refine ⟨fun h => Bool.noConfusion h, fun h => ?_⟩
        obtain ⟨hg, hs, -⟩ := h.resolve_left hpublic
        rcases hget with h' | h'
        · exact absurd hg h'
        · exact absurd h' hs
      · rw [if_neg hget]
        rw [not_or, not_not] at hget
        exact ⟨fun h => Or.inr ⟨hget.1, hget.2, h⟩, fun h => (h.resolve_left hpublic).2.2⟩

/-- A host whose environment is one of the operating system: no variable holds a NUL. -/
structure Process extends Host where
  nul_free : ∀ name value, getenv name = some value → (0 : Byte) ∉ value

namespace Process

variable (process : Process)

theorem nul_not_mem_getD (name : String) : (0 : Byte) ∉ (process.getenv name).getD [] := by
  cases h : process.getenv name with
  | none => exact List.not_mem_nil
  | some value => exact process.nul_free name value h

theorem nul_not_mem_used : (0 : Byte) ∉ usedPrefix process.getenv := by
  intro h
  have hread := trim_subset _ h
  simp only [serverTextDefault] at hread
  split_ifs at hread
  · exact absurd hread List.not_mem_nil
  · exact process.nul_not_mem_getD _ hread
  · exact absurd hread List.not_mem_nil
  · exact process.nul_not_mem_getD _ hread

theorem nul_not_mem_serverApiPrefix : (0 : Byte) ∉ serverApiPrefix process.getenv := by
  by_cases hused : usedPrefix process.getenv = []
  · rw [serverApiPrefix_of_unused hused]
    exact List.not_mem_nil
  · rw [serverApiPrefix_of_used hused]
    intro h
    rcases mem_of_mem_normal h with h | h
    · exact process.nul_not_mem_used h
    · exact absurd h (by decide)

end Process

/-- The prefix fills the buffer, so that the authorization does not see what follows it: of the
configured prefix one byte at most is left behind it, or a prefix it does not know ends, where the
buffer ends, in the suffix of a static file. -/
def FillsBuffer (getenv : Environment) (method : Bytes) : Prop :=
  if configuredPrefix getenv = [] then
    method = ascii "GET" ∧ safeEnv getenv "FORTAI_STATIC_PATH" [] ≠ [] ∧
      2047 ≤ (serverApiPrefix getenv).length ∧
        hasStaticSuffix ((serverApiPrefix getenv).take 2047) = true
  else
    Plain (configuredPrefix getenv) ∧
      ((serverApiPrefix getenv).length = 2046 ∨ (serverApiPrefix getenv).length = 2047)

/-- What the router makes of a prefixed path. -/
theorem applyApiPrefix_append {getenv : Environment} {rest : Bytes}
    (hslash : rest.head? = some 47) (hblank : space ∉ serverApiPrefix getenv ++ rest) :
    applyApiPrefix getenv (serverApiPrefix getenv ++ rest) = rest := by
  have hne : rest ≠ [] := by
    rintro rfl
    exact nomatch hslash
  rw [applyApiPrefix]
  by_cases hbase : serverApiPrefix getenv = []
  · rw [withinPrefix, if_pos hbase, hbase]
    rfl
  · have hblank' : space ∉ serverApiPrefix getenv := fun h => hblank (List.mem_append_left _ h)
    rw [withinPrefix_eq hbase hblank' hblank, List.drop_left, if_neg (by simp), if_neg hne,
      if_pos hslash]
    rfl

/-- A path that is none of those `apply_api_prefix` makes up comes from behind the prefix. -/
theorem eq_append_of_applyApiPrefix {getenv : Environment} {path rest : Bytes}
    (h : applyApiPrefix getenv path = rest) (hroot : rest ≠ ascii "/") (hout : rest ≠ mismatchPath) :
    path = serverApiPrefix getenv ++ rest := by
  rw [applyApiPrefix, withinPrefix] at h
  split_ifs at h with hbase hsame hwithin
  · rw [hbase]
    exact h
  · exact absurd h.symm hroot
  · obtain ⟨tail, htail⟩ := (List.prefix_append (serverApiPrefix getenv) (ascii "/")).trans hwithin.2
    rw [Option.getD_some, ← htail, List.drop_left] at h
    rw [← htail, h]
  · exact absurd h.symm hout

/-- What the buffer holds of a prefixed protected path is no public path. -/
theorem take_not_mem_publicPaths (base : Bytes) {rest : Bytes} (hr : rest ∈ protectedRoutes) :
    (base ++ rest).take 2047 ∉ publicPaths := by
  intro hmem
  have hlength : ∀ p ∈ publicPaths, p.length ≤ 11 := by decide +kernel
  have hle := hlength _ hmem
  have hwhole : (base ++ rest).take 2047 = base ++ rest := by
    rw [List.length_take] at hle
    exact List.take_of_length_le (by omega)
  rw [hwhole] at hmem
  exact (protectedRoutes_spec rest hr).2.2.2.2.2.2.2 _ hmem (List.suffix_append base rest)

/-- The buffer ends like a static file only when the prefix alone fills it. -/
theorem hasStaticSuffix_take (base : Bytes) {rest : Bytes} (hr : rest ∈ protectedRoutes) :
    hasStaticSuffix ((base ++ rest).take 2047) = true ↔
      2047 ≤ base.length ∧ hasStaticSuffix (base.take 2047) = true := by
  obtain ⟨hhead, hdot, -⟩ := protectedRoutes_spec rest hr
  obtain ⟨tail, htail⟩ := List.head?_eq_some_iff.mp hhead
  rw [List.take_append]
  by_cases hlong : 2047 ≤ base.length
  · rw [Nat.sub_eq_zero_of_le hlong, List.take_zero, List.append_nil]
    exact ⟨fun h => ⟨hlong, h⟩, fun h => h.2⟩
  · have hmem : (47 : Byte) ∈ rest.take (2047 - base.length) := by
      obtain ⟨k, hk⟩ : ∃ k, 2047 - base.length = k + 1 := ⟨2046 - base.length, by omega⟩
      rw [hk, htail, List.take_succ_cons]
      exact List.mem_cons_self
    rw [hasStaticSuffix_append _ (fun h => hdot ((List.take_prefix _ _).subset h)) hmem]
    exact ⟨fun h => Bool.noConfusion h, fun h => absurd h.1 hlong⟩

/-- Behind a prefix both sides know, the authorization finds a public path exactly when the buffer
has room for one byte at most. -/
theorem tested_of_within {getenv : Environment} {get : Prop} {base rest : Bytes} (hbase : base ≠ [])
    (hblank : space ∉ base ++ rest) (hr : rest ∈ protectedRoutes) :
    (∃ path, withinPrefix base ((base ++ rest).take 2047) = some path ∧ Tested getenv get path) ↔
      base.length = 2046 ∨ base.length = 2047 := by
  obtain ⟨hhead, hdot, -⟩ := protectedRoutes_spec rest hr
  rw [withinPrefix_eq hbase (fun hmem => hblank (List.mem_append_left _ hmem))
    (fun hmem => hblank ((List.take_prefix _ _).subset hmem))]
  by_cases hfit : base.length ≤ 2047
  · have htake : (base ++ rest).take 2047 = base ++ rest.take (2047 - base.length) := by
      rw [List.take_append, List.take_of_length_le hfit]
    rw [htake, List.drop_left, if_neg (by simp)]
    by_cases hfull : base.length = 2047
    · rw [hfull, Nat.sub_self, List.take_zero, if_pos rfl]
      exact ⟨fun _ => Or.inr rfl, fun _ => ⟨_, rfl, Or.inl (by decide)⟩⟩
    · obtain ⟨tail, htail⟩ := List.head?_eq_some_iff.mp hhead
      obtain ⟨k, hk⟩ : ∃ k, 2047 - base.length = k + 1 := ⟨2046 - base.length, by omega⟩
      have hcons : rest.take (k + 1) = 47 :: tail.take k := by rw [htail, List.take_succ_cons]
      have hdot' : hasStaticSuffix (rest.take (k + 1)) = false := by
        rw [hasStaticSuffix, lastDot,
          if_neg fun hmem => hdot ((List.take_prefix _ _).subset hmem)]
      rw [hk, if_neg (by rw [hcons]; exact List.cons_ne_nil _ _), if_pos (by rw [hcons]; rfl)]
      simp only [Option.some.injEq, exists_eq_left', Tested, take_mem_publicPaths hr, hdot']
      constructor
      · rintro (h1 | ⟨-, -, h1⟩)
        · omega
        · exact Bool.noConfusion h1
      · intro h1
        exact Or.inl (by omega)
  · have hout : ¬ base <+: (base ++ rest).take 2047 := by
      intro hp
      have := hp.length_le
      rw [List.length_take] at this
      omega
    rw [if_pos hout]
    constructor
    · rintro ⟨_, hnone, -⟩
      exact nomatch hnone
    · intro h1
      omega

/-- The authorization takes a protected path for a public one exactly when its prefix fills the
buffer. -/
theorem publicPath_iff (process : Process) {request : Bytes} {parsed : Parsed}
    (h : parseHttpRequest request = some parsed) {rest : Bytes} (hr : rest ∈ protectedRoutes)
    (hpath : parsed.path = serverApiPrefix process.getenv ++ rest) :
    publicPath process.getenv request = true ↔ FillsBuffer process.getenv parsed.method := by
  obtain ⟨hhead, hdot, hnul, -⟩ := protectedRoutes_spec rest hr
  have hblank := space_not_mem_path h
  rw [hpath] at hblank
  have hnul' : (0 : Byte) ∉ (serverApiPrefix process.getenv ++ rest).take 2047 := by
    intro hmem
    rcases List.mem_append.mp ((List.take_prefix _ _).subset hmem) with hmem | hmem
    · exact process.nul_not_mem_serverApiPrefix hmem
    · exact hnul hmem
  have hne : (serverApiPrefix process.getenv ++ rest).take 2047 ≠ [] := by
    rintro heq
    rcases List.take_eq_nil_iff.mp heq with h0 | hnil
    · exact absurd h0 (by decide)
    · rw [(List.append_eq_nil_iff.mp hnil).2] at hhead
      exact nomatch hhead
  -- what the authorization finds in the buffer
  let buffer : Target :=
    ⟨(serverApiPrefix process.getenv ++ rest).take 2047,
      fun hmem => hblank ((List.take_prefix _ _).subset hmem), hnul',
      Nat.lt_succ_of_le (List.length_take_le _ _)⟩
  have hpublic : buffer.bytes ∉ publicPaths := take_not_mem_publicPaths _ hr
  have hstatic := hasStaticSuffix_take (serverApiPrefix process.getenv) hr
  rw [publicPath_eq_true, copyRequestPath_of_parsed h, hpath, text_eq_self hnul',
    get_of_parsed h, FillsBuffer]
  change buffer.bytes ≠ [] ∧ (∃ path, unprefixed process.getenv buffer.bytes = some path ∧ _) ↔ _
  by_cases hbare : Bare (configuredPrefix process.getenv)
  · rw [unprefixed_of_bare hbare]
    simp only [Option.some.injEq, exists_eq_left', Tested]
    rcases hbare with hempty | hslash
    · rw [if_pos hempty, ← hstatic]
      exact ⟨fun ht => ht.2.resolve_left hpublic, fun ht => ⟨hne, Or.inr ht⟩⟩
    · have hone := serverApiPrefix_of_slash hslash
      rw [if_neg (by rw [hslash]; decide), hone]
      constructor
      · intro ht
        have hfull := (hstatic.mp (ht.2.resolve_left hpublic).2.2).1
        rw [hone] at hfull
        exact absurd hfull (by decide)
      · rintro ⟨-, h' | h'⟩
        · exact absurd h' (by decide)
        · exact absurd h' (by decide)
  · rw [if_neg (fun hempty => hbare (Or.inl hempty))]
    by_cases hplain : Plain (configuredPrefix process.getenv)
    · have hbase : serverApiPrefix process.getenv ≠ [] := by
        have hused := usedPrefix_of_plain hbare hplain
        rw [serverApiPrefix_of_used (fun hnil => hbare (Or.inl (hused ▸ hnil)))]
        exact normal_ne_nil _
      rw [unprefixed_of_plain hbare hplain, tested_of_within hbase hblank hr]
      exact ⟨fun ht => ⟨hplain, ht.2⟩, fun ht => ⟨hne, ht.2⟩⟩
    · rw [unprefixed_eq_none hbare hplain]
      constructor
      · rintro ⟨-, _, hnone, -⟩
        exact nomatch hnone
      · intro ht
        exact absurd ht.1 hplain

/-! ### Soundness of the authorization -/

/-- A key or a key file is configured. -/
def KeyConfigured (host : Host) : Prop :=
  configuredKeys host.getenv ≠ [] ∨ keyFile host.getenv ≠ []

/-- The request presents a key that is configured or stands in the file. -/
def PresentsKey (host : Host) (request : Bytes) : Prop :=
  let key := candidate (authorization request)
  authorization request ≠ [] ∧ key ≠ [] ∧ 13 ∉ key ∧ 10 ∉ key ∧
    (configuredKeys host.getenv ≠ [] ∧ keyEquals (configuredKeys host.getenv) key = some true ∨
      keyFile host.getenv ≠ [] ∧ apiKeyFileMatches host (keyFile host.getenv) key = true)

/-- Without a key, a request is accepted for its path. -/
theorem publicPath_of_authorized {host : Host} {request : Bytes} (hconfigured : KeyConfigured host)
    (hkey : ¬ PresentsKey host request) (h : authorized host request = some true) :
    publicPath host.getenv request = true := by
  by_contra hpublic
  rw [authorized, if_neg hpublic, if_neg (by rw [not_and_or]; exact hconfigured)] at h
  by_cases hvalue : authorization request = []
  · rw [if_pos hvalue] at h
    exact absurd h (by decide)
  rw [if_neg hvalue] at h
  simp only at h
  by_cases hbad : candidate (authorization request) = [] ∨
      13 ∈ candidate (authorization request) ∨ 10 ∈ candidate (authorization request)
  · rw [if_pos hbad] at h
    exact absurd h (by decide)
  rw [if_neg hbad] at h
  rw [not_or, not_or] at hbad
  have hfile (hmatch : decide (keyFile host.getenv ≠ [] ∧
      apiKeyFileMatches host (keyFile host.getenv) (candidate (authorization request))) = true) :
      False :=
    hkey ⟨hvalue, hbad.1, hbad.2.1, hbad.2.2, Or.inr (of_decide_eq_true hmatch)⟩
  by_cases hnone : configuredKeys host.getenv = []
  · rw [if_pos hnone, Option.some.injEq] at h
    exact hfile h
  · rw [if_neg hnone] at h
    cases hmatch : keyEquals (configuredKeys host.getenv) (candidate (authorization request)) with
    | none =>
      rw [hmatch] at h
      exact nomatch h
    | some found =>
      rw [hmatch] at h
      cases found with
      | true => exact hkey ⟨hvalue, hbad.1, hbad.2.1, hbad.2.2, Or.inl ⟨hnone, hmatch⟩⟩
      | false => exact hfile (Option.some.inj h)

/-- Authorization soundness: a request that is accepted without a key gets a public answer. -/
def Sound (process : Process) (request : Bytes) : Prop :=
  KeyConfigured process.toHost → ¬ PresentsKey process.toHost request →
    authorized process.toHost request = some true → (route process.toHost request).isPublic = true

/-- A keyless request for a protected route behind a prefix that fills the buffer. -/
def CutOff (process : Process) (request : Bytes) : Prop :=
  KeyConfigured process.toHost ∧ ¬ PresentsKey process.toHost request ∧
    ∃ parsed rest, parseHttpRequest request = some parsed ∧
      parsed.path = serverApiPrefix process.getenv ++ rest ∧
      Protected parsed.method rest ∧ ¬ Shadowed process.toHost parsed.method rest ∧
      FillsBuffer process.getenv parsed.method

theorem space_not_mem_method {raw : Bytes} {parsed : Parsed}
    (h : parseHttpRequest raw = some parsed) : space ∉ parsed.method := by
  obtain ⟨_, _, -, -, hmethod, -⟩ := exists_of_parsed h
  exact hmethod

theorem not_sound_of_cutOff {process : Process} {request : Bytes} (h : CutOff process request) :
    ¬ Sound process request := by
  obtain ⟨hconfigured, hkey, parsed, rest, hparsed, hpath, hprotected, hfile, hfull⟩ := h
  have hr := mem_of_protected hprotected
  have hpublic := (publicPath_iff process hparsed hr hpath).mpr hfull
  have haccepted : authorized process.toHost request = some true := by
    rw [authorized, if_pos hpublic]
  have hrest : applyApiPrefix process.getenv parsed.path = rest := by
    have hblank := space_not_mem_path hparsed
    rw [hpath] at hblank ⊢
    exact applyApiPrefix_append (protectedRoutes_spec rest hr).1 hblank
  intro hsound
  have := hsound hconfigured hkey haccepted
  rw [route, hparsed] at this
  simp only [hrest] at this
  rw [isPublic_of_protected (space_not_mem_method hparsed) hprotected hfile] at this
  exact Bool.noConfusion this

theorem space_not_mem_applyApiPrefix {getenv : Environment} {path : Bytes} (h : space ∉ path) :
    space ∉ applyApiPrefix getenv path := by
  rw [applyApiPrefix, withinPrefix]
  split_ifs
  · exact h
  · decide
  · exact fun hmem => h (List.mem_of_mem_drop hmem)
  · decide

/-- Accepted without a key, a request reaches a protected branch exactly when it is cut off. -/
theorem sound_iff (process : Process) (request : Bytes) :
    Sound process request ↔ ¬ CutOff process request := by
  constructor
  · intro hsound hcut
    exact not_sound_of_cutOff hcut hsound
  · intro hcut hconfigured hkey haccepted
    have hpublic := publicPath_of_authorized hconfigured hkey haccepted
    by_contra hroute
    rw [Bool.not_eq_true, route] at hroute
    cases hparsed : parseHttpRequest request with
    | none =>
      rw [hparsed] at hroute
      exact Bool.noConfusion hroute
    | some parsed =>
      rw [hparsed] at hroute
      have hblank : space ∉ applyApiPrefix process.getenv parsed.path :=
        space_not_mem_applyApiPrefix (space_not_mem_path hparsed)
      obtain ⟨hprotected, hfile⟩ :=
        protected_of_isPublic (space_not_mem_method hparsed) hblank hroute
      have hr := mem_of_protected hprotected
      have hspec := protectedRoutes_spec _ hr
      have hpath := eq_append_of_applyApiPrefix rfl hspec.2.2.2.2.2.1 hspec.2.2.2.2.2.2.1
      exact hcut ⟨hconfigured, hkey, parsed, _, hparsed, hpath, hprotected, hfile,
        (publicPath_iff process hparsed hr hpath).mp hpublic⟩

/-- A prefix of 2046 bytes. -/
def longPrefix : Bytes := 47 :: List.replicate 2045 97

/-- A server with that prefix, a key, and no files. -/
def guarded : Process where
  getenv name :=
    if name = "FORTAI_API_PREFIX" then some longPrefix
    else if name = "LLAMA_API_KEY" then some (ascii "k")
    else none
  file _ := none
  nul_free := by
    intro name value h
    split_ifs at h
    · rw [← Option.some.inj h]
      intro hmem
      rcases List.mem_cons.mp hmem with h0 | h0
      · exact absurd h0 (by decide)
      · exact absurd (List.eq_of_mem_replicate h0) (by decide)
    · rw [← Option.some.inj h]
      decide

/-- `POST ⟨prefix⟩/v1/completions` without headers. -/
def longRequest : Bytes :=
  ascii "POST " ++ longPrefix ++ ascii "/v1/completions HTTP/1.1" ++ crlf ++ crlf

/-- The authorization sees only `⟨prefix⟩/` of the path, and takes it for the web UI. -/
theorem not_sound_longPrefix : ¬ ∀ process request, Sound process request := by
  intro h
  have hkey : ¬ PresentsKey guarded.toHost longRequest := by
    intro hkey
    exact hkey.1 (by decide +kernel)
  have hparsed : parseHttpRequest longRequest =
      some ⟨ascii "POST", longPrefix ++ ascii "/v1/completions", []⟩ := by decide +kernel
  have hbase : serverApiPrefix guarded.getenv = longPrefix := by decide +kernel
  have hfull : FillsBuffer guarded.getenv (ascii "POST") := by
    have hplain : Plain (configuredPrefix guarded.getenv) := by decide +kernel
    have hlength : longPrefix.length = 2046 := by
      rw [longPrefix, List.length_cons, List.length_replicate]
    rw [FillsBuffer, if_neg (by decide), hbase]
    exact ⟨hplain, Or.inl hlength⟩
  refine not_sound_of_cutOff ⟨Or.inl (by decide), hkey, _, ascii "/v1/completions", hparsed, ?_,
    Or.inr (Or.inr ⟨rfl, ?_⟩), ?_, hfull⟩ (h guarded longRequest)
  · exact congrArg (· ++ ascii "/v1/completions") hbase.symm
  · decide
  · rintro ⟨-, hserved⟩
    exact absurd hserved (by decide)

end Http

end FortAI
