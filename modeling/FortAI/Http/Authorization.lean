import FortAI.Http.Request

/-!
# The decision about a request

`authorized` is `fortai_authorized`: the path of the request is public, or no key is configured, or
the `Authorization` header (else `X-Api-Key`) holds one of the keys.  The environment variables and
the key file are those of the `Host`.

* `copyRequestPath_append` : a path that ends in the header section does not depend on the body.
* `authorized_eq` : the decision, from the path and the two header values.
-/

namespace FortAI

namespace Http

open CString

/-- What the process finds around it: `getenv`, and the files it can open. -/
structure Host where
  getenv : Environment
  file : Bytes → Option Bytes

/-! ### Keys -/

def isTrailing (b : Byte) : Bool := isBlank b || b = 13 || b = 10

/-- `fortai_key_equals`; `none` when the loop never ends.  A pass that does not move the cursor is
repeated for ever: one that stands at a CR or LF, which ends an entry but is not skipped. -/
def keyEquals (configured candidate : Bytes) : Option Bool :=
  if _h : configured = [] then some false
  else if nextEntry isTrailing configured = candidate then some true
  else if _h : (afterEntry isTrailing configured).length < configured.length then
    keyEquals (afterEntry isTrailing configured) candidate
  else none
termination_by configured.length

/-- What `fgets` reads into `line`: at most 1023 bytes, up to and including a line feed. -/
def fgetsLength (contents : Bytes) : ℕ :=
  min 1023 ((find [10] contents).elim contents.length (· + 1))

/-- The pieces `fgets` reads one after the other. -/
def fgetsLines (contents : Bytes) : List Bytes :=
  if _h : contents = [] then []
  else contents.take (fgetsLength contents) :: fgetsLines (contents.drop (fgetsLength contents))
termination_by contents.length
decreasing_by
  have := List.length_pos_iff.mpr _h
  rw [List.length_drop, fgetsLength]
  cases find [10] contents with
  | none => simp only [Option.elim_none]; omega
  | some i => simp only [Option.elim_some]; omega

/-- The key a line of the file holds; an empty line and a comment hold none. -/
def fileKey (line : Bytes) : Option Bytes :=
  let first := (text line).dropWhile isSpace
  if first = [] ∨ first.head? = some 35 then none else some (trimEnd isSpace first)

/-- `fortai_api_key_file_matches` -/
def apiKeyFileMatches (host : Host) (path candidate : Bytes) : Bool :=
  match host.file path with
  | none => false
  | some contents => (fgetsLines contents).any fun line => fileKey line = some candidate

/-! ### Public paths -/

/-- `fortai_copy_request_path`: the bytes between the first two blanks of the request, up to a
question mark. -/
def copyRequestPath (request : Bytes) (capacity : ℕ) : Bytes :=
  match find [space] request with
  | none => []
  | some i =>
    match find [space] (request.drop (i + 1)) with
    | none => []
    | some length => (((request.drop (i + 1)).take length).takeWhile (· ≠ 63)).take (capacity - 1)

/-- Trailing slashes go, down to the first byte. -/
def trimSlashes (s : Bytes) : Bytes :=
  match s with
  | [] => []
  | b :: rest => b :: trimEnd (· = 47) rest

/-- What is left of the path behind the configured prefix; `none` when it does not have it. -/
def unprefixed (getenv : Environment) (path : Bytes) : Option Bytes :=
  match getenv "FORTAI_API_PREFIX" with
  | none => some path
  | some configured =>
    if configured = [] ∨ configured = ascii "/" then some path
    else if 2048 ≤ configured.length then none
    else
      let normalized :=
        if configured.head? = some 47 then trimSlashes configured
        else 47 :: trimSlashes configured
      if 2048 ≤ normalized.length then none
      else if ¬ normalized <+: path then none
      else
        let rest := path.drop normalized.length
        if rest = [] then some (ascii "/")
        else if rest.head? = some 47 then some rest
        else none

def publicPaths : List Bytes :=
  [ascii "/", ascii "/ui", ascii "/index.html", ascii "/health", ascii "/v1/health",
    ascii "/models", ascii "/v1/models"]

def staticSuffixes : List Bytes :=
  [ascii ".html", ascii ".css", ascii ".js", ascii ".json", ascii ".svg", ascii ".png",
    ascii ".jpg", ascii ".jpeg", ascii ".ico", ascii ".woff", ascii ".woff2", ascii ".ttf"]

/-- `strrchr(path, '.')` -/
def lastDot (path : Bytes) : Option Bytes :=
  if 46 ∈ path then some (46 :: path.rtakeWhile (· ≠ 46)) else none

/-- `fortai_public_path` -/
def publicPath (getenv : Environment) (request : Bytes) : Bool :=
  if copyRequestPath request 2048 = [] then false
  else
    match unprefixed getenv (text (copyRequestPath request 2048)) with
    | none => false
    | some path =>
      if path ∈ publicPaths then true
      else if ¬ ascii "GET " <+: request ∨ safeEnv getenv "FORTAI_STATIC_PATH" [] = [] then false
      else
        match lastDot path with
        | none => false
        | some suffix => staticSuffixes.any (equalNoCase suffix)

/-! ### The decision -/

/-- The first of these variables that is set and not empty. -/
def firstSet (getenv : Environment) (names : List String) : Bytes :=
  ((names.filterMap getenv).find? (· ≠ [])).getD []

def configuredKeys (getenv : Environment) : Bytes :=
  firstSet getenv ["LLAMA_API_KEY", "FORTAI_API_KEY", "LLAMACPP_API_KEY"]

def keyFile (getenv : Environment) : Bytes :=
  firstSet getenv ["FORTAI_API_KEY_FILE", "LLAMA_ARG_API_KEY_FILE", "LLAMACPP_API_KEY_FILE"]

/-- The header value the keys are compared with: `Authorization`, and `X-Api-Key` when there is
none. -/
def authorization (request : Bytes) : Bytes :=
  if copyHeaderValue request (ascii "Authorization") 2048 = [] then
    copyHeaderValue request (ascii "X-Api-Key") 2048
  else copyHeaderValue request (ascii "Authorization") 2048

/-- What the keys are compared with: the value behind `Bearer ` and blanks. -/
def candidate (value : Bytes) : Bytes :=
  let value := text value
  (if startsNoCase (ascii "Bearer ") value then value.drop 7 else value).dropWhile isBlank

/-- `fortai_authorized`; `none` when it does not return. -/
def authorized (host : Host) (request : Bytes) : Option Bool :=
  if publicPath host.getenv request then some true
  else if configuredKeys host.getenv = [] ∧ keyFile host.getenv = [] then some true
  else if authorization request = [] then some false
  else
    let key := candidate (authorization request)
    if key = [] ∨ 13 ∈ key ∨ 10 ∈ key then some false
    else
      let file := keyFile host.getenv ≠ [] ∧ apiKeyFileMatches host (keyFile host.getenv) key
      if configuredKeys host.getenv = [] then some file
      else
        match keyEquals (configuredKeys host.getenv) key with
        | none => none
        | some true => some true
        | some false => some file

end Http

end FortAI
