import FortAI.Http.Authorization
import FortAI.Machine.Character

/-!
# The API prefix

The prefix of the request path is taken off twice: `unprefixed` does it for `fortai_public_path`,
`applyApiPrefix` for the router.  The first knows only `FORTAI_API_PREFIX`, the second falls back to
`LLAMACPP_API_PREFIX`, ignores blanks at the end of the value and takes the value `/` for a prefix.

* `withinPrefix_eq_some` : what the router makes of a path without blanks.
* `unprefixed_eq` : what the authorization makes of it.
* `prefixAgrees_iff` : the two agree exactly on the values and paths of `PlainPrefix`.
-/

namespace FortAI

namespace Http

open CString Character

/-- `server_text_default` for the variable `FORTAI_⟨name⟩`, which falls back to
`LLAMACPP_⟨name⟩`. -/
def serverTextDefault (getenv : Environment) (name : String) (fallback : Bytes) : Bytes :=
  let primary := (getenv ("FORTAI_" ++ name)).getD []
  let value := if primary = [] then (getenv ("LLAMACPP_" ++ name)).getD [] else primary
  -- the buffer of the source has 4096 characters
  if value = [] ∨ 4096 < value.length then fallback else value

theorem serverTextDefault_of_primary {getenv : Environment} {name : String} {value : Bytes}
    (h : (getenv ("FORTAI_" ++ name)).getD [] = value) (hne : value ≠ [])
    (hlength : value.length ≤ 4096) (fallback : Bytes) :
    serverTextDefault getenv name fallback = value := by
  simp only [serverTextDefault, h, if_neg hne, if_neg (not_or.mpr ⟨hne, Nat.not_lt.mpr hlength⟩)]

/-- `server_api_prefix` -/
def serverApiPrefix (getenv : Environment) : Bytes :=
  let configured := trim (serverTextDefault getenv "API_PREFIX" [])
  if configured = [] then []
  else trimSlashes (if configured.head? = some 47 then configured else 47 :: configured)

/-- The decision of `apply_api_prefix`: what is left of the path behind the prefix; `none` for a
request outside of it. -/
def withinPrefix (base path : Bytes) : Option Bytes :=
  if base = [] then some path
  else if same path base then some (ascii "/")
  else if base.length < path.length ∧ base ++ ascii "/" <+: path then some (path.drop base.length)
  else none

/-- The path that no route has. -/
def mismatchPath : Bytes := ascii "/__fortai_api_prefix_mismatch__"

/-- `apply_api_prefix` -/
def applyApiPrefix (getenv : Environment) (path : Bytes) : Bytes :=
  (withinPrefix (serverApiPrefix getenv) path).getD mismatchPath

/-! ### What the two normalisers do -/

/-- A value with a slash before it and without slashes at its end. -/
def normal (value : Bytes) : Bytes :=
  trimSlashes (if value.head? = some 47 then value else 47 :: value)

theorem trimSlashes_subset (s : Bytes) : trimSlashes s ⊆ s := by
  cases s with
  | nil => exact List.Subset.refl _
  | cons b s => exact List.cons_subset_cons b (List.rdropWhile_prefix _ s).subset

theorem mem_of_mem_normal {value : Bytes} {b : Byte} (hb : b ∈ normal value) :
    b ∈ value ∨ b = 47 := by
  have h := trimSlashes_subset _ hb
  split_ifs at h with hslash
  · exact Or.inl h
  · exact (List.mem_cons.mp h).symm

theorem mem_normal_of_mem {value : Bytes} {b : Byte} (hb : b ∈ value) (hslash : b ≠ 47) :
    b ∈ normal value := by
  have hkeep : ∀ s : Bytes, b ∈ s → b ∈ trimSlashes s := by
    intro s hs
    cases s with
    | nil => exact hs
    | cons c s =>
      rcases List.mem_cons.mp hs with rfl | hs
      · exact List.mem_cons_self
      · refine List.mem_cons_of_mem c ?_
        rw [← List.rdropWhile_append_rtakeWhile (p := (· = 47)) (l := s), List.mem_append] at hs
        rcases hs with hs | hs
        · exact hs
        · have h47 := List.mem_rtakeWhile_imp hs
          exact absurd (of_decide_eq_true h47) hslash
  rw [normal]
  split_ifs
  · exact hkeep _ hb
  · exact hkeep _ (List.mem_cons_of_mem 47 hb)

theorem normal_ne_nil (value : Bytes) : normal value ≠ [] := by
  cases value with
  | nil => exact List.cons_ne_nil _ _
  | cons b s =>
    rw [normal]
    split_ifs <;> exact List.cons_ne_nil _ _

theorem trimEnd_cons {p : Byte → Bool} {b : Byte} (hb : p b = false) (s : Bytes) :
    trimEnd p (b :: s) = b :: trimEnd p s := by
  simp only [trimEnd, List.rdropWhile, List.reverse_cons, List.dropWhile_append]
  cases hs : s.reverse.dropWhile p with
  | nil => simp [hb]
  | cons c t => simp

/-- Adding the slash and cutting the end can be done in either order. -/
theorem normal_eq {value : Bytes} (hne : value ≠ []) :
    (if value.head? = some 47 then trimSlashes value else 47 :: trimSlashes value) =
      normal value := by
  obtain ⟨b, s, rfl⟩ := List.exists_cons_of_ne_nil hne
  rw [normal]
  by_cases hb : b = 47
  · subst hb
    simp
  · have hhead : (b :: s).head? ≠ some 47 := by simpa using hb
    rw [if_neg hhead, if_neg hhead]
    simp only [trimSlashes]
    rw [trimEnd_cons (by simpa using hb)]

theorem serverApiPrefix_eq (getenv : Environment) :
    serverApiPrefix getenv =
      let value := trim (serverTextDefault getenv "API_PREFIX" [])
      if value = [] then [] else normal value := rfl

/-- The router's decision for a path and a prefix without blanks. -/
theorem withinPrefix_eq {base path : Bytes} (hne : base ≠ []) (hbase : space ∉ base)
    (hpath : space ∉ path) :
    withinPrefix base path =
      if ¬ base <+: path then none
      else if path.drop base.length = [] then some (ascii "/")
      else if (path.drop base.length).head? = some 47 then some (path.drop base.length)
      else none := by
  rw [withinPrefix, if_neg hne]
  simp only [same_iff_eq hpath hbase]
  by_cases hp : base <+: path
  · obtain ⟨rest, rfl⟩ := hp
    have hslash : base ++ ascii "/" <+: base ++ rest ↔ rest.head? = some 47 := by
      rw [List.prefix_append_right_inj]
      cases rest with
      | nil => decide
      | cons b rest => simp [ascii, List.cons_prefix_cons, eq_comm]
    simp only [List.drop_left, List.prefix_append, not_true_eq_false, if_false, hslash]
    cases rest with
    | nil => simp
    | cons b rest => simp
  · have hne' : path ≠ base := by
      rintro rfl
      exact hp (List.prefix_refl _)
    have hslash : ¬ base ++ ascii "/" <+: path := fun h => hp ((List.prefix_append _ _).trans h)
    rw [if_neg hne', if_neg (fun h => hslash h.2), if_pos hp]

/-- A request path: it has no blank, since a blank ends it. -/
structure Target where
  bytes : Bytes
  blank_free : space ∉ bytes
  nul_free : (0 : Byte) ∉ bytes
  short : bytes.length < 2048

/-- The value of `FORTAI_API_PREFIX`, empty when it is not set. -/
def configuredPrefix (getenv : Environment) : Bytes := (getenv "FORTAI_API_PREFIX").getD []

/-- The authorization takes these values for no prefix. -/
def Bare (value : Bytes) : Prop := value = [] ∨ value = ascii "/"

instance : DecidablePred Bare := fun _ => inferInstanceAs (Decidable (_ ∨ _))

/-- A value that both sides normalise to the same prefix. -/
def Plain (value : Bytes) : Prop := space ∉ value ∧ value.length < 2048

instance : DecidablePred Plain := fun _ => inferInstanceAs (Decidable (_ ∧ _))

theorem unprefixed_of_bare {getenv : Environment} (h : Bare (configuredPrefix getenv))
    (path : Bytes) : unprefixed getenv path = some path := by
  rw [configuredPrefix] at h
  rw [unprefixed]
  cases hvalue : getenv "FORTAI_API_PREFIX" with
  | none => rfl
  | some value =>
    rw [hvalue, Option.getD_some, Bare] at h
    exact if_pos h

/-- The authorization's decision for a value it does not take for no prefix. -/
theorem unprefixed_of_not_bare {getenv : Environment} (h : ¬ Bare (configuredPrefix getenv))
    (path : Bytes) :
    unprefixed getenv path =
      let base := normal (configuredPrefix getenv)
      if 2048 ≤ (configuredPrefix getenv).length ∨ 2048 ≤ base.length then none
      else if ¬ base <+: path then none
      else if path.drop base.length = [] then some (ascii "/")
      else if (path.drop base.length).head? = some 47 then some (path.drop base.length)
      else none := by
  rw [configuredPrefix] at *
  rw [unprefixed]
  cases hvalue : getenv "FORTAI_API_PREFIX" with
  | none =>
    rw [hvalue] at h
    exact absurd (Or.inl rfl) h
  | some value =>
    rw [hvalue, Option.getD_some, Bare] at h
    simp only [Option.getD_some]
    rw [if_neg h, normal_eq (fun hnil => h (Or.inl hnil))]
    by_cases hlong : 2048 ≤ value.length
    · rw [if_pos hlong, if_pos (Or.inl hlong)]
    · rw [if_neg hlong]
      by_cases hlong' : 2048 ≤ (normal value).length
      · rw [if_pos hlong', if_pos (Or.inr hlong')]
      · rw [if_neg hlong', if_neg (not_or.mpr ⟨hlong, hlong'⟩)]

/-- A path never lies behind a prefix with a blank, nor behind one that does not fit the buffer. -/
theorem unprefixed_eq_none {getenv : Environment} (hbare : ¬ Bare (configuredPrefix getenv))
    (hplain : ¬ Plain (configuredPrefix getenv)) (path : Target) :
    unprefixed getenv path.bytes = none := by
  rw [unprefixed_of_not_bare hbare]
  simp only
  by_cases hlong : 2048 ≤ (configuredPrefix getenv).length
  · rw [if_pos (Or.inl hlong)]
  · have hblank : space ∈ configuredPrefix getenv := by
      by_contra h
      exact hplain ⟨h, Nat.lt_of_not_le hlong⟩
    have hout : ¬ normal (configuredPrefix getenv) <+: path.bytes := fun hp =>
      path.blank_free (hp.subset (mem_normal_of_mem hblank (by decide)))
    split_ifs
    · rfl
    · rfl

/-- The value the router normalises. -/
def usedPrefix (getenv : Environment) : Bytes := trim (serverTextDefault getenv "API_PREFIX" [])

theorem usedPrefix_of_plain {getenv : Environment} (hbare : ¬ Bare (configuredPrefix getenv))
    (hplain : Plain (configuredPrefix getenv)) :
    usedPrefix getenv = configuredPrefix getenv := by
  have hne : configuredPrefix getenv ≠ [] := fun h => hbare (Or.inl h)
  have hread : serverTextDefault getenv "API_PREFIX" [] = configuredPrefix getenv :=
    serverTextDefault_of_primary (show _ = configuredPrefix getenv from rfl) hne
      (Nat.le_trans hplain.2.le (by decide)) []
  rw [usedPrefix, hread, trim_eq_self hplain.1]

theorem serverApiPrefix_of_used {getenv : Environment} (h : usedPrefix getenv ≠ []) :
    serverApiPrefix getenv = normal (usedPrefix getenv) := by
  rw [serverApiPrefix_eq]
  exact if_neg h

theorem serverApiPrefix_of_unused {getenv : Environment} (h : usedPrefix getenv = []) :
    serverApiPrefix getenv = [] := by
  rw [serverApiPrefix_eq]
  exact if_pos h

/-- The router takes the value `/` for a prefix. -/
theorem serverApiPrefix_of_slash {getenv : Environment}
    (h : configuredPrefix getenv = ascii "/") : serverApiPrefix getenv = ascii "/" := by
  have hread : serverTextDefault getenv "API_PREFIX" [] = ascii "/" :=
    @serverTextDefault_of_primary getenv "API_PREFIX" _ h (by decide) (by decide) []
  have hused : usedPrefix getenv = ascii "/" := by rw [usedPrefix, hread]; decide
  rw [serverApiPrefix_of_used (by rw [hused]; decide), hused]
  decide

/-- A value without blanks that fits the buffer means the same on both sides. -/
theorem unprefixed_of_plain {getenv : Environment} (hbare : ¬ Bare (configuredPrefix getenv))
    (hplain : Plain (configuredPrefix getenv)) (path : Target) :
    unprefixed getenv path.bytes = withinPrefix (serverApiPrefix getenv) path.bytes := by
  have hused := usedPrefix_of_plain hbare hplain
  have hne : usedPrefix getenv ≠ [] := fun h => hbare (Or.inl (hused ▸ h))
  have hblank : space ∉ normal (configuredPrefix getenv) := by
    intro h
    rcases mem_of_mem_normal h with h | h
    · exact hplain.1 h
    · exact absurd h (by decide)
  rw [serverApiPrefix_of_used hne, hused, withinPrefix_eq (normal_ne_nil _) hblank path.blank_free,
    unprefixed_of_not_bare hbare]
  simp only
  by_cases hlong : 2048 ≤ (normal (configuredPrefix getenv)).length
  · have hout : ¬ normal (configuredPrefix getenv) <+: path.bytes := by
      intro hp
      have := hp.length_le
      have := path.short
      omega
    rw [if_pos (Or.inr hlong), if_pos hout]
  · rw [if_neg (not_or.mpr ⟨Nat.not_le.mpr hplain.2, hlong⟩)]

/-- One meaning for the prefix: the authorization tests the path that the router gets, and the
request is outside the prefix for one exactly when it is for the other. -/
def OneMeaning (getenv : Environment) (path : Target) : Prop :=
  (unprefixed getenv path.bytes = none ↔
      withinPrefix (serverApiPrefix getenv) path.bytes = none) ∧
    ∀ tested, unprefixed getenv path.bytes = some tested →
      applyApiPrefix getenv path.bytes = tested

theorem oneMeaning_iff_eq (getenv : Environment) (path : Target) :
    OneMeaning getenv path ↔
      unprefixed getenv path.bytes = withinPrefix (serverApiPrefix getenv) path.bytes := by
  rw [OneMeaning, applyApiPrefix]
  cases unprefixed getenv path.bytes with
  | none =>
    constructor
    · intro h
      exact (h.1.mp rfl).symm
    · intro h
      exact ⟨⟨fun _ => h.symm, fun _ => rfl⟩, nofun⟩
  | some tested =>
    cases withinPrefix (serverApiPrefix getenv) path.bytes with
    | none =>
      constructor
      · intro h
        exact absurd (h.1.mpr rfl) (Option.some_ne_none tested)
      · exact nofun
    | some routed => simp [eq_comm]

/-- The values and paths for which the two sides agree. -/
def PlainPrefix (getenv : Environment) (path : Target) : Prop :=
  if Bare (configuredPrefix getenv) then
    usedPrefix getenv = [] ∨ path.bytes = ascii "/" ∧ trim (normal (usedPrefix getenv)) = ascii "/"
  else
    Plain (configuredPrefix getenv) ∨
      usedPrefix getenv ≠ [] ∧ path.bytes ≠ trim (normal (usedPrefix getenv)) ∧
        ¬ normal (usedPrefix getenv) ++ ascii "/" <+: path.bytes

theorem withinPrefix_eq_none {base : Bytes} (hne : base ≠ []) (path : Target) :
    withinPrefix base path.bytes = none ↔
      path.bytes ≠ trim base ∧ ¬ base ++ ascii "/" <+: path.bytes := by
  have hlength : base ++ ascii "/" <+: path.bytes → base.length < path.bytes.length := by
    intro h
    have := h.length_le
    rw [List.length_append] at this
    exact Nat.lt_of_lt_of_le (Nat.lt_add_of_pos_right (by decide)) this
  rw [withinPrefix, if_neg hne, Ne, ← same_iff path.blank_free]
  split_ifs with hsame hwithin
  · simp [hsame]
  · simp [hwithin.2]
  · exact ⟨fun _ => ⟨hsame, fun h => hwithin ⟨hlength h, h⟩⟩, fun _ => rfl⟩

/-- A prefix that is not empty leaves only the path `/` as it is, and only the prefix `/` does. -/
theorem withinPrefix_eq_self {base : Bytes} (hne : base ≠ []) (path : Target) :
    withinPrefix base path.bytes = some path.bytes ↔
      path.bytes = ascii "/" ∧ trim base = ascii "/" := by
  rw [withinPrefix, if_neg hne]
  have hpos := List.length_pos_iff.mpr hne
  split_ifs with hsame hwithin
  · have := (same_iff path.blank_free).mp hsame
    rw [Option.some.injEq, ← this, and_self, eq_comm]
  · constructor
    · intro h
      have hlength := congrArg List.length (Option.some.inj h)
      rw [List.length_drop] at hlength
      omega
    · rintro ⟨hroot, _⟩
      have := hwithin.1
      rw [hroot] at this
      exact absurd this (Nat.not_lt.mpr hpos)
  · constructor
    · exact nofun
    · rintro ⟨hroot, hbase⟩
      exact absurd ((same_iff path.blank_free).mpr (hroot.trans hbase.symm)) hsame

/-- The two sides agree on the prefix exactly for the values and paths of `PlainPrefix`. -/
theorem prefixAgrees_iff (getenv : Environment) (path : Target) :
    OneMeaning getenv path ↔ PlainPrefix getenv path := by
  rw [oneMeaning_iff_eq, PlainPrefix]
  by_cases hbare : Bare (configuredPrefix getenv)
  · rw [if_pos hbare, unprefixed_of_bare hbare]
    by_cases hused : usedPrefix getenv = []
    · rw [serverApiPrefix_of_unused hused]
      exact ⟨fun _ => Or.inl hused, fun _ => rfl⟩
    · rw [serverApiPrefix_of_used hused, eq_comm, withinPrefix_eq_self (normal_ne_nil _)]
      exact ⟨Or.inr, fun h => h.resolve_left hused⟩
  · rw [if_neg hbare]
    by_cases hplain : Plain (configuredPrefix getenv)
    · exact ⟨fun _ => Or.inl hplain, fun _ => unprefixed_of_plain hbare hplain path⟩
    · rw [unprefixed_eq_none hbare hplain, eq_comm]
      by_cases hused : usedPrefix getenv = []
      · rw [serverApiPrefix_of_unused hused]
        constructor
        · exact nofun
        · rintro (h | h)
          · exact absurd h hplain
          · exact absurd hused h.1
      · rw [serverApiPrefix_of_used hused, withinPrefix_eq_none (normal_ne_nil _)]
        exact ⟨fun h => Or.inr ⟨hused, h⟩, fun h => (h.resolve_left hplain).2⟩

/-- With `FORTAI_API_PREFIX=/` the authorization tests `/health`, and the router finds the request
outside the prefix. -/
theorem not_oneMeaning_slash :
    ¬ ∀ (getenv : Environment) (path : Target), OneMeaning getenv path := by
  intro h
  have := h (fun name => if name = "FORTAI_API_PREFIX" then some (ascii "/") else none)
    ⟨ascii "/health", by decide, by decide, by decide⟩
  exact absurd this.1 (by decide)

end Http

end FortAI
