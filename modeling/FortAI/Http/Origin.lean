import FortAI.Http.Entries
import FortAI.Http.Response

/-!
# Which origins are accepted

An origin is configured when it is, in either case, an entry of the configured list without the
blanks around it (`origins`).  The configured value `localhost` stands for the origins whose host
is a name of the machine itself (`HasLoopbackHost`).

* `listsOrigin_eq` : the loop over the list finds exactly the configured origins, and it ends.
* `cors_exact_iff` : the test for `localhost` looks for the names anywhere in the origin, and an
  origin that is refused still comes back when it is what fits of the configured value into the
  buffer of the header; everywhere else the policy is exact.
-/

namespace FortAI

namespace Http

open CString

/-! ### The policy -/

/-- The entries of a configured list of origins. -/
def origins (configured : Bytes) : List Bytes :=
  ((segments configured).map (trimmed isBlank)).filter (· ≠ [])

/-- The authority of a URL: what stands between `://` and the path, the query or the fragment. -/
def authority (origin : Bytes) : Option Bytes :=
  (find (ascii "://") origin).map fun i =>
    (origin.drop (i + 3)).takeWhile fun b => b ≠ 47 && b ≠ 63 && b ≠ 35

/-- The host in an authority, behind a user and before a port; a bracketed address is kept
whole. -/
def hostOf (authority : Bytes) : Bytes :=
  let named := authority.rtakeWhile (· ≠ 64)
  if named.head? = some 91 then named.take ((named.takeWhile (· ≠ 93)).length + 1)
  else named.takeWhile (· ≠ colon)

/-- The host component of an origin. -/
def originHost (origin : Bytes) : Option Bytes := (authority origin).map hostOf

def loopbackNames : List Bytes := [ascii "localhost", ascii "127.0.0.1", ascii "[::1]"]

def HasLoopbackHost (origin : Bytes) : Prop := ∃ name ∈ loopbackNames, originHost origin = some name

/-- One of the names of the machine occurs somewhere in the origin. -/
def MentionsLoopback (origin : Bytes) : Prop := ∃ name ∈ loopbackNames, name <:+: origin

abbrev IsLocalhost (configured : Bytes) : Prop := equalNoCase configured (ascii "localhost") = true

/-- The origin is an entry of the list, in either case. -/
def ListsOrigin (configured origin : Bytes) : Prop :=
  ∃ entry ∈ origins configured, equalNoCase entry origin = true

/-- A list accepts its entries and `localhost` the hosts of the machine itself; and no origin that is
refused is named in the header that permits credentials. -/
structure CorsExact (getenv : Environment) (origin : Bytes) : Prop where
  list : configuredOrigins getenv ≠ ascii "*" → ¬ IsLocalhost (configuredOrigins getenv) →
    (corsOriginAllowed (configuredOrigins getenv) origin = true ↔
      ListsOrigin (configuredOrigins getenv) origin)
  localhost : IsLocalhost (configuredOrigins getenv) →
    (corsOriginAllowed (configuredOrigins getenv) origin = true ↔ HasLoopbackHost origin)
  echo : corsOriginAllowed (configuredOrigins getenv) origin = false → credentials getenv = true →
    allowOrigin getenv origin ≠ origin

/-! ### The loop over the list -/

section
variable {origin : Bytes}

theorem equalNoCase_length {s t : Bytes} (h : equalNoCase s t = true) : s.length = t.length := by
  simpa using congrArg List.length (of_decide_eq_true h)

theorem not_equalNoCase_nil (hne : origin ≠ []) : equalNoCase [] origin = false := by
  refine Bool.eq_false_iff.mpr fun h => hne ?_
  exact List.length_eq_zero_iff.mp (equalNoCase_length h).symm

theorem listsOrigin_nil : listsOrigin origin [] = false := by
  rw [listsOrigin, dif_pos rfl]

theorem listsOrigin_cons {cursor : Bytes} (h : cursor ≠ []) :
    listsOrigin origin cursor = (equalNoCase (nextEntry isBlank cursor) origin ||
      listsOrigin origin (afterEntry isBlank cursor)) := by
  rw [listsOrigin, dif_neg h]
  cases hequal : equalNoCase (nextEntry isBlank cursor) origin with
  | true => rw [if_pos ⟨equalNoCase_length hequal, rfl⟩, Bool.true_or]
  | false => rw [if_neg fun h => Bool.false_ne_true h.2, Bool.false_or]

theorem listsOrigin_skip (hne : origin ≠ []) {b : Byte} (hb : b = comma ∨ isBlank b = true)
    (s : Bytes) : listsOrigin origin (b :: s) = listsOrigin origin s := by
  rw [listsOrigin_cons (List.cons_ne_nil b s), nextEntry_skip isBlank hb, afterEntry_skip isBlank hb]
  by_cases hs : s = []
  · subst hs
    rw [show nextEntry isBlank [] = [] from rfl, show afterEntry isBlank [] = [] from rfl,
      not_equalNoCase_nil hne, Bool.false_or]
  · exact (listsOrigin_cons hs).symm

theorem listsOrigin_eq (hne : origin ≠ []) (configured : Bytes) :
    listsOrigin origin configured =
      (segments configured).any fun segment => equalNoCase (trimmed isBlank segment) origin := by
  have hblank : equalNoCase (trimmed isBlank []) origin = false := not_equalNoCase_nil hne
  induction hn : configured.length using Nat.strong_induction_on generalizing configured with
  | _ n ih =>
    rcases cursor_cases configured with rfl | ⟨b, s, rfl, hb⟩ | ⟨segment, rest, rfl, h⟩
    · rw [listsOrigin_nil, segments_nil, List.any_cons, hblank]
      rfl
    · rw [listsOrigin_skip hne hb, ih s.length (by rw [← hn]; exact Nat.lt_succ_self _) s rfl]
      by_cases hcomma : b = comma
      · rw [hcomma, segments_comma, List.any_cons, hblank, Bool.false_or]
      · obtain ⟨first, others, hs, hbs⟩ := segments_cons hcomma s
        rw [hs, hbs, List.any_cons, List.any_cons, trimmed, trimmed,
          List.dropWhile_cons_of_pos (hb.resolve_left hcomma)]
    · obtain ⟨others, hothers, hrest⟩ := segments_rest h.rest_eq
      have hdrop : trimmed isBlank segment = trimEnd isBlank segment := by
        rw [trimmed, dropWhile_isBlank_of_starts h]
      have hcursor : segment ++ rest ≠ [] := by
        obtain ⟨b, s, rfl, -⟩ := h.starts
        exact List.cons_ne_nil _ _
      have hlt := afterEntry_lt hcursor
      rw [listsOrigin_cons hcursor, nextEntry_segment h, hothers segment h.comma_free,
        List.any_cons, hdrop]
      congr 1
      rw [afterEntry_segment h] at hlt ⊢
      split_ifs at hlt ⊢ with htrail
      · rcases hrest with ⟨rfl, rfl⟩ | rfl
        · exact listsOrigin_nil
        · exact ih _ (hn ▸ hlt) _ rfl
      · -- the blanks behind the entry are a segment of their own, which is no origin
        have hall : ∀ b ∈ segment.rtakeWhile isBlank, isBlank b = true :=
          fun b hb => List.mem_rtakeWhile_imp hb
        have hnil : trimmed isBlank (segment.rtakeWhile isBlank) = [] := by
          rw [trimmed, List.dropWhile_eq_nil_iff.mpr hall]
          rfl
        rw [ih _ (hn ▸ hlt) _ rfl,
          hothers _ fun hc => h.comma_free ((List.rtakeWhile_suffix _ _).subset hc),
          List.any_cons, hnil, not_equalNoCase_nil hne, Bool.false_or]

theorem listsOrigin_iff (hne : origin ≠ []) (configured : Bytes) :
    listsOrigin origin configured = true ↔ ListsOrigin configured origin := by
  rw [listsOrigin_eq hne, List.any_eq_true, ListsOrigin]
  simp only [origins, List.mem_filter, List.mem_map, decide_eq_true_eq]
  constructor
  · rintro ⟨segment, hsegment, hequal⟩
    refine ⟨_, ⟨⟨segment, hsegment, rfl⟩, fun hnil => ?_⟩, hequal⟩
    rw [hnil, not_equalNoCase_nil hne] at hequal
    exact Bool.false_ne_true hequal
  · rintro ⟨_, ⟨⟨segment, hsegment, rfl⟩, -⟩, hequal⟩
    exact ⟨segment, hsegment, hequal⟩

theorem not_listsOrigin_nil (configured : Bytes) : ¬ ListsOrigin configured [] := by
  rintro ⟨entry, hentry, hequal⟩
  simp only [origins, List.mem_filter, decide_eq_true_eq] at hentry
  exact hentry.2 (List.length_eq_zero_iff.mp (equalNoCase_length hequal))

end

/-! ### Hosts -/

theorem hostOf_within (s : Bytes) : hostOf s <:+: s := by
  have hnamed : s.rtakeWhile (· ≠ 64) <:+: s := (List.rtakeWhile_suffix _ _).isInfix
  rw [hostOf]
  split_ifs
  · exact (List.take_prefix _ _).isInfix.trans hnamed
  · exact (List.takeWhile_prefix _).isInfix.trans hnamed

/-- The host stands somewhere in the origin. -/
theorem originHost_within {origin host : Bytes} (h : originHost origin = some host) :
    host <:+: origin := by
  rw [originHost, authority, Option.map_map, Option.map_eq_some_iff] at h
  obtain ⟨i, -, rfl⟩ := h
  exact (hostOf_within _).trans
    ((List.takeWhile_prefix _).isInfix.trans (List.drop_suffix _ _).isInfix)

theorem HasLoopbackHost.mentions {origin : Bytes} (h : HasLoopbackHost origin) :
    MentionsLoopback origin := by
  obtain ⟨name, hname, hhost⟩ := h
  exact ⟨name, hname, originHost_within hhost⟩

theorem isSome_find {needle s : Bytes} (hne : needle ≠ []) :
    (find needle s).isSome = true ↔ needle <:+: s := by
  rw [Option.isSome_iff_ne_none, ne_eq, find_eq_none hne, not_not]

/-! ### The decision -/

section
variable {configured origin : Bytes}

theorem isLocalhost_ne_star (h : IsLocalhost configured) : configured ≠ ascii "*" := by
  rintro rfl
  exact absurd h (by decide)

theorem corsOriginAllowed_localhost (h : IsLocalhost configured) :
    corsOriginAllowed configured origin = true ↔ MentionsLoopback origin := by
  have hmentions : MentionsLoopback origin ↔
      ascii "localhost" <:+: origin ∨ ascii "127.0.0.1" <:+: origin ∨ ascii "[::1]" <:+: origin := by
    simp [MentionsLoopback, loopbackNames]
  rw [corsOriginAllowed, if_neg (isLocalhost_ne_star h), if_pos h, hmentions]
  split_ifs with hnil
  · subst hnil
    simp [ascii]
  · rw [Bool.or_eq_true, Bool.or_eq_true, isSome_find (by decide), isSome_find (by decide),
      isSome_find (by decide), or_assoc]

theorem corsOriginAllowed_list (hstar : configured ≠ ascii "*") (h : ¬ IsLocalhost configured) :
    corsOriginAllowed configured origin = true ↔ ListsOrigin configured origin := by
  rw [corsOriginAllowed, if_neg hstar, if_neg h]
  split_ifs with hnil
  · subst hnil
    exact iff_of_false not_false (not_listsOrigin_nil configured)
  · exact listsOrigin_iff hnil configured

theorem corsOriginAllowed_star (hne : origin ≠ []) : corsOriginAllowed (ascii "*") origin = true := by
  rw [corsOriginAllowed, if_neg hne, if_pos rfl]

end

theorem configuredOrigins_ne_nil (getenv : Environment) : configuredOrigins getenv ≠ [] := by
  rw [configuredOrigins, safeEnv]
  cases getenv "FORTAI_CORS_ORIGINS" with
  | none => decide
  | some value =>
    simp only
    split_ifs with h
    · decide
    · exact fun hnil => h (.inl hnil)

/-- Under `localhost`, an origin in which one of the names occurs has it as its host. -/
def LoopbackRegular (configured origin : Bytes) : Prop :=
  IsLocalhost configured → MentionsLoopback origin → HasLoopbackHost origin

/-- An origin that is what the buffer of 512 bytes holds of the configured value is one that this
value accepts, or credentials are off. -/
def EchoRegular (getenv : Environment) (origin : Bytes) : Prop :=
  credentials getenv = true → origin = (configuredOrigins getenv).take 511 →
    configuredOrigins getenv = ascii "*" ∨
    (IsLocalhost (configuredOrigins getenv) ∧ MentionsLoopback origin) ∨
    (¬ IsLocalhost (configuredOrigins getenv) ∧ ListsOrigin (configuredOrigins getenv) origin)

theorem corsOriginAllowed_iff (getenv : Environment) {origin : Bytes} (hne : origin ≠ []) :
    corsOriginAllowed (configuredOrigins getenv) origin = true ↔
      configuredOrigins getenv = ascii "*" ∨
      (IsLocalhost (configuredOrigins getenv) ∧ MentionsLoopback origin) ∨
      (¬ IsLocalhost (configuredOrigins getenv) ∧ ListsOrigin (configuredOrigins getenv) origin) := by
  by_cases hstar : configuredOrigins getenv = ascii "*"
  · rw [hstar]
    exact iff_of_true (corsOriginAllowed_star hne) (.inl rfl)
  by_cases hlocal : IsLocalhost (configuredOrigins getenv)
  · rw [corsOriginAllowed_localhost hlocal, or_iff_right hstar, and_iff_right hlocal,
      or_iff_left fun h => h.1 hlocal]
  · rw [corsOriginAllowed_list hstar hlocal, or_iff_right hstar, or_iff_right fun h => hlocal h.1,
      and_iff_right hlocal]

theorem echo_iff (getenv : Environment) (origin : Bytes) :
    (corsOriginAllowed (configuredOrigins getenv) origin = false → credentials getenv = true →
      allowOrigin getenv origin ≠ origin) ↔ EchoRegular getenv origin := by
  have hrefused (h : corsOriginAllowed (configuredOrigins getenv) origin = false) :
      allowOrigin getenv origin = (configuredOrigins getenv).take 511 := by
    rw [allowOrigin, if_neg]
    rintro ⟨-, hallowed⟩
    exact Bool.false_ne_true (h ▸ hallowed)
  have htake : origin = (configuredOrigins getenv).take 511 → origin ≠ [] := by
    rintro rfl hnil
    rcases List.take_eq_nil_iff.mp hnil with h | h
    · exact absurd h (by decide)
    · exact configuredOrigins_ne_nil getenv h
  constructor
  · intro h hcredentials horigin
    refine (corsOriginAllowed_iff getenv (htake horigin)).mp ?_
    by_contra hallowed
    rw [Bool.not_eq_true] at hallowed
    exact h hallowed hcredentials ((hrefused hallowed).trans horigin.symm)
  · intro h hallowed hcredentials hecho
    have horigin := (hecho.symm.trans (hrefused hallowed))
    have := (corsOriginAllowed_iff getenv (htake horigin)).mpr (h hcredentials horigin)
    exact Bool.false_ne_true (hallowed ▸ this)

/-- The policy is exact but for the origins that mention the machine without being on it, and for
those that are cut from the configured value. -/
theorem cors_exact_iff (getenv : Environment) (origin : Bytes) :
    CorsExact getenv origin ↔
      LoopbackRegular (configuredOrigins getenv) origin ∧ EchoRegular getenv origin := by
  constructor
  · rintro ⟨-, hlocalhost, hecho⟩
    refine ⟨fun h hmentions => ?_, (echo_iff getenv origin).mp hecho⟩
    exact (hlocalhost h).mp ((corsOriginAllowed_localhost h).mpr hmentions)
  · rintro ⟨hloopback, hecho⟩
    refine ⟨fun hstar h => corsOriginAllowed_list hstar h, fun h => ?_,
      (echo_iff getenv origin).mpr hecho⟩
    rw [corsOriginAllowed_localhost h]
    exact ⟨hloopback h, HasLoopbackHost.mentions⟩

/-- A foreign host whose name begins with `localhost` is accepted. -/
theorem not_corsExact_foreignHost :
    ¬ CorsExact (fun name => if name = "FORTAI_CORS_ORIGINS" then some (ascii "localhost") else none)
      (ascii "http://localhost.example.org") := by
  intro h
  obtain ⟨name, hname, hhost⟩ := (h.localhost (by decide)).mp (by decide)
  simp only [loopbackNames, List.mem_cons, List.not_mem_nil, or_false] at hname
  rcases hname with rfl | rfl | rfl <;> exact absurd hhost (by decide)

end Http

end FortAI
