import FortAI.Settings.Atomic

/-!
# Settings and the default request

What `POST /props` accepts is read again by a request that gives no sampling options of its own.

* `Run.setting` : what a run of accepted updates leaves of a setting.
* `defaultAccepted_iff` : the default request is accepted exactly when the last `top_p` was not zero.
-/

namespace FortAI

namespace Settings

open CString Character Chat Http Arithmetic

variable {R D : Type} [Arithmetic R D] (m : Single R) (stores : String → Bytes → Bool)

/-! ### The default request -/

/-- The defaults that a request is read with. -/
def serverDefaults (getenv : Environment) : Defaults R where
  maxTokens := serverIntegerDefault m.readInteger getenv "FORTAI_MAX_TOKENS" (-1)
  temperature := serverRealDefault m.toReals getenv "FORTAI_TEMPERATURE" m.temperature
  seed := serverIntegerDefault m.readInt64 getenv "FORTAI_SEED" 0
  topK := serverIntegerDefault m.readInteger getenv "FORTAI_TOP_K" 40
  repeatLastN := serverIntegerDefault m.readInteger getenv "FORTAI_REPEAT_LAST_N" 64
  topP := serverRealDefault m.toReals getenv "FORTAI_TOP_P" m.topP
  minP := serverRealDefault m.toReals getenv "FORTAI_MIN_P" m.minP
  repeatPenalty := serverRealDefault m.toReals getenv "FORTAI_REPEAT_PENALTY" one
  presencePenalty := serverRealDefault m.toReals getenv "FORTAI_PRESENCE_PENALTY" zero
  frequencyPenalty := serverRealDefault m.toReals getenv "FORTAI_FREQUENCY_PENALTY" zero

/-- What `fortai_native_http_handle` finds wrong with the sampling options of a request. -/
def samplingError {R D : Type} [Arithmetic R D] (m : Reals R) (options : Options R) : Option Bytes :=
  if !options.temperature.2 || !m.finite options.temperature.1 || lt options.temperature.1 zero then
    some (ascii "temperature must be a finite non-negative number")
  else
    let samplingValid := options.topP.2 && options.minP.2 && options.repeatPenalty.2 &&
      options.presencePenalty.2 && options.frequencyPenalty.2 && options.topK.2 && options.repeatLastN.2
    if !samplingValid || decide (options.topK.1 < 0) || decide (options.repeatLastN.1 < -1) ||
        le options.topP.1 zero || lt one options.topP.1 || lt options.minP.1 zero ||
        lt one options.minP.1 || le options.repeatPenalty.1 zero then
      some (ascii "invalid sampling parameters")
    else none

/-- The options that the handler passes on to the service. -/
def samplingOptions (options : Options R) : SamplingOptions R where
  topK := options.topK.1
  topP := options.topP.1
  minP := options.minP.1
  repeatPenalty := options.repeatPenalty.1
  presencePenalty := options.presencePenalty.1
  frequencyPenalty := options.frequencyPenalty.1
  repeatLastN := options.repeatLastN.1

/-- A request without any of the properties. -/
def Omits (text : Bytes) : Prop := ∀ p : Property, p.lookup text = none

/-- No request without sampling options of its own is rejected, by the handler or by the service. -/
def DefaultAccepted (getenv : Environment) : Prop :=
  ∀ (text : Bytes) (endpoint : Endpoint), Omits text →
    let options := parseOptions m.toReals (serverDefaults m getenv)
      (fun key => jsonKey key text text.length) endpoint
    samplingError m.toReals options = none ∧ validSamplingOptions (samplingOptions options) = true

/-! ### Runs of updates -/

/-- The environments that accepted updates reach from one in which no property is set. -/
inductive Run : List Bytes → Environment → Prop
  | start {getenv : Environment} (h : ∀ p : Property, settingText getenv p.environment = []) :
      Run [] getenv
  | update {bodies : List Bytes} {getenv : Environment} (body : Bytes) (h : Run bodies getenv)
      (accepted : (postProps m stores getenv body).1 = .updated) :
      Run (bodies ++ [body]) (postProps m stores getenv body).2

/-- The last of the updates that has the property. -/
def Property.last (p : Property) (bodies : List Bytes) : Option Bytes :=
  (bodies.filter fun body => (p.topLevel body).isSome).getLast?

/-- What an accepted update leaves in the environment. -/
theorem accepted_update {getenv : Environment} {body : Bytes}
    (h : (postProps m stores getenv body).1 = .updated) :
    (∀ p : Property, (p.topLevel body).isSome = true → ∃ v, p.accepted m (p.lookup body) = some v ∧
      (postProps m stores getenv body).2 p.environment = some (v.text m)) ∧
    ∀ name, (∀ p : Property, (p.topLevel body).isSome = true → p.environment ≠ name) →
      (postProps m stores getenv body).2 name = getenv name := by
  obtain ⟨hfirst, hset, hkept⟩ := updateAll_eq m stores body nodup_all getenv
  rw [postProps] at h ⊢
  split_ifs at h ⊢ with henabled
  simp only at h ⊢
  cases hr : (updateAll m stores body Property.all getenv).1 with
  | some p =>
    rw [hr] at h
    cases h
  | none =>
    rw [hr] at hfirst
    have hall : ∀ p ∈ present body Property.all, p.stored m stores body ≠ none := fun p hp hnone =>
      List.find?_eq_none.mp hfirst.symm p hp (Option.isNone_iff_eq_none.mpr hnone)
    have hupdated : updated m stores body Property.all = present body Property.all :=
      List.takeWhile_eq_self_iff.mpr fun p hp => Option.isSome_iff_ne_none.mpr (hall p hp)
    have hmem {p : Property} : p ∈ present body Property.all ↔ (p.topLevel body).isSome = true := by
      rw [present, List.mem_filter, and_iff_right (by cases p <;> decide)]
    refine ⟨fun p hp => ?_, fun name hname => ?_⟩
    · obtain ⟨v, hv, hstored⟩ := stored_eq_some m stores (hall p (hmem.mpr hp))
      exact ⟨v, hv, (hset p (hupdated ▸ hmem.mpr hp)).trans hstored⟩
    · refine hkept name fun p hp => ?_
      rw [hupdated] at hp
      exact hname p (hmem.mp hp)

theorem environment_ne_alternative (p q : Property) : p.environment ≠ alternative q.environment := by
  cases p <;> cases q <;> decide

/-- The text of a setting is not changed by an update without the property. -/
theorem settingText_update {getenv : Environment} {body : Bytes} {p : Property}
    (h : (postProps m stores getenv body).1 = .updated) (hp : ¬ (p.topLevel body).isSome = true) :
    settingText (postProps m stores getenv body).2 p.environment = settingText getenv p.environment ∧
      (postProps m stores getenv body).2 p.environment = getenv p.environment := by
  obtain ⟨-, hkept⟩ := accepted_update m stores h
  have hown := hkept p.environment fun q hq heq => hp (Property.environment_injective heq ▸ hq)
  have hother := hkept (alternative p.environment) fun q _ => environment_ne_alternative q p
  rw [settingText, settingText, hown, hother]
  exact ⟨rfl, rfl⟩

/-- What a run leaves of a setting: nothing, or the value of the last update that has it. -/
theorem Run.setting {bodies : List Bytes} {getenv : Environment} (h : Run m stores bodies getenv)
    (p : Property) :
    p.last bodies = none ∧ settingText getenv p.environment = [] ∨
      ∃ body v, p.last bodies = some body ∧ p.accepted m (p.lookup body) = some v ∧
        getenv p.environment = some (v.text m) := by
  induction h with
  | start h => exact .inl ⟨rfl, h p⟩
  | update body h accepted ih =>
    by_cases hp : (p.topLevel body).isSome = true
    · obtain ⟨v, hv, hvalue⟩ := (accepted_update m stores accepted).1 p hp
      refine .inr ⟨body, v, ?_, hv, hvalue⟩
      rw [Property.last, List.filter_append, List.filter_cons, if_pos hp, List.filter_nil,
        List.getLast?_concat]
    · obtain ⟨htext, hvalue⟩ := settingText_update m stores accepted hp
      have hlast (bodies : List Bytes) : p.last (bodies ++ [body]) = p.last bodies := by
        rw [Property.last, List.filter_append, List.filter_cons, if_neg hp, List.filter_nil,
          List.append_nil]
        rfl
      rw [hlast, htext, hvalue]
      exact ih

/-! ### What is read back -/

/-- A real setting is read back as a number between its bounds, that of the last update that has it. -/
theorem Run.real_setting {bodies : List Bytes} {getenv : Environment} (h : Run m stores bodies getenv)
    (p : Property) {minimum maximum fallback : R} {low high q : ℚ}
    (hp : ∀ value, p.accepted m value = acceptedReal m value minimum maximum)
    (hlow : m.value minimum = some low) (hhigh : m.value maximum = some high)
    (hfallback : m.value fallback = some q) (hq : low ≤ q ∧ q ≤ high) :
    ∃ r, m.value (serverRealDefault m.toReals getenv p.environment fallback) = some r ∧
      low ≤ r ∧ r ≤ high ∧ (p.last bodies = none → r = q) ∧
      ∀ body ∈ p.last bodies, m.value (real m.toReals (p.lookup body) minimum).1 = some r := by
  rcases h.setting m stores p with ⟨hnone, htext⟩ | ⟨body, v, hlast, hv, henv⟩
  · have hread : serverRealDefault m.toReals getenv p.environment fallback = fallback := by
      simp only [serverRealDefault, htext, true_or, if_true]
    rw [hread, hnone]
    exact ⟨q, hfallback, hq.1, hq.2, fun _ => rfl, fun _ hb => absurd hb (Option.not_mem_none _)⟩
  · rw [hp, acceptedReal] at hv
    simp only [Bool.and_eq_true] at hv
    split_ifs at hv with hx
    obtain ⟨⟨⟨-, hfinite⟩, hle⟩, hge⟩ := hx
    rw [m.finite_eq] at hfinite
    obtain ⟨r, hr⟩ := Option.isSome_iff_exists.mp hfinite
    rw [← Option.some.inj hv] at henv
    refine ⟨r, serverRealDefault_printed m hr henv fallback, (m.le_iff hlow hr).mp hle,
      (m.le_iff hr hhigh).mp hge, fun hnone => ?_, fun body' hbody' => ?_⟩
    · rw [hlast] at hnone
      cases hnone
    · rw [hlast] at hbody'
      rw [← Option.some.inj hbody']
      exact hr

/-- An integer setting is read back as a number that is not below its bound. -/
theorem Run.integer_setting {bodies : List Bytes} {getenv : Environment} (h : Run m stores bodies getenv)
    (p : Property) {minimum fallback : ℤ} (hminimum : -1 ≤ minimum)
    (hp : ∀ value, p.accepted m value = acceptedInteger value minimum maxGeneration)
    (hfallback : minimum ≤ fallback) :
    minimum ≤ serverIntegerDefault m.readInteger getenv p.environment fallback := by
  rcases h.setting m stores p with ⟨-, htext⟩ | ⟨body, v, -, hv, henv⟩
  · simp only [serverIntegerDefault, htext, true_or, if_true]
    exact hfallback
  · rw [hp, acceptedInteger] at hv
    split_ifs at hv with hn
    rw [← Option.some.inj hv] at henv
    have hread := serverIntegerDefault_signed m (by omega) (hn.2.2.trans (by decide)) henv fallback
    exact hread ▸ hn.2.1

/-- What the handler and the service require of numbers. -/
theorem checks_iff {options : Options R} {temperature topP minP repeatPenalty presencePenalty
    frequencyPenalty : ℚ}
    (hvalid : options.temperature.2 = true ∧ options.topP.2 = true ∧ options.minP.2 = true ∧
      options.repeatPenalty.2 = true ∧ options.presencePenalty.2 = true ∧
      options.frequencyPenalty.2 = true ∧ options.topK.2 = true ∧ options.repeatLastN.2 = true)
    (htemperature : m.value options.temperature.1 = some temperature)
    (htopP : m.value options.topP.1 = some topP) (hminP : m.value options.minP.1 = some minP)
    (hrepeat : m.value options.repeatPenalty.1 = some repeatPenalty)
    (hpresence : m.value options.presencePenalty.1 = some presencePenalty)
    (hfrequency : m.value options.frequencyPenalty.1 = some frequencyPenalty) :
    (samplingError m.toReals options = none ∧ validSamplingOptions (samplingOptions options) = true) ↔
      0 ≤ temperature ∧ 0 < topP ∧ topP ≤ 1 ∧ 0 ≤ minP ∧ minP ≤ 1 ∧ 0 < repeatPenalty ∧
        0 ≤ options.topK.1 ∧ -1 ≤ options.repeatLastN.1 := by
  have hle {x : R} {q : ℚ} (hx : m.value x = some q) : le x zero = decide (q ≤ 0) :=
    Bool.eq_iff_iff.mpr ((m.le_iff hx m.value_zero).trans (decide_eq_true_iff).symm)
  have hlt {x : R} {q : ℚ} (hx : m.value x = some q) : lt x zero = decide (q < 0) :=
    Bool.eq_iff_iff.mpr ((m.lt_iff hx m.value_zero).trans (decide_eq_true_iff).symm)
  have hone {x : R} {q : ℚ} (hx : m.value x = some q) : lt one x = decide (1 < q) :=
    Bool.eq_iff_iff.mpr ((m.lt_iff m.value_one hx).trans (decide_eq_true_iff).symm)
  have hfinite {x : R} {q : ℚ} (hx : m.value x = some q) : Arithmetic.finite x = true := by
    rw [m.finite_eq', hx]
    rfl
  have hfinite' : m.finite options.temperature.1 = true := by
    rw [m.finite_eq, htemperature]
    rfl
  obtain ⟨h1, h2, h3, h4, h5, h6, h7, h8⟩ := hvalid
  simp only [samplingError, samplingOptions, validSamplingOptions, h1, h2, h3, h4, h5, h6, h7, h8,
    hfinite', hfinite htopP, hfinite hminP, hfinite hrepeat, hfinite hpresence, hfinite hfrequency,
    hlt htemperature, hle htopP, hone htopP, hlt hminP, hone hminP, hle hrepeat, Bool.not_true,
    Bool.false_or, Bool.and_true, Bool.or_eq_true, decide_eq_true_iff,
    Bool.and_eq_true, Bool.not_eq_true', Bool.or_eq_false_iff, decide_eq_false_iff_not, not_lt, not_le]
  constructor
  · rintro ⟨herror, ⟨⟨⟨htopK, hrepeatLastN⟩, htopP, htopP'⟩, hminP, hminP'⟩, hrepeat⟩
    split_ifs at herror with htemperature
    exact ⟨not_lt.mp htemperature, htopP, htopP', hminP, hminP', hrepeat,
      not_lt.mp (of_decide_eq_false htopK), not_lt.mp (of_decide_eq_false hrepeatLastN)⟩
  · rintro ⟨htemperature, htopP, htopP', hminP, hminP', hrepeat, htopK, hrepeatLastN⟩
    refine ⟨?_, ⟨⟨⟨decide_eq_false htopK.not_gt, decide_eq_false hrepeatLastN.not_gt⟩, htopP, htopP'⟩,
      hminP, hminP'⟩, hrepeat⟩
    rw [if_neg htemperature.not_gt, if_neg]
    simp only [not_or, not_lt, not_le]
    exact ⟨⟨⟨⟨⟨⟨htopK, hrepeatLastN⟩, htopP⟩, htopP'⟩, hminP⟩, hminP'⟩, hrepeat⟩

/-- What the last update that has a `top_p` reads for it is positive. -/
def PositiveTopP (bodies : List Bytes) : Prop :=
  ∀ body ∈ Property.topP.last bodies,
    lt zero (real m.toReals (Property.topP.lookup body) (zero : R)).1 = true

theorem omits_nil : Omits [] := by
  intro p
  cases p <;> decide +kernel

/-- **The default request is accepted** after a run of accepted updates exactly when the last of them
with a `top_p` does not make it zero. -/
theorem defaultAccepted_iff {bodies : List Bytes} {getenv : Environment}
    (h : Run m stores bodies getenv) : DefaultAccepted m getenv ↔ PositiveTopP m bodies := by
  obtain ⟨temperature, htemperature, htemperature0, -⟩ := h.real_setting m stores .temperature
    (fun _ => rfl) m.value_zero m.value_huge m.value_temperature (by norm_num)
  obtain ⟨topP, htopP, -, htopP1, hdefault, hlast⟩ := h.real_setting m stores .topP
    (fun _ => rfl) m.value_zero m.value_one m.value_topP (by norm_num)
  obtain ⟨minP, hminP, hminP0, hminP1, -⟩ := h.real_setting m stores .minP
    (fun _ => rfl) m.value_zero m.value_one m.value_minP (by norm_num)
  obtain ⟨repeatPenalty, hrepeat, hrepeat0, -⟩ := h.real_setting m stores .repeatPenalty
    (fun _ => rfl) m.value_tiny m.value_huge m.value_one (by norm_num)
  obtain ⟨presence, hpresence, -⟩ := h.real_setting m stores .presencePenalty
    (fun _ => rfl) m.value_minusHuge m.value_huge m.value_zero (by norm_num)
  obtain ⟨frequency, hfrequency, -⟩ := h.real_setting m stores .frequencyPenalty
    (fun _ => rfl) m.value_minusHuge m.value_huge m.value_zero (by norm_num)
  have htopK : 0 ≤ serverIntegerDefault m.readInteger getenv "FORTAI_TOP_K" 40 :=
    h.integer_setting m stores .topK (by decide) (fun _ => rfl) (by decide)
  have hrepeatLastN : -1 ≤ serverIntegerDefault m.readInteger getenv "FORTAI_REPEAT_LAST_N" 64 :=
    h.integer_setting m stores .repeatLastN (by decide) (fun _ => rfl) (by decide)
  have hpositive : PositiveTopP m bodies ↔ 0 < topP := by
    rw [PositiveTopP]
    cases hbody : Property.topP.last bodies with
    | none =>
      rw [hdefault hbody]
      exact iff_of_true (fun _ hb => absurd hb (Option.not_mem_none _)) (by norm_num)
    | some body =>
      have hvalue := hlast body hbody
      simp only [Option.mem_some_iff, forall_eq']
      exact m.lt_iff m.value_zero hvalue
  have hrequest (text : Bytes) (endpoint : Endpoint) (homits : Omits text) :
      let options := parseOptions m.toReals (serverDefaults m getenv)
        (fun key => jsonKey key text text.length) endpoint
      (samplingError m.toReals options = none ∧ validSamplingOptions (samplingOptions options) = true) ↔
        0 < topP := by
    intro options
    have hreal (p : Property) (fallback : R) :
        real m.toReals (jsonKey p.key.name text text.length) fallback = (fallback, true) := by
      have hp : jsonKey p.key.name text text.length = none := homits p
      rw [hp, real]
    have hinteger (p : Property) (fallback minimum : ℤ) :
        integerChecked (jsonKey p.key.name text text.length) fallback minimum = (fallback, true) := by
      have hp : jsonKey p.key.name text text.length = none := homits p
      rw [hp, integerChecked]
    have e1 : options.temperature = _ := hreal .temperature _
    have e2 : options.topP = _ := hreal .topP _
    have e3 : options.minP = _ := hreal .minP _
    have e4 : options.repeatPenalty = _ := hreal .repeatPenalty _
    have e5 : options.presencePenalty = _ := hreal .presencePenalty _
    have e6 : options.frequencyPenalty = _ := hreal .frequencyPenalty _
    have e7 : options.topK = _ := hinteger .topK _ _
    have e8 : options.repeatLastN = _ := hinteger .repeatLastN _ _
    have hvalid : options.temperature.2 = true ∧ options.topP.2 = true ∧ options.minP.2 = true ∧
        options.repeatPenalty.2 = true ∧ options.presencePenalty.2 = true ∧
        options.frequencyPenalty.2 = true ∧ options.topK.2 = true ∧ options.repeatLastN.2 = true := by
      rw [e1, e2, e3, e4, e5, e6, e7, e8]
      exact ⟨rfl, rfl, rfl, rfl, rfl, rfl, rfl, rfl⟩
    rw [checks_iff m hvalid
      (by rw [e1]; exact htemperature) (by rw [e2]; exact htopP) (by rw [e3]; exact hminP)
      (by rw [e4]; exact hrepeat) (by rw [e5]; exact hpresence) (by rw [e6]; exact hfrequency), e7, e8]
    constructor
    · exact fun hall => hall.2.1
    · intro hpos
      exact ⟨htemperature0, hpos, htopP1, hminP0, hminP1, (by norm_num : (0 : ℚ) < 1 / 2 ^ 126).trans_le
        hrepeat0, htopK, hrepeatLastN⟩
  rw [hpositive]
  constructor
  · exact fun haccepted => (hrequest [] .completion omits_nil).mp (haccepted [] .completion omits_nil)
  · exact fun hpos text endpoint homits => (hrequest text endpoint homits).mpr hpos

/-! ### A `top_p` of one and of zero -/

/-- An update of `top_p`, accepted where the endpoint is enabled. -/
theorem run_topP {body : Bytes}
    (h : (postProps Sample.single (fun _ _ => true) propsOnly body).1 = .updated) :
    Run Sample.single (fun _ _ => true) [body] (postProps Sample.single (fun _ _ => true) propsOnly body).2 :=
  .update body (.start fun p => by cases p <;> decide) h

theorem defaultAccepted_one :
    DefaultAccepted Sample.single (postProps Sample.single (fun _ _ => true) propsOnly
      (ascii "\x7b\"top_p\":1\x7d")).2 :=
  (defaultAccepted_iff Sample.single (fun _ _ => true) (run_topP (by decide +kernel))).mpr (by
    have hlast : Property.topP.last [ascii "\x7b\"top_p\":1\x7d"] = some (ascii "\x7b\"top_p\":1\x7d") := by
      decide +kernel
    have hpositive : lt Sample.zero (real Sample.single.toReals
        (Property.topP.lookup (ascii "\x7b\"top_p\":1\x7d")) Sample.zero).1 = true := by decide +kernel
    intro body hbody
    rw [hlast] at hbody
    exact Option.some.inj hbody ▸ hpositive)

/-- A `top_p` of zero is accepted, and every default request after it is rejected. -/
theorem not_defaultAccepted_zero :
    ¬ ∀ (bodies : List Bytes) (getenv : Environment),
      Run Sample.single (fun _ _ => true) bodies getenv → DefaultAccepted Sample.single getenv := by
  intro h
  have hupdated : (postProps Sample.single (fun _ _ => true) propsOnly
      (ascii "\x7b\"top_p\":0\x7d")).1 = .updated := by decide +kernel
  have haccepted := h _ _ (run_topP hupdated) [] .completion omits_nil
  have herror : samplingError Sample.single.toReals (parseOptions Sample.single.toReals
      (serverDefaults Sample.single (postProps Sample.single (fun _ _ => true) propsOnly
        (ascii "\x7b\"top_p\":0\x7d")).2) (fun key => jsonKey key [] 0) .completion) ≠ none := by
    decide +kernel
  exact herror haccepted.1

end Settings

end FortAI
