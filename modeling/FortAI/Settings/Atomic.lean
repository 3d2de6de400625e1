import FortAI.Settings.Properties
import Mathlib.Tactic.NormNum

/-!
# Updates of several properties

`POST /props` validates and stores one property after the other, and it reads each value where its
name first occurs in the text.

* `atomic_iff` : an update is atomic exactly when nothing new is stored before the first property
  that is refused, and else every value is read at the member of the object itself.
-/

namespace FortAI

namespace Settings

open CString Character Chat Http

variable {R D : Type} [Arithmetic R D] (m : Single R) (stores : String → Bytes → Bool)

/-- The value of the member of the object itself; `none` when it is not one the property accepts. -/
def Property.own (body : Bytes) (p : Property) : Option (Setting R) :=
  p.accepted m (p.topLevel body)

def Setting.isReal : Setting R → Bool
  | .real _ => true
  | .integer _ => false

/-- Two values of a property are equal as numbers. -/
def Setting.Same : Setting R → Setting R → Prop
  | .real x, .real y => m.value x = m.value y
  | .integer n, .integer k => n = k
  | _, _ => False

/-- The setting has this value, whatever its default. -/
def Holds (getenv : Environment) (p : Property) : Setting R → Prop
  | .real x => ∀ fallback, m.value (serverRealDefault m.toReals getenv p.environment fallback) = m.value x
  | .integer n => ∀ fallback, serverIntegerDefault m.readInteger getenv p.environment fallback = n

/-- An update that is answered with an error changes no setting, and one that succeeds gives every
property that is present its value. -/
structure Atomic (getenv : Environment) (body : Bytes) : Prop where
  rejected : (postProps m stores getenv body).1.status = 400 →
    (postProps m stores getenv body).2 = getenv
  accepted : (postProps m stores getenv body).1.status = 200 → ∀ p ∈ present body Property.all,
    ∃ v, p.own m body = some v ∧ Holds m (postProps m stores getenv body).2 p v

/-- When a property is refused, those before it are stored as they stand already; and when none is
refused, each is read where it stands in the object itself. -/
structure Orderly (getenv : Environment) (body : Bytes) : Prop where
  unchanged : (∃ p ∈ present body Property.all, p.stored m stores body = none) →
    ∀ p ∈ updated m stores body Property.all, getenv p.environment = p.stored m stores body
  own : (∀ p ∈ present body Property.all, p.stored m stores body ≠ none) →
    ∀ p ∈ present body Property.all, ∃ v w, p.own m body = some v ∧
      p.accepted m (p.lookup body) = some w ∧ v.Same m w

/-! ### Values -/

/-- What an update stores is a finite number, or an integer in the range of the machine. -/
theorem Property.accepted_range {p : Property} {value : Option Bytes} {v : Setting R}
    (h : p.accepted m value = some v) :
    match v with
    | .real x => m.finite x = true
    | .integer n => -1 ≤ n ∧ n ≤ maxGeneration := by
  have hreal {minimum maximum : R} (h : acceptedReal m value minimum maximum = some v) :
      ∃ x, v = .real x ∧ m.finite x = true := by
    rw [acceptedReal] at h
    simp only [Bool.and_eq_true] at h
    split_ifs at h with hx
    exact ⟨_, (Option.some.inj h).symm, hx.1.1.2⟩
  have hinteger {minimum : ℤ} (hminimum : -1 ≤ minimum)
      (h : (acceptedInteger value minimum maxGeneration : Option (Setting R)) = some v) :
      ∃ n, v = .integer n ∧ -1 ≤ n ∧ n ≤ maxGeneration := by
    rw [acceptedInteger] at h
    split_ifs at h with hn
    exact ⟨_, (Option.some.inj h).symm, hminimum.trans hn.2.1, hn.2.2⟩
  cases p with
  | temperature | topP | minP | repeatPenalty | presencePenalty | frequencyPenalty =>
    obtain ⟨x, rfl, hx⟩ := hreal h
    exact hx
  | topK =>
    obtain ⟨n, rfl, hn⟩ := hinteger (by decide) h
    exact hn
  | repeatLastN =>
    obtain ⟨n, rfl, hn⟩ := hinteger (le_refl _) h
    exact hn

/-- A property has values of one kind. -/
theorem Property.kind_eq {p : Property} {value other : Option Bytes} {v w : Setting R}
    (hw : p.accepted m value = some w) (hv : p.accepted m other = some v) : v.isReal = w.isReal := by
  have hreal {value : Option Bytes} {minimum maximum : R} {v : Setting R}
      (h : acceptedReal m value minimum maximum = some v) : v.isReal = true := by
    rw [acceptedReal] at h
    split_ifs at h
    exact Option.some.inj h ▸ rfl
  have hinteger {value : Option Bytes} {minimum maximum : ℤ} {v : Setting R}
      (h : acceptedInteger value minimum maximum = some v) : v.isReal = false := by
    rw [acceptedInteger] at h
    split_ifs at h
    exact Option.some.inj h ▸ rfl
  cases p with
  | temperature | topP | minP | repeatPenalty | presencePenalty | frequencyPenalty =>
    exact (hreal hv).trans (hreal hw).symm
  | topK | repeatLastN => exact (hinteger hv).trans (hinteger hw).symm

/-- A stored value is the one that the setting has. -/
theorem holds_iff {getenv : Environment} {p : Property} {value other : Option Bytes} {v w : Setting R}
    (hw : p.accepted m value = some w) (hv : p.accepted m other = some v)
    (h : getenv p.environment = some (w.text m)) : Holds m getenv p v ↔ v.Same m w := by
  have hrange := p.accepted_range m hw
  have hkind := p.kind_eq m hw hv
  cases w with
  | real y =>
    cases v with
    | integer n => exact absurd hkind Bool.noConfusion
    | real x =>
      obtain ⟨q, hq⟩ := Option.isSome_iff_exists.mp ((m.finite_eq y).symm.trans hrange)
      have hread := serverRealDefault_printed m hq h
      exact ⟨fun hx => (hx x).symm.trans ((hread x).trans hq.symm),
        fun hx fallback => (hread fallback).trans (hq.symm.trans hx.symm)⟩
  | integer k =>
    cases v with
    | real x => exact absurd hkind Bool.noConfusion
    | integer n =>
      have hread := serverIntegerDefault_signed m (by omega)
        (hrange.2.trans (by decide)) h
      exact ⟨fun hn => (hn 0).symm.trans (hread 0), fun hn fallback => (hread fallback).trans hn.symm⟩

theorem stored_eq_some {p : Property} {body : Bytes} (h : p.stored m stores body ≠ none) :
    ∃ w, p.accepted m (p.lookup body) = some w ∧ p.stored m stores body = some (w.text m) := by
  rw [Property.stored] at h ⊢
  cases hw : p.accepted m (p.lookup body) with
  | none =>
    rw [hw] at h
    exact absurd rfl h
  | some w =>
    rw [hw, Option.map_some, Option.filter_some] at h
    rw [Option.map_some, Option.filter_some]
    split_ifs at h ⊢ with hstores
    · exact ⟨w, rfl, rfl⟩
    · exact absurd rfl h

/-! ### Atomic updates -/

theorem nodup_all : Property.all.Nodup := by decide

/-- **An update is atomic** exactly when the properties are disabled or the update is orderly. -/
theorem atomic_iff (getenv : Environment) (body : Bytes) :
    Atomic m stores getenv body ↔
      serverBooleanDefault getenv "FORTAI_ENDPOINT_PROPS" false = false ∨
        Orderly m stores getenv body := by
  obtain ⟨hfirst, hset, hkept⟩ := updateAll_eq m stores body nodup_all getenv
  by_cases henabled : serverBooleanDefault getenv "FORTAI_ENDPOINT_PROPS" false = true
  case neg =>
    have hanswer : postProps m stores getenv body = (.disabled, getenv) := by
      rw [postProps, if_neg henabled]
    refine ⟨fun _ => .inl (Bool.not_eq_true _ ▸ henabled), fun _ => ⟨?_, ?_⟩⟩
    · rw [hanswer]
      exact fun _ => rfl
    · rw [hanswer]
      intro h
      have hne : (404 : ℕ) = 200 := h
      exact absurd hne (by decide)
  have hanswer : postProps m stores getenv body =
      ((updateAll m stores body Property.all getenv).1.elim .updated .invalid,
        (updateAll m stores body Property.all getenv).2) := by
    rw [postProps, if_pos henabled]
  rw [or_iff_right (by rw [henabled]; exact Bool.noConfusion)]
  generalize updateAll m stores body Property.all getenv = r at hfirst hset hkept hanswer
  cases hr : r.1 with
  | some p =>
    -- a property is refused
    have hstatus : (postProps m stores getenv body).1.status = 400 := by
      rw [hanswer, hr]
      rfl
    have hrefused : ∃ p ∈ present body Property.all, p.stored m stores body = none := by
      rw [hr] at hfirst
      exact ⟨p, List.mem_of_find?_eq_some hfirst.symm,
        Option.isNone_iff_eq_none.mp (List.find?_some
          (p := fun p : Property => (p.stored m stores body).isNone) hfirst.symm)⟩
    constructor
    · intro h
      have henv := h.rejected hstatus
      rw [hanswer] at henv
      refine ⟨fun _ p hp => ?_, fun hall => ?_⟩
      · rw [← hset p hp]
        exact congrFun henv.symm p.environment
      · obtain ⟨p, hp, hnone⟩ := hrefused
        exact absurd hnone (hall p hp)
    · intro h
      refine ⟨fun _ => ?_, fun h200 => ?_⟩
      · rw [hanswer]
        funext name
        by_cases hname : ∃ p ∈ updated m stores body Property.all, p.environment = name
        · obtain ⟨p, hp, rfl⟩ := hname
          exact (hset p hp).trans (h.unchanged hrefused p hp).symm
        · push Not at hname
          exact hkept name hname
      · rw [hstatus] at h200
        exact absurd h200 (by decide)
  | none =>
    have hstatus : (postProps m stores getenv body).1.status = 200 := by
      rw [hanswer, hr]
      rfl
    have hall : ∀ p ∈ present body Property.all, p.stored m stores body ≠ none := by
      rw [hr] at hfirst
      intro p hp hnone
      exact List.find?_eq_none.mp hfirst.symm p hp (Option.isNone_iff_eq_none.mpr hnone)
    have hupdated : updated m stores body Property.all = present body Property.all :=
      List.takeWhile_eq_self_iff.mpr fun p hp => Option.isSome_iff_ne_none.mpr (hall p hp)
    have hholds {p : Property} (hp : p ∈ present body Property.all) {v : Setting R}
        (hv : p.own m body = some v) :
        Holds m (postProps m stores getenv body).2 p v ↔
          ∃ w, p.accepted m (p.lookup body) = some w ∧ v.Same m w := by
      obtain ⟨w, hw, hstored⟩ := stored_eq_some m stores (hall p hp)
      have hvalue : (postProps m stores getenv body).2 p.environment = some (w.text m) := by
        rw [hanswer, hset p (hupdated ▸ hp), hstored]
      rw [holds_iff m hw hv hvalue, hw]
      simp only [Option.some.injEq, exists_eq_left']
    constructor
    · intro h
      refine ⟨fun hrefused => ?_, fun _ p hp => ?_⟩
      · obtain ⟨p, hp, hnone⟩ := hrefused
        exact absurd hnone (hall p hp)
      · obtain ⟨v, hv, hheld⟩ := h.accepted hstatus p hp
        obtain ⟨w, hw, hsame⟩ := (hholds hp hv).mp hheld
        exact ⟨v, w, hv, hw, hsame⟩
    · intro h
      refine ⟨fun h400 => ?_, fun _ p hp => ?_⟩
      · rw [hstatus] at h400
        exact absurd h400 (by decide)
      · obtain ⟨v, w, hv, hw, hsame⟩ := h.own hall p hp
        exact ⟨v, hv, (hholds hp hv).mpr ⟨w, hw, hsame⟩⟩

/-! ### Some numbers -/

/-- Some single precision numbers: the constants of the source, 2, and one that is not finite. -/
inductive Sample
  | zero | tiny | minP | temperature | topP | one | two | huge | minusHuge | infinity
  deriving DecidableEq

namespace Sample

def value : Sample → Option ℚ
  | zero => some 0
  | tiny => some (1 / 2 ^ 126)
  | minP => some (13421773 / 2 ^ 28)
  | temperature => some (13421773 / 2 ^ 24)
  | topP => some (15938355 / 2 ^ 24)
  | one => some 1
  | two => some 2
  | huge => some ((2 ^ 24 - 1) * 2 ^ 104)
  | minusHuge => some (-((2 ^ 24 - 1) * 2 ^ 104))
  | infinity => none

def printed : Sample → Scientific 16
  | zero => ⟨false, 0, 0, by norm_num⟩
  | tiny => ⟨false, 11754943508222875, -38, by norm_num⟩
  | minP => ⟨false, 50000000745058060, -2, by norm_num⟩
  | temperature => ⟨false, 80000001192092896, -1, by norm_num⟩
  | topP => ⟨false, 94999998807907104, -1, by norm_num⟩
  | one => ⟨false, 10000000000000000, 0, by norm_num⟩
  | two => ⟨false, 20000000000000000, 0, by norm_num⟩
  | huge => ⟨false, 34028234663852886, 38, by norm_num⟩
  | minusHuge => ⟨true, 34028234663852886, 38, by norm_num⟩
  | infinity => ⟨false, 0, 0, by norm_num⟩

def le (x y : Sample) : Bool :=
  match value x, value y with
  | some p, some q => p ≤ q
  | _, _ => false

def lt (x y : Sample) : Bool :=
  match value x, value y with
  | some p, some q => p < q
  | _, _ => false

/-- Nothing is computed with these numbers. -/
instance : Arithmetic Sample Unit where
  zero := zero
  one := one
  add _ _ := infinity
  sub _ _ := infinity
  mul _ _ := infinity
  div _ _ := infinity
  exp _ := infinity
  log _ := infinity
  ofCount _ := infinity
  lt := lt
  le := le
  eq x y := value x = value y ∧ (value x).isSome
  finite x := (value x).isSome
  zeroD := ()
  addD _ _ := ()
  mulD _ _ := ()
  leD _ _ := true
  widen _ := ()
  unit64 _ _ := ()
  not_lt_of_eq := by
    intro a b h
    obtain ⟨heq, -⟩ := of_decide_eq_true h
    rw [lt, ← heq]
    cases value a with
    | none => rfl
    | some q => exact decide_eq_false (lt_irrefl q)

theorem binary {x : Sample} {q : ℚ} (h : value x = some q) : IsBinary 24 q := by
  cases x with
  | zero => exact ⟨0, 0, by norm_num, by rw [← Option.some.inj h]; norm_num⟩
  | tiny => exact ⟨1, -126, by norm_num, by rw [← Option.some.inj h]; norm_num⟩
  | minP => exact ⟨13421773, -28, by norm_num, by rw [← Option.some.inj h]; norm_num⟩
  | temperature => exact ⟨13421773, -24, by norm_num, by rw [← Option.some.inj h]; norm_num⟩
  | topP => exact ⟨15938355, -24, by norm_num, by rw [← Option.some.inj h]; norm_num⟩
  | one => exact ⟨1, 0, by norm_num, by rw [← Option.some.inj h]; norm_num⟩
  | two => exact ⟨2, 0, by norm_num, by rw [← Option.some.inj h]; norm_num⟩
  | huge => exact ⟨2 ^ 24 - 1, 104, by norm_num, by rw [← Option.some.inj h]; norm_num⟩
  | minusHuge => exact ⟨-(2 ^ 24 - 1), 104, by norm_num, by rw [← Option.some.inj h]; norm_num⟩
  | infinity => cases h

theorem prints {x : Sample} {q : ℚ} (h : value x = some q) : Prints (printed x) q := by
  cases x with
  | infinity => cases h
  | zero =>
    rw [← Option.some.inj h]
    refine ⟨?_, fun h0 => absurd rfl h0, fun _ => rfl⟩
    norm_num [Scientific.value, Scientific.ulp, printed]
  | _ =>
    rw [← Option.some.inj h]
    refine ⟨?_, fun _ => by norm_num [printed], fun h0 => by norm_num at h0⟩
    norm_num [Scientific.value, Scientific.ulp, printed, abs_le]

def all : List Sample :=
  [zero, tiny, minP, temperature, topP, one, two, huge, minusHuge, infinity]

/-- Input of a digit, or of a number as it is printed. -/
def readReal (text : Bytes) : Option Sample :=
  if text = [48] then some zero
  else if text = [49] then some one
  else if text = [50] then some two
  else all.find? fun x => esText (printed x) = text

/-- Input of an integer without blanks. -/
def readInteger (text : Bytes) : Option ℤ :=
  if text.head? = some 45 then some (-CString.value text.tail) else some (CString.value text)

theorem readInteger_signed (n : ℤ) : readInteger (signed n) = some n := by
  have hminus : (ascii "-") = [45] := by decide
  cases n with
  | ofNat n =>
    have hhead : (decimal n).head? ≠ some 45 := by
      intro h
      have hdigit := isDigit_of_mem_decimal 45 (List.mem_of_mem_head? h)
      exact absurd hdigit (by decide)
    rw [signed, readInteger, if_neg hhead, value_decimal]
    rfl
  | negSucc n =>
    have hsigned : signed (Int.negSucc n) = 45 :: decimal (n + 1) := by
      rw [signed, hminus, List.singleton_append]
    have hhead : (45 :: decimal (n + 1)).head? = some 45 := rfl
    rw [hsigned, readInteger, if_pos hhead, List.tail_cons, value_decimal]
    rfl

theorem readReal_printed {x : Sample} {q : ℚ} (h : value x = some q) :
    readReal (esText (printed x)) = some x := by
  cases x with
  | infinity => cases h
  | _ => decide

/-- The numbers as single precision numbers. -/
def single : Single Sample where
  readReal text _ := readReal text
  readInt64 text _ := readInteger text
  finite x := (value x).isSome
  value := value
  tiny := tiny
  huge := huge
  minusHuge := minusHuge
  temperature := temperature
  topP := topP
  minP := minP
  printed := printed
  readInteger text _ := readInteger text
  binary := binary
  finite_eq _ := rfl
  finite_eq' _ := rfl
  le_iff hx hy := by
    show le _ _ = true ↔ _
    rw [le, hx, hy, decide_eq_true_iff]
  lt_iff hx hy := by
    show lt _ _ = true ↔ _
    rw [lt, hx, hy, decide_eq_true_iff]
  value_zero := rfl
  value_one := rfl
  value_tiny := rfl
  value_huge := rfl
  value_minusHuge := rfl
  value_temperature := rfl
  value_topP := rfl
  value_minP := rfl
  exponent_lt x := by cases x <;> decide
  prints := prints
  read_printed hx _ := ⟨_, _, readReal_printed hx, hx, fun _ _ hz =>
    (prints hx).nearest (by norm_num) (binary hx) (binary hz)⟩
  read_integer n _ _ _ := readInteger_signed n

end Sample

/-- An environment with nothing but the switch of the endpoint. -/
def propsOnly : Environment := fun name =>
  if name = "FORTAI_ENDPOINT_PROPS" then some (ascii "1") else none

/-- The temperature is stored although the update is refused for its `top_p`. -/
theorem not_atomic_twoProperties :
    ¬ ∀ (getenv : Environment) (body : Bytes), Atomic Sample.single (fun _ _ => true) getenv body := by
  intro h
  have hatomic := h propsOnly (ascii "\x7b\"temperature\":1,\"top_p\":2\x7d")
  have hstatus : (postProps Sample.single (fun _ _ => true) propsOnly
      (ascii "\x7b\"temperature\":1,\"top_p\":2\x7d")).1.status = 400 := by decide +kernel
  have henv := congrFun (hatomic.rejected hstatus) "FORTAI_TEMPERATURE"
  have hset : (postProps Sample.single (fun _ _ => true) propsOnly
      (ascii "\x7b\"temperature\":1,\"top_p\":2\x7d")).2 "FORTAI_TEMPERATURE" ≠ none := by
    decide +kernel
  exact hset henv

end Settings

end FortAI
