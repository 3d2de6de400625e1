import FortAI.Machine.Cells
import FortAI.Machine.Fourier

/-!
# The Fourier transform of the spectrogram

`whisper_fft` keeps all halves and all their transforms in two flat arrays.  Arithmetic is exact, arrays are
indexed from 1, and an access outside of an array has no result.

* `Called` : the arguments of the calls of a transform.
* `Transformed` : what a call leaves behind, and what it does not touch.
* `whisperFft_spec` : every call.
* `fft_frames` : the calls of a frame, and its power spectrum.
-/

namespace FortAI

namespace Whisper

namespace Fft

open Cells

/-! ### The code -/

/-- `WHISPER_N_FFT` -/
def nFft : ℕ := 400

/-- The sizes of `fft_in` and `fft_out`. -/
def inputSize : ℕ := 2 * nFft

def outputSize : ℕ := 8 * nFft

/-- `fft_in`, `fft_out` -/
structure Scratch (R : Type) where
  input : ℕ → R
  output : ℕ → R

/-- `sin_table`, `cos_table` -/
structure Tables (R : Type) where
  sin : ℕ → R
  cos : ℕ → R

section

variable {R : Type} [CommRing R] (t : Tables R)

/-- A turn of the sum for one value, on `re` and `im`. -/
def sumTurn (b : Scratch R) (inputBase step k : ℕ) (s : R × R) (i : ℕ) : Option (R × R) := do
  let index := k * i * step % nFft
  let x ← get inputSize b.input (inputBase + i + 1)
  let c ← get nFft t.cos (index + 1)
  let s' ← get nFft t.sin (index + 1)
  some (s.1 + x * c, s.2 - x * s')

/-- One value of a transform of odd length. -/
def directTurn (inputBase n outputBase step : ℕ) (b : Scratch R) (k : ℕ) : Option (Scratch R) := do
  let sums ← (List.range n).foldlM (sumTurn t b inputBase step k) (0, 0)
  let output ← set outputSize b.output (outputBase + 2 * k + 1) sums.1
  let output ← set outputSize output (outputBase + 2 * k + 2) sums.2
  some { b with output := output }

/-- Every other number goes to the scratch behind the input, from this one on. -/
def halfTurn (inputBase evenBase first : ℕ) (b : Scratch R) (i : ℕ) : Option (Scratch R) := do
  let x ← get inputSize b.input (inputBase + 2 * i + first)
  let input ← set inputSize b.input (evenBase + i + 1) x
  some { b with input := input }

/-- Two values from the transforms of the halves. -/
def combineTurn (halfN outputBase evenFftBase oddFftBase step : ℕ) (b : Scratch R) (k : ℕ) : Option (Scratch R) := do
  let index := k * step
  let re ← get nFft t.cos (index + 1)
  let s ← get nFft t.sin (index + 1)
  let im := -s
  let evenRe ← get outputSize b.output (evenFftBase + 2 * k + 1)
  let evenIm ← get outputSize b.output (evenFftBase + 2 * k + 2)
  let oddRe ← get outputSize b.output (oddFftBase + 2 * k + 1)
  let oddIm ← get outputSize b.output (oddFftBase + 2 * k + 2)
  let output ← set outputSize b.output (outputBase + 2 * k + 1) (evenRe + re * oddRe - im * oddIm)
  let output ← set outputSize output (outputBase + 2 * k + 2) (evenIm + re * oddIm + im * oddRe)
  let output ← set outputSize output (outputBase + 2 * (k + halfN) + 1) (evenRe - re * oddRe + im * oddIm)
  let output ← set outputSize output (outputBase + 2 * (k + halfN) + 2) (evenIm - re * oddIm - im * oddRe)
  some { b with output := output }

def whisperFft (inputBase n outputBase : ℕ) (b : Scratch R) : Option (Scratch R) :=
  if h : n ≤ 1 then do
    let x ← get inputSize b.input (inputBase + 1)
    let output ← set outputSize b.output (outputBase + 1) x
    let output ← set outputSize output (outputBase + 2) 0
    some { b with output := output }
  else
    let halfN := n / 2
    let step := nFft / n
    if n - 2 * halfN = 1 then (List.range n).foldlM (directTurn t inputBase n outputBase step) b
    else do
      let evenBase := inputBase + n
      let evenFftBase := outputBase + 2 * n
      let oddFftBase := evenFftBase + n
      let b ← (List.range halfN).foldlM (halfTurn inputBase evenBase 1) b
      let b ← whisperFft evenBase halfN evenFftBase b
      let b ← (List.range halfN).foldlM (halfTurn inputBase evenBase 2) b
      let b ← whisperFft evenBase halfN oddFftBase b
      (List.range halfN).foldlM (combineTurn t halfN outputBase evenFftBase oddFftBase step) b
  termination_by n
  decreasing_by all_goals exact Nat.div_lt_self (by omega) (by decide)

/-- A number of the frame. -/
def windowTurn (hann samples : ℕ → R) (offset : ℕ) (input : ℕ → R) (j : ℕ) : Option (ℕ → R) :=
  set inputSize input (j + 1) (hann (j + 1) * samples (offset + j + 1))

/-- A value of the power spectrum, in place. -/
def powerTurn (output : ℕ → R) (j : ℕ) : Option (ℕ → R) := do
  let re ← get outputSize output (2 * j + 1)
  let im ← get outputSize output (2 * j + 2)
  set outputSize output (j + 1) (re * re + im * im)

/-- A frame of `whisper_compute_frames`, up to the filters, of which there are this many columns. -/
def powerSpectrum (hann samples : ℕ → R) (nSamples offset columns : ℕ) (b : Scratch R) : Option (Scratch R) := do
  let valid := Nat.min nFft (nSamples - offset)
  let input ← (List.range valid).foldlM (windowTurn hann samples offset) fun _ => 0
  let b ← whisperFft t 0 nFft 0 { b with input := input }
  let output ← (List.range columns).foldlM powerTurn b.output
  some { b with output := output }

end

/-! ### What a call does -/

/-- The tables with their true values. -/
noncomputable def trueTables : Tables ℝ where
  sin i := Real.sin ((2 : ℕ) * Real.pi * (i - 1 : ℕ) / nFft)
  cos i := Real.cos ((2 : ℕ) * Real.pi * (i - 1 : ℕ) / nFft)

/-- A complex number of the output. -/
def value (output : ℕ → ℝ) (base k : ℕ) : ℂ := ⟨output (base + 2 * k + 1), output (base + 2 * k + 2)⟩

/-- The slice of the input. -/
def slice (input : ℕ → ℝ) (base : ℕ) : ℕ → ℝ := fun i => input (base + i + 1)

/-- What a call leaves behind, and what it does not touch. -/
structure Transformed (inputBase n outputBase : ℕ) (b b' : Scratch ℝ) : Prop where
  value : ∀ k < n, value b'.output outputBase k = Fourier.direct n (slice b.input inputBase) k
  input : ∀ i, ¬ (inputBase + n < i ∧ i ≤ inputBase + 2 * n) → b'.input i = b.input i
  output : ∀ i, ¬ (outputBase < i ∧ i ≤ outputBase + (6 * n - 100)) → b'.output i = b.output i

/-- The twiddle factors. -/
theorem twiddle (index : ℕ) :
    (⟨trueTables.cos (index + 1), -trueTables.sin (index + 1)⟩ : ℂ) = Fourier.root nFft ^ index := by
  rw [Fourier.root_pow_eq]
  rfl

variable {inputBase n outputBase step : ℕ} {b : Scratch ℝ}

theorem root_nFft_pow (hstep : n * step = nFft) : Fourier.root nFft ^ step = Fourier.root n := by
  have hpos : 0 < step := Nat.pos_of_ne_zero fun hzero => by
    rw [hzero] at hstep
    cases hstep
  rw [← hstep, Fourier.root_mul_pow hpos]

/-- The sum for one value. -/
theorem sumTurn_run (hstep : n * step = nFft) (hinput : inputBase + n ≤ inputSize) (k : ℕ) :
    ∃ s : ℝ × ℝ, (List.range n).foldlM (sumTurn trueTables b inputBase step k) (0, 0) = some s ∧
      (⟨s.1, s.2⟩ : ℂ) = Fourier.direct n (slice b.input inputBase) k := by
  rw [Fourier.direct_eq]
  refine exists_foldlM (P := fun m (s : ℝ × ℝ) => (⟨s.1, s.2⟩ : ℂ) =
    Fourier.transform (Fourier.root n) m (fun i => (slice b.input inputBase i : ℂ)) k) rfl ?_
  intro i hi s hs
  have hindex : k * i * step % nFft < nFft := Nat.mod_lt _ (by decide)
  have hfactor : (⟨trueTables.cos (k * i * step % nFft + 1), -trueTables.sin (k * i * step % nFft + 1)⟩ : ℂ) =
      Fourier.root n ^ (k * i) := by
    rw [twiddle, ← pow_eq_pow_mod _ (Fourier.root_pow_self (by decide)), Nat.mul_comm, pow_mul, root_nFft_pow hstep]
  refine ⟨(s.1 + b.input (inputBase + i + 1) * trueTables.cos (k * i * step % nFft + 1),
    s.2 - b.input (inputBase + i + 1) * trueTables.sin (k * i * step % nFft + 1)), ?_, ?_⟩
  · simp only [sumTurn, get_eq (show 1 ≤ inputBase + i + 1 by omega) (show inputBase + i + 1 ≤ inputSize by omega),
      get_eq (Nat.succ_pos _) (Nat.succ_le_of_lt hindex), Option.bind_eq_bind, Option.bind_some]
  · rw [Fourier.transform, Finset.sum_range_succ, ← Fourier.transform, ← hs, ← hfactor]
    apply Complex.ext <;> simp [slice, sub_eq_add_neg]

/-- Transforms of odd length. -/
theorem direct_run (hstep : n * step = nFft) (hinput : inputBase + n ≤ inputSize)
    (houtput : outputBase + 2 * n ≤ outputSize) :
    ∃ b', (List.range n).foldlM (directTurn trueTables inputBase n outputBase step) b = some b' ∧
      b'.input = b.input ∧ (∀ k < n, value b'.output outputBase k = Fourier.direct n (slice b.input inputBase) k) ∧
      ∀ i, ¬ (outputBase < i ∧ i ≤ outputBase + 2 * n) → b'.output i = b.output i := by
  refine exists_foldlM (P := fun m (b' : Scratch ℝ) => b'.input = b.input ∧
    (∀ k < m, value b'.output outputBase k = Fourier.direct n (slice b.input inputBase) k) ∧
    ∀ i, ¬ (outputBase < i ∧ i ≤ outputBase + 2 * m) → b'.output i = b.output i)
    ⟨rfl, fun k hk => absurd hk (Nat.not_lt_zero k), fun _ _ => rfl⟩ ?_
  rintro k hk b' ⟨hin, hvalues, hframe⟩
  obtain ⟨sums, hsums, hvalue⟩ := sumTurn_run (b := b') hstep hinput k
  refine ⟨⟨b'.input, Function.update (Function.update b'.output (outputBase + 2 * k + 1) sums.1)
    (outputBase + 2 * k + 2) sums.2⟩, ?_, ?_⟩
  · simp only [directTurn, hsums, set_eq (show 1 ≤ outputBase + 2 * k + 1 by omega)
      (show outputBase + 2 * k + 1 ≤ outputSize by omega), set_eq (show 1 ≤ outputBase + 2 * k + 2 by omega)
      (show outputBase + 2 * k + 2 ≤ outputSize by omega), Option.bind_eq_bind, Option.bind_some]
  · refine ⟨hin, fun j hj => ?_, fun i hi => ?_⟩
    · rw [value]
      dsimp only
      by_cases heq : j = k
      · subst heq
        rw [Function.update_of_ne (by omega), Function.update_self, Function.update_self, hvalue, hin]
      · rw [Function.update_of_ne (by omega), Function.update_of_ne (by omega), Function.update_of_ne (by omega),
          Function.update_of_ne (by omega)]
        exact hvalues j (by omega)
    · dsimp only
      rw [Function.update_of_ne (by omega), Function.update_of_ne (by omega), hframe i (by omega)]

/-- Every other number. -/
theorem half_run {evenBase first halfN : ℕ} (hfirst : first = 1 ∨ first = 2) (heven : inputBase + 2 * halfN ≤ evenBase)
    (hinput : evenBase + halfN ≤ inputSize) :
    ∃ b', (List.range halfN).foldlM (halfTurn inputBase evenBase first) b = some b' ∧
      b'.output = b.output ∧ (∀ i < halfN, slice b'.input evenBase i = b.input (inputBase + 2 * i + first)) ∧
      ∀ i, ¬ (evenBase < i ∧ i ≤ evenBase + halfN) → b'.input i = b.input i := by
  refine exists_foldlM (P := fun m (b' : Scratch ℝ) => b'.output = b.output ∧
    (∀ i < m, slice b'.input evenBase i = b.input (inputBase + 2 * i + first)) ∧
    ∀ i, ¬ (evenBase < i ∧ i ≤ evenBase + m) → b'.input i = b.input i)
    ⟨rfl, fun i hi => absurd hi (Nat.not_lt_zero i), fun _ _ => rfl⟩ ?_
  rintro k hk b' ⟨hout, hvalues, hframe⟩
  -- the input is in front of the scratch
  have hread : b'.input (inputBase + 2 * k + first) = b.input (inputBase + 2 * k + first) := hframe _ (by omega)
  refine ⟨⟨Function.update b'.input (evenBase + k + 1) (b'.input (inputBase + 2 * k + first)), b'.output⟩, ?_, ?_⟩
  · simp only [halfTurn, get_eq (show 1 ≤ inputBase + 2 * k + first by omega)
      (show inputBase + 2 * k + first ≤ inputSize by omega), set_eq (show 1 ≤ evenBase + k + 1 by omega)
      (show evenBase + k + 1 ≤ inputSize by omega), Option.bind_eq_bind, Option.bind_some]
  · refine ⟨hout, fun i hi => ?_, fun i hi => ?_⟩
    · rw [slice]
      dsimp only
      by_cases heq : i = k
      · subst heq
        rw [Function.update_self, hread]
      · rw [Function.update_of_ne (by omega)]
        exact hvalues i (by omega)
    · dsimp only
      rw [Function.update_of_ne (by omega), hframe i (by omega)]

/-- A complex number is written. -/
def put (output : ℕ → ℝ) (base k : ℕ) (z : ℂ) : ℕ → ℝ :=
  Function.update (Function.update output (base + 2 * k + 1) z.re) (base + 2 * k + 2) z.im

theorem value_put (output : ℕ → ℝ) (base k j : ℕ) (z : ℂ) :
    value (put output base k z) base j = if j = k then z else value output base j := by
  rw [value, put]
  split_ifs with h
  · subst h
    rw [Function.update_of_ne (by omega), Function.update_self, Function.update_self]
  · rw [Function.update_of_ne (by omega), Function.update_of_ne (by omega), Function.update_of_ne (by omega),
      Function.update_of_ne (by omega)]
    rfl

theorem put_of_not_mem {base k i : ℕ} (h : ¬ (base + 2 * k < i ∧ i ≤ base + 2 * k + 2)) (output : ℕ → ℝ) (z : ℂ) :
    put output base k z i = output i := by
  rw [put, Function.update_of_ne (by omega), Function.update_of_ne (by omega)]

theorem value_congr {a a' : ℕ → ℝ} {base k : ℕ}
    (h : ∀ i, base + 2 * k < i ∧ i ≤ base + 2 * k + 2 → a i = a' i) : value a base k = value a' base k := by
  rw [value, value, h _ (by omega), h _ (by omega)]

/-- The transforms of the halves are combined. -/
theorem combine_run {halfN evenFftBase oddFftBase : ℕ} (hstep : 2 * halfN * step = nFft)
    (heven : outputBase + 4 * halfN ≤ evenFftBase) (hodd : evenFftBase ≤ oddFftBase)
    (houtput : oddFftBase + 2 * halfN ≤ outputSize) :
    ∃ b', (List.range halfN).foldlM
        (combineTurn trueTables halfN outputBase evenFftBase oddFftBase step) b = some b' ∧
      b'.input = b.input ∧
      (∀ k < halfN, value b'.output outputBase k =
          value b.output evenFftBase k + Fourier.root (2 * halfN) ^ k * value b.output oddFftBase k ∧
        value b'.output outputBase (k + halfN) =
          value b.output evenFftBase k - Fourier.root (2 * halfN) ^ k * value b.output oddFftBase k) ∧
      ∀ i, ¬ (outputBase < i ∧ i ≤ outputBase + 4 * halfN) → b'.output i = b.output i := by
  refine exists_foldlM (P := fun m (b' : Scratch ℝ) => b'.input = b.input ∧
    (∀ k < m, value b'.output outputBase k =
        value b.output evenFftBase k + Fourier.root (2 * halfN) ^ k * value b.output oddFftBase k ∧
      value b'.output outputBase (k + halfN) =
        value b.output evenFftBase k - Fourier.root (2 * halfN) ^ k * value b.output oddFftBase k) ∧
    ∀ i, ¬ (outputBase < i ∧ i ≤ outputBase + 4 * halfN) → b'.output i = b.output i)
    ⟨rfl, fun k hk => absurd hk (Nat.not_lt_zero k), fun _ _ => rfl⟩ ?_
  rintro k hk b' ⟨hin, hvalues, hframe⟩
  have hindex : k * step < nFft := by
    have hmul : (k + 1) * step ≤ halfN * step := Nat.mul_le_mul_right step hk
    rw [Nat.mul_assoc, nFft] at hstep
    rw [Nat.succ_mul] at hmul
    rw [nFft]
    omega
  have hfactor : (⟨trueTables.cos (k * step + 1), -trueTables.sin (k * step + 1)⟩ : ℂ) =
      Fourier.root (2 * halfN) ^ k := by
    rw [twiddle, Nat.mul_comm, pow_mul, root_nFft_pow hstep]
  -- the transforms of the halves are behind what is written
  have hevenValue : value b'.output evenFftBase k = value b.output evenFftBase k :=
    value_congr fun i hi => hframe i (by omega)
  have hoddValue : value b'.output oddFftBase k = value b.output oddFftBase k :=
    value_congr fun i hi => hframe i (by omega)
  obtain ⟨w, hw⟩ : ∃ w, w = Fourier.root (2 * halfN) ^ k := ⟨_, rfl⟩
  obtain ⟨E, hE⟩ : ∃ E, E = value b.output evenFftBase k := ⟨_, rfl⟩
  obtain ⟨O, hO⟩ : ∃ O, O = value b.output oddFftBase k := ⟨_, rfl⟩
  rw [← hw] at hfactor
  rw [← hE] at hevenValue
  rw [← hO] at hoddValue
  refine ⟨⟨b'.input, put (put b'.output outputBase k (E + w * O)) outputBase (k + halfN) (E - w * O)⟩, ?_, hin, ?_, ?_⟩
  · rw [← hfactor, ← hevenValue, ← hoddValue]
    simp only [combineTurn, get_eq (Nat.succ_pos (k * step)) (Nat.succ_le_of_lt hindex),
      get_eq (show 1 ≤ evenFftBase + 2 * k + 1 by omega) (show evenFftBase + 2 * k + 1 ≤ outputSize by omega),
      get_eq (show 1 ≤ evenFftBase + 2 * k + 2 by omega) (show evenFftBase + 2 * k + 2 ≤ outputSize by omega),
      get_eq (show 1 ≤ oddFftBase + 2 * k + 1 by omega) (show oddFftBase + 2 * k + 1 ≤ outputSize by omega),
      get_eq (show 1 ≤ oddFftBase + 2 * k + 2 by omega) (show oddFftBase + 2 * k + 2 ≤ outputSize by omega),
      set_eq (show 1 ≤ outputBase + 2 * k + 1 by omega) (show outputBase + 2 * k + 1 ≤ outputSize by omega),
      set_eq (show 1 ≤ outputBase + 2 * k + 2 by omega) (show outputBase + 2 * k + 2 ≤ outputSize by omega),
      set_eq (show 1 ≤ outputBase + 2 * (k + halfN) + 1 by omega)
        (show outputBase + 2 * (k + halfN) + 1 ≤ outputSize by omega),
      set_eq (show 1 ≤ outputBase + 2 * (k + halfN) + 2 by omega)
        (show outputBase + 2 * (k + halfN) + 2 ≤ outputSize by omega), Option.bind_eq_bind, Option.bind_some,
      put, value, Complex.add_re, Complex.add_im, Complex.sub_re, Complex.sub_im, Complex.mul_re, Complex.mul_im]
    simp only [sub_add, add_sub, sub_sub, add_assoc]
  · intro j hj
    dsimp only
    rw [value_put, value_put, value_put, value_put]
    by_cases heq : j = k
    · subst heq
      rw [if_neg (by omega), if_pos rfl, if_pos rfl, hE, hO, hw]
      exact ⟨rfl, rfl⟩
    · rw [if_neg (by omega), if_neg heq, if_neg (by omega), if_neg (by omega)]
      exact hvalues j (by omega)
  · intro i hi
    dsimp only
    rw [put_of_not_mem (by omega), put_of_not_mem (by omega), hframe i hi]

/-! ### All calls -/

/-- A call whose halves are transformed. -/
theorem transformed_double {m : ℕ} (hm : 25 ≤ m) (hstep : 2 * m * step = nFft)
    (hinput : inputBase + 4 * m ≤ 825) (houtput : outputBase + 12 * m ≤ 3300)
    (hcalls : ∀ inputBase outputBase (b : Scratch ℝ), inputBase + 2 * m ≤ 825 → outputBase + 6 * m ≤ 3300 →
      ∃ b', whisperFft trueTables inputBase m outputBase b = some b' ∧ Transformed inputBase m outputBase b b') :
    ∃ b', (do
      let b ← (List.range m).foldlM (halfTurn inputBase (inputBase + 2 * m) 1) b
      let b ← whisperFft trueTables (inputBase + 2 * m) m (outputBase + 2 * (2 * m)) b
      let b ← (List.range m).foldlM (halfTurn inputBase (inputBase + 2 * m) 2) b
      let b ← whisperFft trueTables (inputBase + 2 * m) m (outputBase + 2 * (2 * m) + 2 * m) b
      (List.range m).foldlM (combineTurn trueTables m outputBase (outputBase + 2 * (2 * m))
        (outputBase + 2 * (2 * m) + 2 * m) step) b) = some b' ∧
      Transformed inputBase (2 * m) outputBase b b' := by
  have hsizes : inputSize = 800 ∧ outputSize = 3200 := ⟨rfl, rfl⟩
  obtain ⟨b₁, hb₁, hout₁, heven, hin₁⟩ := @half_run inputBase b _ _ m
    (.inl rfl) le_rfl (show inputBase + 2 * m + m ≤ inputSize by omega)
  obtain ⟨b₂, hb₂, hcall₂⟩ := hcalls (inputBase + 2 * m) (outputBase + 2 * (2 * m)) b₁ (by omega) (by omega)
  obtain ⟨b₃, hb₃, hout₃, hodd, hin₃⟩ := @half_run inputBase b₂ _ _ m
    (.inr rfl) le_rfl (show inputBase + 2 * m + m ≤ inputSize by omega)
  obtain ⟨b₄, hb₄, hcall₄⟩ := hcalls (inputBase + 2 * m) (outputBase + 2 * (2 * m) + 2 * m) b₃ (by omega) (by omega)
  obtain ⟨b₅, hb₅, hin₅, hvalues, hout₅⟩ := @combine_run outputBase _ b₄ _ _ _ hstep
    (show outputBase + 4 * m ≤ outputBase + 2 * (2 * m) by omega) (Nat.le_add_right _ (2 * m)) (by omega)
  refine ⟨b₅, ?_, ?_⟩
  · simp only [hb₁, hb₂, hb₃, hb₄, hb₅, Option.bind_eq_bind, Option.bind_some]
  have hevenValue : ∀ k < m, value b₄.output (outputBase + 2 * (2 * m)) k =
      Fourier.direct m (fun i => slice b.input inputBase (2 * i)) k := by
    intro k hk
    -- the call for the odd half writes behind the transform of the even half
    have hkept : value b₄.output (outputBase + 2 * (2 * m)) k = value b₃.output (outputBase + 2 * (2 * m)) k :=
      value_congr fun i hi => hcall₄.output i (by omega)
    rw [hkept, hout₃, hcall₂.value k hk]
    exact Fourier.direct_congr heven k
  have hoddValue : ∀ k < m, value b₄.output (outputBase + 2 * (2 * m) + 2 * m) k =
      Fourier.direct m (fun i => slice b.input inputBase (2 * i + 1)) k := by
    intro k hk
    rw [hcall₄.value k hk]
    refine Fourier.direct_congr (fun i hi => ?_) k
    -- the input has not been overwritten
    rw [hodd i hi, hcall₂.input _ (by omega), hin₁ _ (by omega)]
    rfl
  constructor
  case value =>
    intro k hk
    by_cases hlow : k < m
    · rw [(hvalues k hlow).1, hevenValue k hlow, hoddValue k hlow, Fourier.direct_double]
    · obtain ⟨j, rfl⟩ := Nat.exists_eq_add_of_le (Nat.le_of_not_lt hlow)
      have hj : j < m := by omega
      rw [Nat.add_comm m j, (hvalues j hj).2, hevenValue j hj, hoddValue j hj, Fourier.direct_double_add (by omega)]
  case input =>
    intro i hi
    rw [hin₅, hcall₄.input i (by omega), hin₃ i (by omega), hcall₂.input i (by omega), hin₁ i (by omega)]
  case output =>
    intro i hi
    rw [hout₅ i (by omega), hcall₄.output i (by omega), hout₃, hcall₂.output i (by omega), hout₁]

/-- The lengths are 25, 50, 100, 200 and 400. -/
theorem whisperFft_spec (j : ℕ) (hj : j ≤ 4) (inputBase outputBase : ℕ) (b : Scratch ℝ)
    (hinput : inputBase + 2 * (25 * 2 ^ j) ≤ 825) (houtput : outputBase + 6 * (25 * 2 ^ j) ≤ 3300) :
    ∃ b', whisperFft trueTables inputBase (25 * 2 ^ j) outputBase b = some b' ∧
      Transformed inputBase (25 * 2 ^ j) outputBase b b' := by
  induction j generalizing inputBase outputBase b with
  | zero =>
    obtain ⟨b', hb', hin, hvalues, hframe⟩ := @direct_run inputBase 25 outputBase 16 b
      rfl (show inputBase + 25 ≤ 800 by omega)
      (show outputBase + 2 * 25 ≤ 3200 by omega)
    refine ⟨b', ?_, ⟨hvalues, fun i _ => congrFun hin i, hframe⟩⟩
    rw [whisperFft, dif_neg (by decide)]
    exact hb'
  | succ j ih =>
    obtain ⟨m, hm⟩ : ∃ m, m = 25 * 2 ^ j := ⟨_, rfl⟩
    have hn : 25 * 2 ^ (j + 1) = 2 * m := by
      rw [hm, pow_succ]
      omega
    have hpos : 25 ≤ m := hm ▸ Nat.le_mul_of_pos_right 25 (Nat.two_pow_pos j)
    have hdvd : 2 * m ∣ nFft := hn ▸ Nat.mul_dvd_mul_left 25 (Nat.pow_dvd_pow 2 hj)
    rw [hn] at hinput houtput ⊢
    have hhalf : 2 * m / 2 = m := Nat.mul_div_cancel_left m Nat.two_pos
    rw [whisperFft, dif_neg (by omega)]
    dsimp only
    rw [hhalf, if_neg (by omega)]
    exact transformed_double hpos (Nat.mul_div_cancel' hdvd) (by omega) (by omega)
      fun inputBase outputBase b hin hout => hm ▸ ih (by omega) inputBase outputBase b (hm ▸ hin) (hm ▸ hout)

/-- The arguments of the calls that the transform of a frame makes. -/
inductive Called : ℕ → ℕ → ℕ → Prop
  | top : Called 0 nFft 0
  | even {inputBase n outputBase : ℕ} (h : Called inputBase n outputBase) (hn : n % 2 = 0) :
    Called (inputBase + n) (n / 2) (outputBase + 2 * n)
  | odd {inputBase n outputBase : ℕ} (h : Called inputBase n outputBase) (hn : n % 2 = 0) :
    Called (inputBase + n) (n / 2) (outputBase + 2 * n + n)

/-- Every call has room for its halves. -/
theorem Called.room {inputBase n outputBase : ℕ} (h : Called inputBase n outputBase) :
    ∃ j ≤ 4, n = 25 * 2 ^ j ∧ inputBase + 2 * n ≤ 825 ∧ outputBase + 6 * n ≤ 3300 := by
  have hhalf {n : ℕ} (hn : n % 2 = 0) (h : ∃ j ≤ 4, n = 25 * 2 ^ j) : ∃ j ≤ 4, n / 2 = 25 * 2 ^ j := by
    obtain ⟨j, hj, rfl⟩ := h
    cases j with
    | zero => cases hn
    | succ j =>
      refine ⟨j, Nat.le_of_succ_le hj, ?_⟩
      rw [pow_succ]
      omega
  induction h with
  | top => exact ⟨4, le_rfl, rfl, by decide, by decide⟩
  | even h hn ih =>
    obtain ⟨j, hj, hn', hin, hout⟩ := ih
    obtain ⟨j', hj', heq⟩ := hhalf hn ⟨j, hj, hn'⟩
    exact ⟨j', hj', heq, by omega, by omega⟩
  | odd h hn ih =>
    obtain ⟨j, hj, hn', hin, hout⟩ := ih
    obtain ⟨j', hj', heq⟩ := hhalf hn ⟨j, hj, hn'⟩
    exact ⟨j', hj', heq, by omega, by omega⟩

theorem Called.transformed {inputBase n outputBase : ℕ} (h : Called inputBase n outputBase) (b : Scratch ℝ) :
    ∃ b', whisperFft trueTables inputBase n outputBase b = some b' ∧ Transformed inputBase n outputBase b b' := by
  obtain ⟨j, hj, rfl, hin, hout⟩ := h.room
  exact whisperFft_spec j hj inputBase outputBase b hin hout

/-! ### A frame -/

/-- What the windowed samples are, and zeros behind them. -/
def windowed (hann samples : ℕ → ℝ) (nSamples offset : ℕ) : ℕ → ℝ := fun i =>
  if i < Nat.min nFft (nSamples - offset) then hann (i + 1) * samples (offset + i + 1) else 0

theorem window_run (hann samples : ℕ → ℝ) (offset : ℕ) {valid : ℕ} (hvalid : valid ≤ nFft) :
    ∃ input, (List.range valid).foldlM (windowTurn hann samples offset) (fun _ => 0) = some input ∧
      ∀ i, slice input 0 i = if i < valid then hann (i + 1) * samples (offset + i + 1) else 0 := by
  refine exists_foldlM (P := fun m (input : ℕ → ℝ) => ∀ i, slice input 0 i =
    if i < m then hann (i + 1) * samples (offset + i + 1) else 0) (fun _ => rfl) ?_
  intro j hj input hinput
  have hsize : j + 1 ≤ inputSize := by
    rw [nFft] at hvalid
    rw [inputSize, nFft]
    omega
  refine ⟨_, set_eq (Nat.succ_pos j) hsize input _, fun i => ?_⟩
  rw [slice, Nat.zero_add]
  by_cases heq : i = j
  · subst heq
    rw [Function.update_self, if_pos i.lt_succ_self]
  · have hother := hinput i
    rw [slice, Nat.zero_add] at hother
    rw [Function.update_of_ne (by omega), hother]
    exact if_congr (by omega) rfl rfl

/-- The squares go to the front, which the later turns do not read. -/
theorem power_run (output : ℕ → ℝ) (columns : ℕ) (hcolumns : 2 * columns ≤ outputSize) :
    ∃ output', (List.range columns).foldlM powerTurn output = some output' ∧
      ∀ k < columns, output' (k + 1) = Complex.normSq (value output 0 k) := by
  obtain ⟨output', hrun, hpower, -⟩ := @exists_foldlM _ (fun m (output' : ℕ → ℝ) =>
    (∀ k < m, output' (k + 1) = Complex.normSq (value output 0 k)) ∧ ∀ i, m < i → output' i = output i)
    powerTurn columns output ⟨fun k hk => absurd hk (Nat.not_lt_zero k), fun _ _ => rfl⟩ <| by
      rintro j hj output' ⟨hpower, hrest⟩
      have hre := hrest (2 * j + 1) (by omega)
      have him := hrest (2 * j + 2) (by omega)
      refine ⟨Function.update output' (j + 1) (Complex.normSq (value output 0 j)), ?_, fun k hk => ?_, fun i hi => ?_⟩
      · simp only [powerTurn, get_eq (show 1 ≤ 2 * j + 1 by omega) (show 2 * j + 1 ≤ outputSize by omega),
          get_eq (show 1 ≤ 2 * j + 2 by omega) (show 2 * j + 2 ≤ outputSize by omega),
          set_eq (show 1 ≤ j + 1 by omega) (show j + 1 ≤ outputSize by omega), Option.bind_eq_bind, Option.bind_some,
          hre, him, Complex.normSq_apply, value, Nat.zero_add]
      · by_cases heq : k = j
        · subst heq
          rw [Function.update_self]
        · rw [Function.update_of_ne (by omega)]
          exact hpower k (by omega)
      · rw [Function.update_of_ne (by omega)]
        exact hrest i (by omega)
  exact ⟨output', hrun, hpower⟩

theorem powerSpectrum_spec (hann samples : ℕ → ℝ) (nSamples offset : ℕ) (b : Scratch ℝ) :
    ∃ b', powerSpectrum trueTables hann samples nSamples offset (1 + nFft / 2) b = some b' ∧
      ∀ k < 1 + nFft / 2, b'.output (k + 1) =
        Complex.normSq (Fourier.direct nFft (windowed hann samples nSamples offset) k) := by
  obtain ⟨input, hinput, hslice⟩ := window_run hann samples offset (Nat.min_le_left nFft (nSamples - offset))
  obtain ⟨b₁, hb₁, htransformed⟩ := Called.top.transformed { b with input := input }
  obtain ⟨output, houtput, hpower⟩ := power_run b₁.output (1 + nFft / 2) (by decide)
  refine ⟨{ b₁ with output := output }, ?_, fun k hk => ?_⟩
  · simp only [powerSpectrum, hinput, hb₁, houtput, Option.bind_eq_bind, Option.bind_some]
  · have hlt : k < nFft := Nat.lt_of_lt_of_le hk (by decide)
    have hwindowed : slice input 0 = windowed hann samples nSamples offset := funext hslice
    show output (k + 1) = _
    rw [hpower k hk, htransformed.value k hlt, hwindowed]

/-- Every call leaves the transform of its slice, in bounds, with the slice and everything outside of its scratch
as it was; and a frame leaves its power spectrum. -/
theorem fft_frames :
    (∀ inputBase n outputBase, Called inputBase n outputBase → ∀ b : Scratch ℝ,
      (∃ b', whisperFft trueTables inputBase n outputBase b = some b' ∧
        (∀ k < n, value b'.output outputBase k = Fourier.direct n (slice b.input inputBase) k) ∧
        (∀ i < n, slice b'.input inputBase i = slice b.input inputBase i) ∧
        (∀ i, ¬ (inputBase + n < i ∧ i ≤ inputBase + 2 * n) → b'.input i = b.input i) ∧
        ∀ i, ¬ (outputBase < i ∧ i ≤ outputBase + (6 * n - 100)) → b'.output i = b.output i) ∧
      (n % 2 = 0 → ∃ b', whisperFft trueTables (inputBase + n) (n / 2) (outputBase + 2 * n + n) b = some b' ∧
        ∀ k < n / 2, value b'.output (outputBase + 2 * n) k = value b.output (outputBase + 2 * n) k)) ∧
    ∀ (hann samples : ℕ → ℝ) (nSamples offset : ℕ) (b : Scratch ℝ),
      ∃ b', powerSpectrum trueTables hann samples nSamples offset (1 + nFft / 2) b = some b' ∧
        ∀ k < 1 + nFft / 2, b'.output (k + 1) =
          Complex.normSq (Fourier.direct nFft (windowed hann samples nSamples offset) k) := by
  refine ⟨fun inputBase n outputBase h b => ⟨?_, fun hn => ?_⟩, powerSpectrum_spec⟩
  · obtain ⟨b', hb', htransformed⟩ := h.transformed b
    exact ⟨b', hb', htransformed.value, fun i hi => htransformed.input _ (by omega), htransformed.input,
      htransformed.output⟩
  · obtain ⟨b', hb', htransformed⟩ := (h.odd hn).transformed b
    exact ⟨b', hb', fun k hk => value_congr fun i hi => htransformed.output i (by omega)⟩

theorem fft_frames_impulse :
    Called 0 400 0 ∧ ∃ b', whisperFft trueTables 0 400 0 ⟨fun i => if i = 1 then 1 else 0, fun _ => 0⟩ = some b' ∧
      ∀ k < 400, value b'.output 0 k =
        Fourier.direct 400 (slice (fun i => if i = 1 then 1 else 0) 0) k := by
  obtain ⟨b', hb', hvalue, -⟩ := (fft_frames.1 0 400 0 .top ⟨fun i => if i = 1 then 1 else 0, fun _ => 0⟩).1
  exact ⟨.top, b', hb', hvalue⟩

end Fft

end Whisper

end FortAI
