import Mathlib.Data.List.Basic

/-!
# Autoregressive decoding

A `Decoder` picks one token after another; each pick may depend on all tokens before it and on the
state of a random generator.  `Decoder.run` is decoding one token at a time.  A speculative decoder
may emit several tokens at once, if they are the tokens decoding would pick (`Decoder.Picks`).

* `Decoder.run_of_le` : decoding stops when there is no room left.
* `Decoder.run_picks` : emitting a run of picks up to the first stop token is decoding.
-/

namespace FortAI

/-- A way of picking tokens `T` with generator states `G`. -/
structure Decoder (T G : Type*) where
  /-- The token after those given, and the generator state after picking it. -/
  next : List T → G → T × G
  /-- Not a token: decoding ends without it. -/
  valid : T → Bool
  /-- Decoding ends before this token, which is counted. -/
  stops : T → Bool
  /-- The number of tokens there is room for. -/
  room : ℕ

namespace Decoder

variable {T G : Type*} (d : Decoder T G)

/-- Decoding from the next token `t`, with `out` emitted; `true` when it ends at a stop token. -/
def run (t : T) (generator : G) (out : List T) : List T × Bool :=
  if out.length < d.room then
    if !d.valid t then (out, false)
    else if d.stops t then (out, true)
    else
      let picked := d.next (out ++ [t]) generator
      run picked.1 picked.2 (out ++ [t])
  else (out, false)
termination_by d.room - out.length
decreasing_by
  simp
  omega

/-- After `out`, decoding picks the tokens `ts` and then `last`. -/
def Picks (out : List T) (generator : G) : List T → T × G → Prop
  | [], last => d.next out generator = last
  | t :: ts, last =>
    ∃ generator', d.next out generator = (t, generator') ∧ Picks (out ++ [t]) generator' ts last

variable {d}

theorem run_of_le {t : T} {generator : G} {out : List T} (h : d.room ≤ out.length) :
    d.run t generator out = (out, false) := by
  rw [run, if_neg (by omega)]

theorem run_of_invalid {t : T} {generator : G} {out : List T} (h : d.valid t = false) :
    d.run t generator out = (out, false) := by
  rw [run]
  simp [h]

theorem run_of_stops {t : T} {generator : G} {out : List T} (hroom : out.length < d.room)
    (hvalid : d.valid t = true) (h : d.stops t = true) : d.run t generator out = (out, true) := by
  rw [run]
  simp [hroom, hvalid, h]

theorem run_emit {t : T} {generator : G} {out : List T} (hroom : out.length < d.room)
    (hvalid : d.valid t = true) (h : d.stops t = false) :
    d.run t generator out =
      d.run (d.next (out ++ [t]) generator).1 (d.next (out ++ [t]) generator).2 (out ++ [t]) := by
  rw [run]
  simp [hroom, hvalid, h]

/-- What every pick satisfies, a run of picks satisfies. -/
theorem Picks.forall {P : T → Prop} (hP : ∀ out generator, P (d.next out generator).1)
    {ts : List T} {last : T × G} {generator : G} {out : List T}
    (h : d.Picks out generator ts last) : ∀ t ∈ ts, P t := by
  induction ts generalizing out generator with
  | nil => intro t ht; cases ht
  | cons u us ih =>
    obtain ⟨generator', hnext, hrest⟩ := h
    intro t ht
    rcases List.mem_cons.mp ht with rfl | ht
    · simpa [hnext] using hP out generator
    · exact ih hrest t ht

/-- A run of picks may be emitted at once, up to its first stop token. -/
theorem run_picks {ts : List T} {last : T × G} {generator : G} {out : List T}
    (h : d.Picks out generator ts last) (hroom : out.length + ts.length ≤ d.room)
    (hvalid : ∀ t ∈ ts, d.valid t = true) :
    d.run (d.next out generator).1 (d.next out generator).2 out =
      if ts.any d.stops then (out ++ ts.takeWhile (!d.stops ·), true)
      else d.run last.1 last.2 (out ++ ts) := by
  induction ts generalizing out generator with
  | nil =>
    change d.next out generator = last at h
    simp [h]
  | cons t ts ih =>
    obtain ⟨generator', hnext, hrest⟩ := h
    simp only [List.length_cons] at hroom
    have ht := hvalid t List.mem_cons_self
    have hlt : out.length < d.room := by omega
    rw [hnext]
    cases hs : d.stops t with
    | true => simp [run_of_stops hlt ht hs, hs]
    | false =>
      rw [run_emit hlt ht hs,
        ih hrest (by simp; omega) fun t' ht' => hvalid t' (List.mem_cons_of_mem _ ht')]
      simp [hs]

end Decoder

end FortAI
