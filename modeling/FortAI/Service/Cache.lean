import FortAI.Machine.System
import FortAI.Service.Deterministic
import FortAI.Service.Prompt

/-!
# The prefix cache over many requests

The service answers one completion after another; between two of them it keeps the live model and
the prefix cache.  The cache must describe the live model, whatever the requests, the answers of the
model and the points at which it fails.

* `Generating`, `Logged` : the token log at the head and at the end of the generation loop.
* `complete_aligned`, `coherent_after` : the cached tokens are those the live model consumed.
* `complete_continues`, `continues_after` : the cached logits and next token are the model's own.
* `failureSafe` : a failed request leaves no cache that describes a state it has moved.
-/

namespace FortAI

open Arithmetic

variable {Ω Δ R D : Type} [Arithmetic R D]

/-- The service as a system: one completion after another. -/
def serviceSystem (setup : Setup) (A : Answers Ω R) (B : Answers Δ R) :
    System (Service Ω Δ R) (Call R) Reply :=
  ⟨fun s c => complete setup A B c s⟩

variable {setup : Setup} {A : Answers Ω R} {B : Answers Δ R} {c : Call R}
variable {s : Service Ω Δ R} {ids : List Token} {g g' : Locals Ω Δ R} {e : Branch}
variable {target : Fed → List R}

/-! ### How the generation loop ends -/

/-- Every round emits a token, so the loop ends within its bound. -/
theorem generate_ne_exhausted : generate setup A B c ids g ≠ .exhausted g' := by
  refine Loop.run_ne_exhausted (fun _ => True)
    (fun g => c.maxTokens.toNat - g.generatedIds.length) ?_ _ _ trivial (by omega) _
  intro g e g' _ h
  obtain ⟨hlt, -, -, -, hadv⟩ := generationStep_next h
  obtain ⟨tokens, -, -, hgen, -⟩ := advance_next hadv
  have : g'.generatedIds.length ≥ g.generatedIds.length + 1 := by
    rw [hgen]
    simp [emit]
  exact ⟨trivial, by omega⟩

theorem generationStep_ne_failed
    (h : generationStep setup A B c ids g = .next e g' ∨
      generationStep setup A B c ids g = .done e g') : e ≠ .failed := by
  rcases h with h | h
  · obtain ⟨-, -, -, -, hadv⟩ := generationStep_next h
    obtain ⟨_, hstep, -⟩ := advance_next hadv
    exact hstep.succeeded
  · rcases generationStep_done h with ⟨-, ⟨rfl, -⟩ | ⟨rfl, -⟩⟩ | ⟨rfl, -⟩ | ⟨-, -, ⟨rfl, -⟩ | ⟨-, -, hadv⟩⟩
    · simp
    · simp
    · simp
    · simp
    · obtain ⟨_, _, hstep, -⟩ := advance_done hadv
      exact hstep.succeeded

/-- A loop that finished took no failing branch. -/
theorem failed_notMem_of_finished (h : generate setup A B c ids g = .finished g') :
    .failed ∉ Loop.trace (generationStep setup A B c ids) (c.maxTokens.toNat + 1) g := by
  intro hmem
  rcases Loop.trace_of_finished h _ hmem with ⟨g₁, g₂, h₁ | h₁⟩
  · exact generationStep_ne_failed (.inl h₁) rfl
  · exact generationStep_ne_failed (.inr h₁) rfl

/-! ### The token log -/

/-- The token log at the head of the generation loop. -/
structure Generating (c : Call R) (ids : List Token) (g : Locals Ω Δ R) : Prop where
  length : g.stateTokens.length = ids.length + c.maxTokens.toNat
  emitted : g.generatedIds.length ≤ c.maxTokens.toNat
  prompt : g.stateTokens.take ids.length = ids
  stateCount : g.stateCount = ids.length + g.generatedIds.length
  consumed : g.model.consumed = feedAt 0 (g.stateTokens.take g.stateCount)

/-- The token log when the loop has ended. -/
structure Logged (ids : List Token) (g : Locals Ω Δ R) : Prop where
  room : g.stateCount ≤ g.stateTokens.length
  whole : ids.length ≤ g.stateCount
  prompt : g.stateTokens.take ids.length = ids
  consumed : g.model.consumed = feedAt 0 (g.stateTokens.take g.stateCount)

theorem Generating.logged (h : Generating c ids g) : Logged ids g :=
  ⟨by rw [h.length, h.stateCount]; have := h.emitted; omega, by rw [h.stateCount]; omega,
    h.prompt, h.consumed⟩

theorem Generating.of_prompting (hs : Aligned s) (h : Prompting setup A c s ids ids.length g) :
    Generating c ids g := by
  refine ⟨by simp [h.stateTokens], by simp [h.generatedIds], by simp [h.stateTokens],
    by simp [h.stateCount, h.generatedIds], ?_⟩
  rw [h.consumed hs, h.stateTokens, h.stateCount]
  simp

/-- A step that logs its tokens keeps the log and the model in step. -/
theorem Stepped.keepsLog {tokens : List Token} (hg : Generating c ids g)
    (h : Stepped A c (ids.length + g.generatedIds.length) (emit ids g.current g) e tokens g')
    (he : e ≠ .sampled) : Logged ids g' ∧ g'.stateTokens.length = g.stateTokens.length := by
  obtain ⟨hroom, hlog⟩ := h.logged he
  have hlen := length_dropLast_add_one h.answered
  simp only [emit] at hroom hlog
  have hcount : g'.stateCount = g.stateCount + tokens.length := h.stateCount
  have hsc : g.stateCount ≤ g.stateTokens.length := by omega
  refine ⟨⟨?_, ?_, ?_, ?_⟩, h.lengthKept⟩
  · rw [hcount, h.lengthKept]
    exact hroom
  · rw [hcount, hg.stateCount]
    omega
  · have hle : ids.length ≤ g.stateCount := by
      rw [hg.stateCount]
      omega
    rw [hlog, writeAt, List.append_assoc, List.take_append_of_le_length (by simp; omega),
      List.take_take, Nat.min_eq_left hle, hg.prompt]
  · have htake : g'.stateTokens.take g'.stateCount =
        g.stateTokens.take g.stateCount ++ (g.current :: tokens.dropLast) := by
      have := writeAt_take g.stateTokens (g.current :: tokens.dropLast) hsc
      rwa [List.length_cons, hlen, ← hlog, ← hcount] at this
    have hposition : (g.stateTokens.take g.stateCount).length =
        ids.length + g.generatedIds.length := by
      rw [List.length_take, Nat.min_eq_left hsc, hg.stateCount]
    rw [htake, feedAt_append, ← hg.consumed, h.consumed, hposition]
    simp [emit]

theorem generationStep_generating (hg : Generating c ids g)
    (h : generationStep setup A B c ids g = .next e g') (he : e ≠ .sampled) :
    Generating c ids g' := by
  obtain ⟨hlt, -, -, -, hadv⟩ := generationStep_next h
  obtain ⟨tokens, hstep, -, hgen, -⟩ := advance_next hadv
  rw [show ids.length + (emit ids g.current g).generatedIds.length - 1 =
    ids.length + g.generatedIds.length by simp [emit]] at hstep
  obtain ⟨hlog, hlength⟩ := hstep.keepsLog hg he
  have hcount : g'.stateCount = g.stateCount + tokens.length := hstep.stateCount
  have hlen := length_dropLast_add_one hstep.answered
  have hgen' : g'.generatedIds.length = g.generatedIds.length + tokens.length := by
    rw [hgen]
    simp [emit] at hlen ⊢
    omega
  have hsum : g'.stateCount = ids.length + g'.generatedIds.length := by
    rw [hcount, hgen', hg.stateCount]
    omega
  refine ⟨hlength.trans hg.length, ?_, hlog.prompt, hsum, hlog.consumed⟩
  have := hlog.room
  rw [hlength, hg.length] at this
  omega

theorem generationStep_logged (hg : Generating c ids g)
    (h : generationStep setup A B c ids g = .done e g') : Logged ids g' := by
  rcases generationStep_done h with ⟨rfl, -⟩ | ⟨-, -, rfl⟩ | ⟨-, -, ⟨-, -, rfl⟩ | ⟨-, -, hadv⟩⟩
  · exact hg.logged
  · have := hg.logged
    exact ⟨this.room, this.whole, this.prompt, this.consumed⟩
  · have := hg.logged
    exact ⟨this.room, this.whole, this.prompt, this.consumed⟩
  · obtain ⟨tokens, emitted, hstep, rfl, -⟩ := advance_done hadv
    rw [show ids.length + (emit ids g.current g).generatedIds.length - 1 =
      ids.length + g.generatedIds.length by simp [emit]] at hstep
    refine (hstep.keepsLog hg ?_).1
    unfold speculativeBranch
    split_ifs <;> simp

/-- The log still describes the model when the loop has ended, unless a scalar sampled step was
taken. -/
theorem generate_logged (hg : Generating c ids g)
    (hsampled : .sampled ∉ Loop.trace (generationStep setup A B c ids) (c.maxTokens.toNat + 1) g)
    (h : generate setup A B c ids g = .finished g') : Logged ids g' := by
  have := Loop.run_induction (generationStep setup A B c ids) (Generating c ids) (Logged ids)
    (fun _ => True) (· ≠ .sampled)
    (fun _ _ _ hI he hb => generationStep_generating hI hb he)
    (fun _ _ _ hI _ hb => generationStep_logged hI hb) (fun _ _ _ _ _ _ => trivial)
    (c.maxTokens.toNat + 1) g hg (fun e he hs => hsampled (hs ▸ he))
  rw [generate] at h
  rw [h] at this
  exact this

/-! ### The cached tokens -/

/-- A request that succeeds went through the prompt phase and the generation loop. -/
theorem serve_ok (h : serve setup A B c s ids = .ok g') :
    ∃ g, promptPhase setup A B c ids (claim setup c s ids) = .ok g ∧
      generate setup A B c ids g = .finished g' := by
  unfold serve at h
  split at h
  · cases h
  · rename_i g hp
    refine ⟨g, hp, ?_⟩
    split at h
    · rename_i g₁ hg
      cases h
      exact hg
    · rename_i g₁ hg
      exact absurd hg generate_ne_exhausted
    · cases h

/-- The request completes without a scalar sampled step, or it fails. -/
def LogsItsTokens (setup : Setup) (A : Answers Ω R) (B : Answers Δ R) (s : Service Ω Δ R)
    (c : Call R) : Prop :=
  .sampled ∈ branches setup A B c s → .failed ∈ branches setup A B c s

instance (setup : Setup) (A : Answers Ω R) (B : Answers Δ R) (s : Service Ω Δ R) (c : Call R) :
    Decidable (LogsItsTokens setup A B s c) :=
  inferInstanceAs (Decidable (Branch.sampled ∈ _ → Branch.failed ∈ _))

theorem branches_eq (hi : admitted setup c = .ok ids)
    (hp : promptPhase setup A B c ids (claim setup c s ids) = .ok g) :
    branches setup A B c s =
      Loop.trace (generationStep setup A B c ids) (c.maxTokens.toNat + 1) g := by
  simp [branches, hi, hp]

theorem serve_logged (hs : Aligned s) (hc : LogsItsTokens setup A B s c)
    (hi : admitted setup c = .ok ids) (h : serve setup A B c s ids = .ok g') : Logged ids g' := by
  obtain ⟨g, hp, hg⟩ := serve_ok h
  obtain ⟨hprompt, -⟩ := promptPhase_prompting (admitted_ok hi).1 hp
  unfold LogsItsTokens at hc
  rw [branches_eq hi hp] at hc
  exact generate_logged (.of_prompting hs hprompt) (fun hm => failed_notMem_of_finished hg (hc hm)) hg

theorem publish_cached (setup : Setup) (c : Call R) (s : Service Ω Δ R) (ids : List Token)
    (h : 0 < g.stateCount) :
    (publish setup c s ids g).cached = g.stateTokens.take g.stateCount ∧
      (publish setup c s ids g).cacheCount = g.stateCount ∧
      (publish setup c s ids g).model = g.model := by
  simp [publish, Service.cached, h, List.take_take]

theorem publish_aligned (h : Logged ids g) : Aligned (publish setup c s ids g) := by
  intro hv
  rcases Nat.eq_zero_or_pos g.stateCount with h0 | h0
  · simp [publish, h0] at hv
  · obtain ⟨hcached, hcount, hmodel⟩ := publish_cached setup c s ids h0
    rw [hcached, hcount, hmodel]
    exact ⟨by simp [h.room], h.consumed⟩

/-- One request keeps the cached tokens in step with the live model. -/
theorem complete_aligned (hs : Aligned s) (hc : LogsItsTokens setup A B s c) :
    Aligned (complete setup A B c s).2 := by
  unfold complete
  split
  · exact hs
  · rename_i ids hi
    split
    · intro hv
      cases hv
    · rename_i g hg
      exact publish_aligned (serve_logged hs hc hi hg)

/-- In every run from an empty cache in which no completed request takes a scalar sampled step, a
valid cache lists exactly the tokens the live model has consumed. -/
theorem coherent_after (setup : Setup) (A : Answers Ω R) (B : Answers Δ R) (s : Service Ω Δ R)
    (hs : s.cacheValid = false) (calls : List (Call R))
    (hcalls : (serviceSystem setup A B).Along (LogsItsTokens setup A B) s calls) :
    Coherent ((serviceSystem setup A B).after s calls) := by
  have hstart : Aligned s := fun hv => by simp [hs] at hv
  have haligned : Aligned ((serviceSystem setup A B).after s calls) :=
    System.invariant_along (P := LogsItsTokens setup A B)
      (fun _ _ hI hP => complete_aligned hI hP) calls s hstart hcalls
  exact haligned.coherent

/-- A greedy request and its continuation, both with verification batches. -/
theorem coherent_after_counting :
    Coherent ((serviceSystem Counting.setup Counting.answers Counting.answers).after Counting.idle
      [Counting.call [1] 4 0 0 true, Counting.call [1, 2, 3, 4, 5] 2 0 0 true]) :=
  coherent_after _ _ _ _ rfl _ (by decide +kernel)

/-- A sampled request without verification batches counts the tokens it feeds to the model but does
not log them: the cache lists what the memory held before. -/
theorem not_coherent_sampled :
    ¬∀ calls : List (Call ℚ),
      Coherent ((serviceSystem Counting.setup Counting.answers Counting.answers).after
        Counting.idle calls) := by
  intro h
  have := h [Counting.call [1] 4 1 1 false]
  revert this
  decide +kernel

/-! ### The cached continuation -/

/-- What the working variables know about the model's next token. -/
def Continuing (c : Call R) (target : Fed → List R) (g : Locals Ω Δ R) : Prop :=
  (c.needsLogits = true →
    g.logits = some (target g.model.consumed) ∧ g.cacheResultLogitsValid = true) ∧
  (c.needsLogits = false → g.current = argmax (target g.model.consumed))

/-- The branches after which the cache still knows the model's next token. -/
def Branch.keeps : Branch → Bool
  | .sampled | .speculativeTopk _ | .speculativeGreedy true => false
  | _ => true

theorem Branch.keeps_ne_sampled (h : e.keeps = true) : e ≠ .sampled := by
  rintro rfl
  cases h

theorem Branch.keeps_ne_topk (h : e.keeps = true) (b : Bool) : e ≠ .speculativeTopk b := by
  rintro rfl
  cases h

theorem Stepped.continuing {position : ℕ} {tokens : List Token} (hA : A.Follows target)
    (hg : Continuing c target g)
    (h : Stepped A c position (emit ids g.current g) e tokens g') (he : e.keeps = true)
    (hcurrent : c.needsLogits = false → g'.current = tokens.getLastD 0) :
    Continuing c target g' := by
  refine ⟨fun hneeds => ?_, fun hneeds => ?_⟩
  · obtain ⟨hlogits, hvalid⟩ := h.logits target hA hneeds (Branch.keeps_ne_topk he)
    exact ⟨hlogits, hvalid (hg.1 hneeds).2⟩
  · rw [hcurrent hneeds]
    exact h.greedy target hA hneeds

theorem generationStep_continuing (hA : A.Follows target) (hg : Continuing c target g)
    (h : generationStep setup A B c ids g = .next e g') (he : e.keeps = true) :
    Continuing c target g' := by
  obtain ⟨-, -, -, -, hadv⟩ := generationStep_next h
  obtain ⟨tokens, hstep, hcurrent, -⟩ := advance_next hadv
  exact hstep.continuing hA hg he fun _ => hcurrent

theorem generationStep_continuing_done (hA : A.Follows target) (hg : Continuing c target g)
    (h : generationStep setup A B c ids g = .done e g') (he : e.keeps = true) :
    Continuing c target g' := by
  rcases generationStep_done h with ⟨rfl, -⟩ | ⟨-, -, rfl⟩ | ⟨-, -, ⟨-, -, rfl⟩ | ⟨-, -, hadv⟩⟩
  · exact hg
  · exact hg
  · exact hg
  · obtain ⟨tokens, emitted, hstep, rfl, -⟩ := advance_done hadv
    refine hstep.continuing hA hg he fun hneeds => ?_
    -- a greedy run that stops inside is excluded
    simp [speculativeBranch, hneeds, Branch.keeps] at he

theorem generate_continuing (hA : A.Follows target) (hg : Continuing c target g)
    (hkeeps : ∀ e ∈ Loop.trace (generationStep setup A B c ids) (c.maxTokens.toNat + 1) g,
      e.keeps = true)
    (h : generate setup A B c ids g = .finished g') : Continuing c target g' := by
  have := Loop.run_induction (generationStep setup A B c ids) (Continuing c target)
    (Continuing c target) (fun _ => True) (Branch.keeps · = true)
    (fun _ _ _ hI he hb => generationStep_continuing hA hI hb he)
    (fun _ _ _ hI he hb => generationStep_continuing_done hA hI hb he)
    (fun _ _ _ _ _ _ => trivial) (c.maxTokens.toNat + 1) g hg hkeeps
  rw [generate] at h
  rw [h] at this
  exact this

/-- The request takes none of the branches that lose the model's next token, or it fails. -/
def KeepsContinuation (setup : Setup) (A : Answers Ω R) (B : Answers Δ R) (s : Service Ω Δ R)
    (c : Call R) : Prop :=
  .failed ∈ branches setup A B c s ∨ ∀ e ∈ branches setup A B c s, e.keeps = true

instance (setup : Setup) (A : Answers Ω R) (B : Answers Δ R) (s : Service Ω Δ R) (c : Call R) :
    Decidable (KeepsContinuation setup A B s c) :=
  inferInstanceAs (Decidable (Branch.failed ∈ _ ∨ ∀ e ∈ _, Branch.keeps e = true))

theorem KeepsContinuation.logs (h : KeepsContinuation setup A B s c) :
    LogsItsTokens setup A B s c := by
  intro hm
  rcases h with h | h
  · exact h
  · exact absurd rfl (Branch.keeps_ne_sampled (h _ hm))

theorem promptPhase_continuing (hA : A.Follows target)
    (hsize : ∀ fed, (target fed).length = setup.vocabularySize) (hs : Aligned s)
    (hcont : Continues target s) (hne : ids ≠ [])
    (h : promptPhase setup A B c ids (claim setup c s ids) = .ok g) : Continuing c target g := by
  obtain ⟨hprompt, hvalid⟩ := promptPhase_prompting hne h
  obtain ⟨hlogits, hcurrent⟩ := hprompt.answered hs rfl target hA hsize hcont
  refine ⟨fun hneeds => ⟨hlogits hneeds, ?_⟩, hcurrent⟩
  rw [hvalid, hlogits hneeds, hneeds]
  rfl

/-- The old logits are kept only by a request that consumed nothing. -/
theorem publish_continues (hcont : Continues target s) (hlog : Logged ids g)
    (hg : Continuing c target g) : Continues target (publish setup c s ids g) := by
  intro hv
  rcases Nat.eq_zero_or_pos g.stateCount with h0 | h0
  · simp [publish, h0] at hv
  have hcached := (publish_cached setup c s ids h0).1
  rw [hcached, ← hlog.consumed]
  cases hneeds : c.needsLogits with
  | true =>
    obtain ⟨hlogits, hvalid⟩ := hg.1 hneeds
    simp [publish, h0, publishedLogits, hneeds, hlogits, hvalid]
  | false =>
    have hcurrent := hg.2 hneeds
    cases hkept : cacheHit setup c s ids && decide (g.stateCount = s.cacheCount) with
    | false => simp [publish, h0, publishedLogits, hneeds, hkept, hcurrent]
    | true =>
      simp only [Bool.and_eq_true, decide_eq_true_eq] at hkept
      obtain ⟨hvs, -, hle, htake, -⟩ := prefixHit_spec (cacheHit_prefixHit hkept.1)
      have hids : g.stateTokens.take g.stateCount = s.cached := by
        have hn : s.cacheCount = ids.length := by have := hlog.whole; omega
        rw [hkept.2, hn, hlog.prompt, ← htake, hn, List.take_length]
      have hfed : g.model.consumed = feedAt 0 s.cached := by rw [hlog.consumed, hids]
      obtain ⟨hold, -⟩ := hcont hvs
      rw [hkept.2] at h0
      simp only [publish, h0, publishedLogits, hneeds, hkept, hcurrent, if_true, decide_true,
        Bool.and_self, Bool.false_eq_true, if_false, hfed]
      exact ⟨hold, fun _ => trivial⟩

/-- One request keeps the cached continuation the model's own. -/
theorem complete_continues (hA : A.Follows target)
    (hsize : ∀ fed, (target fed).length = setup.vocabularySize) (hs : Aligned s)
    (hcont : Continues target s) (hc : KeepsContinuation setup A B s c) :
    Continues target (complete setup A B c s).2 := by
  unfold complete
  split
  · exact hcont
  · rename_i ids hi
    split
    · intro hv
      cases hv
    · rename_i g' hg'
      have hlog := serve_logged hs hc.logs hi hg'
      obtain ⟨g, hp, hg⟩ := serve_ok hg'
      refine publish_continues hcont hlog ?_
      refine generate_continuing hA (promptPhase_continuing hA hsize hs hcont (admitted_ok hi).1 hp)
        ?_ hg
      have hnot := failed_notMem_of_finished hg
      unfold KeepsContinuation at hc
      rw [branches_eq hi hp] at hc
      exact hc.resolve_left hnot

/-! ### The first token -/

theorem generationStep_head {t : Token} (hg : g.generatedIds.head? = some t)
    (h : generationStep setup A B c ids g = .next e g' ∨
      generationStep setup A B c ids g = .done e g') : g'.generatedIds.head? = some t := by
  have hmore : ∀ l, (g.generatedIds ++ l).head? = some t := by
    intro l
    rw [List.head?_append, hg]
    rfl
  rcases h with h | h
  · obtain ⟨-, -, -, -, hadv⟩ := generationStep_next h
    obtain ⟨tokens, -, -, hgen, -⟩ := advance_next hadv
    rw [hgen, emit, List.append_assoc]
    exact hmore _
  · rcases generationStep_done h with ⟨rfl, -⟩ | ⟨-, -, rfl⟩ | ⟨-, -, ⟨-, -, rfl⟩ | ⟨-, -, hadv⟩⟩
    · exact hg
    · exact hg
    · exact hmore _
    · obtain ⟨tokens, emitted, -, -, -, hgen, -⟩ := advance_done hadv
      rw [hgen, emit, List.append_assoc]
      exact hmore _

/-- The first token emitted is the one picked after the prompt. -/
theorem generate_head (hempty : g.generatedIds = []) (htokens : 0 < c.maxTokens)
    (hcontext : ids.length < setup.maxContext) (h : generate setup A B c ids g = .finished g') :
    g'.generatedIds.head? =
      if 0 ≤ g.current ∧ stops setup c g.current = false then some g.current else none := by
  rw [generate, Loop.run] at h
  cases hb : generationStep setup A B c ids g with
  | abort e g₁ => simp [hb] at h
  | done e g₁ =>
    simp only [hb, Ending.finished.injEq] at h
    subst h
    rcases generationStep_done hb with
      ⟨rfl, ⟨-, hlimit⟩ | ⟨-, hneg⟩⟩ | ⟨-, hstop, rfl⟩ | ⟨hcur, hstop, ⟨-, -, rfl⟩ | ⟨-, -, hadv⟩⟩
    · exact absurd ⟨by simp [hempty]; omega, by simpa [hempty] using hcontext⟩ hlimit
    · rw [if_neg (fun hpos => Int.not_lt.mpr hpos.1 hneg), hempty]
      rfl
    · simp [hstop, hempty]
    · simp [hstop, hcur, hempty, emit]
    · obtain ⟨tokens, emitted, -, -, -, hgen, -⟩ := advance_done hadv
      simp [hgen, hstop, hcur, hempty, emit]
  | next e g₁ =>
    simp only [hb] at h
    obtain ⟨-, -, hcur, hstop, hadv⟩ := generationStep_next hb
    obtain ⟨tokens, -, -, hgen, -⟩ := advance_next hadv
    have hhead : g₁.generatedIds.head? = some g.current := by simp [hgen, hempty, emit]
    have := Loop.run_induction (generationStep setup A B c ids)
      (fun g₁ => g₁.generatedIds.head? = some g.current)
      (fun g₁ => g₁.generatedIds.head? = some g.current) (fun _ => True) (fun _ => True)
      (fun _ _ _ hI _ hb => generationStep_head hI (.inl hb))
      (fun _ _ _ hI _ hb => generationStep_head hI (.inr hb)) (fun _ _ _ _ _ _ => trivial)
      c.maxTokens.toNat g₁ hhead (fun _ _ => trivial)
    rw [h] at this
    rw [this, if_pos ⟨hcur, hstop⟩]

/-- A reply other than `-1` is that of a request that was served. -/
theorem complete_served (h : (complete setup A B c s).1.code ≠ -1) :
    ∃ ids g, admitted setup c = .ok ids ∧ serve setup A B c s ids = .ok g ∧
      complete setup A B c s = (completedReply setup ids g, publish setup c s ids g) := by
  unfold complete at h ⊢
  split at h
  · exact absurd rfl h
  · rename_i ids hi
    split at h
    · exact absurd rfl h
    · rename_i g hg
      exact ⟨ids, g, hi, hg, rfl⟩

/-- The first token of a greedy request is the model's own after the prompt. -/
theorem complete_head (hA : A.Follows target)
    (hsize : ∀ fed, (target fed).length = setup.vocabularySize) (hs : Aligned s)
    (hcont : Continues target s) (hneeds : c.needsLogits = false) (hi : admitted setup c = .ok ids)
    (h : (complete setup A B c s).1.code ≠ -1) :
    (complete setup A B c s).1.decoded.head? =
      let first : Token := argmax (target (feedAt 0 ids))
      if 0 ≤ first ∧ stops setup c first = false then some first else none := by
  obtain ⟨ids', g', hi', hg', hreply⟩ := complete_served h
  obtain rfl : ids' = ids := by
    rw [hi] at hi'
    exact (Except.ok.inj hi').symm
  obtain ⟨g, hp, hg⟩ := serve_ok hg'
  obtain ⟨hne, hcontext, htokens⟩ := admitted_ok hi
  obtain ⟨hprompt, -⟩ := promptPhase_prompting hne hp
  have hcurrent := (promptPhase_continuing hA hsize hs hcont hne hp).2 hneeds
  rw [hprompt.consumed hs, List.take_length] at hcurrent
  rw [hreply, ← hcurrent]
  exact generate_head hprompt.generatedIds htokens hcontext hg

/-- In every run from an empty cache in which no completed request loses the model's next token, a
valid cache holds the model's own continuation; so a greedy request for exactly the cached tokens
starts with the token it would start with after a reset. -/
theorem continues_after (setup : Setup) (A : Answers Ω R) (B : Answers Δ R) (hA : A.Follows target)
    (hsize : ∀ fed, (target fed).length = setup.vocabularySize) (s : Service Ω Δ R)
    (hs : s.cacheValid = false) (calls : List (Call R))
    (hcalls : (serviceSystem setup A B).Along (KeepsContinuation setup A B) s calls) :
    let s' := (serviceSystem setup A B).after s calls
    Continues target s' ∧
      ∀ c : Call R, c.needsLogits = false → s'.cacheValid = true → admitted setup c = .ok s'.cached →
        (complete setup A B c s').1.code ≠ -1 →
        (complete setup A B c { s' with cacheValid := false }).1.code ≠ -1 →
        (complete setup A B c s').1.decoded.head? =
          (complete setup A B c { s' with cacheValid := false }).1.decoded.head? := by
  intro s'
  have hstart : Aligned s ∧ Continues target s :=
    ⟨fun hv => by simp [hs] at hv, fun hv => by simp [hs] at hv⟩
  obtain ⟨haligned, hcont⟩ : Aligned s' ∧ Continues target s' :=
    System.invariant_along (I := fun s => Aligned s ∧ Continues target s)
      (P := KeepsContinuation setup A B) (fun _ _ hI hP => ⟨complete_aligned hI.1 hP.logs,
        complete_continues hA hsize hI.1 hI.2 hP⟩) calls s hstart hcalls
  refine ⟨hcont, fun c hneeds _ hi hcode hreset => ?_⟩
  rw [complete_head hA hsize haligned hcont hneeds hi hcode,
    complete_head hA hsize (fun hv => by cases hv) (fun hv => by cases hv) hneeds hi hreset]

/-- After a greedy request, a request for the tokens it cached starts as after a reset. -/
theorem continues_after_counting :
    let s' := (serviceSystem Counting.setup Counting.answers Counting.answers).after Counting.idle
      [Counting.call [1] 4 0 0 true]
    let c := Counting.call [1, 2, 3, 4] 4 0 0 true
    Continues Counting.target s' ∧
      (complete Counting.setup Counting.answers Counting.answers c s').1.decoded.head? =
        (complete Counting.setup Counting.answers Counting.answers c
          { s' with cacheValid := false }).1.decoded.head? := by
  have h := continues_after Counting.setup Counting.answers Counting.answers
    (Answers.ofTarget_follows _ _ _ _) Counting.target_length Counting.idle rfl
    [Counting.call [1] 4 0 0 true] (by decide +kernel)
  exact ⟨h.1, h.2 _ (by decide +kernel) (by decide +kernel) (by decide +kernel)
    (by decide +kernel) (by decide +kernel)⟩

/-- A greedy run that stops inside a verified run leaves the token it fed, not the next one; a
request on the device's candidates leaves the token it sampled. -/
theorem not_continues_stopped :
    Counting.answers.Follows Counting.target ∧
      ¬∀ calls : List (Call ℚ), Continues Counting.target
        ((serviceSystem Counting.setup Counting.answers Counting.answers).after
          Counting.idle calls) := by
  refine ⟨Answers.ofTarget_follows _ _ _ _, fun h => ?_⟩
  have := h [Counting.call [1] 9 0 0 true]
  revert this
  decide +kernel

/-! ### Failures -/

/-- Neither model was called, and the cache is as it was. -/
structure Untouched (s s' : Service Ω Δ R) : Prop where
  model : s'.model = s.model
  draft : s'.draft = s.draft
  cacheTokens : s'.cacheTokens = s.cacheTokens
  cacheLogits : s'.cacheLogits = s.cacheLogits
  cacheCount : s'.cacheCount = s.cacheCount
  cacheNextToken : s'.cacheNextToken = s.cacheNextToken
  cacheValid : s'.cacheValid = s.cacheValid
  cacheLogitsValid : s'.cacheLogitsValid = s.cacheLogitsValid

/-- The request is admitted and continues from the cached state. -/
def ContinuesFromCache (setup : Setup) (s : Service Ω Δ R) (c : Call R) : Prop :=
  ∃ ids, admitted setup c = .ok ids ∧ cacheHit setup c s ids = true

/-- The request is admitted and starts by resetting the model. -/
def StartsOver (setup : Setup) (s : Service Ω Δ R) (c : Call R) : Prop :=
  ∃ ids, admitted setup c = .ok ids ∧ cacheHit setup c s ids = false

theorem complete_failed (h : (complete setup A B c s).1.code = -1) :
    Untouched s (complete setup A B c s).2 ∨ (complete setup A B c s).2.cacheValid = false := by
  unfold complete at h ⊢
  split at h
  · rename_i n hi
    exact .inl ⟨rfl, rfl, rfl, rfl, rfl, rfl, rfl, rfl⟩
  · rename_i ids hi
    split at h
    · exact .inr rfl
    · -- the length of a text is not `-1`
      exact absurd h (by simp only [completedReply]; omega)

theorem not_continuesFromCache (h : s.cacheValid = false) : ¬ContinuesFromCache setup s c := by
  rintro ⟨ids, -, hit⟩
  have := (prefixHit_spec (cacheHit_prefixHit hit)).1
  simp [h] at this

/-- Once the cache is invalid, it is a request that starts over that makes it valid again. -/
theorem startsOver_of_continues {calls : List (Call R)} (hs : s.cacheValid = false)
    (h : ContinuesFromCache setup ((serviceSystem setup A B).after s calls) c) :
    ∃ before d after, calls = before ++ d :: after ∧
      StartsOver setup ((serviceSystem setup A B).after s before) d := by
  induction calls generalizing s with
  | nil => exact absurd h (not_continuesFromCache hs)
  | cons d calls ih =>
    cases hi : admitted setup d with
    | ok ids =>
      refine ⟨[], d, calls, rfl, ids, hi, ?_⟩
      by_contra hit
      exact not_continuesFromCache hs ⟨ids, hi, by simpa using hit⟩
    | error n =>
      have hstep : (complete setup A B d s).2.cacheValid = false := by
        unfold complete
        rw [hi]
        exact hs
      obtain ⟨before, d', after, rfl, hover⟩ := ih hstep h
      exact ⟨d :: before, d', after, rfl, hover⟩

/-- A request that fails has touched nothing, or it leaves the cache invalid; and whatever requests
follow one that touched something, none continues from the cache before one of them has started
over. -/
theorem failureSafe (setup : Setup) (A : Answers Ω R) (B : Answers Δ R) (s : Service Ω Δ R)
    (c : Call R) (hcode : (complete setup A B c s).1.code = -1) :
    let s₁ := (complete setup A B c s).2
    (Untouched s s₁ ∨ s₁.cacheValid = false) ∧
      (¬Untouched s s₁ → ∀ (calls : List (Call R)) (c' : Call R),
        ContinuesFromCache setup ((serviceSystem setup A B).after s₁ calls) c' →
        ∃ before d after, calls = before ++ d :: after ∧
          StartsOver setup ((serviceSystem setup A B).after s₁ before) d) := by
  have hfailed := complete_failed hcode
  refine ⟨hfailed, fun htouched calls c' hcontinue => ?_⟩
  exact startsOver_of_continues (hfailed.resolve_left htouched) hcontinue

/-- The counting model on a device that fails at the third position. -/
def Counting.failing : Answers Unit ℚ :=
  { Counting.answers with
    forwardGreedy := fun _ fed token position _ =>
      if position = 2 then (.error ⟨.deviceError, fed⟩, ())
      else (.ok (argmax (Counting.target (fed ++ feedAt position [token]))), ()) }

/-- A request fails at its third token; the next one starts over, and the one after that continues
from the cache. -/
theorem failureSafe_counting :
    let s₁ := (complete Counting.setup Counting.failing Counting.failing
      (Counting.call [1] 4 0 0 false) Counting.idle).2
    s₁.cacheValid = false ∧
      ∃ before d after, [Counting.call [1] 2 0 0 false] = before ++ d :: after ∧
        StartsOver Counting.setup
          ((serviceSystem Counting.setup Counting.failing Counting.failing).after s₁ before) d := by
  have h := failureSafe Counting.setup Counting.failing Counting.failing Counting.idle
    (Counting.call [1] 4 0 0 false) (by decide +kernel)
  have htouched : ¬Untouched Counting.idle (complete Counting.setup Counting.failing
      Counting.failing (Counting.call [1] 4 0 0 false) Counting.idle).2 := fun hu =>
    absurd (congrArg Live.calls hu.model) (by decide +kernel)
  refine ⟨h.1.resolve_left htouched, h.2 htouched _ (Counting.call [1, 2] 1 0 0 false) ?_⟩
  exact ⟨[1, 2], by decide +kernel, by decide +kernel⟩

end FortAI
