import FortAI.Llama.Speculation
import FortAI.Machine.System

/-!
# The memory of the draft

Only speculative calls decode into the context of a draft model, and on full acceptance they leave
the last draft out.

* `standalone` : the calls of a handle with a draft context, each at the next position.
* `mirrored_iff` : the two memories are the same all along a run exactly when every call is a reset
  or one whose drafts are not all accepted.
-/

namespace FortAI

namespace Llama

variable {H R D : Type} [Arithmetic R D] (h : Handle H R)

/-! ### Calls at consecutive positions -/

inductive Request
  | reset
  | decode (token : ℤ) (logitsCount : ℕ)
  | decodeGreedy (token : ℤ)
  | decodeSpeculative (token capacity : ℤ)

/-- The state after a successful call at the position behind the memory of the target. -/
def call (s : State H) : Request → Option (State H)
  | .reset => some (reset h s)
  | .decode token logitsCount =>
    (decode h s token s.target.length logitsCount).toOption.map Prod.fst
  | .decodeGreedy token => (decodeGreedy h s token s.target.length).toOption.map Prod.fst
  | .decodeSpeculative token capacity =>
    (decodeSpeculative h s token s.target.length capacity).toOption.map Prod.fst

/-- The handle under a list of calls; the answer says whether a call succeeds. -/
def standalone : System (State H) Request Bool where
  step s r := match call h s r with
    | none => (false, s)
    | some s' => (true, s')

/-- The handle owns the context of a draft model. -/
structure Owns (draft : Network Row R) : Prop where
  draft : h.draft = some draft
  mtp : h.mtp = none
  specEnabled : h.specEnabled = true

/-- The memory of the draft is that of the target. -/
def Mirrored (s : State H) : Prop := s.draft = s.target

/-- The greedy tokens of the two models, as many as there are drafts in a call, are not the same. -/
def Disagree (draft : Network Row R) (s : State H) (token : ℤ) : Prop :=
  ∀ drafts : List ℤ, drafts.length = h.specMax →
    Picks (h.pick draft h.draftVocab) s.draft token s.target.length drafts →
      ¬ Picks (h.pick h.target h.vocab) s.target token s.target.length drafts

/-- The call is a reset, or it has room for drafts and does not accept all of them. -/
def Keeps (draft : Network Row R) (s : State H) : Request → Prop
  | .reset => True
  | .decodeSpeculative token capacity =>
    (h.speculates s.target.length capacity).isSome = true ∧ Disagree h draft s token
  | _ => False

variable {h} {s s' : State H}

theorem toOption_eq_some {ε α : Type} {result : Except ε α} {a : α} (hresult : result.toOption = some a) :
    result = .ok a := by
  cases result with
  | error e => cases hresult
  | ok b => rw [Option.some.inj hresult]

theorem decode_eq_ok {token position : ℤ} {logitsCount : ℕ} {logits : List R}
    (hcall : decode h s token position logitsCount = .ok (s', logits)) :
    s' = { s with target := s.target ++ [⟨token, position⟩] } := by
  rw [decode] at hcall
  split_ifs at hcall
  split at hcall
  · cases hcall
  · rename_i memory hdecode
    obtain ⟨-, rfl⟩ := Network.decode_eq_some.mp hdecode
    split at hcall
    · cases hcall
    · rw [Except.ok.injEq, Prod.mk.injEq] at hcall
      exact hcall.1.symm

theorem decodeGreedy_draft {token position next : ℤ} {sum : R}
    (hcall : decodeGreedy h s token position = .ok (s', next, sum)) : s'.draft = s.draft := by
  rw [decodeGreedy] at hcall
  split_ifs at hcall
  split at hcall
  · cases hcall
  · split at hcall
    · cases hcall
    · simp only [Except.ok.injEq, Prod.mk.injEq] at hcall
      rw [← hcall.1]

/-- A target that has decoded more rows than the draft is not mirrored. -/
theorem not_mirrored (hlength : s.draft.length < s.target.length) : ¬ Mirrored s :=
  fun hmirrored => hlength.ne (congrArg List.length hmirrored)

/-- Where the drafts are all accepted, the draft has not decoded the last of them. -/
theorem decodeDrafts_mirrored {draft : Network Row R} {token : ℤ} {tokens : List ℤ} {sum : R}
    (hbelow : Below s.target s.target.length) (hmirrored : Mirrored s)
    (hcall : decodeDrafts h draft s token s.target.length = .ok (s', tokens, sum)) :
    Mirrored s' ↔ Disagree h draft s token := by
  obtain ⟨drafts, k, mismatch, hlength, hk, rfl, hmismatch, hdrafts, hpicks, -, hs'⟩ :=
    decodeDrafts_spec h hcall
  rw [Disagree]
  by_cases hless : k < h.specMax
  · rw [if_pos hless] at hs'
    have htarget := removeFrom_append (token :: drafts) (k + 1) hbelow
    have hdraft := removeFrom_append (inputs token drafts) (k + 1) hbelow
    have hsame : (inputs token drafts).take (k + 1) = (token :: drafts).take (k + 1) := by
      rw [inputs, List.take_take, hlength, Nat.min_eq_left hless]
    refine iff_of_true ?_ fun others hothers hown htaken => ?_
    · rw [Mirrored, hs', hmirrored, htarget, hdraft, hsame]
    · obtain rfl := hown.eq hdrafts (hothers.trans hlength.symm)
      -- the target would pick the draft in the place of the token behind the accepted ones
      have hk' : k < others.length := hlength ▸ hless
      rw [← List.take_append_drop (k + 1) others, picks_append] at htaken
      have hconcat := htaken.1.eq hpicks (by
        rw [List.length_append, List.length_take, List.length_take, List.length_singleton]
        omega)
      rw [List.take_add_one, List.append_cancel_left_eq, List.getElem?_eq_getElem hk'] at hconcat
      rw [List.getElem?_eq_getElem hk'] at hmismatch
      exact hmismatch (congrArg some (List.cons.inj hconcat).1)
  · have hall : k = drafts.length := by omega
    rw [if_neg hless] at hs'
    refine iff_of_false (not_mirrored ?_) fun hdisagree => hdisagree drafts hlength hdrafts ?_
    · rw [hs', hmirrored, List.length_append, List.length_append, length_rows, length_rows,
        length_inputs, List.length_cons]
      omega
    · rw [hall, List.take_length, picks_append] at hpicks
      exact hpicks.1

theorem Below.advances {token : ℤ} {tokens : List ℤ} (hbelow : Below s.target s.target.length)
    (hadvances : Advances h s token s.target.length tokens s') : Below s'.target s'.target.length := by
  rw [hadvances.target, List.length_append, length_rows, Nat.cast_add]
  exact hbelow.append _

theorem target_reset : (reset h s).target = [] := by
  rw [reset]
  split_ifs <;> rfl

/-- The memory of the target is that of the positions up to its length. -/
theorem call_below (hbelow : Below s.target s.target.length) {r : Request} (hcall : call h s r = some s') :
    Below s'.target s'.target.length := by
  cases r with
  | reset =>
    rw [← Option.some.inj hcall, target_reset]
    intro row hrow
    cases hrow
  | decode token logitsCount =>
    obtain ⟨⟨s'', logits⟩, hdecode, rfl⟩ := Option.map_eq_some_iff.mp hcall
    obtain rfl := decode_eq_ok (toOption_eq_some hdecode)
    have hrow := hbelow.append [token]
    rw [List.length_singleton] at hrow
    rw [List.length_append, List.length_singleton, Nat.cast_add]
    exact hrow
  | decodeGreedy token =>
    obtain ⟨⟨s'', next, sum⟩, hdecode, rfl⟩ := Option.map_eq_some_iff.mp hcall
    exact hbelow.advances (decodeGreedy_eq_ok (toOption_eq_some hdecode))
  | decodeSpeculative token capacity =>
    obtain ⟨⟨s'', tokens, sum⟩, hdecode, rfl⟩ := Option.map_eq_some_iff.mp hcall
    exact hbelow.advances (decodeSpeculative_advances hbelow (toOption_eq_some hdecode)).2

/-- A call that succeeds keeps the memories the same exactly when it is one of those. -/
theorem call_mirrored {draft : Network Row R} (hown : Owns h draft)
    (hbelow : Below s.target s.target.length) (hmirrored : Mirrored s) {r : Request}
    (hcall : call h s r = some s') : Mirrored s' ↔ Keeps h draft s r := by
  have hgreedy {token next : ℤ} {sum : R}
      (hcall : decodeGreedy h s token s.target.length = .ok (s', next, sum)) : ¬ Mirrored s' := by
    refine not_mirrored ?_
    rw [decodeGreedy_draft hcall, hmirrored, (decodeGreedy_eq_ok hcall).target, List.length_append,
      length_rows]
    exact Nat.lt_add_of_pos_right (Nat.succ_pos _)
  cases r with
  | reset =>
    have hclear : s' = { s with target := [], draft := [] } := by
      rw [← Option.some.inj hcall, reset, hown.mtp, hown.draft, hown.specEnabled]
      rfl
    rw [hclear]
    exact iff_of_true rfl trivial
  | decode token logitsCount =>
    obtain ⟨⟨s'', logits⟩, hdecode, rfl⟩ := Option.map_eq_some_iff.mp hcall
    obtain rfl := decode_eq_ok (toOption_eq_some hdecode)
    refine iff_of_false (not_mirrored ?_) not_false
    rw [hmirrored, List.length_append]
    exact Nat.lt_add_of_pos_right (Nat.succ_pos _)
  | decodeGreedy token =>
    obtain ⟨⟨s'', next, sum⟩, hdecode, rfl⟩ := Option.map_eq_some_iff.mp hcall
    exact iff_of_false (hgreedy (toOption_eq_some hdecode)) not_false
  | decodeSpeculative token capacity =>
    obtain ⟨⟨s'', tokens, sum⟩, hdecode, rfl⟩ := Option.map_eq_some_iff.mp hcall
    have hcall := toOption_eq_some hdecode
    rw [decodeSpeculative, hown.mtp] at hcall
    split_ifs at hcall
    simp only at hcall
    rw [Keeps]
    cases hspeculates : h.speculates s.target.length capacity with
    | none =>
      rw [hspeculates] at hcall
      simp only at hcall
      split at hcall
      · cases hcall
      · rename_i hone
        rw [Except.ok.injEq, Prod.mk.injEq] at hcall
        obtain ⟨rfl, -⟩ := hcall
        exact iff_of_false (hgreedy hone) fun hkeeps => Bool.false_ne_true hkeeps.1
    | some draft' =>
      obtain rfl : draft' = draft := by
        rw [Handle.speculates, hown.draft] at hspeculates
        split_ifs at hspeculates
        exact (Option.some.inj hspeculates).symm
      rw [hspeculates] at hcall
      exact (decodeDrafts_mirrored hbelow hmirrored hcall).trans (and_iff_right rfl).symm

/-- **The draft mirrors the target** all along a run of successful calls from a reset exactly when
every call is a reset, or has room for drafts and meets one that the target does not pick. -/
theorem mirrored_iff {draft : Network Row R} (hown : Owns h draft) (requests : List Request)
    (hsuccess : (standalone h).Along (fun s r => (call h s r).isSome = true) (emptyState H) requests) :
    (∀ done, done <+: requests → Mirrored ((standalone h).after (emptyState H) done)) ↔
      (standalone h).Along (Keeps h draft) (emptyState H) requests := by
  have hstep {s : State H} {r : Request} (hsome : (call h s r).isSome = true) :
      call h s r = some ((standalone h).step s r).2 := by
    obtain ⟨s', hcall⟩ := Option.isSome_iff_exists.mp hsome
    simp only [standalone, hcall]
  exact System.forall_prefix_iff (K := fun s : State H => Below s.target s.target.length)
    (fun s r hbelow hsome => call_below hbelow (hstep hsome))
    (fun s r hbelow hmirrored hsome => call_mirrored hown hbelow hmirrored (hstep hsome))
    requests _ (fun row hrow => absurd hrow List.not_mem_nil) rfl hsuccess

/-! ### Drafts that are refused and drafts that are accepted -/

theorem owns_twoDrafts (draft : Network Row ℚ) : Owns (twoDrafts draft) draft := ⟨rfl, rfl, rfl⟩

/-- The second one of two drafts is refused. -/
theorem mirrored_refused :
    Mirrored ((standalone (twoDrafts (twoTokens fun _ => 1))).after (emptyState Unit)
      [.decodeSpeculative 0 3]) :=
  have hsuccess : (standalone (twoDrafts (twoTokens fun _ => 1))).Along
      (fun s r => (call (twoDrafts (twoTokens fun _ => 1)) s r).isSome = true) (emptyState Unit)
      [.decodeSpeculative 0 3] := by decide +kernel
  have hspeculates : ((twoDrafts (twoTokens fun _ => 1)).speculates 0 3).isSome = true := by decide
  have hdisagree : Disagree (twoDrafts (twoTokens fun _ => 1)) (twoTokens fun _ => 1)
      (emptyState Unit) 0 := by
    intro drafts hlength hdraft htarget
    have hown : Picks ((twoDrafts (twoTokens fun _ => 1)).pick (twoTokens fun _ => 1) 2) [] 0 0 [1, 1] := by
      exact ⟨by decide +kernel, by decide +kernel, trivial⟩
    obtain rfl := hdraft.eq hown hlength
    have hsecond : (twoDrafts (twoTokens fun _ => 1)).pick alternating 2 (rows 0 [0, 1]) ≠ some 1 := by
      decide +kernel
    exact hsecond htarget.2.1
  (mirrored_iff (owns_twoDrafts _) _ hsuccess).mpr ⟨⟨hspeculates, hdisagree⟩, trivial⟩ _
    (List.prefix_refl _)

/-- Both drafts are accepted, and the draft model has decoded only the first. -/
theorem not_mirrored_accepted :
    ¬ ∀ (h : Handle Unit ℚ) (draft : Network Row ℚ), Owns h draft → ∀ requests : List Request,
      (standalone h).Along (fun s r => (call h s r).isSome = true) (emptyState Unit) requests →
      ∀ done, done <+: requests → Mirrored ((standalone h).after (emptyState Unit) done) := by
  intro hall
  have hsuccess : (standalone (twoDrafts alternating)).Along
      (fun s r => (call (twoDrafts alternating) s r).isSome = true) (emptyState Unit)
      [.decodeSpeculative 0 3] := by decide +kernel
  have hmirrored := hall _ _ (owns_twoDrafts alternating) _ hsuccess _ (List.prefix_refl _)
  rw [Mirrored] at hmirrored
  have hne : ((standalone (twoDrafts alternating)).after (emptyState Unit)
      [.decodeSpeculative 0 3]).draft ≠ ((standalone (twoDrafts alternating)).after (emptyState Unit)
      [.decodeSpeculative 0 3]).target := by decide +kernel
  exact hne hmirrored

end Llama

end FortAI
