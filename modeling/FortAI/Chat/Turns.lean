import FortAI.Chat.Template

/-!
# The turns of a conversation

What the chat template is for: every message is shown once, in order.  `template` makes the turns
of a conversation: one for the leading system messages, one for each run of tool messages, one for
each other message with something to show.  A system message behind the leading ones has a turn of
its own, as in every other position of the format.

* `contents_template` : no text is lost and none moves.
* `balanced_template` : between the markers of a turn there are no markers.
* `messageLoop_eq` : the loop of `formatChat` leaves out the later system messages.
* `formatChat_iff` : the prompt is that of the template exactly for `Complete` conversations.
-/

namespace FortAI

namespace Chat

open CString Character

/-! ### Turns -/

/-- A turn of the prompt, with the texts of the messages it shows. -/
inductive Turn where
  | merged (instruction : Bytes) (contents : List Bytes)
  | single (role content : Bytes)
  | assistant (thinking : Option Bytes) (content calls : Bytes)
  | tools (responses : List Bytes)

namespace Turn

/-- The lines of the merged system messages. -/
def lines : List Bytes → Bytes
  | [] => []
  | line :: rest => line ++ rest.flatMap (newline ++ ·)

def response (content : Bytes) : Bytes :=
  ascii "\n<tool_response>\n" ++ content ++ ascii "\n</tool_response>"

/-- The role of a turn, and what stands behind it. -/
def parts : Turn → Bytes × Bytes
  | merged instruction contents =>
    (ascii "system", newline ++
      (if instruction = [] then []
        else trimmed instruction ++ if contents = [] then [] else ascii "\n\n") ++ lines contents)
  | single role content => (role, newline ++ content)
  | assistant thinking content calls =>
    (ascii "assistant", newline ++
      (thinking.elim [] fun t => ascii "<think>\n" ++ t ++ ascii "\n</think>\n\n") ++ content ++
        calls)
  | tools responses => (ascii "user", responses.flatMap response)

def render (t : Turn) : Bytes := imStart ++ t.parts.1 ++ t.parts.2 ++ imEnd ++ newline

/-- The texts of the messages the turn shows. -/
def contents : Turn → List Bytes
  | merged _ contents => contents
  | single _ content => [content]
  | assistant _ content _ => [content]
  | tools responses => responses

end Turn

/-- A real question of the user. -/
def isQuery (m : Message) : Bool := isRole "user" m && !isToolResponse m.content

/-- What the template renders of the tool calls of a message. -/
def calls (m : Message) : Option Bytes :=
  if m.toolCalls = [] then some [] else assistantToolCalls m.toolCalls (trimmed m.content ≠ [])

/-- The trace of an assistant message is shown when no question comes behind it, or always. -/
def thinking (m : Message) (rest : List Message) (preserveThinking : Bool) : Option Bytes :=
  if (preserveThinking ∨ ¬ rest.any isQuery) ∧
      (preserveThinking ∨ hasNonblankText m.reasoningContent) then
    some (trimmed m.reasoningContent)
  else none

/-- A tool message joins the turn of the tool messages behind it. -/
def joinTools (content : Bytes) (joins : Bool) (turns : List Turn) : List Turn :=
  match joins, turns with
  | true, .tools responses :: rest => .tools (content :: responses) :: rest
  | _, turns => .tools [content] :: turns

/-- The turns of the messages behind the leading system messages; `later` tells whether a system
message among them has one. -/
def turnsOf (later preserveThinking : Bool) : List Message → List Turn
  | [] => []
  | m :: rest =>
    let turns := turnsOf later preserveThinking rest
    if isRole "system" m then
      if later ∧ hasNonblankText m.content then
        .single (ascii "system") (trimmed m.content) :: turns
      else turns
    else if isRole "tool" m then
      joinTools (trimmed m.content) (rest.head?.any (isRole "tool")) turns
    else if isRole "assistant" m then
      .assistant (thinking m rest preserveThinking) (trimmed m.content) ((calls m).getD []) :: turns
    else .single m.role (trimmed m.content) :: turns

/-- The texts of messages that are not blank. -/
def textsOf (messages : List Message) : List Bytes :=
  (messages.map fun m => trimmed m.content).filter (· ≠ [])

def leadingTexts (messages : List Message) : List Bytes :=
  textsOf (messages.takeWhile (isRole "system"))

/-- The turn of the leading system messages, when there is something in it. -/
def leadingTurn (instruction : Bytes) (messages : List Message) : List Turn :=
  if leadingTexts messages ≠ [] ∨ instruction ≠ [] then
    [.merged instruction (leadingTexts messages)]
  else []

/-- The turns of a conversation. -/
def template (later preserveThinking : Bool) (instruction : Bytes) (messages : List Message) :
    List Turn :=
  leadingTurn instruction messages ++
    turnsOf later preserveThinking (messages.dropWhile (isRole "system"))

/-! ### The loop -/

theorem lines_append {texts : List Bytes} (hne : texts ≠ []) (line : Bytes) :
    Turn.lines (texts ++ [line]) = Turn.lines texts ++ (newline ++ line) := by
  obtain ⟨t, rest, rfl⟩ := List.exists_cons_of_ne_nil hne
  simp only [List.cons_append, Turn.lines, List.flatMap_append, List.flatMap_cons,
    List.flatMap_nil, List.append_nil, List.append_assoc]

theorem lines_eq_nil {texts : List Bytes} (h : ∀ t ∈ texts, t ≠ []) :
    Turn.lines texts = [] ↔ texts = [] := by
  cases texts with
  | nil => exact ⟨fun _ => rfl, fun _ => rfl⟩
  | cons t rest =>
    have ht := h t List.mem_cons_self
    simp [Turn.lines, ht]

theorem ne_nil_of_mem_textsOf {messages : List Message} {t : Bytes} (h : t ∈ textsOf messages) :
    t ≠ [] := by
  rw [textsOf, List.mem_filter] at h
  exact of_decide_eq_true h.2

/-- The loop over the leading system messages puts their texts one below the other. -/
theorem mergedSystem_eq (messages : List Message) :
    mergedSystem messages = Turn.lines (textsOf messages) := by
  have hstep : ∀ (messages done : List Message),
      messages.foldl (fun merged m =>
        if hasNonblankText m.content then
          merged ++ (if merged = [] then [] else newline) ++ trimmed m.content
        else merged) (Turn.lines (textsOf done)) = Turn.lines (textsOf (done ++ messages)) := by
    intro messages
    induction messages with
    | nil => intro done; rw [List.append_nil]; rfl
    | cons m rest ih =>
      intro done
      have hmove : done ++ m :: rest = (done ++ [m]) ++ rest := by simp
      rw [hmove, ← ih, List.foldl_cons]
      congr 1
      by_cases hblank : trimmed m.content = []
      · simp [hasNonblankText, textsOf, hblank]
      · have htexts : textsOf (done ++ [m]) = textsOf done ++ [trimmed m.content] := by
          simp [textsOf, hblank]
        rw [htexts]
        simp only [hasNonblankText, ne_eq, hblank, not_false_eq_true, decide_true, if_true,
          lines_eq_nil fun t => ne_nil_of_mem_textsOf]
        by_cases hdone : textsOf done = []
        · simp [hdone, Turn.lines]
        · rw [if_neg hdone, lines_append hdone, List.append_assoc]
  exact hstep messages []

/-! ### The last question -/

private def questionStep (state : ℕ × ℕ) (m : Message) : ℕ × ℕ :=
  (state.1 + 1, if isRole "user" m ∧ ¬ isToolResponse m.content then state.1 else state.2)

private theorem question_lt {k : ℕ} (messages : List Message) :
    ∀ (i last : ℕ), k ≤ i →
      ((messages.foldl questionStep (i, last)).2 < k ↔ last < k ∧ ¬ messages.any isQuery) := by
  induction messages with
  | nil => intro i last _; simp
  | cons m rest ih =>
    intro i last hk
    have hquery : isQuery m = true ↔ isRole "user" m ∧ ¬ isToolResponse m.content := by
      simp [isQuery]
    rw [List.foldl_cons, questionStep, ih (i + 1) _ (Nat.le_succ_of_le hk), List.any_cons]
    by_cases hq : isQuery m = true
    · rw [if_pos (hquery.mp hq)]
      simp [hq, Nat.not_lt.mpr hk]
    · rw [if_neg (fun h => hq (hquery.mpr h))]
      simp [hq]

private theorem question_bound (messages : List Message) :
    ∀ (i last : ℕ), last < i →
      (messages.foldl questionStep (i, last)).1 = i + messages.length ∧
        (messages.foldl questionStep (i, last)).2 < i + messages.length := by
  induction messages with
  | nil => intro i last h; exact ⟨rfl, h⟩
  | cons m rest ih =>
    intro i last h
    rw [List.foldl_cons, questionStep, List.length_cons]
    have hlt : (if isRole "user" m ∧ ¬ isToolResponse m.content then i else last) < i + 1 := by
      split_ifs
      · exact Nat.lt_succ_self i
      · exact Nat.lt_succ_of_lt h
    have := ih (i + 1) _ hlt
    rwa [Nat.succ_add_eq_add_succ] at this

/-- A position lies behind the last question exactly when no question comes from it on. -/
theorem lastUserIndex_lt (before rest : List Message) :
    lastUserIndex (before ++ rest) < before.length + 1 ↔ ¬ rest.any isQuery := by
  obtain ⟨hfst, hsnd⟩ := question_bound before 1 0 Nat.one_pos
  have hsplit : lastUserIndex (before ++ rest) =
      (rest.foldl questionStep (before.foldl questionStep (1, 0))).2 := by
    rw [lastUserIndex, List.foldl_append]
    rfl
  rw [hsplit, show before.foldl questionStep (1, 0) =
    ((before.foldl questionStep (1, 0)).1, (before.foldl questionStep (1, 0)).2) from rfl, hfst,
    Nat.add_comm before.length 1, question_lt rest _ _ (Nat.le_refl _)]
  exact and_iff_right hsnd

/-! ### The loop and the turns -/

theorem isRole_ne {a b : String} (h : trim (ascii a) ≠ trim (ascii b)) {m : Message}
    (ha : isRole a m = true) : isRole b m = false := by
  rw [isRole, same, decide_eq_true_eq] at ha
  rw [isRole, same, decide_eq_false_iff_not, ha]
  exact h

def roles : List Bytes := [ascii "system", ascii "user", ascii "assistant", ascii "tool"]

theorem role_of_assistant {m : Message} (h : m.role ∈ roles) (ha : isRole "assistant" m = true) :
    m.role = ascii "assistant" := by
  rw [isRole] at ha
  simp only [roles, List.mem_cons, List.not_mem_nil, or_false] at h
  rcases h with h | h | h | h
  · rw [h] at ha
    exact absurd ha (by decide)
  · rw [h] at ha
    exact absurd ha (by decide)
  · exact h
  · rw [h] at ha
    exact absurd ha (by decide)

/-- Without a `</think>` in its text, the turn of an assistant message is made of its own fields. -/
theorem assistantTurn_eq {m : Message} (hfree : ¬ ascii "</think>" <:+: m.content)
    {last i : ℕ} {rest : List Message} (hlast : last < i ↔ ¬ rest.any isQuery)
    (preserveThinking : Bool) :
    assistantTurn m (last < i) preserveThinking = (calls m).map fun calls =>
      ((thinking m rest preserveThinking).elim [] fun t =>
        ascii "<think>\n" ++ t ++ ascii "\n</think>\n\n") ++ trimmed m.content ++ calls := by
  have hnone : find (ascii "</think>") m.content = none :=
    (find_eq_none (by decide)).mpr hfree
  have hsplit : ¬ (m.reasoningContent = [] ∧ 0 < index m.content (ascii "</think>")) := by
    rw [index, hnone]
    exact fun h => Nat.lt_irrefl 0 h.2
  unfold assistantTurn calls thinking
  simp only [hsplit, if_false, decide_eq_true_eq, hlast]
  by_cases hcalls : m.toolCalls = []
  · rw [if_pos hcalls, if_pos hcalls, Option.map_some, List.append_nil]
    split_ifs <;> rfl
  · rw [if_neg hcalls, if_neg hcalls]
    split_ifs <;> rfl

theorem joinTools_true {content : Bytes} {responses : List Bytes} {turns : List Turn} :
    joinTools content true (.tools responses :: turns) = .tools (content :: responses) :: turns :=
  rfl

theorem joinTools_false (content : Bytes) (turns : List Turn) :
    joinTools content false turns = .tools [content] :: turns := by
  cases turns <;> rfl

/-- What the loop over messages relies on: no text closes a reasoning block, and the tool calls can
be rendered. -/
structure Renderable (messages : List Message) : Prop where
  role : ∀ m ∈ messages, m.role ∈ roles
  free : ∀ m ∈ messages, ¬ ascii "</think>" <:+: m.content
  rendered : ∀ m ∈ messages, isRole "assistant" m = true → (calls m).isSome

theorem Renderable.tail {m : Message} {rest : List Message} (h : Renderable (m :: rest)) :
    Renderable rest :=
  ⟨fun t ht => h.role t (List.mem_cons_of_mem m ht),
    fun t ht => h.free t (List.mem_cons_of_mem m ht),
    fun t ht => h.rendered t (List.mem_cons_of_mem m ht)⟩

/-- What an open group of tool messages still appends. -/
def groupRest (turns : List Turn) : Bytes :=
  match turns with
  | .tools responses :: rest =>
    responses.flatMap Turn.response ++ imEnd ++ newline ++ rest.flatMap Turn.render
  | turns => turns.flatMap Turn.render

theorem render_tools (responses : List Bytes) (turns : List Turn) :
    (Turn.tools responses :: turns).flatMap Turn.render =
      imStart ++ ascii "user" ++ groupRest (.tools responses :: turns) := by
  simp only [List.flatMap_cons, Turn.render, Turn.parts, groupRest, List.append_assoc]

theorem exists_tools (later preserveThinking : Bool) {m : Message} (rest : List Message)
    (hm : isRole "tool" m = true) :
    ∃ responses turns, turnsOf later preserveThinking (m :: rest) = .tools responses :: turns := by
  rw [turnsOf, isRole_ne (by decide) hm]
  simp only [Bool.false_eq_true, if_false, if_pos hm]
  unfold joinTools
  split
  · exact ⟨_, _, rfl⟩
  · exact ⟨_, _, rfl⟩

/-- The loop makes the turns of the messages, without the later system messages. -/
theorem messageLoop_eq {preserveThinking : Bool} {last : ℕ} :
    ∀ {messages : List Message} {i : ℕ}, Renderable messages →
      (∀ before rest, messages = before ++ rest →
        (last < i + before.length ↔ ¬ rest.any isQuery)) →
      messageLoop last preserveThinking i false messages =
          some ((turnsOf false preserveThinking messages).flatMap Turn.render) ∧
        (messages.head?.any (isRole "tool") = true →
          messageLoop last preserveThinking i true messages =
            some (groupRest (turnsOf false preserveThinking messages))) := by
  intro messages
  induction messages with
  | nil =>
    intro i _ _
    exact ⟨rfl, fun h => Bool.noConfusion h⟩
  | cons m rest ih =>
    intro i hr hlast
    have hlast' : ∀ before tail, rest = before ++ tail →
        (last < i + 1 + before.length ↔ ¬ tail.any isQuery) := by
      intro before tail heq
      have := hlast (m :: before) tail (by rw [heq]; rfl)
      rwa [List.length_cons, Nat.add_comm before.length, ← Nat.add_assoc] at this
    obtain ⟨hclosed, hopen⟩ := ih (i := i + 1) hr.tail hlast'
    by_cases hsystem : isRole "system" m = true
    · have htool : isRole "tool" m = false := isRole_ne (by decide) hsystem
      constructor
      · rw [messageLoop, if_pos hsystem, hclosed, turnsOf, if_pos hsystem]
        rfl
      · intro hhead
        rw [List.head?_cons, Option.any_some, htool] at hhead
        exact Bool.noConfusion hhead
    by_cases htool : isRole "tool" m = true
    · -- the group goes on when the next message is of a tool, else it is closed
      have hgroup : ∀ toolGroupOpen, messageLoop last preserveThinking i toolGroupOpen (m :: rest) =
          some ((if toolGroupOpen then [] else imStart ++ ascii "user") ++
            groupRest (turnsOf false preserveThinking (m :: rest))) := by
        intro toolGroupOpen
        rw [messageLoop, if_neg hsystem, if_pos htool, turnsOf, if_neg hsystem, if_pos htool]
        cases hnext : rest.head?.any (isRole "tool") with
        | true =>
          obtain ⟨m', rest', rfl⟩ : ∃ m' rest', rest = m' :: rest' := by
            cases rest with
            | nil => exact Bool.noConfusion hnext
            | cons m' rest' => exact ⟨m', rest', rfl⟩
          obtain ⟨responses, turns, hturns⟩ := exists_tools false preserveThinking rest' hnext
          rw [if_pos rfl, hopen hnext, hturns, joinTools_true]
          simp only [Option.map_some, groupRest, List.flatMap_cons, Turn.response,
            List.append_assoc]
        | false =>
          rw [if_neg Bool.false_ne_true, hclosed, joinTools_false]
          simp only [Option.map_some, groupRest, List.flatMap_cons, List.flatMap_nil,
            List.append_nil, Turn.response, List.append_assoc]
      obtain ⟨responses, turns, hturns⟩ := exists_tools false preserveThinking rest htool
      constructor
      · rw [hgroup, hturns, render_tools]
        rfl
      · intro _
        rw [hgroup]
        rfl
    · constructor
      · rw [messageLoop, if_neg hsystem, if_neg htool, turnsOf, if_neg hsystem, if_neg htool]
        by_cases hassistant : isRole "assistant" m = true
        · obtain ⟨calls', hcalls⟩ :=
            Option.isSome_iff_exists.mp (hr.rendered m List.mem_cons_self hassistant)
          have hquery : isQuery m = false := by
            rw [isQuery, isRole_ne (by decide) hassistant, Bool.false_and]
          have hafter : last < i ↔ ¬ rest.any isQuery := by
            have := hlast [] (m :: rest) rfl
            rwa [List.any_cons, hquery, Bool.false_or] at this
          have hrole := role_of_assistant (hr.role m List.mem_cons_self) hassistant
          rw [messageTurn, if_pos hassistant,
            assistantTurn_eq (hr.free m List.mem_cons_self) hafter, hcalls, if_pos hassistant]
          simp only [Option.map_some, hclosed, List.flatMap_cons, Turn.render, Turn.parts, hrole,
            Option.getD_some, List.append_assoc]
        · rw [messageTurn, if_neg hassistant, if_neg hassistant]
          simp only [Option.map_some, hclosed, List.flatMap_cons, Turn.render, Turn.parts,
            List.append_assoc]
      · intro hhead
        exact absurd hhead htool

/-- A message whose tool calls cannot be rendered keeps the loop from returning. -/
theorem messageLoop_eq_none {preserveThinking : Bool} {last : ℕ} {m : Message}
    (hassistant : isRole "assistant" m = true) (hfree : ¬ ascii "</think>" <:+: m.content)
    (hcalls : calls m = none) :
    ∀ {messages : List Message} {i : ℕ} {toolGroupOpen : Bool},
      (∀ before rest, messages = before ++ rest →
        (last < i + before.length ↔ ¬ rest.any isQuery)) →
      m ∈ messages → messageLoop last preserveThinking i toolGroupOpen messages = none := by
  intro messages
  induction messages with
  | nil => intro i _ _ hm; exact absurd hm List.not_mem_nil
  | cons m' rest ih =>
    intro i toolGroupOpen hlast hm
    have hlast' : ∀ before tail, rest = before ++ tail →
        (last < i + 1 + before.length ↔ ¬ tail.any isQuery) := by
      intro before tail heq
      have := hlast (m' :: before) tail (by rw [heq]; rfl)
      rwa [List.length_cons, Nat.add_comm before.length, ← Nat.add_assoc] at this
    rcases List.mem_cons.mp hm with rfl | hm
    · have hquery : isQuery m = false := by
        rw [isQuery, isRole_ne (by decide) hassistant, Bool.false_and]
      have hafter : last < i ↔ ¬ rest.any isQuery := by
        have := hlast [] (m :: rest) rfl
        rwa [List.any_cons, hquery, Bool.false_or] at this
      rw [messageLoop, isRole_ne (by decide) hassistant, isRole_ne (by decide) hassistant,
        messageTurn, if_pos hassistant, assistantTurn_eq hfree hafter, hcalls]
      rfl
    · have hnone (toolGroupOpen : Bool) :
          messageLoop last preserveThinking (i + 1) toolGroupOpen rest = none := ih hlast' hm
      rw [messageLoop]
      simp only [hnone, Option.map_none]
      split_ifs
      · rfl
      · rfl
      · rfl
      · cases messageTurn m' (last < i) preserveThinking with
        | none => rfl
        | some turn => rfl

/-! ### What the later system messages would add -/

def renderedLength (turns : List Turn) : ℕ := (turns.flatMap Turn.render).length

@[simp] theorem renderedLength_cons (t : Turn) (turns : List Turn) :
    renderedLength (t :: turns) = t.render.length + renderedLength turns := by
  rw [renderedLength, List.flatMap_cons, List.length_append]
  rfl

theorem renderedLength_join (content : Bytes) (responses : List Bytes) (turns : List Turn) :
    renderedLength (.tools (content :: responses) :: turns) =
      (Turn.response content).length + renderedLength (.tools responses :: turns) := by
  simp only [renderedLength_cons, Turn.render, Turn.parts, List.flatMap_cons, List.length_append]
  omega

/-- The later system messages with a text make the prompt longer. -/
theorem renderedLength_later (preserveThinking : Bool) (messages : List Message) :
    renderedLength (turnsOf false preserveThinking messages) ≤
        renderedLength (turnsOf true preserveThinking messages) ∧
      ((∃ m ∈ messages, isRole "system" m = true ∧ hasNonblankText m.content = true) →
        renderedLength (turnsOf false preserveThinking messages) <
          renderedLength (turnsOf true preserveThinking messages)) := by
  induction messages with
  | nil => exact ⟨Nat.le_refl _, fun ⟨_, hm, _⟩ => absurd hm List.not_mem_nil⟩
  | cons m rest ih =>
    obtain ⟨hle, hlt⟩ := ih
    -- a message that adds the same to both
    have hsame {k : ℕ} {a b : List Turn}
        (ha : renderedLength a = k + renderedLength (turnsOf false preserveThinking rest))
        (hb : renderedLength b = k + renderedLength (turnsOf true preserveThinking rest))
        (hm : isRole "system" m = true → hasNonblankText m.content = false) :
        renderedLength a ≤ renderedLength b ∧
          ((∃ t ∈ m :: rest, isRole "system" t = true ∧ hasNonblankText t.content = true) →
            renderedLength a < renderedLength b) := by
      refine ⟨by omega, ?_⟩
      rintro ⟨t, ht, hsystem, htext⟩
      rcases List.mem_cons.mp ht with rfl | ht
      · rw [hm hsystem] at htext
        exact Bool.noConfusion htext
      · have := hlt ⟨t, ht, hsystem, htext⟩
        omega
    simp only [turnsOf]
    by_cases hsystem : isRole "system" m = true
    · simp only [if_pos hsystem, Bool.false_eq_true, false_and, if_false, true_and]
      by_cases htext : hasNonblankText m.content = true
      · rw [if_pos htext, renderedLength_cons]
        have hpos : 0 < (Turn.single (ascii "system") (trimmed m.content)).render.length := by
          rw [Turn.render, imStart]
          simp only [List.length_append]
          have : 0 < (ascii "<|im_start|>").length := by decide
          omega
        exact ⟨by omega, fun _ => by omega⟩
      · rw [if_neg htext]
        exact hsame (k := 0) (Nat.zero_add _).symm (Nat.zero_add _).symm
          fun _ => Bool.eq_false_iff.mpr htext
    simp only [if_neg hsystem]
    by_cases htool : isRole "tool" m = true
    · simp only [if_pos htool]
      cases hnext : rest.head?.any (isRole "tool") with
      | true =>
        obtain ⟨m', rest', rfl⟩ : ∃ m' rest', rest = m' :: rest' := by
          cases rest with
          | nil => exact Bool.noConfusion hnext
          | cons m' rest' => exact ⟨m', rest', rfl⟩
        obtain ⟨r, ts, hturns⟩ := exists_tools false preserveThinking rest' hnext
        obtain ⟨r', ts', hturns'⟩ := exists_tools true preserveThinking rest' hnext
        rw [hturns, hturns', joinTools_true, joinTools_true]
        rw [hturns, hturns'] at hsame
        exact hsame (renderedLength_join _ _ _) (renderedLength_join _ _ _)
          fun h => absurd h hsystem
      | false =>
        rw [joinTools_false, joinTools_false]
        exact hsame (renderedLength_cons _ _) (renderedLength_cons _ _)
          fun h => absurd h hsystem
    · simp only [if_neg htool]
      split_ifs
      · exact hsame (renderedLength_cons _ _) (renderedLength_cons _ _)
          fun h => absurd h hsystem
      · exact hsame (renderedLength_cons _ _) (renderedLength_cons _ _)
          fun h => absurd h hsystem

/-! ### Nothing is lost -/

theorem contents_joinTools (content : Bytes) (joins : Bool) (turns : List Turn) :
    (joinTools content joins turns).flatMap Turn.contents =
      content :: turns.flatMap Turn.contents := by
  unfold joinTools
  split
  · rfl
  · rfl

theorem contents_turnsOf (preserveThinking : Bool) (messages : List Message) :
    ((turnsOf true preserveThinking messages).flatMap Turn.contents).filter (· ≠ []) =
      textsOf messages := by
  induction messages with
  | nil => rfl
  | cons m rest ih =>
    have hcons : textsOf (m :: rest) = [trimmed m.content].filter (· ≠ []) ++ textsOf rest := by
      rw [textsOf, List.map_cons, ← List.singleton_append, List.filter_append]
      rfl
    have hone (turns : List Turn) (h : turns.flatMap Turn.contents =
        trimmed m.content :: (turnsOf true preserveThinking rest).flatMap Turn.contents) :
        (turns.flatMap Turn.contents).filter (· ≠ []) = textsOf (m :: rest) := by
      rw [h, ← List.singleton_append, List.filter_append, ih, hcons]
    simp only [turnsOf, true_and]
    split_ifs with hsystem htext htool
    · exact hone _ rfl
    · have hblank : trimmed m.content = [] := by
        simpa only [hasNonblankText, decide_eq_true_eq, not_not, ne_eq] using htext
      rw [ih, hcons, hblank]
      rfl
    · exact hone _ (contents_joinTools _ _ _)
    · exact hone _ rfl
    · exact hone _ rfl

/-- Every text that is not blank is shown once, in the order of the messages. -/
theorem contents_template (preserveThinking : Bool) (instruction : Bytes)
    (messages : List Message) :
    ((template true preserveThinking instruction messages).flatMap Turn.contents).filter
      (· ≠ []) = textsOf messages := by
  have hsplit : textsOf messages =
      leadingTexts messages ++ textsOf (messages.dropWhile (isRole "system")) := by
    rw [leadingTexts, textsOf, textsOf, textsOf, ← List.filter_append, ← List.map_append,
      List.takeWhile_append_dropWhile]
  have hleading : ((leadingTurn instruction messages).flatMap Turn.contents).filter (· ≠ []) =
      leadingTexts messages := by
    have hkeep : (leadingTexts messages).filter (· ≠ []) = leadingTexts messages := by
      rw [leadingTexts, textsOf, List.filter_filter]
      simp
    rw [leadingTurn]
    split_ifs with h
    · rw [List.flatMap_cons, List.flatMap_nil, List.append_nil]
      exact hkeep
    · rw [not_or, not_not] at h
      rw [h.1]
      rfl
  rw [template, List.flatMap_append, List.filter_append, contents_turnsOf, hleading, hsplit]

/-! ### Balanced turns -/

/-- Without the markers of a turn. -/
def Free (s : Bytes) : Prop := ¬ imStart <:+: s ∧ ¬ imEnd <:+: s

/-- The markers of a turn enclose it: there is none inside. -/
def Turn.Balanced (t : Turn) : Prop := Free (t.parts.1 ++ t.parts.2)

theorem Free.of_infix {s t : Bytes} (ht : Free t) (h : s <:+: t) : Free s :=
  ⟨fun hs => ht.1 (hs.trans h), fun hs => ht.2 (hs.trans h)⟩

theorem free_nil : Free [] := by
  constructor
  · decide
  · decide

/-- No marker reaches over a line end. -/
theorem free_append_newline {a b : Bytes} : Free (a ++ 10 :: b) ↔ Free a ∧ Free b := by
  have hstart : (10 : Byte) ∉ imStart := by decide
  have hend : (10 : Byte) ∉ imEnd := by decide
  rw [Free, infix_append_cons hstart, infix_append_cons hend, Free, Free]
  tauto

theorem free_newline_cons {b : Bytes} : Free (10 :: b) ↔ Free b := by
  have := free_append_newline (a := []) (b := b)
  rw [List.nil_append] at this
  exact this.trans (and_iff_right free_nil)

theorem infix_trimmed (text : Bytes) : trimmed text <:+: text :=
  (List.rdropWhile_prefix _ _).isInfix.trans (List.dropWhile_suffix _).isInfix

theorem free_lines {texts : List Bytes} (h : ∀ t ∈ texts, Free t) : Free (Turn.lines texts) := by
  have htail : ∀ (rest : List Bytes) (t : Bytes), Free t → (∀ r ∈ rest, Free r) →
      Free (t ++ rest.flatMap (newline ++ ·)) := by
    intro rest
    induction rest with
    | nil =>
      intro t ht _
      rw [List.flatMap_nil, List.append_nil]
      exact ht
    | cons r rest ih =>
      intro t ht hrest
      rw [List.flatMap_cons, List.append_assoc]
      exact free_append_newline.mpr ⟨ht, ih r (hrest r List.mem_cons_self)
        fun r' hr' => hrest r' (List.mem_cons_of_mem r hr')⟩
  cases texts with
  | nil => exact free_nil
  | cons t rest =>
    exact htail rest t (h t List.mem_cons_self) fun r hr => h r (List.mem_cons_of_mem t hr)

theorem free_responses {role : Bytes} (hrole : Free role) {responses : List Bytes}
    (h : ∀ r ∈ responses, Free r) : Free (role ++ responses.flatMap Turn.response) := by
  have hopen : Free (ascii "<tool_response>") := by constructor <;> decide
  have hclose : Free (ascii "</tool_response>") := by constructor <;> decide
  have htail : ∀ (responses : List Bytes) (before : Bytes), Free before →
      (∀ r ∈ responses, Free r) → Free (before ++ responses.flatMap Turn.response) := by
    intro responses
    induction responses with
    | nil =>
      intro before hb _
      rw [List.flatMap_nil, List.append_nil]
      exact hb
    | cons r rest ih =>
      intro before hb hr
      have hshape : before ++ (r :: rest).flatMap Turn.response =
          before ++ 10 :: (ascii "<tool_response>" ++ 10 :: (r ++ 10 ::
            (ascii "</tool_response>" ++ rest.flatMap Turn.response))) := by
        rw [List.flatMap_cons, Turn.response]
        simp only [List.append_assoc]
        rfl
      rw [hshape, free_append_newline, free_append_newline, free_append_newline]
      exact ⟨hb, hopen, hr r List.mem_cons_self, ih _ hclose
        fun r' hr' => hr r' (List.mem_cons_of_mem r hr')⟩
  exact htail responses role hrole h

/-- Behind a text the tool calls begin on a new line. -/
theorem assistantToolCalls_newline {raw calls : Bytes}
    (h : assistantToolCalls raw true = some calls) : calls = [] ∨ ∃ rest, calls = 10 :: rest := by
  have hloop : ∀ (limit : ℕ) (rest s : Bytes) {calls : Bytes},
      toolCallLoop limit (10 :: rest) s = some calls → calls = [] ∨ ∃ tail, calls = 10 :: tail := by
    intro limit rest s calls h
    rw [toolCallLoop] at h
    simp only at h
    split at h
    · exact Or.inl (Option.some.inj h).symm
    split at h
    · exact Or.inl (Option.some.inj h).symm
    split at h
    · exact Or.inl (Option.some.inj h).symm
    split at h
    · exact Or.inl (Option.some.inj h).symm
    split at h
    · cases h
    split at h
    · obtain ⟨tail, -, rfl⟩ := Option.map_eq_some_iff.mp h
      exact Or.inr ⟨_, rfl⟩
    · exact Or.inr ⟨_, (Option.some.inj h).symm⟩
  rw [assistantToolCalls] at h
  split at h
  · exact Or.inl (Option.some.inj h).symm
  split at h
  · exact Or.inl (Option.some.inj h).symm
  · exact hloop _ [10] _ h

/-- What a message shows has no markers. -/
structure MarkerFree (m : Message) : Prop where
  text : Free m.content
  reasoning : Free m.reasoningContent
  rendered : ∀ c, calls m = some c → Free c

theorem free_assistant {m : Message} (h : MarkerFree m) {trace : Option Bytes}
    (htrace : ∀ t ∈ trace, Free t) :
    (Turn.assistant trace (trimmed m.content) ((calls m).getD [])).Balanced := by
  have hrole : Free (ascii "assistant") := by constructor <;> decide
  have hopen : Free (ascii "<think>") := by constructor <;> decide
  have hclose : Free (ascii "</think>") := by constructor <;> decide
  have hcontent : Free (trimmed m.content) := h.text.of_infix (infix_trimmed _)
  have hshown : Free (trimmed m.content ++ (calls m).getD []) := by
    cases hc : calls m with
    | none => simpa using hcontent
    | some c =>
      have hfree := h.rendered c hc
      rw [Option.getD_some]
      by_cases hempty : trimmed m.content = []
      · rw [hempty, List.nil_append]
        exact hfree
      · have hstart : c = [] ∨ ∃ rest, c = 10 :: rest := by
          rw [calls] at hc
          split_ifs at hc with hnone
          · exact Or.inl (Option.some.inj hc).symm
          · rw [decide_eq_true hempty] at hc
            exact assistantToolCalls_newline hc
        rcases hstart with rfl | ⟨rest, rfl⟩
        · rw [List.append_nil]
          exact hcontent
        · rw [free_append_newline]
          exact ⟨hcontent, free_newline_cons.mp hfree⟩
  rw [Turn.Balanced, Turn.parts]
  cases trace with
  | none =>
    simp only [newline, Option.elim_none, List.append_assoc]
    exact free_append_newline.mpr ⟨hrole, hshown⟩
  | some t =>
    have hshape : ascii "assistant" ++ (newline ++ (some t).elim []
        (fun t => ascii "<think>\n" ++ t ++ ascii "\n</think>\n\n") ++ trimmed m.content ++
          (calls m).getD []) =
        ascii "assistant" ++ 10 :: (ascii "<think>" ++ 10 :: (t ++ 10 :: (ascii "</think>" ++
          10 :: ([] ++ 10 :: (trimmed m.content ++ (calls m).getD []))))) := by
      simp only [Option.elim_some, List.append_assoc]
      rfl
    rw [hshape, free_append_newline, free_append_newline, free_append_newline,
      free_append_newline, free_append_newline]
    exact ⟨hrole, hopen, htrace t rfl, hclose, free_nil, hshown⟩

theorem infix_response (content : Bytes) : content <:+: Turn.response content := by
  rw [Turn.response, List.append_assoc]
  exact (List.prefix_append _ _).isInfix.trans (List.suffix_append _ _).isInfix

theorem balanced_joinTools {content : Bytes} (hcontent : Free content) {joins : Bool}
    {turns : List Turn} (h : ∀ t ∈ turns, t.Balanced) :
    ∀ t ∈ joinTools content joins turns, t.Balanced := by
  have hrole : Free (ascii "user") := by constructor <;> decide
  unfold joinTools
  split
  · rename_i responses rest
    intro t ht
    rcases List.mem_cons.mp ht with rfl | ht
    · have hbalanced : Free (ascii "user" ++ responses.flatMap Turn.response) :=
        h _ List.mem_cons_self
      have hall : ∀ r ∈ responses, Free r := by
        intro r hr
        obtain ⟨before, behind, rfl⟩ := List.append_of_mem hr
        refine hbalanced.of_infix ((infix_response r).trans
          ⟨ascii "user" ++ before.flatMap Turn.response, behind.flatMap Turn.response, ?_⟩)
        simp only [List.flatMap_append, List.flatMap_cons, List.append_assoc]
      refine free_responses hrole fun r hr => ?_
      rcases List.mem_cons.mp hr with rfl | hr
      · exact hcontent
      · exact hall r hr
    · exact h t (List.mem_cons_of_mem _ ht)
  · intro t ht
    rcases List.mem_cons.mp ht with rfl | ht
    · refine free_responses hrole fun r hr => ?_
      rw [List.mem_singleton.mp hr]
      exact hcontent
    · exact h t ht

theorem free_role {role : Bytes} (h : role ∈ roles) : Free role := by
  simp only [roles, List.mem_cons, List.not_mem_nil, or_false] at h
  rcases h with rfl | rfl | rfl | rfl
  all_goals constructor <;> decide

theorem balanced_single {role text : Bytes} (hrole : role ∈ roles) (htext : Free text) :
    (Turn.single role (trimmed text)).Balanced :=
  free_append_newline.mpr ⟨free_role hrole, htext.of_infix (infix_trimmed _)⟩

theorem balanced_turnsOf {preserveThinking : Bool} {messages : List Message}
    (hroles : ∀ m ∈ messages, m.role ∈ roles) (hfree : ∀ m ∈ messages, MarkerFree m) :
    ∀ t ∈ turnsOf true preserveThinking messages, t.Balanced := by
  induction messages with
  | nil => exact fun t ht => absurd ht List.not_mem_nil
  | cons m rest ih =>
    have hm := hfree m List.mem_cons_self
    have hrest := ih (fun t ht => hroles t (List.mem_cons_of_mem m ht))
      fun t ht => hfree t (List.mem_cons_of_mem m ht)
    have hcons {t : Turn} (ht : t.Balanced) :
        ∀ t' ∈ t :: turnsOf true preserveThinking rest, t'.Balanced := by
      intro t' ht'
      rcases List.mem_cons.mp ht' with rfl | ht'
      · exact ht
      · exact hrest t' ht'
    simp only [turnsOf, true_and]
    split_ifs
    · exact hcons (balanced_single (by decide) hm.text)
    · exact hrest
    · exact balanced_joinTools (hm.text.of_infix (infix_trimmed _)) hrest
    · refine hcons (free_assistant hm fun t ht => ?_)
      rw [thinking] at ht
      split_ifs at ht
      · rw [← Option.some.inj ht]
        exact hm.reasoning.of_infix (infix_trimmed _)
      · exact nomatch ht
    · exact hcons (balanced_single (hroles m List.mem_cons_self) hm.text)

theorem balanced_leadingTurn {instruction : Bytes} (hinstruction : Free instruction)
    {messages : List Message} (hfree : ∀ m ∈ messages, MarkerFree m) :
    ∀ t ∈ leadingTurn instruction messages, t.Balanced := by
  have htexts : ∀ t ∈ leadingTexts messages, Free t := by
    intro t ht
    rw [leadingTexts, textsOf, List.mem_filter, List.mem_map] at ht
    obtain ⟨⟨m, hm, rfl⟩, -⟩ := ht
    exact (hfree m ((List.takeWhile_prefix _).subset hm)).text.of_infix (infix_trimmed _)
  have hlines := free_lines htexts
  have hrole : Free (ascii "system") := free_role (by decide)
  intro t ht
  rw [leadingTurn] at ht
  split_ifs at ht
  · rw [List.mem_singleton] at ht
    subst ht
    rw [Turn.Balanced, Turn.parts]
    refine free_append_newline.mpr ⟨hrole, ?_⟩
    by_cases hi : instruction = []
    · rw [if_pos hi]
      exact hlines
    rw [if_neg hi]
    by_cases hc : leadingTexts messages = []
    · rw [if_pos hc, hc, List.append_nil]
      show Free ([] ++ trimmed instruction ++ [])
      rw [List.append_nil]
      exact hinstruction.of_infix (infix_trimmed _)
    · have hshape : ([] : Bytes) ++ (trimmed instruction ++ ascii "\n\n") ++
          Turn.lines (leadingTexts messages) =
          trimmed instruction ++ 10 :: ([] ++ 10 :: Turn.lines (leadingTexts messages)) := by
        rw [List.nil_append, List.append_assoc]
        rfl
      rw [if_neg hc]
      show Free (([] : Bytes) ++ (trimmed instruction ++ ascii "\n\n") ++
        Turn.lines (leadingTexts messages))
      rw [hshape, free_append_newline, free_append_newline]
      exact ⟨hinstruction.of_infix (infix_trimmed _), free_nil, hlines⟩
  · exact absurd ht List.not_mem_nil

/-! ### The prompt -/

/-- The markers of the format. -/
def controlMarkers : List Bytes :=
  [imStart, imEnd, ascii "<think>", ascii "</think>", ascii "<tool_response>"]

/-- A conversation without tools whose messages are free of the markers. -/
structure Conversation where
  messages : List Message
  toolsJson : Bytes
  instruction : Bytes
  role : ∀ m ∈ messages, m.role ∈ roles
  no_tools : hasToolEntries toolsJson = false
  text : ∀ m ∈ messages, ∀ marker ∈ controlMarkers, ¬ marker <:+: m.content
  reasoning : ∀ m ∈ messages, Free m.reasoningContent
  rendered : ∀ m ∈ messages, ∀ c, calls m = some c → Free c
  instruction_free : Free instruction

namespace Conversation

variable (c : Conversation)

theorem markerFree : ∀ m ∈ c.messages, MarkerFree m := fun m hm =>
  ⟨⟨c.text m hm _ (by decide), c.text m hm _ (by decide)⟩, c.reasoning m hm, c.rendered m hm⟩

/-- The prompt shows every text once and in order, in balanced turns, before the place where the
model goes on. -/
structure Faithful (enableThinking preserveThinking addGenerationPrompt : Bool)
    (prompt : Bytes) : Prop where
  turns : prompt =
    (template true preserveThinking c.instruction c.messages).flatMap Turn.render ++
      if addGenerationPrompt then generationPrompt enableThinking else []
  balanced : ∀ t ∈ template true preserveThinking c.instruction c.messages, t.Balanced
  contents : ((template true preserveThinking c.instruction c.messages).flatMap
    Turn.contents).filter (· ≠ []) = textsOf c.messages

/-- No system message behind the leading ones has a text, and the tool calls of the assistant can be
rendered. -/
structure Complete : Prop where
  later : ∀ m ∈ c.messages.dropWhile (isRole "system"), isRole "system" m = true →
    hasNonblankText m.content = false
  rendered : ∀ m ∈ c.messages, isRole "assistant" m = true → (calls m).isSome

end Conversation

theorem turnsOf_dropWhile {later preserveThinking : Bool} (messages : List Message)
    (h : later = true → leadingTexts messages = []) :
    turnsOf later preserveThinking (messages.dropWhile (isRole "system")) =
      turnsOf later preserveThinking messages := by
  induction messages with
  | nil => rfl
  | cons m rest ih =>
    by_cases hsystem : isRole "system" m = true
    · have htexts (hl : later = true) : trimmed m.content = [] ∧ leadingTexts rest = [] := by
        have := h hl
        rw [leadingTexts, List.takeWhile_cons_of_pos hsystem, textsOf, List.map_cons,
          List.filter_cons] at this
        split_ifs at this with hblank
        exact ⟨by simpa using hblank, this⟩
      have hblank : ¬ (later = true ∧ hasNonblankText m.content = true) := by
        rintro ⟨hl, htext⟩
        rw [hasNonblankText, decide_eq_true_eq] at htext
        exact htext (htexts hl).1
      rw [List.dropWhile_cons_of_pos hsystem, ih fun hl => (htexts hl).2, turnsOf,
        if_pos hsystem, if_neg hblank]
    · rw [List.dropWhile_cons_of_neg hsystem]

theorem lastUserIndex_iff {messages leading rest : List Message} (h : messages = leading ++ rest) :
    ∀ before tail, rest = before ++ tail →
      (lastUserIndex messages < leading.length + 1 + before.length ↔ ¬ tail.any isQuery) := by
  rintro before tail rfl
  have := lastUserIndex_lt (leading ++ before) tail
  rwa [List.append_assoc, ← h, List.length_append, Nat.add_right_comm] at this

theorem drop_leading (messages : List Message) :
    messages.drop (messages.takeWhile (isRole "system")).length =
      messages.dropWhile (isRole "system") := by
  have hsplit := List.takeWhile_append_dropWhile (p := isRole "system") (l := messages)
  have := congrArg (List.drop (messages.takeWhile (isRole "system")).length) hsplit
  rw [List.drop_left] at this
  exact this.symm

/-- What `formatChat` writes, when it returns. -/
theorem formatChat_eq (c : Conversation) (enableThinking preserveThinking addGenerationPrompt : Bool)
    (hrendered : ∀ m ∈ c.messages, isRole "assistant" m = true → (calls m).isSome) :
    formatChat c.messages enableThinking c.toolsJson c.instruction preserveThinking
        addGenerationPrompt =
      some ((template false preserveThinking c.instruction c.messages).flatMap Turn.render ++
        if addGenerationPrompt then generationPrompt enableThinking else []) := by
  have hrenderable : Renderable c.messages :=
    ⟨c.role, fun m hm => c.text m hm _ (by decide), hrendered⟩
  have htexts : mergedSystem (c.messages.takeWhile (isRole "system")) =
      Turn.lines (leadingTexts c.messages) := mergedSystem_eq _
  have hnil : Turn.lines (leadingTexts c.messages) = [] ↔ leadingTexts c.messages = [] :=
    lines_eq_nil fun t ht => ne_nil_of_mem_textsOf ht
  rw [formatChat]
  simp only [c.no_tools, Bool.false_eq_true, if_false, htexts, ne_eq, hnil]
  have hsplit := (List.takeWhile_append_dropWhile (p := isRole "system") (l := c.messages)).symm
  by_cases hhead : ¬ leadingTexts c.messages = [] ∨ ¬ c.instruction = []
  · have hdrop := drop_leading c.messages
    have hmem : ∀ m ∈ c.messages.dropWhile (isRole "system"), m ∈ c.messages :=
      (List.dropWhile_suffix _).subset
    have hbehind : Renderable (c.messages.dropWhile (isRole "system")) :=
      ⟨fun m hm => hrenderable.role m (hmem m hm), fun m hm => hrenderable.free m (hmem m hm),
        fun m hm => hrenderable.rendered m (hmem m hm)⟩
    have hloop := (@messageLoop_eq preserveThinking _ _ _ hbehind (lastUserIndex_iff hsplit)).1
    have hturn : leadingTurn c.instruction c.messages =
        [.merged c.instruction (leadingTexts c.messages)] := if_pos hhead
    have hrender : systemTurn (Turn.lines (leadingTexts c.messages)) c.instruction =
        (Turn.merged c.instruction (leadingTexts c.messages)).render := by
      have hsystem : ascii "system\n" = ascii "system" ++ newline := by decide
      simp only [systemTurn, Turn.render, Turn.parts, hnil, hsystem, List.append_assoc]
    simp only [if_pos hhead, hdrop, hloop, Option.map_some, template, hturn, hrender,
      List.flatMap_append, List.flatMap_cons, List.flatMap_nil, List.append_nil]
  · have hsplit' : c.messages = [] ++ c.messages := rfl
    have hloop :=
      (@messageLoop_eq preserveThinking _ _ _ hrenderable (lastUserIndex_iff hsplit')).1
    have hturn : leadingTurn c.instruction c.messages = [] := if_neg hhead
    have hloop' : messageLoop (lastUserIndex c.messages) preserveThinking 1 false c.messages =
        some ((turnsOf false preserveThinking c.messages).flatMap Turn.render) := hloop
    have hturns : turnsOf false preserveThinking (c.messages.dropWhile (isRole "system")) =
        turnsOf false preserveThinking c.messages :=
      turnsOf_dropWhile c.messages fun h => Bool.noConfusion h
    simp only [if_neg hhead, List.drop_zero, Nat.zero_add, hloop', Option.map_some, template,
      hturn, List.nil_append, hturns]

theorem formatChat_eq_none (c : Conversation)
    (enableThinking preserveThinking addGenerationPrompt : Bool)
    {m : Message} (hm : m ∈ c.messages) (hassistant : isRole "assistant" m = true)
    (hcalls : calls m = none) :
    formatChat c.messages enableThinking c.toolsJson c.instruction preserveThinking
      addGenerationPrompt = none := by
  have hfree : ¬ ascii "</think>" <:+: m.content := c.text m hm _ (by decide)
  have hsplit := (List.takeWhile_append_dropWhile (p := isRole "system") (l := c.messages)).symm
  have hbehind : m ∈ c.messages.dropWhile (isRole "system") := by
    rw [hsplit] at hm
    rcases List.mem_append.mp hm with hm | hm
    · have hsystem := (List.mem_takeWhile_imp hm)
      rw [isRole_ne (by decide) hassistant] at hsystem
      exact Bool.noConfusion hsystem
    · exact hm
  rw [formatChat]
  simp only [c.no_tools, Bool.false_eq_true, if_false]
  by_cases hhead : mergedSystem (c.messages.takeWhile (isRole "system")) ≠ [] ∨ c.instruction ≠ []
  · rw [if_pos hhead]
    show Option.map _ (messageLoop _ _ _ _ (c.messages.drop _)) = none
    rw [drop_leading, messageLoop_eq_none hassistant hfree hcalls (lastUserIndex_iff hsplit) hbehind]
    rfl
  · rw [if_neg hhead]
    have hnone : messageLoop (lastUserIndex c.messages) preserveThinking 1 false c.messages = none :=
      messageLoop_eq_none hassistant hfree hcalls
        (lastUserIndex_iff (show c.messages = [] ++ c.messages from rfl)) hm
    show Option.map _ (messageLoop _ _ 1 false c.messages) = none
    rw [hnone]
    rfl

/-- Without a text in a later system message the two templates agree. -/
theorem turnsOf_later {preserveThinking : Bool} {messages : List Message}
    (h : ∀ m ∈ messages, isRole "system" m = true → hasNonblankText m.content = false) :
    turnsOf false preserveThinking messages = turnsOf true preserveThinking messages := by
  induction messages with
  | nil => rfl
  | cons m rest ih =>
    have htail := ih fun t ht => h t (List.mem_cons_of_mem m ht)
    rw [turnsOf, turnsOf, htail]
    by_cases hsystem : isRole "system" m = true
    · simp only [if_pos hsystem, h m List.mem_cons_self hsystem, Bool.false_eq_true, and_false,
        if_false]
    · simp only [if_neg hsystem]

/-- The prompt is faithful to the conversation exactly when the conversation is complete. -/
theorem formatChat_iff (c : Conversation)
    (enableThinking preserveThinking addGenerationPrompt : Bool) :
    (∃ prompt, formatChat c.messages enableThinking c.toolsJson c.instruction preserveThinking
        addGenerationPrompt = some prompt ∧
      c.Faithful enableThinking preserveThinking addGenerationPrompt prompt) ↔ c.Complete := by
  constructor
  · rintro ⟨prompt, hprompt, hfaithful⟩
    have hrendered : ∀ m ∈ c.messages, isRole "assistant" m = true → (calls m).isSome := by
      intro m hm hassistant
      cases hcalls : calls m with
      | some _ => rfl
      | none =>
        rw [formatChat_eq_none c enableThinking preserveThinking addGenerationPrompt hm hassistant
          hcalls] at hprompt
        exact nomatch hprompt
    refine ⟨fun m hm hsystem => ?_, hrendered⟩
    by_contra htext
    rw [Bool.not_eq_false] at htext
    rw [formatChat_eq c enableThinking preserveThinking addGenerationPrompt hrendered,
      hfaithful.turns, Option.some.injEq] at hprompt
    have hturns := congrArg List.length (List.append_cancel_right hprompt)
    simp only [template, List.flatMap_append, List.length_append] at hturns
    have hlt := (renderedLength_later preserveThinking
      (c.messages.dropWhile (isRole "system"))).2 ⟨m, hm, hsystem, htext⟩
    rw [renderedLength, renderedLength] at hlt
    omega
  · intro hcomplete
    refine ⟨_, formatChat_eq c enableThinking preserveThinking addGenerationPrompt
      hcomplete.rendered, ?_, ?_, contents_template _ _ _⟩
    · rw [template, template, turnsOf_later hcomplete.later]
    · intro t ht
      rcases List.mem_append.mp ht with ht | ht
      · exact balanced_leadingTurn c.instruction_free c.markerFree t ht
      · have hmem : ∀ m ∈ c.messages.dropWhile (isRole "system"), m ∈ c.messages :=
          (List.dropWhile_suffix _).subset
        exact balanced_turnsOf (fun m hm => c.role m (hmem m hm))
          (fun m hm => c.markerFree m (hmem m hm)) t ht

/-- A question, a system message that changes the rules, and another question. -/
def lateSystem : Conversation where
  messages := [⟨ascii "user", ascii "a", [], []⟩, ⟨ascii "system", ascii "b", [], []⟩,
    ⟨ascii "user", ascii "c", [], []⟩]
  toolsJson := []
  instruction := []
  role := by decide
  no_tools := rfl
  text := by decide
  reasoning := by
    intro m hm
    have hblank : m.reasoningContent = [] := by
      simp only [List.mem_cons, List.not_mem_nil, or_false] at hm
      rcases hm with rfl | rfl | rfl <;> rfl
    rw [hblank]
    exact free_nil
  rendered := by
    intro m hm c hc
    have hblank : m.toolCalls = [] := by
      simp only [List.mem_cons, List.not_mem_nil, or_false] at hm
      rcases hm with rfl | rfl | rfl <;> rfl
    rw [calls, if_pos hblank] at hc
    rw [← Option.some.inj hc]
    exact free_nil
  instruction_free := free_nil

/-- The prompt leaves out the second message of `lateSystem`. -/
theorem not_faithful_lateSystem :
    ¬ ∀ (c : Conversation) (enableThinking preserveThinking addGenerationPrompt : Bool),
      ∃ prompt, formatChat c.messages enableThinking c.toolsJson c.instruction preserveThinking
          addGenerationPrompt = some prompt ∧
        c.Faithful enableThinking preserveThinking addGenerationPrompt prompt := by
  intro h
  obtain ⟨prompt, hprompt, hfaithful⟩ := h lateSystem false false false
  have hshort : (formatChat lateSystem.messages false lateSystem.toolsJson lateSystem.instruction
      false false).map List.length = some 58 := by decide +kernel
  have hlong : ((template true false lateSystem.instruction lateSystem.messages).flatMap
      Turn.render).length = 89 := by decide +kernel
  have hlength : prompt.length = 58 := by
    rw [hprompt, Option.map_some] at hshort
    exact Option.some.inj hshort
  rw [hfaithful.turns, List.length_append, hlong] at hlength
  omega

end Chat

end FortAI
