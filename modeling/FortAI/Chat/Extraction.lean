import FortAI.Chat.ToolCalls
import FortAI.Machine.Tag

/-!
# Texts with tool calls

A text in which plain segments and calls follow each other, and what `parseToolCalls` makes of it.
A call without `<tool_call>` ends at the next `</tool_call>`, if there is one anywhere behind it;
it then takes everything up to there.

* `parameters_body` : the parameters of a call are read as they are written.
* `extraction_iff` : the calls and the text are those of the alternation exactly when no bare call
  stands before a wrapped one.
-/

namespace FortAI

namespace Chat

open CString Tag

/-! ### Written calls -/

/-- A parameter, with the text before it. -/
structure Parameter where
  filler : Bytes
  key : Bytes
  value : Bytes
  filler_free : ¬ parameterOpening <:+: filler
  key_ne : key ≠ []
  key_free : 62 ∉ key
  value_free : ¬ parameterClosing <:+: value

namespace Parameter

def render (p : Parameter) : Bytes :=
  p.filler ++ (parameterOpening ++ (p.key ++ 62 :: (p.value ++ parameterClosing)))

end Parameter

/-- What stands between `<function=` and `</function>`. -/
def inner (name : Bytes) (parameters : List Parameter) (filler : Bytes) : Bytes :=
  name ++ 62 :: (parameters.flatMap Parameter.render ++ filler)

/-- A call in the XML form: `wrapped` is the text around the function, when the call is between
`<tool_call>` and `</tool_call>`. -/
structure WrittenCall where
  name : Bytes
  parameters : List Parameter
  filler : Bytes
  wrapped : Option (Bytes × Bytes)
  name_ne : name ≠ []
  name_free : 62 ∉ name
  filler_free : ¬ parameterOpening <:+: filler
  closed : ¬ toolClosing <:+: inner name parameters filler ∧
    ¬ functionClosing <:+: inner name parameters filler
  around : ∀ w ∈ wrapped, (¬ functionOpening <:+: w.1 ∧ ¬ toolClosing <:+: w.1) ∧
    ¬ toolClosing <:+: w.2 ∧ ¬ parameterOpening <:+: w.2

namespace WrittenCall

/-- `<function=` and what is written behind it. -/
def opened (c : WrittenCall) : Bytes := functionOpening ++ inner c.name c.parameters c.filler

def function (c : WrittenCall) : Bytes := c.opened ++ functionClosing

def render (c : WrittenCall) : Bytes :=
  match c.wrapped with
  | none => c.function
  | some (before, behind) => toolOpening ++ (before ++ (c.function ++ (behind ++ toolClosing)))

/-- The call that is written. -/
def call (c : WrittenCall) : ToolCall :=
  ⟨c.name, argumentsText (c.parameters.map fun p => (p.key, p.value))⟩

end WrittenCall

/-- A text without the tags around calls. -/
structure Plain where
  text : Bytes
  no_opening : ¬ toolOpening <:+: text
  no_closing : ¬ toolClosing <:+: text
  no_function : ¬ functionOpening <:+: text

/-- Plain segments and calls. -/
structure Alternation where
  items : List (Plain × WrittenCall)
  last : Plain

def render (items : List (Plain × WrittenCall)) (last : Bytes) : Bytes :=
  items.flatMap (fun item => item.1.text ++ item.2.render) ++ last

/-- No bare call stands before a wrapped one. -/
def InOrder (items : List (Plain × WrittenCall)) : Prop :=
  items.Pairwise fun x y => y.2.wrapped.isSome → x.2.wrapped.isSome

namespace Alternation

variable (a : Alternation)

def text : Bytes := render a.items a.last.text

def calls : List ToolCall := a.items.map fun item => item.2.call

/-- What is not part of a call. -/
def plain : Bytes := a.items.flatMap (fun item => item.1.text) ++ a.last.text

def visible : Bytes := if a.items = [] then a.text else trimmed a.plain

end Alternation

/-! ### Parameters -/

theorem parameters_eq_nil {text : Bytes} (h : ¬ parameterOpening <:+: text) :
    parameters text = [] := by
  rw [parameters]
  split
  · rfl
  · rename_i heq
    rw [(find_eq_none (by decide)).mpr h] at heq
    cases heq

/-- A name ends at its angle bracket. -/
theorem find_angle {name : Bytes} (h : 62 ∉ name) (s : Bytes) :
    find [62] (name ++ 62 :: s) = some name.length :=
  find_cons_append _ h (List.prefix_append [62] s)

theorem parameters_of_find {text rest body : Bytes} {i n k : ℕ}
    (hopening : find parameterOpening text = some i)
    (hrest : text.drop (i + parameterOpening.length) = rest) (hn : find [62] rest = some (n + 1))
    (hbody : rest.drop (n + 2) = body) (hk : find parameterClosing body = some k) :
    parameters text = (rest.take (n + 1), body.take k) ::
      parameters (body.drop (k + parameterClosing.length)) := by
  rw [parameters]
  split
  · rename_i heq
    rw [hopening] at heq
    cases heq
  · rename_i heq
    rw [hopening, Option.some.injEq] at heq
    subst heq
    simp only [hrest, hn, hbody, hk]

theorem parameters_render (p : Parameter) (s : Bytes) :
    parameters (p.render ++ s) = (p.key, p.value) :: parameters s := by
  have hopening : IsTag parameterOpening := by decide
  have hclosing : IsTag parameterClosing := by decide
  obtain ⟨n, hn⟩ : ∃ n, p.key.length = n + 1 :=
    Nat.exists_eq_succ_of_ne_zero (mt List.length_eq_zero_iff.mp p.key_ne)
  have hshape : p.render ++ s = p.filler ++ (parameterOpening ++ (p.key ++ 62 :: (p.value ++
      (parameterClosing ++ s)))) := by
    simp only [Parameter.render, List.append_assoc, List.cons_append]
  have hfind : find parameterOpening (p.render ++ s) = some p.filler.length := by
    rw [hshape, find_tag hopening p.filler_free]
  have hrest : (p.render ++ s).drop (p.filler.length + parameterOpening.length) =
      p.key ++ 62 :: (p.value ++ (parameterClosing ++ s)) := by
    rw [hshape, ← List.drop_drop, List.drop_left, List.drop_left]
  have hkey : find [62] (p.key ++ 62 :: (p.value ++ (parameterClosing ++ s))) = some (n + 1) := by
    rw [find_angle p.key_free, hn]
  have hbody : (p.key ++ 62 :: (p.value ++ (parameterClosing ++ s))).drop (n + 2) =
      p.value ++ (parameterClosing ++ s) := by
    rw [show n + 2 = p.key.length + 1 by omega, ← List.drop_drop, List.drop_left]
    rfl
  have hvalue : find parameterClosing (p.value ++ (parameterClosing ++ s)) =
      some p.value.length := find_tag hclosing p.value_free s
  rw [parameters_of_find hfind hrest hkey hbody hvalue, ← hn, List.take_left, List.take_left,
    ← List.drop_drop, List.drop_left, List.drop_left]

/-- The parameters of a call are read as they are written. -/
theorem parameters_body (ps : List Parameter) {s : Bytes} (h : ¬ parameterOpening <:+: s) :
    parameters (ps.flatMap Parameter.render ++ s) = ps.map fun p => (p.key, p.value) := by
  induction ps with
  | nil => exact parameters_eq_nil h
  | cons p ps ih =>
    rw [List.flatMap_cons, List.append_assoc, parameters_render, ih]
    rfl

/-! ### One call -/

theorem parseToolSegment_of_find {segment rest : Bytes} {i n : ℕ}
    (hi : find functionOpening segment = some i)
    (hrest : segment.drop (i + functionOpening.length) = rest)
    (hn : find [62] rest = some (n + 1)) :
    parseToolSegment segment = some ⟨rest.take (n + 1), xmlParameters (rest.drop (n + 2))⟩ := by
  rw [parseToolSegment, hi]
  simp only [hrest, hn]

/-- The name of the first function, whatever follows it. -/
theorem parseToolSegment_function (c : WrittenCall) {before : Bytes}
    (hbefore : ¬ functionOpening <:+: before) (s : Bytes) :
    parseToolSegment (before ++ (functionOpening ++ (c.name ++ 62 :: s))) =
      some ⟨c.name, xmlParameters s⟩ := by
  have hopening : IsTag functionOpening := by decide
  obtain ⟨n, hn⟩ : ∃ n, c.name.length = n + 1 :=
    Nat.exists_eq_succ_of_ne_zero (mt List.length_eq_zero_iff.mp c.name_ne)
  have hrest : (before ++ (functionOpening ++ (c.name ++ 62 :: s))).drop
      (before.length + functionOpening.length) = c.name ++ 62 :: s := by
    rw [← List.drop_drop, List.drop_left, List.drop_left]
  have hname : find [62] (c.name ++ 62 :: s) = some (n + 1) := by
    rw [find_angle c.name_free, hn]
  rw [parseToolSegment_of_find (find_tag hopening hbefore _) hrest hname, ← hn, List.take_left]
  rw [show n + 2 = c.name.length + 1 by omega, ← List.drop_drop, List.drop_left]
  rfl

namespace WrittenCall

variable (c : WrittenCall)

/-- What is read between the tags of a wrapped call. -/
theorem parse_wrapped {before behind : Bytes} (h : c.wrapped = some (before, behind)) :
    parseToolSegment (before ++ (c.function ++ behind)) = some c.call := by
  obtain ⟨⟨hopening, -⟩, -, hparameter⟩ := c.around _ h
  have htag : IsTag functionClosing := by decide
  have hshape : before ++ (c.function ++ behind) = before ++ (functionOpening ++ (c.name ++ 62 ::
      (c.parameters.flatMap Parameter.render ++ (c.filler ++ (functionClosing ++ behind))))) := by
    simp only [function, opened, inner, List.append_assoc, List.cons_append]
  have hfree : ¬ parameterOpening <:+: c.filler ++ (functionClosing ++ behind) :=
    not_infix_append (by decide) c.filler_free
      (not_infix_tag (by decide) htag (by decide) hparameter) (starts_tag htag behind)
  rw [hshape, parseToolSegment_function c hopening, xmlParameters, parameters_body _ hfree]
  rfl

/-- What is read of a bare call up to its end. -/
theorem parse_opened : parseToolSegment c.opened = some c.call := by
  have hshape : c.opened = [] ++ (functionOpening ++ (c.name ++ 62 ::
      (c.parameters.flatMap Parameter.render ++ c.filler))) := rfl
  rw [hshape, parseToolSegment_function c (by decide), xmlParameters,
    parameters_body _ c.filler_free]
  rfl

/-- A bare call is read as some call, however much of the text behind it is taken. -/
theorem parse_isSome (s : Bytes) : (parseToolSegment (c.opened ++ s)).isSome := by
  have hshape : c.opened ++ s = [] ++ (functionOpening ++ (c.name ++ 62 ::
      (c.parameters.flatMap Parameter.render ++ c.filler ++ s))) := by
    simp only [opened, inner, List.append_assoc, List.cons_append, List.nil_append]
  rw [hshape, parseToolSegment_function c (by decide)]
  rfl

/-- A call starts with a tag. -/
theorem starts_render (s : Bytes) : Starts (c.render ++ s) := by
  rw [render]
  split
  · rw [function, opened, List.append_assoc, List.append_assoc]
    exact starts_tag (by decide) _
  · rw [List.append_assoc]
    exact starts_tag (by decide) _

theorem not_infix_opened : ¬ toolClosing <:+: c.opened :=
  not_infix_tag (by decide) (by decide) (by decide) c.closed.1

end WrittenCall

/-! ### Cuts -/

theorem nextOpening_plain (p : Plain) : nextOpening p.text = none := by
  rw [nextOpening, (find_eq_none (by decide)).mpr p.no_opening,
    (find_eq_none (by decide)).mpr p.no_function]

theorem nextOpening_call (p : Plain) (c : WrittenCall) (s : Bytes) :
    nextOpening (p.text ++ (c.render ++ s)) = some (p.text.length, c.wrapped.isNone) := by
  have hstarts := c.starts_render s
  rw [nextOpening, find_append_tag (by decide) p.no_opening hstarts,
    find_append_tag (by decide) p.no_function hstarts]
  cases hw : c.wrapped with
  | some w =>
    have hfind : find toolOpening (c.render ++ s) = some 0 := by
      rw [WrittenCall.render, hw, List.append_assoc]
      exact find_eq_some_zero (List.prefix_append _ _)
    rw [hfind]
    cases find functionOpening (c.render ++ s) with
    | none => simp
    | some f => simp
  | none =>
    have hshape : c.render ++ s = functionOpening ++
        (inner c.name c.parameters c.filler ++ (functionClosing ++ s)) := by
      rw [WrittenCall.render, hw]
      simp only [WrittenCall.function, WrittenCall.opened, List.append_assoc]
    rw [hshape, find_eq_some_zero (List.prefix_append functionOpening _)]
    cases ht : find toolOpening (functionOpening ++
        (inner c.name c.parameters c.filler ++ (functionClosing ++ s))) with
    | none => simp
    | some t =>
      have hpos : 0 < t := by
        rw [Nat.pos_iff_ne_zero]
        rintro rfl
        have hapart : Apart toolOpening functionOpening := by decide
        exact hapart.not_prefix _ (prefix_of_find ht)
      simp [hpos]

theorem nextCut_of_tool {s body : Bytes} {start n : ℕ} {functionStyle : Bool}
    (h : nextOpening s = some (start, functionStyle))
    (hbody : s.drop (start + if functionStyle then 0 else toolOpening.length) = body)
    (hn : find toolClosing body = some n) :
    nextCut s = some ⟨s.take start, body.take n, functionStyle,
      body.drop (n + toolClosing.length)⟩ := by
  rw [nextCut, h]
  simp only [hbody, hn]

theorem nextCut_of_function {s body : Bytes} {start n : ℕ}
    (h : nextOpening s = some (start, true)) (hbody : s.drop start = body)
    (htool : find toolClosing body = none) (hn : find functionClosing body = some n) :
    nextCut s = some ⟨s.take start, body.take n, true, body.drop (n + functionClosing.length)⟩ := by
  rw [nextCut, h]
  simp only [if_true, Nat.add_zero, hbody, htool, hn, Option.map_some]

theorem nextCut_plain (p : Plain) : nextCut p.text = none := by
  rw [nextCut, nextOpening_plain]

/-- A wrapped call is cut out as it is written. -/
theorem nextCut_wrapped (p : Plain) {c : WrittenCall} {before behind : Bytes}
    (h : c.wrapped = some (before, behind)) (s : Bytes) :
    nextCut (p.text ++ (c.render ++ s)) =
      some ⟨p.text, before ++ (c.function ++ behind), false, s⟩ := by
  have hclosing : IsTag toolClosing := by decide
  obtain ⟨⟨-, hbefore⟩, hbehind, -⟩ := c.around _ h
  have hopening := nextOpening_call p c s
  rw [h, Option.isNone_some] at hopening
  have hrender : c.render ++ s = toolOpening ++
      ((before ++ (c.function ++ behind)) ++ (toolClosing ++ s)) := by
    rw [WrittenCall.render, h]
    simp only [List.append_assoc]
  have hfree : ¬ toolClosing <:+: before ++ (c.function ++ behind) := by
    refine not_infix_append hclosing hbefore ?_ ?_
    · rw [WrittenCall.function, List.append_assoc]
      exact not_infix_append hclosing c.not_infix_opened
        (not_infix_tag hclosing (by decide) (by decide) hbehind) (starts_tag (by decide) _)
    · rw [WrittenCall.function, WrittenCall.opened, List.append_assoc, List.append_assoc]
      exact starts_tag (by decide) _
  have hbody : (p.text ++ (c.render ++ s)).drop
      (p.text.length + if false then 0 else toolOpening.length) =
        (before ++ (c.function ++ behind)) ++ (toolClosing ++ s) := by
    rw [if_neg Bool.false_ne_true, ← List.drop_drop, List.drop_left, hrender, List.drop_left]
  rw [nextCut_of_tool hopening hbody (find_tag hclosing hfree s), List.take_left, List.take_left,
    ← List.drop_drop, List.drop_left, List.drop_left]

/-- A bare call ends at its own tag when no `</tool_call>` comes behind it. -/
theorem nextCut_bare (p : Plain) {c : WrittenCall} (h : c.wrapped = none) {s : Bytes}
    (hs : ¬ toolClosing <:+: s) :
    nextCut (p.text ++ (c.render ++ s)) = some ⟨p.text, c.opened, true, s⟩ := by
  have hclosing : IsTag toolClosing := by decide
  have htag : IsTag functionClosing := by decide
  have hopening := nextOpening_call p c s
  rw [h, Option.isNone_none] at hopening
  have hrender : c.render ++ s = c.opened ++ (functionClosing ++ s) := by
    rw [WrittenCall.render, h, WrittenCall.function]
    exact List.append_assoc _ _ _
  have hfree : ¬ toolClosing <:+: c.opened ++ (functionClosing ++ s) :=
    not_infix_append hclosing c.not_infix_opened
      (not_infix_tag hclosing htag (by decide) hs) (starts_tag htag s)
  have hopened : ¬ functionClosing <:+: c.opened :=
    not_infix_tag htag (by decide) (by decide) c.closed.2
  have hbody : (p.text ++ (c.render ++ s)).drop p.text.length =
      c.opened ++ (functionClosing ++ s) := by
    rw [List.drop_left, hrender]
  rw [nextCut_of_function hopening hbody ((find_eq_none (by decide)).mpr hfree)
    (find_tag htag hopened s), List.take_left, List.take_left, ← List.drop_drop, List.drop_left,
    List.drop_left]

/-- Otherwise it takes everything up to there. -/
theorem nextCut_swallow (p : Plain) {c : WrittenCall} (h : c.wrapped = none) {m s : Bytes}
    (hm : ¬ toolClosing <:+: c.opened ++ (functionClosing ++ m)) :
    nextCut (p.text ++ (c.render ++ (m ++ (toolClosing ++ s)))) =
      some ⟨p.text, c.opened ++ (functionClosing ++ m), true, s⟩ := by
  have hclosing : IsTag toolClosing := by decide
  have hopening := nextOpening_call p c (m ++ (toolClosing ++ s))
  rw [h, Option.isNone_none] at hopening
  have hbody : (p.text ++ (c.render ++ (m ++ (toolClosing ++ s)))).drop
      (p.text.length + if true then 0 else toolOpening.length) =
        (c.opened ++ (functionClosing ++ m)) ++ (toolClosing ++ s) := by
    rw [if_pos rfl, Nat.add_zero, List.drop_left, WrittenCall.render, h, WrittenCall.function]
    simp only [List.append_assoc]
  rw [nextCut_of_tool hopening hbody (find_tag hclosing hm s), List.take_left, List.take_left,
    ← List.drop_drop, List.drop_left, List.drop_left]

/-! ### Texts -/

theorem render_cons (item : Plain × WrittenCall) (rest : List (Plain × WrittenCall)) (last : Bytes) :
    render (item :: rest) last = item.1.text ++ (item.2.render ++ render rest last) := by
  rw [render, List.flatMap_cons, List.append_assoc, List.append_assoc]
  rfl

/-- Bare calls bring no `</tool_call>` in. -/
theorem not_infix_bare {items : List (Plain × WrittenCall)}
    (h : ∀ item ∈ items, item.2.wrapped = none) {s : Bytes} (hs : ¬ toolClosing <:+: s) :
    ¬ toolClosing <:+: render items s := by
  have hclosing : IsTag toolClosing := by decide
  have htag : IsTag functionClosing := by decide
  induction items with
  | nil => exact hs
  | cons item rest ih =>
    have hrest := ih fun x hx => h x (List.mem_cons_of_mem item hx)
    rw [render_cons]
    refine not_infix_append hclosing item.1.no_closing ?_ (item.2.starts_render _)
    rw [WrittenCall.render, h item List.mem_cons_self, WrittenCall.function, List.append_assoc]
    exact not_infix_append hclosing item.2.not_infix_opened
      (not_infix_tag hclosing htag (by decide) hrest) (starts_tag htag _)

/-- No text of an alternation starts with `</tool_call>`. -/
theorem not_prefix_render (items : List (Plain × WrittenCall)) (last : Plain) :
    ¬ toolClosing <+: render items last.text := by
  cases items with
  | nil => exact fun h => last.no_closing h.isInfix
  | cons item rest =>
    rw [render_cons]
    by_cases hblank : item.1.text = []
    · rw [hblank, List.nil_append, WrittenCall.render]
      split
      · have hapart : Apart toolClosing functionOpening := by decide
        rw [WrittenCall.function, WrittenCall.opened, List.append_assoc, List.append_assoc]
        exact hapart.not_prefix _
      · have hapart : Apart toolClosing toolOpening := by decide
        rw [List.append_assoc]
        exact hapart.not_prefix _
    · exact not_prefix_append (by decide) hblank (item.2.starts_render _)
        fun h => item.1.no_closing h.isInfix

theorem behind_of_not_prefix {before segment rest : Bytes} {functionStyle : Bool}
    (h : ¬ toolClosing <+: rest) : Cut.behind ⟨before, segment, functionStyle, rest⟩ = rest :=
  if_neg fun hcut => h hcut.2.2

/-- A call that is cut out as it is written is taken, and the loop goes on behind it. -/
theorem toolCallScan_cut {before segment s t : Bytes} {functionStyle : Bool} {call : ToolCall}
    (h : nextCut s = some ⟨before, segment, functionStyle, t⟩)
    (hcall : parseToolSegment segment = some call) (ht : ¬ toolClosing <+: t) (skipped : Bytes) :
    toolCallScan skipped s =
      (skipped ++ before ++ (toolCallScan [] t).1, call :: (toolCallScan [] t).2) := by
  rw [toolCallScan_call h hcall, behind_of_not_prefix ht]

theorem toolCallScan_ordered {items : List (Plain × WrittenCall)} (last : Plain)
    (h : InOrder items) :
    ∀ skipped : Bytes, toolCallScan skipped (render items last.text) =
      (skipped ++ (items.flatMap (fun item => item.1.text) ++ last.text),
        items.map fun item => item.2.call) := by
  induction items with
  | nil => exact fun skipped => toolCallScan_none (nextCut_plain last) skipped
  | cons item rest ih =>
    intro skipped
    obtain ⟨hhead, htail⟩ := List.pairwise_cons.mp h
    have hprefix := not_prefix_render rest last
    have hend : (skipped ++ item.1.text ++ (toolCallScan [] (render rest last.text)).1,
          item.2.call :: (toolCallScan [] (render rest last.text)).2) =
        (skipped ++ ((item :: rest).flatMap (fun item => item.1.text) ++ last.text),
          (item :: rest).map fun item => item.2.call) := by
      rw [ih htail, List.flatMap_cons, List.map_cons, List.nil_append]
      simp only [List.append_assoc]
    rw [render_cons]
    cases hw : item.2.wrapped with
    | some around =>
      rw [toolCallScan_cut (nextCut_wrapped item.1 hw _) (item.2.parse_wrapped hw) hprefix, hend]
    | none =>
      have hbare : ∀ x ∈ rest, x.2.wrapped = none := by
        intro x hx
        cases hx' : x.2.wrapped with
        | none => rfl
        | some around =>
          have := hhead x hx (by rw [hx']; rfl)
          rw [hw] at this
          exact Bool.noConfusion this
      rw [toolCallScan_cut (nextCut_bare item.1 hw (not_infix_bare hbare last.no_closing))
        item.2.parse_opened hprefix, hend]

/-- A bare call takes the first wrapped call behind it along. -/
theorem toolCallScan_swallow {item x : Plain × WrittenCall} {mid tail : List (Plain × WrittenCall)}
    (last : Plain) (hitem : item.2.wrapped = none) (hmid : ∀ y ∈ mid, y.2.wrapped = none)
    (hx : x.2.wrapped.isSome) (skipped : Bytes) :
    ∃ call, (toolCallScan skipped (render (item :: (mid ++ x :: tail)) last.text)).2 =
      call :: (toolCallScan [] (render tail last.text)).2 := by
  have hclosing : IsTag toolClosing := by decide
  have htag : IsTag functionClosing := by decide
  obtain ⟨⟨before, behind⟩, hw⟩ := Option.isSome_iff_exists.mp hx
  obtain ⟨⟨-, hbefore⟩, hbehind, -⟩ := x.2.around _ hw
  -- what stands before the tag that closes the wrapped call
  have hlast : ¬ toolClosing <:+:
      x.1.text ++ (toolOpening ++ (before ++ (x.2.function ++ behind))) := by
    refine not_infix_append hclosing x.1.no_closing (not_infix_tag hclosing (by decide) (by decide)
      (not_infix_append hclosing hbefore ?_ ?_)) (starts_tag (by decide) _)
    · rw [WrittenCall.function, List.append_assoc]
      exact not_infix_append hclosing x.2.not_infix_opened
        (not_infix_tag hclosing htag (by decide) hbehind) (starts_tag htag _)
    · rw [WrittenCall.function, WrittenCall.opened, List.append_assoc, List.append_assoc]
      exact starts_tag (by decide) _
  have hfree : ¬ toolClosing <:+: item.2.opened ++ (functionClosing ++
      render mid (x.1.text ++ (toolOpening ++ (before ++ (x.2.function ++ behind))))) :=
    not_infix_append hclosing item.2.not_infix_opened
      (not_infix_tag hclosing htag (by decide) (not_infix_bare hmid hlast)) (starts_tag htag _)
  have hshape : render (mid ++ x :: tail) last.text =
      render mid (x.1.text ++ (toolOpening ++ (before ++ (x.2.function ++ behind)))) ++
        (toolClosing ++ render tail last.text) := by
    simp only [render, List.flatMap_append, List.flatMap_cons, WrittenCall.render, hw,
      List.append_assoc]
  have hcut := nextCut_swallow item.1 hitem (s := render tail last.text) hfree
  obtain ⟨call, hcall⟩ := Option.isSome_iff_exists.mp (item.2.parse_isSome (functionClosing ++
    render mid (x.1.text ++ (toolOpening ++ (before ++ (x.2.function ++ behind))))))
  refine ⟨call, ?_⟩
  rw [render_cons, hshape, toolCallScan_cut hcut hcall (not_prefix_render tail last)]

/-- No more calls are found than are written, and fewer when they are not in order. -/
theorem toolCallScan_length (last : Plain) :
    ∀ (n : ℕ) (items : List (Plain × WrittenCall)), items.length ≤ n → ∀ skipped : Bytes,
      (toolCallScan skipped (render items last.text)).2.length ≤ items.length ∧
        (¬ InOrder items →
          (toolCallScan skipped (render items last.text)).2.length < items.length) := by
  intro n
  induction n with
  | zero =>
    intro items hn skipped
    rw [List.length_eq_zero_iff.mp (Nat.le_zero.mp hn)]
    rw [toolCallScan_ordered last List.Pairwise.nil]
    exact ⟨Nat.le_refl _, fun h => absurd List.Pairwise.nil h⟩
  | succ n ih =>
    intro items hn skipped
    by_cases horder : InOrder items
    · rw [toolCallScan_ordered last horder, List.length_map]
      exact ⟨Nat.le_refl _, fun h => absurd horder h⟩
    cases items with
    | nil => exact absurd List.Pairwise.nil horder
    | cons item rest =>
      rw [List.length_cons] at hn
      cases hw : item.2.wrapped with
      | some around =>
        have hrest : ¬ InOrder rest := fun h =>
          horder (List.pairwise_cons.mpr ⟨fun _ _ _ => by rw [hw]; rfl, h⟩)
        have hscan := toolCallScan_cut (nextCut_wrapped item.1 hw (render rest last.text))
          (item.2.parse_wrapped hw) (not_prefix_render rest last) skipped
        have hlt := (ih rest (by omega) []).2 hrest
        rw [render_cons, hscan, List.length_cons, List.length_cons]
        exact ⟨by omega, fun _ => by omega⟩
      | none =>
        cases hfind : rest.find? fun x => x.2.wrapped.isSome with
        | none =>
          -- only bare calls follow, which is an order
          have hbare : ∀ y ∈ rest, ¬ y.2.wrapped.isSome := List.find?_eq_none.mp hfind
          exact absurd (List.pairwise_cons.mpr ⟨fun y hy hsome => absurd hsome (hbare y hy),
            List.pairwise_of_forall_mem_list fun x _ y hy hsome => absurd hsome (hbare y hy)⟩) horder
        | some x =>
          obtain ⟨hx, mid, tail, rfl, hmid⟩ := List.find?_eq_some_iff_append.mp hfind
          obtain ⟨call, hscan⟩ := toolCallScan_swallow last hw (fun y hy => by
            simpa using hmid y hy) hx skipped
          have hle := (ih tail (by simp only [List.length_append, List.length_cons] at hn; omega)
            []).1
          rw [hscan, List.length_cons]
          simp only [List.length_cons, List.length_append]
          exact ⟨by omega, fun _ => by omega⟩

/-- The calls and the text are those of the alternation exactly when no bare call stands before a
wrapped one. -/
theorem extraction_iff (a : Alternation) :
    parseToolCalls a.text = (a.visible, a.calls) ↔ InOrder a.items := by
  constructor
  · intro h
    by_contra horder
    have hlt := (toolCallScan_length a.last a.items.length a.items (Nat.le_refl _) []).2 horder
    have hcalls : (parseToolCalls a.text).2.length = a.items.length := by
      rw [h, Alternation.calls, List.length_map]
    rw [parseToolCalls, Alternation.text] at hcalls
    by_cases hnil : (toolCallScan [] (render a.items a.last.text)).2 = []
    · rw [if_pos hnil] at hcalls
      rw [← hcalls] at hlt
      exact Nat.not_lt_zero _ hlt
    · rw [if_neg hnil] at hcalls
      exact absurd hcalls (Nat.ne_of_lt hlt)
  · intro h
    rw [parseToolCalls, Alternation.text, toolCallScan_ordered a.last h, Alternation.visible,
      Alternation.calls, Alternation.text, Alternation.plain, List.nil_append]
    by_cases hitems : a.items = []
    · rw [if_pos hitems, if_pos (by rw [hitems]; rfl), hitems]
      rfl
    · rw [if_neg hitems, if_neg (by rw [List.map_eq_nil_iff]; exact hitems)]

/-! ### A bare call before a wrapped one -/

def plainText (s : String) (h : ¬ toolOpening <:+: ascii s ∧ ¬ toolClosing <:+: ascii s ∧
    ¬ functionOpening <:+: ascii s) : Plain := ⟨ascii s, h.1, h.2.1, h.2.2⟩

def bareCall : WrittenCall where
  name := ascii "f"
  parameters := []
  filler := []
  wrapped := none
  name_ne := by decide
  name_free := by decide
  filler_free := by decide
  closed := by decide
  around := fun w h => nomatch h

def wrappedCall : WrittenCall where
  name := ascii "g"
  parameters := []
  filler := []
  wrapped := some ([], [])
  name_ne := by decide
  name_free := by decide
  filler_free := by decide
  closed := by decide
  around := fun w h => by
    rw [← Option.some.inj h]
    decide

def mixedCalls : Alternation where
  items := [(plainText "a " (by decide), bareCall), (plainText " b " (by decide), wrappedCall)]
  last := plainText " c" (by decide)

/-- Of the two calls of `mixedCalls` one is returned, and the text between them is lost. -/
theorem not_extracted_mixedCalls :
    ¬ ∀ a : Alternation, parseToolCalls a.text = (a.visible, a.calls) := by
  intro h
  have hshort : (parseToolCalls mixedCalls.text).2.length = 1 := by decide +kernel
  have hlong : mixedCalls.calls.length = 2 := rfl
  rw [h mixedCalls, hlong] at hshort
  omega

end Chat

end FortAI
