import FortAI.Chat.Reading

/-!
# Where a name is found

`jsonKey` looks for a quoted name in the text.  In the text of a tree it finds the first member, at
any depth, whose name is written so that it ends in the quoted name.

* `jsonKey_render` : what `jsonKey` finds in the text of a tree is what `search` finds in the tree.
* `search_eq_topLevel` : this is the member of the object itself exactly for `Unshadowed` names.
-/

namespace FortAI

namespace Chat

open CString

/-! ### Names in texts -/

/-- A byte of the names that the readers look for. -/
def isNameByte (b : Byte) : Bool := (97 ≤ b && b ≤ 122) || b = 95

/-- A name that a reader looks for. -/
def IsName (key : Bytes) : Prop := key ≠ [] ∧ key.all isNameByte = true

instance (key : Bytes) : Decidable (IsName key) := inferInstanceAs (Decidable (_ ∧ _))

theorem IsName.ne {key : Bytes} (h : IsName key) {c : Byte} (hc : isNameByte c = false) :
    ∀ b ∈ key, b ≠ c := by
  rintro b hb rfl
  rw [List.all_eq_true.mp h.2 b hb] at hc
  exact Bool.noConfusion hc

/-- No name starts here. -/
def NotName (s : Bytes) : Prop := ∀ b ∈ s.head?, isNameByte b = false

/-- Where nothing starts, nothing is found. -/
theorem find_append_of_not_starts {needle a s : Bytes}
    (h : ∀ i < a.length, ¬ needle <+: (a ++ s).drop i) :
    find needle (a ++ s) = (find needle s).map (· + a.length) := by
  induction a with
  | nil => simp
  | cons b a ih =>
    have hrest : ∀ i < a.length, ¬ needle <+: (a ++ s).drop i := fun i hi =>
      h (i + 1) (Nat.succ_lt_succ hi)
    have hb : ¬ needle <+: b :: (a ++ s) := h 0 (Nat.succ_pos _)
    rw [List.cons_append, find_cons_of_not_starts hb, ih hrest, Option.map_map]
    rfl

theorem escaped_piece (p : Piece) {u v : Bytes} (h : p.render = u ++ 34 :: v) :
    u.getLast? = some 92 := by
  have hmem : (34 : Byte) ∈ p.render := h ▸ List.mem_append_right u List.mem_cons_self
  cases p with
  | plain b hb =>
    simp only [isPlain, Bool.and_eq_true, decide_eq_true_eq] at hb
    exact absurd (List.mem_singleton.mp hmem).symm hb.1.2
  | escape letter meaning hl =>
    cases u with
    | nil => exact absurd (List.head_eq_of_cons_eq h) (by decide)
    | cons c u =>
      cases u with
      | nil => rw [← List.head_eq_of_cons_eq h]; rfl
      | cons d u =>
        have := congrArg List.length h
        simp only [Piece.render, List.length_cons, List.length_append, List.length_nil] at this
        omega
  | unicode a b c d =>
    simp only [Piece.render, List.mem_cons, List.not_mem_nil, or_false] at hmem
    rcases hmem with h | h | h | h | h | h
    · exact absurd h (by decide)
    · exact absurd h (by decide)
    · exact absurd h.symm (hex_ne a).2
    · exact absurd h.symm (hex_ne b).2
    · exact absurd h.symm (hex_ne c).2
    · exact absurd h.symm (hex_ne d).2

/-- A quote inside of a string stands behind a backslash. -/
theorem escaped_quote (text : Text) :
    ∀ {u v : Bytes}, text.raw = u ++ 34 :: v → u.getLast? = some 92 := by
  induction text with
  | nil =>
    intro u v h
    exact absurd (h ▸ List.mem_append_right u List.mem_cons_self : (34 : Byte) ∈ Text.raw [])
      List.not_mem_nil
  | cons p rest ih =>
    intro u v h
    have hcons : Text.raw (p :: rest) = p.render ++ Text.raw rest := by
      rw [Text.raw, List.flatMap_cons]
      rfl
    rw [hcons] at h
    have hbehind {x : Bytes} (hx : Text.raw rest = x ++ 34 :: v) :
        (p.render ++ x).getLast? = some 92 := by
      rw [List.getLast?_append, ih hx]
      rfl
    rcases List.append_eq_append_iff.mp h with ⟨x, rfl, hx⟩ | ⟨y, hp, hy⟩
    · exact hbehind hx
    · cases y with
      | nil =>
        rw [List.append_nil] at hp
        rw [← hp, ← List.append_nil p.render]
        exact hbehind hy.symm
      | cons c y =>
        rw [List.cons_append, List.cons.injEq] at hy
        rw [← hy.1] at hp
        exact escaped_piece p hp

/-- A quoted name does not end inside of a string. -/
theorem quote_inside {key : Bytes} (hkey : IsName key) {text : Text} {u x : Bytes} {d : Byte}
    (h : text.render = u ++ 34 :: (key ++ 34 :: d :: x)) : False := by
  have hraw : 34 :: text.raw = (u ++ 34 :: key) ++ 34 :: (d :: x).dropLast := by
    have hlast := congrArg List.dropLast h
    have hshape : u ++ 34 :: (key ++ 34 :: d :: x) = ((u ++ 34 :: key) ++ [34]) ++ (d :: x) := by
      simp only [List.append_assoc, List.cons_append, List.nil_append]
    rw [hshape, List.dropLast_append_of_ne_nil (List.cons_ne_nil d x), Text.render,
      ← List.cons_append, List.dropLast_concat, List.append_assoc] at hlast
    exact hlast
  have hback {w : Bytes} (hw : text.raw = (w ++ key) ++ 34 :: (d :: x).dropLast) : False := by
    have hlast := escaped_quote text hw
    rw [List.getLast?_append, List.getLast?_eq_some_getLast hkey.1] at hlast
    exact hkey.ne (by decide) _ (List.getLast_mem hkey.1) (Option.some.inj hlast)
  cases u with
  | nil => exact hback (w := []) (List.tail_eq_of_cons_eq hraw)
  | cons c u =>
    refine hback (w := u ++ [34]) ?_
    rw [List.append_assoc u]
    exact List.tail_eq_of_cons_eq hraw

/-- Where the quoted name starts in a string, it ends with the string. -/
theorem quoted_suffix {key : Bytes} (hkey : IsName key) (text : Text) {s : Bytes} (hs : NotName s)
    {i : ℕ} (hi : i < text.render.length) (h : quoted key <+: (text.render ++ s).drop i) :
    i + (quoted key).length = text.render.length ∧ quoted key <:+ text.render := by
  obtain ⟨r, hr⟩ := h
  have hsplit := List.take_append_drop i text.render
  have hlength : (text.render.take i).length = i := List.length_take_of_le hi.le
  rw [List.drop_append_of_le_length hi.le] at hr
  have hquote : (34 : Byte) ∉ key := fun hmem => hkey.ne (by decide) 34 hmem rfl
  -- the rest of the string from there on
  obtain ⟨q, hq⟩ : ∃ q, text.render.drop i = 34 :: q := by
    cases hd : text.render.drop i with
    | nil => exact absurd (List.drop_eq_nil_iff.mp hd) (Nat.not_le.mpr hi)
    | cons c q =>
      rw [hd, quoted] at hr
      exact ⟨q, by rw [List.head_eq_of_cons_eq hr]⟩
  rw [hq, quoted] at hr
  have hr' : key ++ 34 :: r = q ++ s := by
    have htail : (key ++ [34]) ++ r = q ++ s := List.tail_eq_of_cons_eq hr
    rwa [List.append_assoc] at htail
  have hlast : text.render.getLast? = some 34 := by
    rw [Text.render, List.getLast?_cons, List.getLast?_append]
    rfl
  have hqlast : (34 :: q).getLast? = some 34 := by
    rw [← hsplit, hq, List.getLast?_append] at hlast
    cases hg : (34 :: q).getLast? with
    | none => exact absurd (List.getLast?_eq_none_iff.mp hg) (List.cons_ne_nil _ _)
    | some c =>
      rw [hg] at hlast
      exact hlast
  have hmem_of_last {l : Bytes} (hne : l ≠ []) (hl : (34 :: l).getLast? = some 34) : 34 ∈ l := by
    rw [List.getLast?_cons, List.getLast?_eq_some_getLast hne, Option.getD_some,
      Option.some.injEq] at hl
    exact hl ▸ List.getLast_mem hne
  rcases List.append_eq_append_iff.mp hr' with ⟨x, hx, hxs⟩ | ⟨y, hkey', hys⟩
  · cases x with
    | nil =>
      rw [List.append_nil] at hx
      rw [hx] at hqlast
      exact absurd (hmem_of_last hkey.1 hqlast) hquote
    | cons c x =>
      rw [List.cons_append, List.cons.injEq] at hxs
      rw [← hxs.1] at hx
      cases x with
      | nil =>
        have hdrop : text.render.drop i = quoted key := by rw [hq, hx, quoted]
        refine ⟨?_, hdrop ▸ List.drop_suffix i _⟩
        rw [← hdrop, List.length_drop]
        omega
      | cons d x =>
        -- the second quote would stand inside of the string
        rw [hq, hx] at hsplit
        exact (quote_inside hkey hsplit.symm).elim
  · cases q with
    | nil =>
      rw [List.nil_append] at hkey'
      obtain ⟨c, rest, hc⟩ := List.exists_cons_of_ne_nil hkey.1
      rw [← hkey', hc, List.cons_append] at hys
      have := hs c (by rw [hys]; rfl)
      rw [List.all_eq_true.mp hkey.2 c (hc ▸ List.mem_cons_self)] at this
      exact Bool.noConfusion this
    | cons d q =>
      have hmem := hmem_of_last (List.cons_ne_nil d q) hqlast
      exact absurd (hkey' ▸ List.mem_append_left y hmem) hquote

/-! ### Turns of the search -/

theorem jsonKey_of_none {key s : Bytes} {limit : ℕ} (h : find (quoted key) (s.take limit) = none) :
    jsonKey key s limit = none := by
  rw [jsonKey]
  split
  · rfl
  · rename_i heq
    rw [h] at heq
    cases heq

theorem jsonKey_of_some {key s : Bytes} {limit found : ℕ}
    (h : find (quoted key) (s.take limit) = some found) :
    jsonKey key s limit =
      let rest := s.drop (found + (quoted key).length)
      let colon := skipSpace rest
      if limit ≤ s.length - colon.length then none
      else if colon.head? = some 58 then some (skipSpace colon.tail)
      else jsonKey key rest (limit - (found + (quoted key).length)) := by
  rw [jsonKey]
  split
  · rename_i heq
    rw [h] at heq
    cases heq
  · rename_i heq
    rw [h, Option.some.injEq] at heq
    rw [heq]

theorem take_length_add (a s : Bytes) (n : ℕ) : (a ++ s).take (a.length + n) = a ++ s.take n := by
  rw [List.take_append, List.take_of_length_le (Nat.le_add_right _ _), Nat.add_sub_cancel_left]

/-- The search goes over what holds no start of the quoted name. -/
theorem jsonKey_append {key a s : Bytes} {n : ℕ}
    (h : find (quoted key) (a ++ s.take n) = (find (quoted key) (s.take n)).map (· + a.length)) :
    jsonKey key (a ++ s) (a.length + n) = jsonKey key s n := by
  cases hfind : find (quoted key) (s.take n) with
  | none =>
    rw [hfind, Option.map_none] at h
    rw [jsonKey_of_none hfind, jsonKey_of_none (by rw [take_length_add, h])]
  | some found =>
    rw [hfind, Option.map_some] at h
    have hdrop : (a ++ s).drop (found + a.length + (quoted key).length) =
        s.drop (found + (quoted key).length) := by
      rw [show found + a.length + (quoted key).length =
        a.length + (found + (quoted key).length) by omega, ← List.drop_drop, List.drop_left]
    have hle := skipSpace_length (s.drop (found + (quoted key).length))
    rw [List.length_drop] at hle
    have hlimit : a.length + n ≤ (a ++ s).length -
          (skipSpace (s.drop (found + (quoted key).length))).length ↔
        n ≤ s.length - (skipSpace (s.drop (found + (quoted key).length))).length := by
      rw [List.length_append]
      omega
    have hrest : a.length + n - (found + a.length + (quoted key).length) =
        n - (found + (quoted key).length) := by omega
    rw [jsonKey_of_some hfind, jsonKey_of_some (by rw [take_length_add, h])]
    simp only [hdrop, hlimit, hrest]

theorem jsonKey_skip {key a s : Bytes} (h : 34 ∉ a) (n : ℕ) :
    jsonKey key (a ++ s) (a.length + n) = jsonKey key s n :=
  jsonKey_append (find_skip _ h)

theorem NotName.take {s : Bytes} (h : NotName s) (n : ℕ) : NotName (s.take n) := by
  intro b hb
  cases n with
  | zero => exact nomatch hb
  | succ n =>
    cases s with
    | nil => exact nomatch hb
    | cons c s => exact h b hb

/-- A string that does not end in the quoted name. -/
theorem jsonKey_text_other {key : Bytes} (hkey : IsName key) {text : Text}
    (hother : ¬ quoted key <:+ text.render) {s : Bytes} (hs : NotName s) (n : ℕ) :
    jsonKey key (text.render ++ s) (text.render.length + n) = jsonKey key s n :=
  jsonKey_append (find_append_of_not_starts fun _ hi h =>
    hother (quoted_suffix hkey text (hs.take n) hi h).2)

theorem find_text {key : Bytes} (hkey : IsName key) {text : Text}
    (hends : quoted key <:+ text.render) {s : Bytes} (hs : NotName s) :
    find (quoted key) (text.render ++ s) = some (text.render.length - (quoted key).length) := by
  obtain ⟨w, hw⟩ := hends
  have hlength := congrArg List.length hw
  rw [List.length_append] at hlength
  have hshape : text.render ++ s = w ++ (quoted key ++ s) := by rw [← hw, List.append_assoc]
  have hnot : ∀ i < w.length, ¬ quoted key <+: (w ++ (quoted key ++ s)).drop i := by
    intro i hi h
    rw [← hshape] at h
    have := (quoted_suffix hkey text hs (by omega) h).1
    omega
  rw [hshape, find_append_of_not_starts hnot, find_eq_some_zero (List.prefix_append _ _),
    Option.map_some, Nat.zero_add, ← hlength, Nat.add_sub_cancel]

theorem jsonKey_text {key : Bytes} (hkey : IsName key) {text : Text}
    (hends : quoted key <:+ text.render) {s : Bytes} (hs : NotName s) {gap : Gap} {b : Byte}
    {r : Bytes} (hb : isGap b = false) (hshape : s = gap.bytes ++ b :: r) {n : ℕ}
    (hn : gap.bytes.length < n) :
    jsonKey key (text.render ++ s) (text.render.length + n) =
      if b = 58 then some (skipSpace r) else jsonKey key s n := by
  obtain ⟨w, hw⟩ := id hends
  have hlength := congrArg List.length hw
  rw [List.length_append] at hlength
  have hfind : find (quoted key) ((text.render ++ s).take (text.render.length + n)) =
      some (text.render.length - (quoted key).length) := by
    rw [take_length_add]
    exact find_text hkey hends (hs.take n)
  have hend : text.render.length - (quoted key).length + (quoted key).length =
      text.render.length := by omega
  have hskip : skipSpace s = b :: r := by rw [hshape, skipSpace_gap_cons gap hb]
  have hlimit : ¬ text.render.length + n ≤ (text.render ++ s).length - (b :: r).length := by
    rw [hshape, List.length_append, List.length_append]
    omega
  rw [jsonKey_of_some hfind]
  simp only [hend, List.drop_left, hskip, hlimit, if_false, List.head?_cons, Option.some.injEq,
    List.tail_cons, Nat.add_sub_cancel_left]

/-! ### The search in a tree -/

/-- What stands behind a value: what is left of the array or the object, and the text behind that. -/
def behindValue {k : Kind} (after : Gap) (rest : Json k) (s : Bytes) : Bytes :=
  after.bytes ++ (rest.comma ++ (rest.render ++ s))

/-- What stands behind the colon of the first member whose name is written so that it ends in the
quoted name; `s` is what stands behind the tree. -/
def search (key : Bytes) : {k : Kind} → Json k → Bytes → Option Bytes
  | _, .array _ elements, s => search key elements (93 :: s)
  | _, .object _ members, s => search key members (125 :: s)
  | _, .element _ v after rest, s =>
    (search key v (behindValue after rest s)).or (search key rest s)
  | _, .member _ name _ _ v after rest, s =>
    if quoted key <:+ name.render then some (v.render ++ behindValue after rest s)
    else (search key v (behindValue after rest s)).or (search key rest s)
  | _, _, _ => none

/-- `jsonKey` up to a limit with a number of bytes behind it. -/
def keyBefore (key : Bytes) (behind : ℕ) (s : Bytes) : Option Bytes :=
  jsonKey key s (s.length - behind)

/-- A value ends here, before the limit. -/
def Closed (behind : ℕ) (s : Bytes) : Prop :=
  ∃ (gap : Gap) (b : Byte) (r : Bytes), s = gap.bytes ++ b :: r ∧ (b = 44 ∨ b = 93 ∨ b = 125) ∧
    behind ≤ r.length

theorem Closed.le {behind : ℕ} {s : Bytes} (h : Closed behind s) : behind ≤ s.length := by
  obtain ⟨gap, b, r, rfl, -, hr⟩ := h
  rw [List.length_append, List.length_cons]
  omega

theorem closed_cons {behind : ℕ} {b : Byte} (hb : b = 44 ∨ b = 93 ∨ b = 125) {s : Bytes}
    (hs : behind ≤ s.length) : Closed behind (b :: s) := ⟨default, b, s, rfl, hb, hs⟩

theorem Closed.gap {behind : ℕ} {s : Bytes} (h : Closed behind s) (g : Gap) :
    Closed behind (g.bytes ++ s) := by
  obtain ⟨gap, b, r, rfl, hb, hr⟩ := h
  refine ⟨⟨g.bytes ++ gap.bytes, ?_⟩, b, r, (List.append_assoc _ _ _).symm, hb, hr⟩
  rw [List.all_append, g.blank, gap.blank]
  rfl

theorem closed_behindValue {k : Kind} (after : Gap) (rest : Json k) {behind : ℕ} {s : Bytes}
    (hs : Closed behind s) (hrest : rest.comma = [44] ∨ rest.comma = [] ∧ rest.render = []) :
    Closed behind (behindValue after rest s) := by
  refine Closed.gap ?_ after
  rcases hrest with h | ⟨hcomma, hrender⟩
  · rw [h]
    have hle : behind ≤ (rest.render ++ s).length := by
      rw [List.length_append]
      exact Nat.le_trans hs.le (Nat.le_add_left _ _)
    exact closed_cons (Or.inl rfl) hle
  · rw [hcomma, hrender]
    exact hs

theorem comma_cases {k : Kind} (rest : Json k) (hk : k ≠ .value) :
    rest.comma = [44] ∨ rest.comma = [] ∧ rest.render = [] := by
  cases rest with
  | literal | number | string | array | object => exact absurd rfl hk
  | noElement | noMember => exact Or.inr ⟨rfl, rfl⟩
  | element | member => exact Or.inl rfl

theorem notName_gap (g : Gap) {b : Byte} (hb : isNameByte b = false) (s : Bytes) :
    NotName (g.bytes ++ b :: s) := by
  intro c hc
  cases hg : g.bytes with
  | nil =>
    rw [hg] at hc
    rw [← Option.some.inj hc]
    exact hb
  | cons d ds =>
    rw [hg] at hc
    have hd := List.all_eq_true.mp g.blank d (hg ▸ List.mem_cons_self)
    rw [← Option.some.inj hc]
    simp only [isGap, Bool.or_eq_true, decide_eq_true_eq] at hd
    rcases hd with ((rfl | rfl) | rfl) | rfl <;> rfl

theorem Closed.notName {behind : ℕ} {s : Bytes} (h : Closed behind s) : NotName s := by
  obtain ⟨gap, b, r, rfl, hb, -⟩ := h
  exact notName_gap gap (by rcases hb with rfl | rfl | rfl <;> rfl) r

theorem keyBefore_skip {key a s : Bytes} {behind : ℕ} (ha : 34 ∉ a) (hs : behind ≤ s.length) :
    keyBefore key behind (a ++ s) = keyBefore key behind s := by
  rw [keyBefore, keyBefore, List.length_append, Nat.add_sub_assoc hs]
  exact jsonKey_skip ha _

theorem not_quote_of_neutral {a : Bytes} (h : ∀ b ∈ a, isNeutral b = true) : 34 ∉ a := fun hmem =>
  absurd (h 34 hmem) (by decide)

theorem not_quote_gap (g : Gap) : 34 ∉ g.bytes := not_quote_of_neutral (neutral_gap g)

/-- A string as a value. -/
theorem keyBefore_string {key : Bytes} (hkey : IsName key) (text : Text) {behind : ℕ} {s : Bytes}
    (hs : Closed behind s) : keyBefore key behind (text.render ++ s) = keyBefore key behind s := by
  have hlimit : (text.render ++ s).length - behind = text.render.length + (s.length - behind) := by
    rw [List.length_append, Nat.add_sub_assoc hs.le]
  rw [keyBefore, keyBefore, hlimit]
  by_cases hends : quoted key <:+ text.render
  · obtain ⟨gap, b, r, hshape, hb, hr⟩ := id hs
    have hgap : isGap b = false := by rcases hb with rfl | rfl | rfl <;> rfl
    have hcolon : b ≠ 58 := by rcases hb with rfl | rfl | rfl <;> decide
    have hlt : gap.bytes.length < s.length - behind := by
      rw [hshape, List.length_append, List.length_cons]
      omega
    rw [jsonKey_text hkey hends hs.notName hgap hshape hlt, if_neg hcolon]
  · exact jsonKey_text_other hkey hends hs.notName _

/-- The name of a member. -/
theorem keyBefore_name {key : Bytes} (hkey : IsName key) (name : Text) (gap : Gap) {behind : ℕ}
    {s : Bytes} (hs : behind ≤ s.length) :
    keyBefore key behind (name.render ++ (gap.bytes ++ 58 :: s)) =
      if quoted key <:+ name.render then some (skipSpace s) else keyBefore key behind s := by
  have hnot := notName_gap gap (show isNameByte 58 = false by decide) s
  have hle : behind ≤ (gap.bytes ++ 58 :: s).length := by
    rw [List.length_append, List.length_cons]
    omega
  have hlimit : (name.render ++ (gap.bytes ++ 58 :: s)).length - behind =
      name.render.length + ((gap.bytes ++ 58 :: s).length - behind) := by
    rw [List.length_append, Nat.add_sub_assoc hle]
  split_ifs with hends
  · have hlt : gap.bytes.length < (gap.bytes ++ 58 :: s).length - behind := by
      rw [List.length_append, List.length_cons]
      omega
    rw [keyBefore, hlimit, jsonKey_text hkey hends hnot (by decide) rfl hlt, if_pos rfl]
  · have hshape : gap.bytes ++ 58 :: s = (gap.bytes ++ [58]) ++ s := by
      rw [List.append_assoc]
      rfl
    have hquote : 34 ∉ gap.bytes ++ [58] := by
      rw [List.mem_append, not_or]
      exact ⟨not_quote_gap gap, by decide⟩
    rw [keyBefore, hlimit, jsonKey_text_other hkey hends hnot, ← keyBefore, hshape,
      keyBefore_skip hquote hs]

/-- A value starts with something that is no blank. -/
theorem exists_cons_render (v : Json .value) :
    ∃ b rest, v.render = b :: rest ∧ isGap b = false := by
  cases v with
  | literal l => cases l <;> exact ⟨_, _, rfl, by decide⟩
  | number n =>
    obtain ⟨b, rest, hn, hb, -⟩ := number_ne_nil n
    refine ⟨b, rest, hn, ?_⟩
    rw [Bool.eq_false_iff]
    intro hgap
    simp only [isGap, Bool.or_eq_true, decide_eq_true_eq] at hgap
    rcases hgap with ((rfl | rfl) | rfl) | rfl <;> exact absurd hb (by decide)
  | string text => exact ⟨34, _, rfl, rfl⟩
  | array gap elements => exact ⟨91, _, rfl, rfl⟩
  | object gap members => exact ⟨123, _, rfl, rfl⟩

theorem skipSpace_render (g : Gap) (v : Json .value) (s : Bytes) :
    skipSpace (g.bytes ++ (v.render ++ s)) = v.render ++ s := by
  obtain ⟨b, rest, hv, hb⟩ := exists_cons_render v
  rw [hv, List.cons_append, skipSpace_gap_cons g hb]

theorem enclosed_append (left right : Byte) (gap inner s : Bytes) :
    left :: (gap ++ (inner ++ [right])) ++ s = (left :: gap) ++ (inner ++ right :: s) := by
  simp only [List.cons_append, List.append_assoc, List.nil_append]

/-- What `jsonKey` finds in the text of a tree, or behind it. -/
theorem jsonKey_render {key : Bytes} (hkey : IsName key) {behind : ℕ} {k : Kind} (j : Json k) :
    ∀ {s : Bytes}, Closed behind s →
      keyBefore key behind (j.render ++ s) = (search key j s).or (keyBefore key behind s) := by
  have hcomma {k : Kind} (rest : Json k) : 34 ∉ rest.comma :=
    not_quote_of_neutral (neutral_comma rest)
  have hbehind {k : Kind} (after : Gap) (rest : Json k) {s : Bytes} (hs : Closed behind s) :
      keyBefore key behind (behindValue after rest s) =
        keyBefore key behind (rest.render ++ s) := by
    have hle : behind ≤ (rest.render ++ s).length := by
      rw [List.length_append]
      exact Nat.le_trans hs.le (Nat.le_add_left _ _)
    have hle' : behind ≤ (rest.comma ++ (rest.render ++ s)).length := by
      rw [List.length_append]
      exact Nat.le_trans hle (Nat.le_add_left _ _)
    rw [behindValue, keyBefore_skip (not_quote_gap after) hle', keyBefore_skip (hcomma rest) hle]
  have hskip {a : Bytes} (ha : 34 ∉ a) {k : Kind} {j : Json k} {s : Bytes} (hs : Closed behind s) :
      keyBefore key behind (a ++ (j.render ++ s)) = keyBefore key behind (j.render ++ s) := by
    refine keyBefore_skip ha ?_
    rw [List.length_append]
    exact Nat.le_trans hs.le (Nat.le_add_left _ _)
  have hopen (gap : Gap) {b : Byte} (hb : 34 ≠ b) : 34 ∉ b :: gap.bytes := by
    rw [List.mem_cons, not_or]
    exact ⟨hb, not_quote_gap gap⟩
  have hright {b : Byte} {s : Bytes} (hs : Closed behind s) (hb : b = 44 ∨ b = 93 ∨ b = 125) :
      Closed behind (b :: s) := closed_cons hb hs.le
  have hclose {b : Byte} {s : Bytes} (hs : Closed behind s) (hb : 34 ∉ [b]) :
      keyBefore key behind (b :: s) = keyBefore key behind s :=
    keyBefore_skip (a := [b]) hb hs.le
  induction j with
  | literal l =>
    intro s hs
    exact keyBefore_skip (not_quote_of_neutral (neutral_literal l)) hs.le
  | number n =>
    intro s hs
    exact keyBefore_skip (not_quote_of_neutral fun b hb =>
      isNeutral_of_isNumeric (numeric_render n b hb)) hs.le
  | string text =>
    intro s hs
    exact keyBefore_string hkey text hs
  | array gap elements ih =>
    intro s hs
    rw [Json.render, enclosed_append, hskip (hopen gap (by decide))
      (hright hs (Or.inr (Or.inl rfl))), ih (hright hs (Or.inr (Or.inl rfl))),
      hclose hs (by decide), search]
  | object gap members ih =>
    intro s hs
    rw [Json.render, enclosed_append, hskip (hopen gap (by decide))
      (hright hs (Or.inr (Or.inr rfl))), ih (hright hs (Or.inr (Or.inr rfl))),
      hclose hs (by decide), search]
  | noElement =>
    intro s hs
    rfl
  | element before v after rest ihv ihrest =>
    intro s hs
    have hclosed := closed_behindValue after rest hs (comma_cases rest (fun h => by cases h))
    have hshape : (Json.element before v after rest).render ++ s =
        before.bytes ++ (v.render ++ behindValue after rest s) := by
      simp only [Json.render, behindValue, List.append_assoc]
    rw [hshape, hskip (not_quote_gap before) hclosed, ihv hclosed, hbehind after rest hs, ihrest hs,
      search, Option.or_assoc]
  | noMember =>
    intro s hs
    rfl
  | member before name beforeColon afterColon v after rest ihv ihrest =>
    intro s hs
    have hclosed := closed_behindValue after rest hs (comma_cases rest (fun h => by cases h))
    have hvalue : behind ≤ (v.render ++ behindValue after rest s).length := by
      rw [List.length_append]
      exact Nat.le_trans hclosed.le (Nat.le_add_left _ _)
    have hcolon : behind ≤ (afterColon.bytes ++ (v.render ++ behindValue after rest s)).length := by
      rw [List.length_append]
      exact Nat.le_trans hvalue (Nat.le_add_left _ _)
    have hname : behind ≤ (name.render ++ (beforeColon.bytes ++ 58 :: (afterColon.bytes ++
        (v.render ++ behindValue after rest s)))).length := by
      rw [List.length_append, List.length_append, List.length_cons]
      omega
    have hshape : (Json.member before name beforeColon afterColon v after rest).render ++ s =
        before.bytes ++ (name.render ++ (beforeColon.bytes ++ 58 :: (afterColon.bytes ++
          (v.render ++ behindValue after rest s)))) := by
      simp only [Json.render, behindValue, List.append_assoc, List.cons_append]
    rw [hshape, keyBefore_skip (not_quote_gap before) hname, keyBefore_name hkey _ _ hcolon, search]
    split_ifs with hends
    · rw [skipSpace_render, Option.some_or]
    · rw [hskip (not_quote_gap afterColon) hclosed, ihv hclosed, hbehind after rest hs, ihrest hs,
        Option.or_assoc]

/-! ### Members of the object itself -/

/-- The value of the first member of that name, and what stands behind it. -/
def topMember (key : Bytes) : {k : Kind} → Json k → Bytes → Option (Json .value × Bytes)
  | _, .member _ name _ _ v after rest, s =>
    if name.decode = key then some (v, behindValue after rest s) else topMember key rest s
  | _, _, _ => none

/-- The text from the value of the member of that name on. -/
def topLevel (key : Bytes) {k : Kind} (j : Json k) (s : Bytes) : Option Bytes :=
  (topMember key j s).map fun r => r.1.render ++ r.2

/-- The name of some member, at any depth, is written so that it ends in the quoted name. -/
def Mentions (key : Bytes) : {k : Kind} → Json k → Prop
  | _, .array _ elements => Mentions key elements
  | _, .object _ members => Mentions key members
  | _, .element _ v _ rest => Mentions key v ∨ Mentions key rest
  | _, .member _ name _ _ v _ rest =>
    quoted key <:+ name.render ∨ Mentions key v ∨ Mentions key rest
  | _, _ => False

/-- Up to the member of that name, which is written without escapes, or in the whole object when
there is none, no name ends in the quoted name. -/
def Unshadowed (key : Bytes) : {k : Kind} → Json k → Prop
  | _, .member _ name _ _ v _ rest =>
    if name.decode = key then quoted key <:+ name.render
    else ¬ quoted key <:+ name.render ∧ ¬ Mentions key v ∧ Unshadowed key rest
  | _, _ => True

theorem search_eq_none {key : Bytes} {k : Kind} (j : Json k) :
    ∀ s : Bytes, search key j s = none ↔ ¬ Mentions key j := by
  induction j with
  | literal | number | string | noElement | noMember =>
    exact fun _ => ⟨fun _ h => h, fun _ => rfl⟩
  | array gap elements ih => exact fun s => ih (93 :: s)
  | object gap members ih => exact fun s => ih (125 :: s)
  | element before v after rest ihv ihrest =>
    intro s
    rw [search, Option.or_eq_none_iff, ihv, ihrest, Mentions, not_or]
  | member before name beforeColon afterColon v after rest ihv ihrest =>
    intro s
    rw [search, Mentions, not_or, not_or]
    split_ifs with hends
    · exact ⟨fun h => (nomatch h), fun h => absurd hends h.1⟩
    · rw [Option.or_eq_none_iff, ihv, ihrest, and_iff_right hends]

theorem length_behindValue {k : Kind} (after : Gap) (rest : Json k) (s : Bytes) :
    (rest.render ++ s).length ≤ (behindValue after rest s).length := by
  simp only [behindValue, List.length_append]
  omega

theorem render_pos (v : Json .value) : 0 < v.render.length := by
  obtain ⟨b, tail, hv, -⟩ := exists_cons_render v
  rw [hv]
  exact Nat.succ_pos _

theorem length_member (before : Gap) (name : Text) (beforeColon afterColon : Gap)
    (v : Json .value) (after : Gap) (rest : Json .members) (s : Bytes) :
    (v.render ++ behindValue after rest s).length <
      ((Json.member before name beforeColon afterColon v after rest).render ++ s).length := by
  simp only [Json.render, behindValue, List.length_append, List.length_cons]
  omega

/-- What is found lies in the tree. -/
theorem search_length {key : Bytes} {k : Kind} (j : Json k) :
    ∀ {s x : Bytes}, search key j s = some x →
      s.length < x.length ∧ x.length < (j.render ++ s).length := by
  induction j with
  | literal | number | string | noElement | noMember => exact fun h => nomatch h
  | array gap elements ih | object gap elements ih =>
    intro s x h
    obtain ⟨hlow, hhigh⟩ := ih h
    rw [Json.render, enclosed_append, List.length_append, List.length_cons]
    rw [List.length_cons] at hlow
    exact ⟨by omega, by omega⟩
  | element before v after rest ihv ihrest =>
    intro s x h
    have hlength : ((Json.element before v after rest).render ++ s).length =
        before.bytes.length + (v.render ++ behindValue after rest s).length := by
      simp only [Json.render, behindValue, List.length_append]
      omega
    have hbehind := length_behindValue after rest s
    rw [List.length_append] at hbehind
    rw [search, Option.or_eq_some_iff] at h
    rw [hlength]
    rcases h with h | ⟨-, h⟩
    · obtain ⟨hlow, hhigh⟩ := ihv h
      exact ⟨by omega, by omega⟩
    · obtain ⟨hlow, hhigh⟩ := ihrest h
      rw [List.length_append] at hhigh ⊢
      exact ⟨by omega, by omega⟩
  | member before name beforeColon afterColon v after rest ihv ihrest =>
    intro s x h
    have hlength := length_member before name beforeColon afterColon v after rest s
    have hbehind := length_behindValue after rest s
    rw [List.length_append] at hbehind
    have hpos := render_pos v
    rw [search] at h
    split_ifs at h with hends
    · rw [← Option.some.inj h]
      refine ⟨?_, hlength⟩
      rw [List.length_append]
      omega
    rw [Option.or_eq_some_iff] at h
    rcases h with h | ⟨-, h⟩
    · obtain ⟨hlow, hhigh⟩ := ihv h
      exact ⟨by omega, by omega⟩
    · obtain ⟨hlow, hhigh⟩ := ihrest h
      rw [List.length_append] at hhigh
      rw [List.length_append] at hlength
      exact ⟨by omega, by omega⟩

theorem topLevel_member (key : Bytes) (before : Gap) (name : Text) (beforeColon afterColon : Gap)
    (v : Json .value) (after : Gap) (rest : Json .members) (s : Bytes) :
    topLevel key (.member before name beforeColon afterColon v after rest) s =
      if name.decode = key then some (v.render ++ behindValue after rest s)
      else topLevel key rest s := by
  rw [topLevel, topMember]
  split_ifs <;> rfl

theorem topLevel_length {key : Bytes} {k : Kind} (j : Json k) :
    ∀ {s x : Bytes}, topLevel key j s = some x → x.length < (j.render ++ s).length := by
  induction j with
  | literal | number | string | array | object | noElement | element | noMember =>
    exact fun h => nomatch h
  | member before name beforeColon afterColon v after rest ihv ihrest =>
    intro s x h
    have hlength := length_member before name beforeColon afterColon v after rest s
    have hbehind := length_behindValue after rest s
    rw [topLevel_member] at h
    split_ifs at h with hname
    · rw [← Option.some.inj h]
      exact hlength
    · have := ihrest h
      rw [List.length_append] at hlength
      omega

/-- The search finds the member of the object itself exactly when its name is not shadowed. -/
theorem search_eq_topLevel {key : Bytes} {k : Kind} (j : Json k) (hk : k = .members) (s : Bytes) :
    search key j s = topLevel key j s ↔ Unshadowed key j := by
  induction j with
  | literal | number | string | array | object | noElement | element => exact nomatch hk
  | noMember => exact ⟨fun _ => trivial, fun _ => rfl⟩
  | member before name beforeColon afterColon v after rest ihv ihrest =>
    have hbehind := length_behindValue after rest s
    have hlength : (v.render ++ behindValue after rest s).length =
        v.render.length + (behindValue after rest s).length := List.length_append
    have hpos := render_pos v
    rw [topLevel_member, search, Unshadowed]
    split_ifs with hends hname hname
    · exact ⟨fun _ => hends, fun _ => rfl⟩
    · -- another member is found, before everything that stands behind it
      refine ⟨fun h => ?_, fun h => absurd hends h.1⟩
      have := topLevel_length rest h.symm
      omega
    · refine ⟨fun h => ?_, fun h => absurd h hends⟩
      rw [Option.or_eq_some_iff] at h
      rcases h with h | ⟨-, h⟩
      · have := (search_length v h).2
        omega
      · have := (search_length rest h).2
        omega
    · rw [and_iff_right hends, ← search_eq_none v (behindValue after rest s),
        ← ihrest rfl]
      cases hv : search key v (behindValue after rest s) with
      | none =>
        rw [Option.none_or]
        exact ⟨fun h => ⟨rfl, h⟩, fun h => h.2⟩
      | some x =>
        rw [Option.some_or]
        refine ⟨fun h => ?_, fun h => nomatch h.1⟩
        have hlow := (search_length v hv).1
        have hhigh := topLevel_length rest h.symm
        omega

end Chat

end FortAI
