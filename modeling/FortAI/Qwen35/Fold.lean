import FortAI.Qwen35.Stack
import Mathlib.Data.List.Forall2
import Mathlib.Data.List.Induction

/-!
# What tokens leave in the layers

The specification of the caches: the tokens pass all layers one after the other, a recurrent layer folds
its state over their rows, and an attention layer caches an entry for each of them.

* `Stack.fold` : the states and the entries behind some tokens, and their rows.
* `Stack.Holds` : caches that hold what tokens leave.
* `holds_batch`, `holds_restore` : a batch adds its tokens, a checkpoint takes back those behind it.
* `holds_scalar` : a step adds its token.
-/

namespace FortAI

namespace Qwen35

variable {σ K H : Type}

/-- What is in a layer behind some tokens: the state, and an entry for each of them. -/
structure Held (σ K : Type) where
  state : σ
  entries : List (Token × K)

/-- A row through a layer that holds just what is behind it. -/
def Layer.hold (layer : Layer σ K H) : Stage (Held σ K) (Row H) := fun h row =>
  match layer with
  | .recurrent step =>
    ({ h with state := (step h.state row.hidden).1 }, { row with hidden := (step h.state row.hidden).2 })
  | .attention key attend =>
    let entries := h.entries ++ [(row.token, key row.hidden)]
    ({ h with entries }, { row with hidden := attend row.hidden (entries.map Prod.snd) })

/-- The tokens one after the other, from nothing. -/
def Stack.fold (m : Stack σ K H) (tokens : List Token) : List (Held σ K) × List (Row H) :=
  (Stage.cascade (m.layers.map fun p => p.layer.hold)).run (m.layers.map fun p => ⟨p.zero, []⟩)
    (m.rowsFrom 0 tokens)

/-- The row of the target behind tokens. -/
def Stack.row (m : Stack σ K H) (tokens : List Token) : Option H := (m.fold tokens).2.getLast?.map Row.hidden

/-- The cache of a layer has the state, and the entries at the positions in front of `count`. -/
def LayerCache.Holds (c : LayerCache σ K) (layer : Layer σ K H) (place : Place) (count : ℕ) (h : Held σ K) :
    Prop :=
  match layer with
  | .recurrent _ => (c.states place).current = h.state
  | .attention _ _ => h.entries.length = count ∧ ∀ q < count, c.rows q = h.entries[q]?

/-- The same of all layers. -/
def Hold (place : Placed σ K H → Place) (count : ℕ) :
    List (Placed σ K H) → List (LayerCache σ K) → List (Held σ K) → Prop
  | [], [], [] => True
  | p :: ps, c :: cs, h :: hs => c.Holds p.layer (place p) count h ∧ Hold place count ps cs hs
  | _, _, _ => False

/-- The caches hold what these tokens leave. -/
def Stack.Holds (m : Stack σ K H) (place : Placed σ K H → Place) (t : Caches σ K) (tokens : List Token) : Prop :=
  Hold place tokens.length m.layers t.layers (m.fold tokens).1

/-- The rows of the KV caches at the positions of these tokens are of these tokens. -/
def Stack.RowsOf (m : Stack σ K H) (t : Caches σ K) (tokens : List Token) : Prop :=
  List.Forall₂ (fun p c => ∀ key attend, p.layer = .attention key attend →
    ∀ q < tokens.length, (c.rows q).map Prod.fst = tokens[q]?) m.layers t.layers

/-! ### One layer -/

section

variable {layer : Layer σ K H} {place : Place} {c : LayerCache σ K} {h : Held σ K}

theorem filterMap_range {α : Type} (xs : List α) : (List.range xs.length).filterMap (fun q => xs[q]?) = xs := by
  induction xs using List.reverseRecOn with
  | nil => rfl
  | append_singleton xs x ih =>
    rw [List.length_append, List.length_singleton, List.range_succ, List.filterMap_append]
    have hlast : [xs.length].filterMap (fun q => (xs ++ [x])[q]?) = [x] := by simp
    rw [hlast]
    congr 1
    refine (List.filterMap_congr fun q hq => ?_).trans ih
    exact List.getElem?_append_left (List.mem_range.mp hq)

/-- The entries that an attention layer sees are those of the tokens up to its row. -/
theorem step_entries {row : Row H} (hlength : h.entries.length = row.position)
    (hrows : ∀ q < row.position, c.rows q = h.entries[q]?) (entry : Token × K) (q : ℕ) (hq : q < row.position + 1) :
    Function.update c.rows row.position (some entry) q = (h.entries ++ [entry])[q]? := by
  rcases Nat.lt_succ_iff_lt_or_eq.mp hq with hlt | rfl
  · rw [Function.update_of_ne hlt.ne, hrows q hlt, List.getElem?_append_left (hlength ▸ hlt)]
  · rw [Function.update_self, List.getElem?_append_right hlength.le, hlength, Nat.sub_self]
    rfl

theorem holds_step {row : Row H} (hc : c.Holds layer place row.position h) :
    (layer.step place c row).1.Holds layer place (row.position + 1) (layer.hold h row).1 ∧
      (layer.step place c row).2 = (layer.hold h row).2 := by
  cases layer with
  | recurrent step =>
    have hstate : (c.states place).current = h.state := hc
    constructor
    · show (Function.update c.states place _ place).current = (step h.state row.hidden).1
      rw [Function.update_self, hstate]
    · show ({ row with hidden := (step (c.states place).current row.hidden).2 } : Row H) = _
      rw [hstate]
      rfl
  | attention key attend =>
    obtain ⟨hlength, hrows⟩ := hc
    have hentries := step_entries hlength hrows (row.token, key row.hidden)
    have hcount : (h.entries ++ [(row.token, key row.hidden)]).length = row.position + 1 := by
      rw [List.length_append, hlength, List.length_singleton]
    refine ⟨⟨hcount, hentries⟩, ?_⟩
    have hseen : (List.range (row.position + 1)).filterMap
        (Function.update c.rows row.position (some (row.token, key row.hidden))) =
          h.entries ++ [(row.token, key row.hidden)] := by
      rw [← hcount]
      refine (List.filterMap_congr fun q hq => ?_).trans (filterMap_range _)
      exact hentries q (hcount ▸ List.mem_range.mp hq)
    show ({ row with hidden := attend row.hidden (((List.range (row.position + 1)).filterMap _).map Prod.snd) } :
      Row H) = _
    rw [hseen]
    rfl

/-- The rows stand at successive positions. -/
def Successive : ℕ → List (Row H) → Prop
  | _, [] => True
  | position, row :: rows => row.position = position ∧ Successive (position + 1) rows

theorem successive_run {position : ℕ} {rows : List (Row H)} (hrows : Successive position rows) :
    Successive position (layer.hold.run h rows).2 := by
  induction rows generalizing h position with
  | nil => trivial
  | cons row rows ih =>
    have hposition : (layer.hold h row).2.position = row.position := by
      cases layer <;> rfl
    exact ⟨hposition.trans hrows.1, ih hrows.2⟩

theorem successive_take {position : ℕ} {rows : List (Row H)} (hrows : Successive position rows) (k : ℕ) :
    Successive position (rows.take k) := by
  induction rows generalizing position k with
  | nil =>
    rw [List.take_nil]
    trivial
  | cons row rows ih =>
    cases k with
    | zero => trivial
    | succ k => exact ⟨hrows.1, ih hrows.2 k⟩

theorem holds_run {position : ℕ} {rows : List (Row H)} (hc : c.Holds layer place position h)
    (hrows : Successive position rows) :
    ((layer.step place).run c rows).1.Holds layer place (position + rows.length) (layer.hold.run h rows).1 ∧
      ((layer.step place).run c rows).2 = (layer.hold.run h rows).2 := by
  induction rows generalizing c h position with
  | nil => exact ⟨hc, rfl⟩
  | cons row rows ih =>
    obtain ⟨rfl, hrows⟩ := hrows
    obtain ⟨hstep, hout⟩ := holds_step hc
    obtain ⟨hrun, houts⟩ := ih hstep hrows
    rw [List.length_cons, ← Nat.add_assoc, Nat.add_right_comm]
    exact ⟨hrun, List.cons_eq_cons.mpr ⟨hout, houts⟩⟩

/-- Entries are only added. -/
theorem entries_run (rows : List (Row H)) : h.entries <+: (layer.hold.run h rows).1.entries := by
  induction rows generalizing h with
  | nil => exact List.prefix_refl _
  | cons row rows ih =>
    refine List.IsPrefix.trans ?_ ih
    cases layer with
    | recurrent step => exact List.prefix_refl _
    | attention key attend => exact List.prefix_append _ _

/-- Behind more rows a cache still has the entries of the first ones. -/
theorem rows_of_prefix {entries entries' : List (Token × K)} {count : ℕ} (hentries : entries <+: entries')
    (hlength : entries.length = count) {q : ℕ} (hq : q < count) : entries'[q]? = entries[q]? := by
  obtain ⟨rest, rfl⟩ := hentries
  exact List.getElem?_append_left (hlength ▸ hq)

theorem hold_run_take (rows : List (Row H)) (k : ℕ) :
    (layer.hold.run h (rows.take k)).1.entries <+: (layer.hold.run h rows).1.entries := by
  have happend := Stage.run_append layer.hold h (rows.take k) (rows.drop k)
  rw [List.take_append_drop] at happend
  rw [happend]
  exact entries_run _

section

variable (step : σ → H → σ × H) (rows : List (Row H)) (k : Checkpoint)

theorem restore_current : (((Layer.recurrent step : Layer σ K H).restore place k c).states place).current =
    (c.states place).at k := by
  simp [Layer.restore]

theorem batch_current : (((Layer.recurrent step : Layer σ K H).batch place c rows).1.states place).current =
    ((((Layer.recurrent step).step place).run c rows).1.states place).current := by
  simp [Layer.batch]

theorem batch_at (hk : k.rows ≤ rows.length) :
    (((Layer.recurrent step : Layer σ K H).batch place c rows).1.states place).at k =
      (Layer.recurrent step).behind place c rows k.rows := by
  cases k with
  | first =>
    have hfirst : 1 ≤ rows.length := hk
    simp [Layer.batch, Checkpointed.at, Checkpoint.rows, hfirst]
  | second =>
    have hsecond : 2 ≤ rows.length := hk
    simp [Layer.batch, Checkpointed.at, Checkpoint.rows, hsecond]

end

/-- A batch through a layer, and the way back to its checkpoints. -/
theorem holds_layer {position : ℕ} {rows : List (Row H)} (hc : c.Holds layer place position h)
    (hrows : Successive position rows) :
    (layer.batch place c rows).2 = (layer.hold.run h rows).2 ∧
      (layer.batch place c rows).1.Holds layer place (position + rows.length) (layer.hold.run h rows).1 ∧
      ∀ k : Checkpoint, k.rows ≤ rows.length →
        (layer.restore place k (layer.batch place c rows).1).Holds layer place (position + k.rows)
          (layer.hold.run h (rows.take k.rows)).1 := by
  obtain ⟨hrun, houts⟩ := holds_run hc hrows
  cases layer with
  | recurrent step =>
    refine ⟨houts, (batch_current step rows).trans hrun, fun k hk => ?_⟩
    have hbehind := (holds_run hc (successive_take hrows k.rows)).1
    exact (restore_current step k).trans ((batch_at step rows k hk).trans hbehind)
  | attention key attend =>
    refine ⟨houts, hrun, fun k hk => ?_⟩
    have htake := (holds_run hc (successive_take hrows k.rows)).1
    have hlength := htake.1
    rw [List.length_take, Nat.min_eq_left hk] at hlength
    refine ⟨hlength, fun q hq => ?_⟩
    rw [← rows_of_prefix (hold_run_take rows k.rows) hlength hq]
    exact hrun.2 q (by omega)

end

/-! ### All layers -/

/-- A batch has the state of a recurrent layer on the device that owns it. -/
def Placed.onOwner (p : Placed σ K H) : Place := .device p.owner

section

variable {ps : List (Placed σ K H)} {cs : List (LayerCache σ K)} {hs : List (Held σ K)}
  {place : Placed σ K H → Place}

theorem hold_batch {position : ℕ} {rows : List (Row H)} (hc : Hold Placed.onOwner position ps cs hs)
    (hrows : Successive position rows) :
    (Stage.cascade (ps.map fun p => p.layer.batch (.device p.owner)) cs rows).2 =
        ((Stage.cascade (ps.map fun p => p.layer.hold)).run hs rows).2 ∧
      Hold Placed.onOwner (position + rows.length) ps
        (Stage.cascade (ps.map fun p => p.layer.batch (.device p.owner)) cs rows).1
        ((Stage.cascade (ps.map fun p => p.layer.hold)).run hs rows).1 ∧
      ∀ k : Checkpoint, k.rows ≤ rows.length → Hold Placed.onOwner (position + k.rows) ps
        (ps.zipWith (fun p => p.layer.restore (.device p.owner) k)
          (Stage.cascade (ps.map fun p => p.layer.batch (.device p.owner)) cs rows).1)
        ((Stage.cascade (ps.map fun p => p.layer.hold)).run hs (rows.take k.rows)).1 := by
  induction ps generalizing cs hs rows with
  | nil =>
    cases cs with
    | cons c cs => exact hc.elim
    | nil =>
      cases hs with
      | cons h hs => exact hc.elim
      | nil =>
        have hrun (rows : List (Row H)) : (Stage.cascade []).run ([] : List (Held σ K)) rows = ([], rows) :=
          Stage.run_of_forall_eq _ _ _ fun _ => rfl
        simp only [List.map_nil, hrun]
        exact ⟨rfl, trivial, fun _ _ => trivial⟩
  | cons p ps ih =>
    cases cs with
    | nil => exact hc.elim
    | cons c cs =>
      cases hs with
      | nil => exact hc.elim
      | cons h hs =>
        obtain ⟨hlayer, hrest⟩ := hc
        obtain ⟨hout, hhold, hcheckpoint⟩ := holds_layer hlayer hrows
        have hrows' : Successive position (p.layer.hold.run h rows).2 := successive_run hrows
        obtain ⟨hout', hhold', hcheckpoint'⟩ := ih hrest hrows'
        simp only [List.map_cons, Stage.cascade_cons, Stage.run_cascade_cons, List.zipWith_cons_cons]
        rw [show p.layer.batch (.device p.owner) c rows = p.layer.batch p.onOwner c rows from rfl, hout]
        rw [Stage.length_run] at hhold' hcheckpoint'
        refine ⟨hout', ⟨hhold, hhold'⟩, fun k hk => ⟨hcheckpoint k hk, ?_⟩⟩
        rw [Stage.run_take]
        exact hcheckpoint' k hk

theorem hold_scalar (row : Row H) (hc : Hold place row.position ps cs hs) :
    (Stage.cascade (ps.map fun p => p.layer.step (place p)) cs row).2 =
        (Stage.cascade (ps.map fun p => p.layer.hold) hs row).2 ∧
      Hold place (row.position + 1) ps (Stage.cascade (ps.map fun p => p.layer.step (place p)) cs row).1
        (Stage.cascade (ps.map fun p => p.layer.hold) hs row).1 := by
  induction ps generalizing cs hs row with
  | nil =>
    cases cs with
    | cons c cs => exact hc.elim
    | nil =>
      cases hs with
      | cons h hs => exact hc.elim
      | nil => exact ⟨rfl, trivial⟩
  | cons p ps ih =>
    cases cs with
    | nil => exact hc.elim
    | cons c cs =>
      cases hs with
      | nil => exact hc.elim
      | cons h hs =>
        obtain ⟨hlayer, hrest⟩ := hc
        obtain ⟨hhold, hout⟩ := holds_step hlayer
        have hposition : (p.layer.hold h row).2.position = row.position := by
          cases p.layer <;> rfl
        rw [← hposition] at hrest
        obtain ⟨hout', hhold'⟩ := ih _ hrest
        simp only [List.map_cons, Stage.cascade_cons, hout]
        rw [hposition] at hhold'
        exact ⟨hout', hhold, hhold'⟩

end

/-! ### The target -/

namespace Stack

variable (m : Stack σ K H)

theorem rowsFrom_append (position : ℕ) (xs ys : List Token) :
    m.rowsFrom position (xs ++ ys) = m.rowsFrom position xs ++ m.rowsFrom (position + xs.length) ys := by
  induction xs generalizing position with
  | nil => rfl
  | cons x xs ih =>
    rw [List.cons_append, rowsFrom, ih, rowsFrom, List.cons_append, List.length_cons, Nat.add_right_comm,
      ← Nat.add_assoc]

theorem rowsFrom_take (position : ℕ) (xs : List Token) (k : ℕ) :
    (m.rowsFrom position xs).take k = m.rowsFrom position (xs.take k) := by
  induction xs generalizing position k with
  | nil => simp [rowsFrom]
  | cons x xs ih =>
    cases k with
    | zero => rfl
    | succ k => rw [rowsFrom, List.take_succ_cons, ih, List.take_succ_cons, rowsFrom]

theorem successive_rowsFrom (position : ℕ) (xs : List Token) : Successive position (m.rowsFrom position xs) := by
  induction xs generalizing position with
  | nil => trivial
  | cons x xs ih => exact ⟨rfl, ih _⟩

/-- More tokens go on from what is held. -/
theorem fold_append (xs ys : List Token) : m.fold (xs ++ ys) =
    (((Stage.cascade (m.layers.map fun p => p.layer.hold)).run (m.fold xs).1 (m.rowsFrom xs.length ys)).1,
      (m.fold xs).2 ++
        ((Stage.cascade (m.layers.map fun p => p.layer.hold)).run (m.fold xs).1 (m.rowsFrom xs.length ys)).2) := by
  rw [fold, rowsFrom_append, Stage.run_append, Nat.zero_add]
  rfl

theorem hold_cleared (place : Placed σ K H → Place) (ps : List (Placed σ K H)) :
    Hold place 0 ps (ps.map fun p => (⟨fun _ => ⟨p.zero, p.zero, p.zero⟩, fun _ => none⟩ : LayerCache σ K))
      (ps.map fun p => ⟨p.zero, []⟩) := by
  induction ps with
  | nil => trivial
  | cons p ps ih =>
    refine ⟨?_, ih⟩
    cases hlayer : p.layer with
    | recurrent step => rfl
    | attention key attend => exact ⟨rfl, nofun⟩

/-- Behind `reset` nothing is held. -/
theorem holds_cleared (place : Placed σ K H → Place) : m.Holds place m.cleared [] :=
  hold_cleared place m.layers

variable {m} {t : Caches σ K} {consumed : List Token}

/-- A batch, and the way back to its checkpoints. -/
theorem holds_batch (h : m.Holds Placed.onOwner t consumed) (tokens : List Token) :
    m.Holds Placed.onOwner (m.batch t consumed.length tokens).1 (consumed ++ tokens) ∧
      (∀ k : Checkpoint, k.rows ≤ tokens.length →
        m.Holds Placed.onOwner (m.restore k (m.batch t consumed.length tokens).1)
          (consumed ++ tokens.take k.rows)) ∧
      ∀ j < tokens.length, (m.batch t consumed.length tokens).2[j]? = m.row (consumed ++ tokens.take (j + 1)) := by
  obtain ⟨hrows, hhold, hcheckpoint⟩ := hold_batch h (m.successive_rowsFrom consumed.length tokens)
  rw [length_rowsFrom] at hhold hcheckpoint
  refine ⟨?_, fun k hk => ?_, fun j hj => ?_⟩
  · rw [Holds, fold_append, List.length_append]
    exact hhold
  · rw [Holds, fold_append, List.length_append, List.length_take, Nat.min_eq_left hk, ← rowsFrom_take]
    exact hcheckpoint k hk
  · have hlength : ((Stage.cascade (m.layers.map fun p => p.layer.hold)).run (m.fold consumed).1
        (m.rowsFrom consumed.length tokens)).2.length = tokens.length := by
      rw [Stage.length_run, length_rowsFrom]
    rw [row, fold_append, ← rowsFrom_take, Stage.run_take, batch, List.getElem?_map, hrows,
      List.getLast?_append, List.getLast?_take, if_neg (Nat.succ_ne_zero j), Nat.add_sub_cancel,
      List.getElem?_eq_getElem (hlength.symm ▸ hj)]
    rfl

/-- A step of `forward_body`. -/
theorem holds_scalar (h : m.Holds Placed.scalar t consumed) (token : Token) :
    m.Holds Placed.scalar (m.scalar t consumed.length token).1 (consumed ++ [token]) ∧
      some (m.scalar t consumed.length token).2 = m.row (consumed ++ [token]) := by
  obtain ⟨hrow, hhold⟩ := hold_scalar ⟨consumed.length, token, m.embedding token⟩ h
  constructor
  · rw [Holds, fold_append, List.length_append, List.length_singleton]
    exact hhold
  · rw [row, fold_append, List.getLast?_append]
    show some (Row.hidden _) = _
    rw [hrow]
    rfl

end Stack

/-! ### The tokens of the KV caches -/

/-- The entries are of these tokens, if the layer has entries. -/
def Held.EntriesOf (h : Held σ K) (layer : Layer σ K H) (tokens : List Token) : Prop :=
  ∀ key attend, layer = .attention key attend → h.entries.map Prod.fst = tokens

theorem entriesOf_hold {layer : Layer σ K H} {h : Held σ K} {tokens : List Token} (hh : h.EntriesOf layer tokens)
    (row : Row H) : (layer.hold h row).1.EntriesOf layer (tokens ++ [row.token]) ∧
      (layer.hold h row).2.token = row.token := by
  refine ⟨?_, by cases layer <;> rfl⟩
  rintro key attend rfl
  show (h.entries ++ [(row.token, key row.hidden)]).map Prod.fst = tokens ++ [row.token]
  rw [List.map_append, hh key attend rfl]
  rfl

theorem entriesOf_cascade {ps : List (Placed σ K H)} {hs : List (Held σ K)} {tokens : List Token}
    (hh : List.Forall₂ (fun p h => h.EntriesOf p.layer tokens) ps hs) (row : Row H) :
    List.Forall₂ (fun p h => h.EntriesOf p.layer (tokens ++ [row.token])) ps
      (Stage.cascade (ps.map fun p => p.layer.hold) hs row).1 := by
  induction hh generalizing row with
  | nil => exact .nil
  | cons hlayer _ ih =>
    obtain ⟨hhold, htoken⟩ := entriesOf_hold hlayer row
    rw [← htoken] at hhold ⊢
    exact .cons hhold (ih _)

theorem entriesOf_run {ps : List (Placed σ K H)} {hs : List (Held σ K)} {tokens : List Token}
    (hh : List.Forall₂ (fun p h => h.EntriesOf p.layer tokens) ps hs) (rows : List (Row H)) :
    List.Forall₂ (fun p h => h.EntriesOf p.layer (tokens ++ rows.map Row.token)) ps
      ((Stage.cascade (ps.map fun p => p.layer.hold)).run hs rows).1 := by
  induction rows generalizing hs tokens with
  | nil => rwa [List.map_nil, List.append_nil]
  | cons row rows ih =>
    rw [List.map_cons, ← List.singleton_append, ← List.append_assoc]
    exact ih (entriesOf_cascade hh row)

namespace Stack

variable {m : Stack σ K H} {t : Caches σ K} {tokens : List Token}

theorem entriesOf_fold (m : Stack σ K H) (tokens : List Token) :
    List.Forall₂ (fun p h => h.EntriesOf p.layer tokens) m.layers (m.fold tokens).1 := by
  have hnil : List.Forall₂ (fun p h => h.EntriesOf p.layer []) m.layers
      (m.layers.map fun p => (⟨p.zero, []⟩ : Held σ K)) := by
    rw [List.forall₂_map_right_iff, List.forall₂_same]
    exact fun p _ key attend _ => rfl
  have hrows (position : ℕ) : (m.rowsFrom position tokens).map Row.token = tokens := by
    induction tokens generalizing position with
    | nil => rfl
    | cons token tokens ih => rw [rowsFrom, List.map_cons, ih]
  have hrun := entriesOf_run hnil (m.rowsFrom 0 tokens)
  rwa [hrows, List.nil_append] at hrun

theorem rowsOf_hold {place : Placed σ K H → Place} {ps : List (Placed σ K H)} {cs : List (LayerCache σ K)}
    {hs : List (Held σ K)} (hc : Hold place tokens.length ps cs hs)
    (hh : List.Forall₂ (fun p h => h.EntriesOf p.layer tokens) ps hs) :
    List.Forall₂ (fun p c => ∀ key attend, p.layer = .attention key attend →
      ∀ q < tokens.length, (c.rows q).map Prod.fst = tokens[q]?) ps cs := by
  induction hh generalizing cs with
  | nil =>
    cases cs with
    | nil => exact .nil
    | cons c cs => exact hc.elim
  | @cons p h _ _ hlayer _ ih =>
    cases cs with
    | nil => exact hc.elim
    | cons c cs =>
      refine .cons (fun key attend hp q hq => ?_) (ih hc.2)
      have hrows : c.Holds (.attention key attend) (place p) tokens.length h := hp ▸ hc.1
      rw [hrows.2 q hq, ← List.getElem?_map, hlayer key attend hp]

/-- Caches that hold what tokens leave hold their rows. -/
theorem Holds.rowsOf {place : Placed σ K H → Place} (h : m.Holds place t tokens) : m.RowsOf t tokens :=
  rowsOf_hold h (m.entriesOf_fold tokens)

end Stack

end Qwen35

end FortAI
