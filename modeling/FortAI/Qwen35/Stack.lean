import FortAI.Machine.Cascade
import FortAI.Qwen35.Layout
import Mathlib.Data.List.GetD
import Mathlib.Logic.Function.Basic

/-!
# The layers of the target

A layer is recurrent, with a state, or attends to the rows of its KV cache.  A recurrent layer can have a
state on the host and on each device.  A batch passes the layers one after the other, and leaves
checkpoints behind its first and its second row.

* `Layer.step`, `Layer.batch` : the layers, with their caches.
* `Stack.batch`, `Stack.scalar`, `Stack.restore` : all layers, as the engine runs them.
* `Stack.target` : the layers as a target of the engine.
-/

namespace FortAI

namespace Qwen35

/-- Where the state of a recurrent layer is: on the host, `cuda_recurrent` or `cuda_recurrent_second`. -/
inductive Place
  | host
  | device (slot : Slot)
  deriving DecidableEq

/-- The state of a recurrent layer, and its checkpoints. -/
structure Checkpointed (σ : Type) where
  current : σ
  first : σ
  second : σ

/-- The checkpoints of `restore_first` and `restore_second`. -/
inductive Checkpoint
  | first | second

/-- How many rows of a batch are in front of it. -/
def Checkpoint.rows : Checkpoint → ℕ
  | first => 1
  | second => 2

def Checkpointed.at {σ : Type} (c : Checkpointed σ) : Checkpoint → σ
  | .first => c.first
  | .second => c.second

/-- A token on its way through the layers. -/
structure Row (H : Type) where
  position : ℕ
  token : Token
  hidden : H

/-- A layer: keys and values in the KV cache are `K`. -/
inductive Layer (σ K H : Type)
  /-- The state and the row behind a row. -/
  | recurrent (step : σ → H → σ × H)
  /-- What is cached for a row, and the row behind it, from all that is cached up to its position. -/
  | attention (key : H → K) (attend : H → List K → H)

/-- What a layer keeps: its states, and the rows of its KV cache, with the tokens that they are of. -/
structure LayerCache (σ K : Type) where
  states : Place → Checkpointed σ
  rows : ℕ → Option (Token × K)

/-- A layer and where its state is. -/
structure Placed (σ K H : Type) where
  layer : Layer σ K H
  /-- The state of `reset`. -/
  zero : σ
  /-- `batch_layer_device` -/
  owner : Slot
  /-- Where `forward_body` has the state. -/
  scalar : Place

/-- The layers of a model, and its token embedding. -/
structure Stack (σ K H : Type) where
  layers : List (Placed σ K H)
  embedding : Token → H

/-- The caches of all layers, and how many tokens passed them. -/
structure Caches (σ K : Type) where
  layers : List (LayerCache σ K)
  consumed : ℕ

variable {σ K H : Type}

/-! ### One layer -/

/-- A row through a layer. -/
def Layer.step (layer : Layer σ K H) (place : Place) : Stage (LayerCache σ K) (Row H) := fun c row =>
  match layer with
  | .recurrent step =>
    let (current, hidden) := step (c.states place).current row.hidden
    ({ c with states := Function.update c.states place { c.states place with current } }, { row with hidden })
  | .attention key attend =>
    let rows := Function.update c.rows row.position (some (row.token, key row.hidden))
    let seen := (List.range (row.position + 1)).filterMap rows
    ({ c with rows }, { row with hidden := attend row.hidden (seen.map Prod.snd) })

/-- The state behind the first rows of a batch. -/
def Layer.behind (layer : Layer σ K H) (place : Place) (c : LayerCache σ K) (rows : List (Row H)) (k : ℕ) : σ :=
  (((layer.step place).run c (rows.take k)).1.states place).current

/-- `run_core_device_batch`: the rows in order.  A recurrent layer keeps its states behind the first and
the second one. -/
def Layer.batch (layer : Layer σ K H) (place : Place) : Stage (LayerCache σ K) (List (Row H)) := fun c rows =>
  let (c', rows') := (layer.step place).run c rows
  match layer with
  | .recurrent _ =>
    let kept :=
      { current := (c'.states place).current
        first := if 1 ≤ rows.length then layer.behind place c rows 1 else (c.states place).first
        second := if 2 ≤ rows.length then layer.behind place c rows 2 else (c.states place).second }
    ({ c' with states := Function.update c'.states place kept }, rows')
  | .attention _ _ => (c', rows')

/-- `restore_first` and `restore_second`, of a recurrent layer. -/
def Layer.restore (layer : Layer σ K H) (place : Place) (k : Checkpoint) (c : LayerCache σ K) :
    LayerCache σ K :=
  match layer with
  | .recurrent _ =>
    let restored := { c.states place with current := (c.states place).at k }
    { c with states := Function.update c.states place restored }
  | .attention _ _ => c

/-! ### All layers -/

namespace Stack

variable (m : Stack σ K H)

/-- The rows of tokens in front of the layers. -/
def rowsFrom (position : ℕ) : List Token → List (Row H)
  | [] => []
  | token :: tokens => ⟨position, token, m.embedding token⟩ :: rowsFrom (position + 1) tokens

/-- `forward_batch` -/
def batch (t : Caches σ K) (position : ℕ) (tokens : List Token) : Caches σ K × List H :=
  let (layers, rows) := Stage.cascade (m.layers.map fun p => p.layer.batch (.device p.owner)) t.layers
    (m.rowsFrom position tokens)
  (⟨layers, t.consumed + tokens.length⟩, rows.map Row.hidden)

/-- `forward_body` -/
def scalar (t : Caches σ K) (position : ℕ) (token : Token) : Caches σ K × H :=
  let (layers, row) := Stage.cascade (m.layers.map fun p => p.layer.step p.scalar) t.layers
    ⟨position, token, m.embedding token⟩
  (⟨layers, t.consumed + 1⟩, row.hidden)

/-- The recurrent layers go back to a checkpoint. -/
def restore (k : Checkpoint) (t : Caches σ K) : Caches σ K :=
  { t with layers := m.layers.zipWith (fun p => p.layer.restore (.device p.owner) k) t.layers }

/-- What `reset` leaves. -/
def cleared : Caches σ K where
  layers := m.layers.map fun p => ⟨fun _ => ⟨p.zero, p.zero, p.zero⟩, fun _ => none⟩
  consumed := 0

/-! ### As a target -/

@[simp] theorem length_rowsFrom (position : ℕ) (tokens : List Token) :
    (m.rowsFrom position tokens).length = tokens.length := by
  induction tokens generalizing position with
  | nil => rfl
  | cons token tokens ih => rw [rowsFrom, List.length_cons, ih, List.length_cons]

end Stack

@[simp] theorem Layer.length_batch (layer : Layer σ K H) (place : Place) (c : LayerCache σ K)
    (rows : List (Row H)) : (layer.batch place c rows).2.length = rows.length := by
  cases layer with
  | recurrent step => exact Stage.length_run _ _ _
  | attention key attend => exact Stage.length_run _ _ _

namespace Stack

theorem length_cascade (layers : List (Placed σ K H)) (cs : List (LayerCache σ K)) (rows : List (Row H)) :
    (Stage.cascade (layers.map fun p => p.layer.batch (.device p.owner)) cs rows).2.length = rows.length := by
  induction layers generalizing cs rows with
  | nil => rfl
  | cons p layers ih =>
    cases cs with
    | nil => rfl
    | cons c cs => rw [List.map_cons, Stage.cascade_cons, ih, Layer.length_batch]

/-- The layers, for the engine. -/
def target (m : Stack σ K H) : Target (Caches σ K) H where
  cleared := m.cleared
  batch := m.batch
  scalar := m.scalar
  restoreFirst := m.restore .first
  restoreSecond := m.restore .second
  consumed := Caches.consumed
  length_batch := fun t position tokens => by
    rw [batch, List.length_map, length_cascade, length_rowsFrom]
  consumed_batch := fun _ _ _ => rfl

end Stack

end Qwen35

end FortAI
