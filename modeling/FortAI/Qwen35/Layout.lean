import FortAI.Machine.Procedure
import FortAI.Status
import Mathlib.Algebra.Order.Ring.Int

/-!
# The Qwen3.5 engine

The native engine of `qwen35_cpu_model_t`, with a draft head for multi-token prediction (MTP).  The
layers of the target and of the draft head are parameters; what is here is which of them run on which
rows, and where hidden rows are kept.  The calls of the device are taken to succeed; its launch
graphs, that are off by default, are left out.

* `Networks` : the layers.
* `Layout` : what the placement of the tensors and the configuration decide.
* `State` : the caches and the hidden rows that are kept.
-/

namespace FortAI

namespace Qwen35

/-- A token id. -/
abbrev Token := ℕ

/-- The CUDA devices: `cuda` and `cuda_second`. -/
inductive Slot
  | first | second
  deriving DecidableEq

/-- The layers of the target, on its caches `T` and with hidden rows `H`. -/
structure Target (T H : Type) where
  /-- What `reset` leaves. -/
  cleared : T
  /-- The layers in `forward_batch`: the tokens stand at this position and behind it. -/
  batch : T → ℕ → List Token → T × List H
  /-- The layers in `forward_body`. -/
  scalar : T → ℕ → Token → T × H
  /-- `restore_first` of all recurrent layers -/
  restoreFirst : T → T
  /-- `restore_second` of all recurrent layers -/
  restoreSecond : T → T
  /-- The number of tokens that are consumed. -/
  consumed : T → ℕ
  length_batch : ∀ t position tokens, (batch t position tokens).2.length = tokens.length
  consumed_batch : ∀ t position tokens, consumed (batch t position tokens).1 = consumed t + tokens.length

/-- The layers of the draft head, on its state `D`, with target rows `H`. -/
structure DraftHead (D H : Type) where
  cleared : D
  /-- A token at a position, with the target row in front of it. -/
  pair : D → Token → ℕ → H → D
  /-- Several tokens with their rows. -/
  catchup : D → List Token → ℕ → List H → D
  /-- The most likely token behind the pair. -/
  drafted : D → Token
  /-- The row behind the pair. -/
  exported : D → H

/-- The networks: rows of logits are `L`. -/
structure Networks (T H D L : Type) where
  vocabularySize : ℕ
  target : Target T H
  draft : DraftHead D H
  /-- A row of zeros. -/
  zero : H
  outputNorm : H → H
  /-- The output projection of a row behind the norm. -/
  logits : H → L
  argmax : L → Token
  argmax_lt : ∀ row, argmax row < vocabularySize
  drafted_lt : ∀ d, draft.drafted d < vocabularySize

/-- The networks with other layers for the target. -/
def Networks.withTarget {T T' H D L : Type} (n : Networks T H D L) (target : Target T' H) : Networks T' H D L where
  vocabularySize := n.vocabularySize
  target := target
  draft := n.draft
  zero := n.zero
  outputNorm := n.outputNorm
  logits := n.logits
  argmax := n.argmax
  argmax_lt := n.argmax_lt
  drafted_lt := n.drafted_lt

/-- What the configuration and the placement of the tensors decide.  The device buffers of hidden rows
are there exactly where the draft head is on a device. -/
structure Layout where
  maxContext : ℕ
  /-- `mtp_active` -/
  mtpActive : Bool
  /-- Whether `mtp_verify_hidden` is allocated. -/
  verifyAllocated : Bool
  allocated_of_active : mtpActive = true → verifyAllocated = true
  /-- `native_mtp_limit` -/
  mtpLimit : ℕ
  /-- `mtp_cuda_slot`; none for -1. -/
  mtpSlot : Option Slot
  /-- `cuda_device_pipeline` -/
  pipeline : Bool
  /-- `cuda_batch_capacity` -/
  capacity : ℕ
  /-- `cuda_q4_resident` -/
  q4Resident : Bool
  /-- Whether the workspace for batches, the embedding and all layers are where a batch needs them. -/
  resident : Bool
  /-- Whether `forward_batch` finds the embedding on the first device. -/
  embeddingResident : Bool
  /-- Whether the output projection is resident on one of the devices. -/
  outputResident : Bool

/-- `batch_supported` -/
def Layout.batchSupported (l : Layout) (count : ℕ) : Bool :=
  decide (0 < count) && decide (count ≤ l.capacity) &&
    !(l.q4Resident && decide (8 < count) && decide (count % 32 ≠ 0)) && l.pipeline && l.resident

/-- A verification batch that is supported runs to its end, or not at all. -/
def Layout.Verifies (l : Layout) : Prop := l.embeddingResident = true → l.outputResident = true

/-- The state of the engine. -/
structure State (T H D : Type) where
  target : T
  draft : D
  /-- `mtp_pending_hidden` -/
  pendingHidden : H
  /-- `cuda_mtp_pending_hidden` -/
  cudaPendingHidden : H
  /-- The rows of `mtp_verify_hidden`. -/
  verifyHidden : ℕ → H
  /-- The rows of `cuda_mtp_verify_hidden`. -/
  cudaVerifyHidden : ℕ → H
  /-- `mtp_last_target_position` -/
  lastTargetPosition : ℤ

/-- Rows that are written over the first rows of a buffer. -/
def written {H : Type} (rows : List H) (buffer : ℕ → H) : ℕ → H := fun i => rows.getD i (buffer i)

variable {l : Layout}

theorem Layout.pipeline_of_batchSupported {count : ℕ} (h : l.batchSupported count = true) :
    l.pipeline = true := by
  simp only [Layout.batchSupported, Bool.and_eq_true] at h
  exact h.1.2

theorem Layout.pos_of_batchSupported {count : ℕ} (h : l.batchSupported count = true) : 0 < count := by
  simp only [Layout.batchSupported, Bool.and_eq_true, decide_eq_true_eq] at h
  exact h.1.1.1.1

theorem Layout.length_le_of_batchSupported {count : ℕ} (h : l.batchSupported count = true) :
    count ≤ l.capacity := by
  simp only [Layout.batchSupported, Bool.and_eq_true, decide_eq_true_eq] at h
  exact h.1.1.1.2

/-- Shorter batches for verification are supported where a longer one is. -/
theorem Layout.batchSupported_of_le {count count' : ℕ} (h : l.batchSupported count = true)
    (hpos : 0 < count') (hle : count' ≤ count) (hsmall : count ≤ 8) : l.batchSupported count' = true := by
  simp only [Layout.batchSupported, Bool.and_eq_true, Bool.not_eq_true', decide_eq_true_eq] at h ⊢
  obtain ⟨⟨⟨⟨-, hcapacity⟩, -⟩, hpipeline⟩, hresident⟩ := h
  have hwhole : decide (8 < count') = false := decide_eq_false (by omega)
  rw [hwhole, Bool.and_false, Bool.false_and]
  exact ⟨⟨⟨⟨hpos, hle.trans hcapacity⟩, rfl⟩, hpipeline⟩, hresident⟩

/-! ### Two layouts -/

/-- A target on a device, with the draft head where it is told. -/
def onDevice (mtpSlot : Option Slot) (outputResident : Bool) : Layout where
  maxContext := 4
  mtpActive := true
  verifyAllocated := true
  allocated_of_active := fun _ => rfl
  mtpLimit := 2
  mtpSlot := mtpSlot
  pipeline := true
  capacity := 4
  q4Resident := false
  resident := true
  embeddingResident := true
  outputResident := outputResident

/-- A target on the host, with a draft head or without. -/
def onHost (mtpActive : Bool) : Layout where
  maxContext := 4
  mtpActive := mtpActive
  verifyAllocated := mtpActive
  allocated_of_active := id
  mtpLimit := 2
  mtpSlot := none
  pipeline := false
  capacity := 0
  q4Resident := false
  resident := false
  embeddingResident := false
  outputResident := false

end Qwen35

end FortAI
