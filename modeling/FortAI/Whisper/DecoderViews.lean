import FortAI.Whisper.Decoder
import Mathlib.Data.Set.Insert

/-!
# The views of the decoder's caches

Each layer has a slab of every cache of its own, and every view of a layer stays in there.

* `Separated` : views of distinct layers have no byte in common, and all lie inside their cache.
* `selfK_separated`, `selfV_separated`, `crossK_separated`, `crossV_separated` : the four caches.
-/

namespace FortAI

namespace Whisper

/-- Where the views of the layers stand in a cache. -/
structure Separated (views : ℕ → Set View) (layers bytes : ℕ) : Prop where
  inside : ∀ layer < layers, ∀ v ∈ views layer, v.Within 0 bytes
  disjoint : ∀ layer < layers, ∀ layer' < layers, layer ≠ layer' → ∀ v ∈ views layer, ∀ w ∈ views layer',
    v.Disjoint w

theorem separated_of_slabs {views : ℕ → Set View} {layers bytes slab : ℕ} (hbytes : layers * slab ≤ bytes)
    (h : ∀ layer, ∀ v ∈ views layer, v.Within (layer * slab) ((layer + 1) * slab)) :
    Separated views layers bytes where
  inside layer hlayer v hv :=
    (h layer v hv).mono (Nat.zero_le _) ((Nat.mul_le_mul_right slab hlayer).trans hbytes)
  disjoint layer _ layer' _ hne v hv w hw := (h layer v hv).disjoint (h layer' w hw) hne

/-! ### Slabs -/

section
variable {layer slab r : ℕ}

theorem within_view1d {ne0 : ℕ} (h : r + 2 * ne0 ≤ slab) :
    (view1d ne0 (layer * slab + r)).Within (layer * slab) ((layer + 1) * slab) := by
  intro i hi j hj k hk
  obtain rfl : j = 0 := Nat.lt_one_iff.mp hj
  obtain rfl : k = 0 := Nat.lt_one_iff.mp hk
  have hi : i < ne0 := hi
  simp only [View.address, view1d, Nat.succ_mul]
  omega

theorem within_view2d {ne0 ne1 nb1 : ℕ} (hrow : r + 2 * ne0 ≤ nb1) (h : nb1 * ne1 ≤ slab) :
    (view2d ne0 ne1 nb1 (layer * slab + r)).Within (layer * slab) ((layer + 1) * slab) := by
  intro i hi j hj k hk
  obtain rfl : k = 0 := Nat.lt_one_iff.mp hk
  have hi : i < ne0 := hi
  have hj : nb1 * (j + 1) ≤ nb1 * ne1 := Nat.mul_le_mul_left nb1 hj
  simp only [View.address, view2d, Nat.succ_mul, Nat.mul_succ] at hj ⊢
  omega

variable {E : Type} {m : NativeModel E}

/-- Rows of `n_state` channels. -/
theorem within_rows {n : ℕ} (h : 2 * m.nState * n ≤ slab) :
    (view3d m.headDim n m.nHeads (2 * m.nState) (2 * m.headDim) (layer * slab)).Within (layer * slab)
      ((layer + 1) * slab) := by
  intro i hi j hj k hk
  have hchannel : i + m.headDim * k < m.nState := NativeModel.channel_lt hi hk
  have hrow : 2 * m.nState * (j + 1) ≤ slab := (Nat.mul_le_mul_left _ hj).trans h
  have hplace : (view3d m.headDim n m.nHeads (2 * m.nState) (2 * m.headDim) (layer * slab)).address i j k =
      layer * slab + 2 * (i + m.headDim * k) + 2 * m.nState * j := by
    simp only [View.address, view3d]
    ring
  have hlast : (layer + 1) * slab = layer * slab + slab := Nat.succ_mul layer slab
  rw [hplace, hlast]
  rw [Nat.mul_succ] at hrow
  simp only [view3d]
  omega

/-- A row of `extent` positions for each channel. -/
theorem within_channels {n extent : ℕ} (hn : n ≤ extent) (h : 2 * m.nState * extent ≤ slab) :
    (view3d n m.headDim m.nHeads (2 * extent) (2 * extent * m.headDim) (layer * slab)).Within (layer * slab)
      ((layer + 1) * slab) := by
  intro i hi j hj k hk
  have hi : i < n := hi
  have hchannel : extent * (j + m.headDim * k + 1) ≤ extent * m.nState :=
    Nat.mul_le_mul_left _ (NativeModel.channel_lt hj hk)
  have hslab : 2 * (extent * m.nState) ≤ slab := by
    rwa [Nat.mul_comm extent, ← Nat.mul_assoc]
  have hplace : (view3d n m.headDim m.nHeads (2 * extent) (2 * extent * m.headDim) (layer * slab)).address i j k =
      layer * slab + 2 * i + 2 * (extent * (j + m.headDim * k)) := by
    simp only [View.address, view3d]
    ring
  have hlast : (layer + 1) * slab = layer * slab + slab := Nat.succ_mul layer slab
  rw [hplace, hlast]
  rw [Nat.mul_succ] at hchannel
  simp only [view3d]
  omega

end

namespace Decoder

variable {E : Type} {m : NativeModel E} (self : Decoder m)

/-- The views of `self_k` in a layer, over all calls inside the context. -/
def selfKViews (layer : ℕ) : Set View :=
  {v | ∃ position n, position + n ≤ m.nTextCtx ∧
    (v = keyDestination m layer position n ∨ v = layerK m layer (self.nKv position n))}

/-- The views of `self_v`. -/
def selfVViews (layer : ℕ) : Set View :=
  {v | ∃ position n, position + n ≤ m.nTextCtx ∧
    (v = self.valueDestination layer position n ∨ v = self.layerV layer (self.nKv position n))}

/-- The views of `cross_k`. -/
def crossKViews (layer : ℕ) : Set View := {self.crossKeyDestination layer, self.crossKey layer}

/-- The views of `cross_v`; the last one is made without flash attention. -/
def crossVViews (layer : ℕ) : Set View :=
  {v | v = self.crossValueDestination layer ∨ v = self.crossValue layer ∨
    self.flashAttention = false ∧ v = crossTransposed m layer}

/-- A call attends to the positions of its tokens, and to none behind the context. -/
theorem nKv_bounds {position n : ℕ} (h : position + n ≤ m.nTextCtx) :
    position + n ≤ self.nKv position n ∧ self.nKv position n ≤ m.nTextCtx := by
  have hpad : position + n ≤ (position + n + 255) / 256 * 256 := by omega
  rw [nKv]
  split
  · exact ⟨Nat.le_min.mpr ⟨h, hpad⟩, Nat.min_le_left _ _⟩
  · exact ⟨Nat.le_refl _, h⟩

theorem selfBytes_eq (m : NativeModel E) : m.nLayers * (2 * m.nState * m.nTextCtxPad) = selfBytes m := by
  rw [selfBytes]
  ring

section
variable {position n : ℕ} (h : position + n ≤ m.nTextCtx) (layer : ℕ)
include h

theorem within_key : (keyDestination m layer position n).Within (selfOffset m layer) (selfOffset m (layer + 1)) := by
  refine within_view1d ?_
  have hmul : 2 * m.nState * (position + n) ≤ 2 * m.nState * m.nTextCtxPad :=
    Nat.mul_le_mul_left _ (h.trans (le_pad256 _))
  rwa [Nat.mul_add, Nat.mul_assoc 2 m.nState n] at hmul

theorem within_layerK :
    (layerK m layer (self.nKv position n)).Within (selfOffset m layer) (selfOffset m (layer + 1)) :=
  within_rows (Nat.mul_le_mul_left _ ((self.nKv_bounds h).2.trans (le_pad256 _)))

theorem within_value :
    (self.valueDestination layer position n).Within (selfOffset m layer) (selfOffset m (layer + 1)) := by
  rw [valueDestination]
  split
  · exact within_key h layer
  · have hpad : position + n ≤ m.nTextCtxPad := h.trans (le_pad256 _)
    refine within_view2d (by omega) (Nat.le_of_eq ?_)
    ring

theorem within_layerV :
    (self.layerV layer (self.nKv position n)).Within (selfOffset m layer) (selfOffset m (layer + 1)) := by
  rw [layerV]
  split
  · exact self.within_layerK h layer
  · exact within_channels ((self.nKv_bounds h).2.trans (le_pad256 _)) (Nat.le_refl _)

end

theorem selfK_separated : Separated self.selfKViews m.nLayers (selfBytes m) := by
  refine separated_of_slabs (selfBytes_eq m).le ?_
  rintro layer v ⟨position, n, h, rfl | rfl⟩
  · exact within_key h layer
  · exact self.within_layerK h layer

theorem selfV_separated : Separated self.selfVViews m.nLayers (selfBytes m) := by
  refine separated_of_slabs (selfBytes_eq m).le ?_
  rintro layer v ⟨position, n, h, rfl | rfl⟩
  · exact self.within_value h layer
  · exact self.within_layerV h layer

/-! ### The caches of the cross attention -/

/-- The slab of a layer: padded with flash attention. -/
def crossSlab : ℕ := 2 * m.nState * self.crossKv

theorem crossOffset_eq (layer : ℕ) : self.crossOffset layer = layer * self.crossSlab := by
  rw [crossOffset, crossSlab, crossKv]
  split <;> rfl

theorem le_crossKv : m.nAudioCtx ≤ self.crossKv ∧ self.crossKv ≤ m.nAudioCtxPad := by
  rw [crossKv]
  split
  · exact ⟨le_pad256 _, Nat.le_refl _⟩
  · exact ⟨Nat.le_refl _, le_pad256 _⟩

theorem crossSlab_le : m.nLayers * self.crossSlab ≤ crossBytes m := by
  have hmul := Nat.mul_le_mul_left m.nLayers (Nat.mul_le_mul_left (2 * m.nState) self.le_crossKv.2)
  refine hmul.trans (Nat.le_of_eq ?_)
  rw [crossBytes]
  ring

section
variable (layer : ℕ)

theorem within_crossKeyDestination :
    (self.crossKeyDestination layer).Within (layer * self.crossSlab) ((layer + 1) * self.crossSlab) := by
  rw [crossKeyDestination, crossOffset_eq]
  refine within_view1d (r := 0) ?_
  have hmul := Nat.mul_le_mul_left (2 * m.nState) self.le_crossKv.1
  rwa [Nat.zero_add, ← Nat.mul_assoc]

/-- `cross_key` and `cross_value` -/
theorem within_crossKey : (self.crossKey layer).Within (layer * self.crossSlab) ((layer + 1) * self.crossSlab) := by
  rw [crossKey, crossOffset_eq]
  exact within_rows (Nat.le_refl _)

theorem within_crossValueDestination :
    (self.crossValueDestination layer).Within (layer * self.crossSlab) ((layer + 1) * self.crossSlab) := by
  rw [crossValueDestination]
  split
  · exact self.within_crossKeyDestination layer
  · rename_i hflash
    have hslab : self.crossSlab = 2 * m.nState * m.nAudioCtx := by rw [crossSlab, crossKv, if_neg hflash]
    rw [crossOffset_eq]
    refine within_view2d (r := 0) (by omega) (Nat.le_of_eq ?_)
    rw [hslab]
    ring

theorem within_crossTransposed (hflash : self.flashAttention = false) :
    (crossTransposed m layer).Within (layer * self.crossSlab) ((layer + 1) * self.crossSlab) := by
  have hslab : self.crossSlab = 2 * m.nState * m.nAudioCtx := by
    rw [crossSlab, crossKv, if_neg (by simp [hflash])]
  rw [crossTransposed, ← hslab]
  exact within_channels (Nat.le_refl _) hslab.ge

end

theorem crossK_separated : Separated self.crossKViews m.nLayers (crossBytes m) := by
  refine separated_of_slabs self.crossSlab_le ?_
  rintro layer v (rfl | rfl)
  · exact self.within_crossKeyDestination layer
  · exact self.within_crossKey layer

theorem crossV_separated : Separated self.crossVViews m.nLayers (crossBytes m) := by
  refine separated_of_slabs self.crossSlab_le ?_
  rintro layer v (rfl | rfl | ⟨hflash, rfl⟩)
  · exact self.within_crossValueDestination layer
  · exact self.within_crossKey layer
  · exact self.within_crossTransposed layer hflash

end Decoder

end Whisper

end FortAI
