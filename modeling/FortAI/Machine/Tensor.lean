import FortAI.Machine.Cells
import Mathlib.Algebra.BigOperators.Group.List.Basic
import Mathlib.Algebra.Ring.Defs
import Mathlib.Data.List.GetD
import Mathlib.Tactic.Ring

/-!
# Tensors and strided views

A tensor has up to three extents, and its elements are stored row after row, plane after plane.  The
operations are exact, and act on one row at a time.  A view declares where the elements of a tensor stand
in a memory of bytes.

* `Tensor.row_add`, `Tensor.row_mulMat`, … : what an operation does to one row.
* `View.read`, `View.copy` : a memory through a view.
* `Layout.Covers.row_copy` : what a copy leaves behind, in a memory of rows of channels.
-/

namespace FortAI

/-- Three extents, and the elements at them. -/
structure Tensor (E : Type) where
  ne0 : ℕ
  ne1 : ℕ
  ne2 : ℕ
  get : ℕ → ℕ → ℕ → E

namespace Tensor

variable {E : Type}

/-- Row `j` of plane `k`. -/
def row (t : Tensor E) (j k : ℕ) : List E := (List.range t.ne0).map fun i => t.get i j k

/-- The element with this number, in the order of storage. -/
def element (t : Tensor E) (e : ℕ) : E := t.get (e % t.ne0) (e / t.ne0 % t.ne1) (e / t.ne0 / t.ne1)

@[simp] theorem length_row (t : Tensor E) (j k : ℕ) : (t.row j k).length = t.ne0 := by simp [row]

theorem getD_row (t : Tensor E) {i : ℕ} (hi : i < t.ne0) (j k : ℕ) (x : E) : (t.row j k).getD i x = t.get i j k := by
  simp [row, hi]

theorem element_eq (t : Tensor E) {i j : ℕ} (hi : i < t.ne0) (hj : j < t.ne1) (k : ℕ) :
    t.element (i + t.ne0 * (j + t.ne1 * k)) = t.get i j k := by
  have hrow : (i + t.ne0 * (j + t.ne1 * k)) / t.ne0 = j + t.ne1 * k := by
    rw [Nat.add_mul_div_left _ _ (Nat.zero_lt_of_lt hi), Nat.div_eq_of_lt hi, zero_add]
  have hplane : (j + t.ne1 * k) / t.ne1 = k := by
    rw [Nat.add_mul_div_left _ _ (Nat.zero_lt_of_lt hj), Nat.div_eq_of_lt hj, zero_add]
  rw [element, hrow, hplane, Nat.add_mul_mod_self_left, Nat.add_mul_mod_self_left, Nat.mod_eq_of_lt hi,
    Nat.mod_eq_of_lt hj]

/-! ### Other extents -/

/-- The same elements, in the same order. -/
def reshape (ne0 ne1 ne2 : ℕ) (t : Tensor E) : Tensor E :=
  ⟨ne0, ne1, ne2, fun i j k => t.element (i + ne0 * (j + ne1 * k))⟩

/-- Columns as rows. -/
def transpose (t : Tensor E) : Tensor E := ⟨t.ne1, t.ne0, t.ne2, fun i j k => t.get j i k⟩

/-- The permutation 0, 2, 1, 3 of the extents. -/
def permute (t : Tensor E) : Tensor E := ⟨t.ne0, t.ne2, t.ne1, fun i j k => t.get i k j⟩

/-! ### Operations on rows -/

/-- A function of every element. -/
def map (f : E → E) (t : Tensor E) : Tensor E := { t with get := fun i j k => f (t.get i j k) }

@[simp] theorem row_map (f : E → E) (t : Tensor E) (j k : ℕ) : (t.map f).row j k = (t.row j k).map f := by
  simp [row, map]

/-- `ggml_get_rows` -/
def getRows (table : Tensor E) (ids : List ℕ) : Tensor E :=
  ⟨table.ne0, ids.length, 1, fun i j _ => table.get i (ids.getD j 0) 0⟩

@[simp] theorem row_getRows (table : Tensor E) (ids : List ℕ) (j : ℕ) :
    (table.getRows ids).row j 0 = table.row (ids.getD j 0) 0 := rfl

variable [Semiring E]

/-- The second row is repeated as often as needed. -/
def zipRow (f : E → E → E) (x y : List E) : List E :=
  (List.range x.length).map fun i => f (x.getD i 0) (y.getD (i % y.length) 0)

def dot (x y : List E) : E := (List.zipWith (· * ·) x y).sum

/-- One row through a matrix. -/
def project (w : Tensor E) (x : List E) : List E := (List.range w.ne1).map fun o => dot (w.row o 0) x

/-- A function of every row that keeps its length. -/
def mapRow (f : List E → List E) (x : List E) : List E := (List.range x.length).map fun i => (f x).getD i 0

def mapRows (f : List E → List E) (t : Tensor E) : Tensor E :=
  { t with get := fun i j k => (f (t.row j k)).getD i 0 }

/-- The rows of `b` are repeated as often as needed. -/
def zip (f : E → E → E) (t b : Tensor E) : Tensor E :=
  { t with get := fun i j k => f (t.get i j k) ((b.row (j % b.ne1) (k % b.ne2)).getD (i % b.ne0) 0) }

/-- `ggml_add` -/
def add : Tensor E → Tensor E → Tensor E := zip (· + ·)

/-- `ggml_mul` -/
def mul : Tensor E → Tensor E → Tensor E := zip (· * ·)

/-- `ggml_scale` -/
def scale (t : Tensor E) (s : E) : Tensor E := t.map (s * ·)

/-- `ggml_mul_mat`: the planes of `w` are repeated as often as needed. -/
def mulMat (w t : Tensor E) : Tensor E :=
  ⟨w.ne1, t.ne1, t.ne2, fun o j k => dot (w.row o (k / (t.ne2 / w.ne2))) (t.row j k)⟩

@[simp] theorem row_mapRows (f : List E → List E) (t : Tensor E) (j k : ℕ) :
    (t.mapRows f).row j k = mapRow f (t.row j k) := by
  simp [row, mapRows, mapRow]

theorem row_zip (f : E → E → E) (t b : Tensor E) (j k : ℕ) :
    (zip f t b).row j k = zipRow f (t.row j k) (b.row (j % b.ne1) (k % b.ne2)) := by
  rw [zipRow, length_row, length_row]
  exact List.map_congr_left fun i hi => by rw [t.getD_row (List.mem_range.mp hi)]; rfl

theorem row_add (t b : Tensor E) (j k : ℕ) :
    (add t b).row j k = zipRow (· + ·) (t.row j k) (b.row (j % b.ne1) (k % b.ne2)) := row_zip _ t b j k

theorem row_mul (t b : Tensor E) (j k : ℕ) :
    (mul t b).row j k = zipRow (· * ·) (t.row j k) (b.row (j % b.ne1) (k % b.ne2)) := row_zip _ t b j k

@[simp] theorem row_scale (t : Tensor E) (s : E) (j k : ℕ) : (t.scale s).row j k = (t.row j k).map (s * ·) :=
  row_map _ t j k

@[simp] theorem row_mulMat (w t : Tensor E) (j : ℕ) : (mulMat w t).row j 0 = project w (t.row j 0) := by
  simp [row, mulMat, project]

end Tensor

/-! ### Views -/

/-- Extents, the distances of neighbours along them, and the place of the first element, in bytes. -/
structure View where
  ne0 : ℕ
  ne1 : ℕ
  ne2 : ℕ
  nb0 : ℕ
  nb1 : ℕ
  nb2 : ℕ
  offset : ℕ

namespace View

variable {E : Type} (v : View)

def address (i j k : ℕ) : ℕ := v.offset + v.nb0 * i + v.nb1 * j + v.nb2 * k

/-- The place of the element with this number. -/
def place (e : ℕ) : ℕ := v.address (e % v.ne0) (e / v.ne0 % v.ne1) (e / v.ne0 / v.ne1)

def count : ℕ := v.ne0 * v.ne1 * v.ne2

/-- A memory through the view. -/
def read (memory : ℕ → E) : Tensor E := ⟨v.ne0, v.ne1, v.ne2, fun i j k => memory (v.address i j k)⟩

/-- `ggml_cpy`: the elements in their order, each converted by `f`. -/
def copy (f : E → E) (t : Tensor E) (memory : ℕ → E) : ℕ → E :=
  Cells.writes v.place (fun e => f (t.element e)) (List.range v.count) memory

/-- All elements stand between these bytes. -/
def Within (first last : ℕ) : Prop :=
  ∀ i < v.ne0, ∀ j < v.ne1, ∀ k < v.ne2, first ≤ v.address i j k ∧ v.address i j k + v.nb0 ≤ last

/-- No byte belongs to both. -/
def Disjoint (w : View) : Prop :=
  ∀ i < v.ne0, ∀ j < v.ne1, ∀ k < v.ne2, ∀ i' < w.ne0, ∀ j' < w.ne1, ∀ k' < w.ne2,
    v.address i j k + v.nb0 ≤ w.address i' j' k' ∨ w.address i' j' k' + w.nb0 ≤ v.address i j k

variable {v} {w : View}

theorem Within.mono {first last first' last' : ℕ} (h : v.Within first last) (hfirst : first' ≤ first)
    (hlast : last ≤ last') : v.Within first' last' := fun i hi j hj k hk =>
  ⟨hfirst.trans (h i hi j hj k hk).1, (h i hi j hj k hk).2.trans hlast⟩

/-- Views of one slab after the other. -/
theorem Within.disjoint {slab m n : ℕ} (hv : v.Within (m * slab) ((m + 1) * slab))
    (hw : w.Within (n * slab) ((n + 1) * slab)) (h : m ≠ n) : v.Disjoint w := by
  intro i hi j hj k hk i' hi' j' hj' k' hk'
  obtain ⟨hvfirst, hvlast⟩ := hv i hi j hj k hk
  obtain ⟨hwfirst, hwlast⟩ := hw i' hi' j' hj' k' hk'
  rcases Nat.lt_or_gt_of_ne h with hlt | hlt
  · exact Or.inl (hvlast.trans ((Nat.mul_le_mul_right slab hlt).trans hwfirst))
  · exact Or.inr (hwlast.trans ((Nat.mul_le_mul_right slab hlt).trans hvfirst))

end View

/-! ### Rows of channels -/

theorem digits_lt {m n i j : ℕ} (hi : i < m) (hj : j < n) : i + m * j < m * n :=
  calc i + m * j < m + m * j := Nat.add_lt_add_right hi _
    _ = m * (j + 1) := by rw [Nat.mul_succ, Nat.add_comm]
    _ ≤ m * n := Nat.mul_le_mul_left m hj

theorem digits_inj {m i i' j j' : ℕ} (hi : i < m) (hi' : i' < m) (h : i + m * j = i' + m * j') :
    i = i' ∧ j = j' := by
  have hmod := congrArg (· % m) h
  have hdiv := congrArg (· / m) h
  simp only [Nat.add_mul_mod_self_left, Nat.mod_eq_of_lt hi, Nat.mod_eq_of_lt hi'] at hmod
  simp only [Nat.add_mul_div_left _ _ (Nat.zero_lt_of_lt hi), Nat.div_eq_of_lt hi, Nat.div_eq_of_lt hi',
    zero_add] at hdiv
  exact ⟨hmod, hdiv⟩

/-- Where the channels of a row stand: the rows of so many positions, layer after layer. -/
structure Layout where
  channels : ℕ
  positions : ℕ
  address : ℕ → ℕ → ℕ → ℕ
  /-- No two channels stand at one place. -/
  injective : ∀ {layer layer' p p' c c' : ℕ}, p < positions → p' < positions → c < channels → c' < channels →
    address layer p c = address layer' p' c' → layer = layer' ∧ p = p' ∧ c = c'

namespace Layout

/-- Channel after channel, in two bytes each. -/
def rowMajor (channels positions : ℕ) : Layout where
  channels := channels
  positions := positions
  address layer p c := layer * (2 * channels * positions) + 2 * channels * p + 2 * c
  injective := fun {layer layer' p p' c c'} hp hp' hc hc' h => by
    have hdigits : c + channels * (p + positions * layer) = c' + channels * (p' + positions * layer') := by
      ring_nf at h ⊢
      omega
    obtain ⟨rfl, hrest⟩ := digits_inj hc hc' hdigits
    obtain ⟨rfl, rfl⟩ := digits_inj hp hp' hrest
    exact ⟨rfl, rfl, rfl⟩

/-- Position after position. -/
def transposed (channels positions : ℕ) : Layout where
  channels := channels
  positions := positions
  address layer p c := layer * (2 * channels * positions) + 2 * p + 2 * positions * c
  injective := fun {layer layer' p p' c c'} hp hp' hc hc' h => by
    have hdigits : p + positions * (c + channels * layer) = p' + positions * (c' + channels * layer') := by
      ring_nf at h ⊢
      omega
    obtain ⟨rfl, hrest⟩ := digits_inj hp hp' hdigits
    obtain ⟨rfl, rfl⟩ := digits_inj hc hc' hrest
    exact ⟨rfl, rfl, rfl⟩

variable {E : Type} (a : Layout)

/-- What stands in the row of a position. -/
def row (memory : ℕ → E) (layer p : ℕ) : List E :=
  (List.range a.channels).map fun c => memory (a.address layer p c)

/-- The view has exactly the rows of `n` positions of a layer. -/
structure Covers (v : View) (layer position n : ℕ) (number : ℕ → ℕ → ℕ) : Prop where
  place : ∀ e < v.count, ∃ j < n, ∃ c < a.channels, e = number j c
  number : ∀ j < n, ∀ c < a.channels, number j c < v.count ∧
    v.place (number j c) = a.address layer (position + j) c

variable {a} {v : View} {layer position n : ℕ} {number : ℕ → ℕ → ℕ}

/-- **What a copy leaves behind.** -/
theorem Covers.copy_address (h : a.Covers v layer position n number) (hroom : position + n ≤ a.positions)
    (f : E → E) (t : Tensor E) (memory : ℕ → E) {m p c : ℕ} (hp : p < a.positions) (hc : c < a.channels) :
    v.copy f t memory (a.address m p c) =
      if m = layer ∧ position ≤ p ∧ p < position + n then f (t.element (number (p - position) c))
      else memory (a.address m p c) := by
  have hat : ∀ e < v.count, v.place e = a.address m p c → m = layer ∧ position ≤ p ∧ p < position + n ∧
      e = number (p - position) c := by
    intro e he heq
    obtain ⟨j, hj, c', hc', rfl⟩ := h.place e he
    rw [(h.number j hj c' hc').2] at heq
    obtain ⟨rfl, rfl, rfl⟩ := a.injective (by omega) hp hc' hc heq
    exact ⟨rfl, Nat.le_add_right _ _, by omega, by rw [Nat.add_sub_cancel_left]⟩
  split_ifs with hmine
  · obtain ⟨rfl, hle, hlt⟩ := hmine
    have hnumber := h.number (p - position) (by omega) c hc
    refine Cells.writes_eq ⟨_, List.mem_range.mpr hnumber.1, ?_⟩ (fun e he heq => ?_) memory
    · rw [hnumber.2, Nat.add_sub_cancel' hle]
    · rw [(hat e (List.mem_range.mp he) heq).2.2.2]
  · refine Cells.writes_of_ne (fun e he heq => hmine ?_) memory
    obtain ⟨hm, hle, hlt, -⟩ := hat e (List.mem_range.mp he) heq
    exact ⟨hm, hle, hlt⟩

/-- The rows behind a copy. -/
theorem Covers.row_copy (h : a.Covers v layer position n number) (hroom : position + n ≤ a.positions)
    (f : E → E) (t : Tensor E) (memory : ℕ → E) {m p : ℕ} (hp : p < a.positions) :
    a.row (v.copy f t memory) m p =
      if m = layer ∧ position ≤ p ∧ p < position + n then
        (List.range a.channels).map fun c => f (t.element (number (p - position) c))
      else a.row memory m p := by
  split_ifs with hmine
  · exact List.map_congr_left fun c hc =>
      (h.copy_address hroom f t memory hp (List.mem_range.mp hc)).trans (if_pos hmine)
  · exact List.map_congr_left fun c hc =>
      (h.copy_address hroom f t memory hp (List.mem_range.mp hc)).trans (if_neg hmine)

end Layout

end FortAI
