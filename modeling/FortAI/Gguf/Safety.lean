import FortAI.Gguf.Format

/-!
# Opening a GGUF file

What is opened is what the file declares, unless a length or a count is out of range, a dimension is
not positive, or a size leaves the range of the machine.

* `Index.Read.iff_inRange` : metadata and index, whose numbers nobody compares with anything.
* `loadPayload_inside` : a payload that is loaded is inside the file.
* `opensSafely_iff` : the files that are opened safely.
-/

namespace FortAI

namespace Gguf

open Binary Scanner

/-! ### What is declared -/

/-- The string is allocated with its declared length. -/
def Text.Sound (text : Text) : Prop := ∃ s, text.value = some s ∧ s.length = text.declared

/-- The elements of an array are as many as declared, and its strings are sound. -/
def Value.Sound : Value → Prop
  | .string text => text.Sound
  | .integers declared _ xs => xs.length = declared
  | .strings declared xs => xs.length = declared ∧ ∀ text ∈ xs, text.Sound
  | .skipped declared _ n => n = declared
  | _ => True

def Meta.Sound (entry : Meta) : Prop := entry.key.Sound ∧ entry.value.Sound

/-- The width of a block of a tensor of this type, and its size. -/
def layout (valueType : ℤ) : ℤ × ℤ :=
  if valueType = 0 then (1, 4)
  else if valueType = 1 then (1, 2)
  else if valueType = 8 then (32, 34)
  else quantLayout valueType

/-- The size that the shape and the type imply, as a number without bounds. -/
def Info.size (info : Info) : ℤ :=
  info.shape.prod / (layout info.valueType).1 * (layout info.valueType).2

/-- The name and the sizes of a tensor are those that its shape and its type imply. -/
structure Info.Exact (info : Info) : Prop where
  name : info.name.Sound
  positive : ∀ d ∈ info.shape, 0 < d
  elements : tensorElements info.shape = info.shape.prod
  blocks : (layout info.valueType).1 ∣ info.shape.prod
  byteCount : info.byteCount = info.size

/-- The metadata and the tensors are as many as declared and sound, and the data starts at the first
multiple of the alignment behind them. -/
structure Index.Sound (index : Index) : Prop where
  metadataCount : (index.metadata.length : ℤ) = index.metadataCount
  tensorCount : (index.infos.length : ℤ) = index.tensorCount
  metadata : ∀ entry ∈ index.metadata, entry.Sound
  infos : ∀ info ∈ index.infos, info.Exact
  dataStart : index.dataStart = (index.position + index.alignment - 1) / index.alignment * index.alignment

/-- The payload of a tensor is a range of the file. -/
def Inside (file : Bytes) (dataStart : ℤ) (info : Info) (payload : Bytes) : Prop :=
  0 ≤ dataStart + info.fileOffset ∧ dataStart + info.fileOffset + info.byteCount ≤ file.length ∧
    payload = (file.drop (dataStart + info.fileOffset).toNat).take info.byteCount.toNat

/-- A file that is open. -/
structure Sound (file : Bytes) (f : GgufFile) : Prop where
  index : f.index.Sound
  payloads : List.Forall₂ (Inside file f.index.dataStart) f.index.infos f.payloads

/-- Opening a file reports an error, or succeeds with what the file declares. -/
def OpensSafely (room : Memory) (mapped : Bool) (file : Bytes) : Prop :=
  match openFile room mapped file with
  | .reported _ => True
  | .terminated => False
  | .opened f => Sound file f

/-! ### Ranges -/

def Text.InRange (text : Text) : Prop := text.declared < 9223372036854775808

def Value.InRange : Value → Prop
  | .string text => text.InRange
  | .integers declared _ _ => declared < 9223372036854775808
  | .strings declared xs => declared < 9223372036854775808 ∧ ∀ text ∈ xs, text.InRange
  | .skipped declared _ _ => declared < 9223372036854775808
  | _ => True

def Meta.InRange (entry : Meta) : Prop := entry.key.InRange ∧ entry.value.InRange

def Info.InRange (info : Info) : Prop :=
  info.name.InRange ∧ (∀ d ∈ info.shape, 0 < d) ∧ info.shape.prod < 9223372036854775808 ∧
    info.size < 9223372036854775808

structure Index.InRange (index : Index) : Prop where
  metadataCount : index.metadataCount < 2147483648
  tensorCount : index.tensorCount < 2147483648
  metadata : ∀ entry ∈ index.metadata, entry.InRange
  infos : ∀ info ∈ index.infos, info.InRange
  position : index.position + index.alignment ≤ 9223372036854775808

/-- There is room for what the file asks for, and where it is read to its end the numbers in it are in
range. -/
def Regular (room : Memory) (mapped : Bool) (file : Bytes) : Prop :=
  room ((readFile mapped file).run file).1 = true ∧
    ∀ f after, (readFile mapped file).Yields file f after → f.index.InRange

/-! ### Strings and metadata -/

theorem toNat_signed {n : ℕ} : (signed .int64 n).toNat = n ↔ n < 9223372036854775808 := by
  rw [signed]
  split_ifs with hn
  · exact iff_of_true (Int.toNat_natCast n) hn
  · simp only [Width.limit] at hn ⊢
    omega

theorem readString_sound (e : OpenError) : (readString e).Ensures fun text => text.Sound ↔ text.InRange := by
  refine ensures_next.bind fun s hs => Ensures.ite (fun hnegative => ?_) fun hnegative => ?_
  · refine ensures_pure (iff_of_false ?_ fun hrange => ?_)
    · rintro ⟨s, hsome, -⟩
      cases hsome
    · have hlength := toNat_signed.mpr hrange
      have hzero : unsigned s = 0 := hlength.symm.trans (Int.toNat_of_nonpos hnegative.le)
      rw [hzero] at hnegative
      exact absurd hnegative (by decide)
  · refine ensures_bind fun _ => ensures_next.bind fun value hvalue => ensures_pure ?_
    have hlow : unsigned s < 9223372036854775808 := by
      have hlt := unsigned_lt .int64 hs
      rw [signed] at hnegative
      split_ifs at hnegative with hn
      · exact hn
      · simp only [Width.limit] at hlt hn hnegative
        omega
    exact iff_of_true ⟨value, rfl, hvalue.trans (toNat_signed.mpr hlow)⟩ hlow

/-- What is read of a value of metadata. -/
structure Value.Read (v : Value) : Prop where
  sound_inRange : v.Sound ↔ v.InRange
  integer_lt : ∀ x, v = .integer x → x < 9223372036854775808

theorem readArray_read : readArray.Ensures Value.Read := by
  have hread {v : Value} (hv : v.Sound ↔ v.InRange) (hne : ∀ x, v ≠ .integer x) : v.Read :=
    ⟨hv, fun x hx => absurd hx (hne x)⟩
  refine ensures_bind fun elementType => ensures_bind fun s => Ensures.ite (fun _ => ?_) fun _ =>
    Ensures.ite (fun _ => ?_) fun _ => ?_
  · refine ensures_bind fun _ => (ensures_true _).times.bind fun xs hxs =>
      ensures_pure (hread ?_ fun _ => Value.noConfusion)
    rw [Value.Sound, hxs.1]
    exact toNat_signed
  · refine ensures_bind fun _ => (readString_sound _).times.bind fun xs hxs =>
      ensures_pure (hread ?_ fun _ => Value.noConfusion)
    rw [Value.Sound, hxs.1]
    exact and_congr toNat_signed (forall₂_congr hxs.2)
  · refine (ensures_true _).times.bind fun xs hxs => ensures_pure (hread ?_ fun _ => Value.noConfusion)
    rw [Value.Sound, hxs.1]
    exact toNat_signed

theorem readInteger_read {w : Width} {f : ℤ → ℤ}
    (hf : ∀ x, -(w.limit : ℤ) ≤ x ∧ x < w.limit → f x < 9223372036854775808) :
    (readInteger w f).Ensures Value.Read :=
  ensures_nextInt.bind fun x hx => ensures_pure ⟨Iff.rfl, fun _ h => Value.integer.inj h ▸ hf x hx⟩

theorem readValue_read (valueType : ℤ) : (readValue valueType).Ensures Value.Read := by
  have hid (w : Width) : (readInteger w id).Ensures Value.Read := readInteger_read fun x hx =>
    hx.2.trans_le (by cases w <;> decide)
  have hreal (n : ℕ) : (readReal n).Ensures Value.Read :=
    ensures_bind fun _ => ensures_pure ⟨Iff.rfl, fun _ => Value.noConfusion⟩
  refine Ensures.ite (fun _ => readInteger_read fun x _ => by omega) fun _ =>
    Ensures.ite (fun _ => hid _) fun _ =>
    Ensures.ite (fun _ => readInteger_read fun x _ => by omega) fun _ =>
    Ensures.ite (fun _ => hid _) fun _ => Ensures.ite (fun _ => hid _) fun _ =>
    Ensures.ite (fun _ => readInteger_read fun x _ => by omega) fun _ =>
    Ensures.ite (fun _ => hid _) fun _ => Ensures.ite (fun _ => hreal _) fun _ =>
    Ensures.ite (fun _ => hreal _) fun _ => Ensures.ite (fun _ => ?_) fun _ =>
    Ensures.ite (fun _ => ?_) fun _ => Ensures.ite (fun _ => readArray_read) fun _ => ensures_fail
  · exact ensures_bind fun _ => ensures_pure ⟨Iff.rfl, fun _ => Value.noConfusion⟩
  · exact (readString_sound _).bind fun text htext => ensures_pure ⟨htext, fun _ => Value.noConfusion⟩

/-- What is read of an entry of metadata. -/
structure Meta.Read (entry : Meta) : Prop where
  sound_inRange : entry.Sound ↔ entry.InRange
  integer_lt : ∀ x, entry.value = .integer x → x < 9223372036854775808

theorem readMeta_read : readMeta.Ensures Meta.Read :=
  (readString_sound _).bind fun _ hkey => ensures_bind fun valueType =>
    (readValue_read valueType).bind fun _ hvalue =>
      ensures_pure ⟨and_congr hkey hvalue.sound_inRange, hvalue.integer_lt⟩

theorem metaInt_lt {metadata : List Meta} (key : Bytes) {fallback : ℤ}
    (hall : ∀ entry ∈ metadata, ∀ x, entry.value = .integer x → x < 9223372036854775808)
    (hfallback : fallback < 9223372036854775808) :
    metaInt metadata key fallback < 9223372036854775808 := by
  rw [metaInt]
  split
  · rename_i key valueType x hfind
    exact hall _ (List.mem_of_find?_eq_some hfind) x rfl
  · exact hfallback

/-! ### Tensors -/

/-- The type of a tensor that has a size. -/
theorem layout_pos {valueType : ℤ} {shape : List ℤ} {elements byteCount : ℤ}
    (h : tensorBytes valueType shape elements = .ok byteCount) :
    0 < (layout valueType).1 ∧ 0 < (layout valueType).2 := by
  rw [tensorBytes] at h
  by_cases hmem : valueType ∈ [0, 1, 8, 11, 12, 13, 14, 20, 21, 23]
  · simp only [List.mem_cons, List.not_mem_nil, or_false] at hmem
    rcases hmem with rfl | rfl | rfl | rfl | rfl | rfl | rfl | rfl | rfl | rfl <;> decide
  · simp only [List.mem_cons, List.not_mem_nil, or_false, not_or] at hmem
    obtain ⟨h0, h1, h8, hquant⟩ := hmem
    rw [if_neg h0, if_neg h1, if_neg h8, if_neg (by simpa using hquant)] at h
    cases h

theorem blockBytes_eq_ok {shape : List ℤ} {width size byteCount : ℤ} {e : OpenError}
    (hpos : ∀ d ∈ shape, 0 < d) (hlt : shape.prod < 9223372036854775808) (hwidth : 0 < width)
    (h : blockBytes shape shape.prod width size e = .ok byteCount) :
    width ∣ shape.prod ∧ byteCount = wrap .int64 (shape.prod / width * size) := by
  cases shape with
  | nil =>
    rw [blockBytes] at h
    cases h
  | cons first rest =>
    have hfirst : 0 < first := hpos first List.mem_cons_self
    have hrest : 0 < rest.prod := List.prod_pos fun d hd => hpos d (List.mem_cons_of_mem _ hd)
    rw [blockBytes, List.headD_cons, List.prod_cons] at h
    rw [List.prod_cons] at hlt ⊢
    split_ifs at h with hwrong
    push Not at hwrong
    have hdvd : width ∣ first := Int.dvd_of_tmod_eq_zero hwrong.2
    have hrows : (first * rest.prod).tdiv first = rest.prod := Int.mul_tdiv_cancel_left _ hfirst.ne'
    have hblocks : rest.prod * first.tdiv width = first * rest.prod / width := by
      rw [Int.tdiv_eq_ediv_of_nonneg hfirst.le, mul_comm first, Int.mul_ediv_assoc _ hdvd]
    have hcount : 0 ≤ first * rest.prod / width ∧ first * rest.prod / width < 9223372036854775808 :=
      ⟨Int.ediv_nonneg (mul_pos hfirst hrest).le hwidth.le,
        (Int.ediv_le_self _ (mul_pos hfirst hrest).le).trans_lt hlt⟩
    rw [hrows, hblocks, wrap_of_nonneg (w := .int64) hcount.1 hcount.2] at h
    exact ⟨hdvd.mul_right _, (Except.ok.inj h).symm⟩

/-- The size that is computed is the exact one, taken to the range of the machine. -/
theorem tensorBytes_eq_ok {valueType : ℤ} {shape : List ℤ} {byteCount : ℤ} (hpos : ∀ d ∈ shape, 0 < d)
    (hlt : shape.prod < 9223372036854775808)
    (h : tensorBytes valueType shape shape.prod = .ok byteCount) :
    (layout valueType).1 ∣ shape.prod ∧
      byteCount = wrap .int64 (shape.prod / (layout valueType).1 * (layout valueType).2) := by
  have hwidth := (layout_pos h).1
  rw [tensorBytes] at h
  rw [layout] at hwidth ⊢
  split_ifs at h hwidth ⊢
  · rw [Int.ediv_one, mul_comm]
    exact ⟨one_dvd _, (Except.ok.inj h).symm⟩
  · rw [Int.ediv_one, mul_comm]
    exact ⟨one_dvd _, (Except.ok.inj h).symm⟩
  · exact blockBytes_eq_ok hpos hlt hwidth h
  · exact blockBytes_eq_ok hpos hlt hwidth h

/-- The sizes of a tensor that is read are exact where they are in range. -/
theorem exact_iff_inRange {info : Info} (hname : info.name.Sound ↔ info.name.InRange)
    (h : tensorBytes info.valueType info.shape (tensorElements info.shape) = .ok info.byteCount) :
    info.Exact ↔ info.InRange := by
  constructor
  · intro hexact
    have hprod : info.shape.prod < 9223372036854775808 :=
      hexact.elements ▸ (product_mem .int64 info.shape).2
    rw [hexact.elements] at h
    refine ⟨hname.mp hexact.name, hexact.positive, hprod, ?_⟩
    rw [← hexact.byteCount, (tensorBytes_eq_ok hexact.positive hprod h).2]
    exact (wrap_mem .int64 _).2
  · rintro ⟨hrange, hpos, hprod, hsize⟩
    have helements : tensorElements info.shape = info.shape.prod := product_eq_prod hpos hprod
    obtain ⟨hwidth, hblock⟩ := layout_pos h
    rw [helements] at h
    obtain ⟨hdvd, hbytes⟩ := tensorBytes_eq_ok hpos hprod h
    have hnonneg : 0 ≤ info.size :=
      mul_nonneg (Int.ediv_nonneg (List.prod_pos hpos).le hwidth.le) hblock.le
    refine ⟨hname.mpr hrange, hpos, helements, hdvd, hbytes.trans ?_⟩
    exact wrap_of_nonneg hnonneg hsize

/-- What is read of a tensor. -/
structure Info.Read (info : Info) : Prop where
  exact_iff : info.Exact ↔ info.InRange
  fileOffset : -9223372036854775808 ≤ info.fileOffset ∧ info.fileOffset < 9223372036854775808
  byteCount_pos : info.Exact → 0 < info.byteCount

theorem readInfo_read : readInfo.Ensures Info.Read := by
  refine (readString_sound _).bind fun name hname => ensures_bind fun rank =>
    Ensures.ite (fun _ => ensures_fail) fun _ => ensures_bind fun shape => ensures_bind fun valueType =>
    ensures_nextInt.bind fun fileOffset hoffset => ?_
  split
  · exact ensures_fail
  · rename_i byteCount hbytes
    refine ensures_pure ⟨exact_iff_inRange hname hbytes, hoffset, fun hexact => ?_⟩
    obtain ⟨hwidth, hblock⟩ := layout_pos hbytes
    rw [hexact.byteCount]
    refine mul_pos (Int.ediv_pos_of_pos_of_dvd ?_ hwidth.le hexact.blocks) hblock
    exact List.prod_pos hexact.positive

/-! ### The index -/

/-- `align_up` is exact where the sum does not leave the range of the machine. -/
theorem alignUp_eq_iff {value alignment : ℤ} (hvalue : 0 ≤ value ∧ value < 9223372036854775808)
    (halignment : 0 < alignment ∧ alignment < 9223372036854775808) :
    alignUp value alignment = (value + alignment - 1) / alignment * alignment ↔
      value + alignment ≤ 9223372036854775808 := by
  rw [alignUp, sub_eq_add_neg, wrap_wrap_add, ← sub_eq_add_neg]
  have hmul : (value + alignment - 1) / alignment * alignment ≤ value + alignment - 1 :=
    Int.ediv_mul_le _ halignment.1.ne'
  constructor
  · intro h
    by_contra hgt
    -- the sum is negative, so that the multiple of the alignment is not positive
    have hsum : wrap .int64 (value + alignment - 1) = value + alignment - 1 - 18446744073709551616 := by
      rw [wrap]
      simp only [Width.limit]
      omega
    have hquotient : 1 ≤ (value + alignment - 1) / alignment :=
      (Int.le_ediv_iff_mul_le halignment.1).mpr (by omega)
    have hpos : 0 < (value + alignment - 1) / alignment * alignment :=
      mul_pos (by omega) halignment.1
    generalize hy : 18446744073709551616 - (value + alignment - 1) = y at *
    have hneg : wrap .int64 (value + alignment - 1) = -y := by omega
    rw [hneg, Int.neg_tdiv, Int.tdiv_eq_ediv_of_nonneg (by omega), neg_mul] at h
    have hlow : 0 ≤ y / alignment * alignment :=
      mul_nonneg (Int.ediv_nonneg (by omega) halignment.1.le) halignment.1.le
    have hhigh : y / alignment * alignment ≤ y := Int.ediv_mul_le _ halignment.1.ne'
    rw [wrap_eq_self (by simp only [Width.limit]; omega) (by simp only [Width.limit]; omega)] at h
    omega
  · intro hle
    have hnonneg : 0 ≤ value + alignment - 1 := by omega
    rw [wrap_of_nonneg hnonneg (by simp only [Width.limit]; omega), Int.tdiv_eq_ediv_of_nonneg hnonneg]
    refine wrap_of_nonneg ?_ (by simp only [Width.limit]; omega)
    exact mul_nonneg (Int.ediv_nonneg hnonneg halignment.1.le) halignment.1.le

/-- All elements of an array have a property exactly when their number fits, and those that are read
have it. -/
theorem forall_padded_iff {α : Type} {P Q : α → Prop} {unread : α} {count : ℤ} {xs : List α}
    (hcount : 0 ≤ count) (hall : ∀ x ∈ xs, P x ↔ Q x) (hunread : ¬ P unread) :
    (∀ x ∈ padded count unread xs, P x) ↔ count < 2147483648 ∧ ∀ x ∈ padded count unread xs, Q x := by
  rw [padded]
  by_cases hlt : count < 2147483648
  · have hiterations : iterations count = count.toNat := by
      rw [iterations, wrap_of_nonneg (w := .int32) hcount hlt]
    rw [hiterations, Nat.sub_self, List.replicate_zero, List.append_nil, and_iff_right hlt]
    exact forall₂_congr hall
  · have hwrap := (wrap_mem .int32 count).2
    have hpos : 0 < count.toNat - iterations count := by
      rw [iterations]
      simp only [Width.limit] at hwrap
      omega
    refine iff_of_false (fun h => hunread (h unread ?_)) fun h => hlt h.1
    exact List.mem_append_right _ (List.mem_replicate.mpr ⟨hpos.ne', rfl⟩)

theorem length_padded {α : Type} {unread : α} {count : ℤ} {xs : List α} (hcount : 0 ≤ count)
    (hlength : xs.length = iterations count) : ((padded count unread xs).length : ℤ) = count := by
  have hle : iterations count ≤ count.toNat := by
    rw [iterations, wrap]
    simp only [Width.limit]
    omega
  rw [padded, List.length_append, List.length_replicate, hlength]
  omega

theorem not_sound_unread : ¬ Meta.unread.Sound := by
  rintro ⟨⟨s, hs, -⟩, -⟩
  cases hs

theorem not_exact_unread : ¬ Info.unread.Exact := by
  rintro ⟨⟨s, hs, -⟩, -, -, -, -⟩
  cases hs

/-- What is read of the index of a file of this size. -/
structure Index.Read (size : ℕ) (index : Index) : Prop where
  counts : 0 ≤ index.metadataCount ∧ 0 ≤ index.tensorCount
  metadata : ∃ entries : List Meta, entries.length = iterations index.metadataCount ∧
    (∀ entry ∈ entries, entry.Read) ∧ index.metadata = padded index.metadataCount .unread entries
  infos : ∃ infos : List Info, infos.length = iterations index.tensorCount ∧
    (∀ info ∈ infos, info.Read) ∧ index.infos = padded index.tensorCount .unread infos
  alignment : 0 < index.alignment ∧ index.alignment < 9223372036854775808
  position : 0 ≤ index.position ∧ index.position ≤ size
  dataStart : index.dataStart = alignUp index.position index.alignment

theorem alignment_mem {metadata : List Meta}
    (hall : ∀ entry ∈ metadata, ∀ x, entry.value = .integer x → x < 9223372036854775808) :
    0 < alignment metadata ∧ alignment metadata < 9223372036854775808 := by
  have hlt := metaInt_lt (CString.ascii "general.alignment") hall (by decide : (32 : ℤ) < _)
  rw [alignment]
  split_ifs with hle
  · decide
  · exact ⟨not_le.mp hle, hlt⟩

theorem readEntries_read {size : ℕ} {tensorCount metadataCount : ℤ} {rest after : Bytes} {index : Index}
    (htensors : 0 ≤ tensorCount) (hmetadata : 0 ≤ metadataCount) (hle : rest.length ≤ size)
    (h : (readEntries size tensorCount metadataCount).Yields rest index after) : index.Read size := by
  obtain ⟨⟨⟩, rest₁, hask, h⟩ := yields_bind.mp h
  obtain ⟨entries, rest₂, hentries, h⟩ := yields_bind.mp h
  obtain ⟨⟨⟩, rest₃, hask', h⟩ := yields_bind.mp h
  obtain ⟨infos, rest₄, hinfos, h⟩ := yields_bind.mp h
  obtain ⟨n, rest₅, hleft, h⟩ := yields_bind.mp h
  obtain ⟨rfl, rfl⟩ := yields_left.mp hleft
  obtain ⟨rfl, -⟩ := yields_pure.mp h
  have hentry := readMeta_read.times hentries
  have hinfo := readInfo_read.times hinfos
  have hleft : rest₄.length ≤ rest.length := (hinfos.length_le.trans hask'.length_le).trans
    (hentries.length_le.trans hask.length_le)
  refine ⟨⟨hmetadata, htensors⟩, ⟨entries, hentry.1, hentry.2, rfl⟩, ⟨infos, hinfo.1, hinfo.2, rfl⟩,
    alignment_mem fun entry hmem x hx => ?_, ⟨?_, ?_⟩, rfl⟩
  · rcases List.mem_append.mp hmem with hread | hunread
    · exact (hentry.2 entry hread).integer_lt x hx
    · rw [(List.mem_replicate.mp hunread).2] at hx
      exact Value.integer.inj hx ▸ by decide
  · show (0 : ℤ) ≤ size - rest₄.length
    omega
  · show (size : ℤ) - rest₄.length ≤ size
    omega

theorem readIndex_read {file after : Bytes} {index : Index}
    (h : (readIndex file.length).Yields file index after) : index.Read file.length := by
  obtain ⟨word, rest₁, hword, h⟩ := yields_bind.mp h
  obtain ⟨version, rest₂, hversion, h⟩ := yields_bind.mp h
  obtain ⟨tensorCount, rest₃, htensors, h⟩ := yields_bind.mp h
  obtain ⟨metadataCount, rest₄, hmetadata, h⟩ := yields_bind.mp h
  split_ifs at h with hmagic hcounts
  · exact absurd h yields_fail
  · exact absurd h yields_fail
  · push Not at hcounts
    exact readEntries_read hcounts.1 hcounts.2 ((hmetadata.length_le.trans htensors.length_le).trans
      (hversion.length_le.trans hword.length_le)) h

section

variable {size : ℕ} {index : Index}

/-- The index is sound where the numbers in it are in range. -/
theorem Index.Read.iff_inRange (h : index.Read size) (hsize : size < 9223372036854775808) :
    index.Sound ↔ index.InRange := by
  obtain ⟨entries, hentries, hentry, hmetadata⟩ := h.metadata
  obtain ⟨infos, hinfos, hinfo, htensors⟩ := h.infos
  have hentries_iff := forall_padded_iff h.counts.1 (fun entry he => (hentry entry he).sound_inRange)
    not_sound_unread
  have hinfos_iff := forall_padded_iff h.counts.2 (fun info hi => (hinfo info hi).exact_iff)
    not_exact_unread
  have hposition := alignUp_eq_iff ⟨h.position.1, by have := h.position.2; omega⟩ h.alignment
  rw [← hmetadata] at hentries_iff
  rw [← htensors] at hinfos_iff
  rw [← h.dataStart] at hposition
  constructor
  · intro hsound
    obtain ⟨hcount, hentries⟩ := hentries_iff.mp hsound.metadata
    obtain ⟨hcount', hinfos⟩ := hinfos_iff.mp hsound.infos
    exact ⟨hcount, hcount', hentries, hinfos, hposition.mp hsound.dataStart⟩
  · intro hrange
    refine ⟨?_, ?_, hentries_iff.mpr ⟨hrange.metadataCount, hrange.metadata⟩,
      hinfos_iff.mpr ⟨hrange.tensorCount, hrange.infos⟩, hposition.mpr hrange.position⟩
    · rw [hmetadata, length_padded h.counts.1 hentries]
    · rw [htensors, length_padded h.counts.2 hinfos]

theorem Index.Read.dataStart_mem (h : index.Read size) (hsound : index.Sound) :
    0 ≤ index.dataStart ∧ index.dataStart < 9223372036854775808 := by
  refine ⟨?_, h.dataStart ▸ (wrap_mem .int64 _).2⟩
  rw [hsound.dataStart]
  have halignment := h.alignment.1
  have hposition := h.position.1
  exact mul_nonneg (Int.ediv_nonneg (by omega) halignment.le) halignment.le

theorem Index.Read.of_mem (h : index.Read size) {info : Info} (hmem : info ∈ index.infos)
    (hexact : info.Exact) : info.Read := by
  obtain ⟨infos, -, hinfo, htensors⟩ := h.infos
  rw [htensors, padded] at hmem
  rcases List.mem_append.mp hmem with hread | hunread
  · exact hinfo info hread
  · exact absurd ((List.mem_replicate.mp hunread).2 ▸ hexact) not_exact_unread

end

/-! ### Payloads -/

theorem mmapSlice_eq_some {file bytes : Bytes} {offset size : ℕ}
    (h : mmapSlice file offset size = some bytes) :
    offset + size ≤ file.length ∧ bytes = (file.drop offset).take size := by
  rw [mmapSlice] at h
  split_ifs at h with hwrong
  push Not at hwrong
  exact ⟨by omega, (Option.some.inj h).symm⟩

theorem readAt_eq_some {file bytes : Bytes} {position : ℤ} {n : ℕ} (h : readAt file position n = some bytes) :
    0 < position ∧ n ≤ file.length - (position - 1).toNat ∧
      bytes = (file.drop (position - 1).toNat).take n := by
  rw [readAt] at h
  split_ifs at h with hposition
  obtain ⟨⟨s, after⟩, hread, rfl⟩ := Option.map_eq_some_iff.mp h
  obtain ⟨hfile, rfl⟩ := read_eq_some.mp hread
  refine ⟨not_le.mp hposition, ?_, by rw [hfile, List.take_left]⟩
  have hlength := congrArg List.length hfile
  rw [List.length_drop, List.length_append] at hlength
  omega

/-- A payload that is loaded is inside the file. -/
theorem loadPayload_inside {mapped : Bool} {file : Bytes} {dataStart : ℤ} {info : Info}
    (hsize : file.length < 9223372036854775808)
    (hstart : 0 ≤ dataStart ∧ dataStart < 9223372036854775808)
    (hoffset : -9223372036854775808 ≤ info.fileOffset ∧ info.fileOffset < 9223372036854775808)
    (hcount : 0 < info.byteCount) :
    (loadPayload mapped file dataStart info).Ensures (Inside file dataStart info) := by
  -- a sum that leaves the range of the machine is negative
  have hsum : 0 ≤ wrap .int64 (dataStart + info.fileOffset) →
      wrap .int64 (dataStart + info.fileOffset) = dataStart + info.fileOffset := by
    rw [wrap]
    simp only [Width.limit]
    omega
  have hrange := wrap_mem .int64 (dataStart + info.fileOffset)
  simp only [Width.limit] at hrange
  rw [loadPayload]
  generalize wrap .int64 (dataStart + info.fileOffset) = offset at hsum hrange ⊢
  split
  · rename_i bytes hslice
    split_ifs at hslice with hmapped
    obtain ⟨hle, rfl⟩ := mmapSlice_eq_some hslice
    have hsmall := of_decide_eq_true (Bool.and_eq_true_iff.mp hmapped).2
    have hcount' : sizeT info.byteCount = info.byteCount.toNat := by
      rw [sizeT]
      omega
    have hoffset' : 0 ≤ offset ∧ sizeT offset = offset.toNat := by
      rw [sizeT] at hle ⊢
      omega
    rw [hcount', hoffset'.2] at hle ⊢
    rw [hsum hoffset'.1] at hle ⊢
    refine ensures_pure ⟨by omega, by omega, rfl⟩
  · refine ensures_bind fun _ => ?_
    split
    · exact ensures_fail
    · rename_i bytes hread
      obtain ⟨hposition, hle, rfl⟩ := readAt_eq_some hread
      have hoffset' : 0 ≤ offset ∧ wrap .int64 (offset + 1) - 1 = offset := by
        rw [wrap] at hposition ⊢
        simp only [Width.limit] at hposition ⊢
        omega
      rw [hoffset'.2] at hle ⊢
      have heq := hsum hoffset'.1
      rw [heq] at hle ⊢
      exact ensures_pure ⟨heq ▸ hoffset'.1, by omega, rfl⟩

/-! ### Opening a file -/

/-- A file that is read to its end is sound where the numbers in its index are in range. -/
theorem sound_iff_inRange {mapped : Bool} {file after : Bytes} {f : GgufFile}
    (hsize : file.length < 9223372036854775808) (h : (readFile mapped file).Yields file f after) :
    Sound file f ↔ f.index.InRange := by
  obtain ⟨index, rest, hindex, h⟩ := yields_bind.mp h
  obtain ⟨payloads, rest', hpayloads, h⟩ := yields_bind.mp h
  obtain ⟨rfl, -⟩ := yields_pure.mp h
  have hread := readIndex_read hindex
  have hiff := hread.iff_inRange hsize
  refine ⟨fun hsound => hiff.mp hsound.index, fun hrange => ?_⟩
  have hsound := hiff.mpr hrange
  refine ⟨hsound, ?_⟩
  -- the loop reaches all tensors
  have hall : index.infos.take (iterations index.tensorCount) = index.infos := by
    have hcount := hsound.tensorCount
    rw [iterations, wrap_of_nonneg (w := .int32) hread.counts.2 hrange.tensorCount]
    exact List.take_of_length_le (by omega)
  have hloaded := Yields.forall₂ hpayloads
  rw [hall] at hloaded
  have hmem : ∀ info ∈ index.infos, info.Read ∧ info.Exact := fun info hinfo =>
    ⟨hread.of_mem hinfo (hsound.infos info hinfo), hsound.infos info hinfo⟩
  refine ((List.forall₂_and_left _ _).mpr ⟨hmem, hloaded⟩).imp ?_
  rintro info payload ⟨⟨hinfo, hexact⟩, rest, after, hyields⟩
  exact loadPayload_inside hsize (hread.dataStart_mem hsound) hinfo.fileOffset
    (hinfo.byteCount_pos hexact) hyields

section

variable {room : Memory} {mapped : Bool} {file : Bytes}

theorem regular_of_error {e : OpenError} (hrun : ((readFile mapped file).run file).2 = .error e) :
    Regular room mapped file ↔ room ((readFile mapped file).run file).1 = true := by
  refine and_iff_left fun f after hyields => ?_
  rw [Yields, hrun] at hyields
  cases hyields

theorem regular_of_ok {f : GgufFile} {after : Bytes}
    (hrun : ((readFile mapped file).run file).2 = .ok (f, after)) :
    Regular room mapped file ↔ room ((readFile mapped file).run file).1 = true ∧ f.index.InRange := by
  refine and_congr_right fun _ => ⟨fun h => h f after hrun, fun hrange f' after' hyields => ?_⟩
  rw [Yields, hrun] at hyields
  exact (Prod.mk.inj (Except.ok.inj hyields)).1 ▸ hrange

end

instance (text : Text) : Decidable text.InRange := inferInstanceAs (Decidable (_ < _))

instance decidableValue (v : Value) : Decidable v.InRange :=
  match v with
  | .string text => inferInstanceAs (Decidable text.InRange)
  | .integers _ _ _ => inferInstanceAs (Decidable (_ < _))
  | .strings _ _ => inferInstanceAs (Decidable (_ ∧ _))
  | .skipped _ _ _ => inferInstanceAs (Decidable (_ < _))
  | .integer _ => .isTrue trivial
  | .real _ => .isTrue trivial
  | .logical _ => .isTrue trivial

instance (entry : Meta) : Decidable entry.InRange := inferInstanceAs (Decidable (_ ∧ _))

instance (info : Info) : Decidable info.InRange := inferInstanceAs (Decidable (_ ∧ _))

theorem Index.inRange_iff {index : Index} : index.InRange ↔
    index.metadataCount < 2147483648 ∧ index.tensorCount < 2147483648 ∧
      (∀ entry ∈ index.metadata, entry.InRange) ∧ (∀ info ∈ index.infos, info.InRange) ∧
      index.position + index.alignment ≤ 9223372036854775808 :=
  ⟨fun h => ⟨h.1, h.2, h.3, h.4, h.5⟩, fun h => ⟨h.1, h.2.1, h.2.2.1, h.2.2.2.1, h.2.2.2.2⟩⟩

instance (index : Index) : Decidable index.InRange := decidable_of_iff _ Index.inRange_iff.symm

instance decidableRegular (room : Memory) (mapped : Bool) (file : Bytes) :
    Decidable (Regular room mapped file) :=
  match hrun : ((readFile mapped file).run file).2 with
  | .error _ => decidable_of_iff _ (regular_of_error hrun).symm
  | .ok (_, _) => decidable_of_iff _ (regular_of_ok hrun).symm

/-- **A file is opened safely** exactly when it is regular. -/
theorem opensSafely_iff (room : Memory) (mapped : Bool) (file : Bytes)
    (hsize : file.length < 9223372036854775808) :
    OpensSafely room mapped file ↔ Regular room mapped file := by
  rw [OpensSafely, openFile]
  by_cases hroom : room ((readFile mapped file).run file).1 = true
  · simp only [hroom, Bool.true_eq_false, if_false]
    cases hrun : ((readFile mapped file).run file).2 with
    | error e =>
      rw [regular_of_error hrun]
      exact iff_of_true trivial hroom
    | ok r =>
      obtain ⟨f, after⟩ := r
      rw [regular_of_ok hrun, and_iff_right hroom]
      exact sound_iff_inRange hsize hrun
  · simp only [Bool.eq_false_iff.mpr hroom, if_true]
    exact iff_of_false not_false fun h => hroom h.1

/-! ### A key of negative length -/

/-- The header of a file with this number of tensors and one entry of metadata. -/
def header (tensorCount : ℤ) : Bytes :=
  magic ++ encode .int32 3 ++ encode .int64 tensorCount ++ encode .int64 1

def string (s : Bytes) : Bytes := encode .int64 s.length ++ s

/-- A file with an entry whose key has length -1, and whose value is a byte. -/
def negativeFile : Bytes := header 0 ++ encode .int64 (-1) ++ encode .int32 0 ++ [7]

/-- The file is opened with a key that is not allocated. -/
theorem not_opensSafely_negativeFile : ¬ ∀ file, OpensSafely (fun _ => true) false file := by
  intro h
  have hsafe := h negativeFile
  have hopen : (match openFile (fun _ => true) false negativeFile with
      | .opened f => f.index.metadata.any fun entry => entry.key.value = none
      | _ => false) = true := by decide +kernel
  rw [OpensSafely] at hsafe
  cases hcase : openFile (fun _ => true) false negativeFile with
  | reported e =>
    rw [hcase] at hopen
    exact Bool.false_ne_true hopen
  | terminated =>
    rw [hcase] at hopen
    exact Bool.false_ne_true hopen
  | opened f =>
    rw [hcase] at hopen hsafe
    obtain ⟨entry, hmem, hnone⟩ := List.any_eq_true.mp hopen
    obtain ⟨s, hs, -⟩ := (hsafe.index.metadata entry hmem).1
    rw [of_decide_eq_true hnone] at hs
    cases hs

/-- A file with an entry and a tensor of one number. -/
def smallFile : Bytes :=
  header 1 ++ (string [107] ++ encode .int32 8 ++ string [118]) ++
    (string [116] ++ encode .int32 1 ++ encode .int64 1 ++ encode .int32 0 ++ encode .int64 0) ++
    List.replicate 17 0 ++ [1, 2, 3, 4]

theorem opensSafely_smallFile : OpensSafely (fun _ => true) true smallFile :=
  have hregular : Regular (fun _ => true) true smallFile := by decide +kernel
  (opensSafely_iff (fun _ => true) true smallFile (by decide +kernel)).mpr hregular

end Gguf

end FortAI
