import FortAI.Machine.Binary

/-!
# Chunks of a RIFF file

A chunk is an identifier of four bytes, the length of its payload and the payload, with a byte behind it
where the length is odd.

* `exists_chunk` : a chunk stands in front of a file whose length leaves room for it.
* `payloadOf` : the payload of the last chunk with an identifier.
* `exists_first` : the first chunk with which the chunks meet a condition.
-/

namespace FortAI

namespace Riff

open Binary

structure Chunk where
  id : Bytes
  payload : Bytes
  /-- The byte behind a payload of odd length. -/
  pad : Byte
  length_id : id.length = 4
  length_payload : payload.length < 2 ^ 32

namespace Chunk

/-- The chunk without the byte behind it. -/
def body (c : Chunk) : Bytes := c.id ++ (littleEndian 4 c.payload.length ++ c.payload)

def padding (c : Chunk) : Bytes := if c.payload.length % 2 = 1 then [c.pad] else []

def bytes (c : Chunk) : Bytes := c.body ++ c.padding

theorem length_body (c : Chunk) : c.body.length = 8 + c.payload.length := by
  rw [body, List.length_append, List.length_append, length_littleEndian, c.length_id]
  omega

theorem length_padding (c : Chunk) : c.padding.length = c.payload.length % 2 := by
  rw [padding]
  split_ifs with h
  · exact h.symm
  · rw [List.length_nil]
    omega

theorem length_bytes (c : Chunk) : c.bytes.length = 8 + c.payload.length + c.payload.length % 2 := by
  rw [bytes, List.length_append, length_body, length_padding]

end Chunk

/-- The chunks one behind the other. -/
def encodeChunks (chunks : List Chunk) : Bytes := chunks.flatMap Chunk.bytes

theorem encodeChunks_cons (c : Chunk) (chunks : List Chunk) :
    encodeChunks (c :: chunks) = c.bytes ++ encodeChunks chunks :=
  List.flatMap_cons ..

theorem encodeChunks_append (chunks more : List Chunk) :
    encodeChunks (chunks ++ more) = encodeChunks chunks ++ encodeChunks more :=
  List.flatMap_append ..

theorem length_le_encodeChunks (chunks : List Chunk) : chunks.length ≤ (encodeChunks chunks).length := by
  induction chunks with
  | nil => exact Nat.le_refl 0
  | cons c chunks ih =>
    rw [encodeChunks_cons, List.length_append, Chunk.length_bytes, List.length_cons]
    omega

/-- The length of the payload of a chunk that stands here. -/
def sizeAt (rest : Bytes) : ℕ := unsigned ((rest.drop 4).take 4)

theorem sizeAt_body (c : Chunk) (rest : Bytes) : sizeAt (c.body ++ rest) = c.payload.length := by
  rw [sizeAt, Chunk.body, List.append_assoc, List.append_assoc, List.drop_left' c.length_id,
    List.take_left' (length_littleEndian 4 _), unsigned_littleEndian]
  exact Nat.mod_eq_of_lt c.length_payload

/-- A chunk stands here when the length leaves room for it. -/
theorem exists_chunk {rest : Bytes} (h : 8 + sizeAt rest ≤ rest.length) :
    ∃ (c : Chunk) (after : Bytes), rest = c.body ++ after ∧ c.payload.length = sizeAt rest ∧
      (after ≠ [] → c.pad = after.headD 0) := by
  have hsize : ((rest.drop 4).take 4).length = 4 := by
    rw [List.length_take, List.length_drop]
    omega
  have hlt : sizeAt rest < 2 * Width.int32.limit := unsigned_lt .int32 hsize
  have hid : (rest.take 4).length = 4 := List.length_take_of_le (by omega)
  have hpayload : ((rest.drop 8).take (sizeAt rest)).length = sizeAt rest := by
    rw [List.length_take, List.length_drop]
    omega
  have hdigits := littleEndian_unsigned ((rest.drop 4).take 4)
  rw [hsize] at hdigits
  have hsplit : rest = rest.take 4 ++ ((rest.drop 4).take 4 ++
      ((rest.drop 8).take (sizeAt rest) ++ (rest.drop 8).drop (sizeAt rest))) := by
    have hdrop : rest.drop 8 = (rest.drop 4).drop 4 := by rw [List.drop_drop]
    rw [List.take_append_drop, hdrop, List.take_append_drop, List.take_append_drop]
  refine ⟨⟨rest.take 4, (rest.drop 8).take (sizeAt rest), ((rest.drop 8).drop (sizeAt rest)).headD 0, hid,
    hpayload.trans_lt hlt⟩, (rest.drop 8).drop (sizeAt rest), ?_, hpayload, fun _ => rfl⟩
  have hbytes : littleEndian 4 ((rest.drop 8).take (sizeAt rest)).length = (rest.drop 4).take 4 := by
    rw [hpayload]
    exact hdigits
  show rest = rest.take 4 ++ (littleEndian 4 ((rest.drop 8).take (sizeAt rest)).length ++ _) ++ _
  rw [hbytes, List.append_assoc, List.append_assoc]
  exact hsplit

/-- The payload of the last chunk with this identifier. -/
def payloadOf (id : Bytes) (chunks : List Chunk) : Option Bytes :=
  (chunks.filter fun c => c.id = id).getLast?.map Chunk.payload

theorem payloadOf_concat (id : Bytes) (chunks : List Chunk) (c : Chunk) :
    payloadOf id (chunks ++ [c]) = if c.id = id then some c.payload else payloadOf id chunks := by
  have hfilter : [c].filter (fun c => decide (c.id = id)) = if c.id = id then [c] else [] := by
    rw [List.filter_singleton, Bool.cond_decide]
  rw [payloadOf, List.filter_append, payloadOf, hfilter]
  split_ifs with h
  · rw [List.getLast?_concat]
    rfl
  · rw [List.append_nil]

/-- A beginning of the chunks that has one with the identifier when it stands only once in all of them. -/
theorem payloadOf_of_filter {id : Bytes} {chunks before after : List Chunk} {c : Chunk} (hchunks : chunks = before ++ after)
    (h : (chunks.filter fun c => c.id = id) = [c]) {p : Bytes} (hp : payloadOf id before = some p) :
    p = c.payload := by
  obtain ⟨d, hd, rfl⟩ := Option.map_eq_some_iff.mp hp
  have hmem : d ∈ chunks.filter fun c => c.id = id := by
    rw [hchunks, List.filter_append]
    exact List.mem_append_left _ (List.mem_of_getLast? hd)
  rw [h, List.mem_singleton] at hmem
  rw [hmem]

/-- The first chunk with which the chunks meet a condition. -/
theorem exists_first {α : Type*} {P : List α → Prop} {l : List α} (hnil : ¬ P []) (h : P l) :
    ∃ before c after, l = before ++ c :: after ∧ (¬ P before) ∧ P (before ++ [c]) := by
  induction l using List.reverseRecOn with
  | nil => exact absurd h hnil
  | append_singleton l c ih =>
    by_cases hl : P l
    · obtain ⟨before, d, after, hsplit, hbefore, hwith⟩ := ih hl
      refine ⟨before, d, after ++ [c], ?_, hbefore, hwith⟩
      rw [hsplit, List.append_assoc]
      rfl
    · exact ⟨l, c, [], rfl, hl, h⟩

end Riff

end FortAI
