import Mathlib

/-!
# Chunks and the user data they travel with

How `common_split_chunks` cuts a buffer, and the 64-bit word a chunk's write carries as `user_ctx` and
`notify_data`. Pointers that are only passed through (jetty, segments, stream, event) are left out.
-/

namespace OsTransport

/-! ### The user data word -/

/-- `chunk_type`. -/
def notSplit : BitVec 2 := 0
def middleChunk : BitVec 2 := 1
def lastChunk : BitVec 2 := 2

/-- The bit fields of `os_transport_user_data_t` and `TransportData`, lowest bits first. -/
structure UserData where
  chunkType : BitVec 2
  chunkId : BitVec 6
  chunkSize : BitVec 24
  requestId : UInt32
deriving DecidableEq

namespace UserData

/-- The member `user_ctx` of the union. -/
def userCtx (d : UserData) : UInt64 :=
  .ofBitVec (d.requestId.toBitVec ++ (d.chunkSize ++ (d.chunkId ++ d.chunkType)))

/-- The bit fields behind a `user_ctx`. -/
def ofUserCtx (w : UInt64) : UserData where
  chunkType := w.toBitVec.extractLsb' 0 2
  chunkId := w.toBitVec.extractLsb' 2 6
  chunkSize := w.toBitVec.extractLsb' 8 24
  requestId := .ofBitVec (w.toBitVec.extractLsb' 32 32)

/-- The receiver of a word reads the fields that were put into it. -/
theorem ofUserCtx_userCtx (d : UserData) : ofUserCtx d.userCtx = d := by
  obtain ⟨t, i, n, r⟩ := d
  have hr : (r.toBitVec ++ (n ++ (i ++ t)) : BitVec 64).extractLsb' 32 32 = r.toBitVec :=
    BitVec.extractLsb'_append_eq_left
  have hlow : ∀ k m, k + m ≤ 32 → (r.toBitVec ++ (n ++ (i ++ t)) : BitVec 64).extractLsb' k m =
      (n ++ (i ++ t) : BitVec 32).extractLsb' k m := fun k m h =>
    BitVec.extractLsb'_append_eq_of_add_le h
  have hn : (n ++ (i ++ t) : BitVec 32).extractLsb' 8 24 = n := BitVec.extractLsb'_append_eq_left
  have hlow' : ∀ k m, k + m ≤ 8 → (n ++ (i ++ t) : BitVec 32).extractLsb' k m =
      (i ++ t : BitVec 8).extractLsb' k m := fun k m h =>
    BitVec.extractLsb'_append_eq_of_add_le h
  have hi : (i ++ t : BitVec 8).extractLsb' 2 6 = i := BitVec.extractLsb'_append_eq_left
  have ht : (i ++ t : BitVec 8).extractLsb' 0 2 = t := BitVec.extractLsb'_append_eq_right
  simp only [ofUserCtx, userCtx, UInt64.toBitVec_ofBitVec, hr, UInt32.ofBitVec_toBitVec]
  rw [hlow 8 24 (by decide), hn, hlow 2 6 (by decide), hlow' 2 6 (by decide), hi,
    hlow 0 2 (by decide), hlow' 0 2 (by decide), ht]

end UserData

/-! ### Chunks -/

/-- `DEFAULT_CHUNK_SIZE`, 2 MB. -/
def defaultChunkSize : Nat := 2 * 1024 * 1024

/-- `chunk_info_t`. -/
structure ChunkInfo where
  src : UInt64
  dst : UInt64
  len : UInt32
deriving DecidableEq

/-- `chunks_num` of `common_split_chunks`, in a `size_t` that does not overflow. -/
def chunksNum (len : UInt32) : Nat := (len.toNat + defaultChunkSize - 1) / defaultChunkSize

/-- The `i`-th entry that `common_split_chunks` fills. -/
def splitChunk (srcAddr dstAddr : UInt64) (len : UInt32) (i : Nat) : ChunkInfo where
  src := srcAddr + UInt64.ofNat (i * defaultChunkSize)
  dst := dstAddr + UInt64.ofNat (i * defaultChunkSize)
  len := UInt32.ofNat (if len.toNat - i * defaultChunkSize > defaultChunkSize then defaultChunkSize
    else len.toNat - i * defaultChunkSize)

/-- `common_split_chunks`, the array allocated. -/
def commonSplitChunks (srcAddr dstAddr : UInt64) (len : UInt32) : List ChunkInfo :=
  (List.range (chunksNum len)).map (splitChunk srcAddr dstAddr len)

section
variable {len : UInt32}

theorem chunksNum_le (len : UInt32) : chunksNum len ≤ 2048 := by
  have := len.toNat_lt
  unfold chunksNum defaultChunkSize
  omega

theorem chunksNum_pos (h : len ≠ 0) : 0 < chunksNum len := by
  have : 0 < len.toNat := by
    rw [Nat.pos_iff_ne_zero]
    exact fun h₀ => h (UInt32.toNat_inj.1 h₀)
  unfold chunksNum defaultChunkSize
  omega

theorem two_le_chunksNum (h : defaultChunkSize < len.toNat) : 2 ≤ chunksNum len := by
  unfold chunksNum defaultChunkSize at *
  omega

theorem chunksNum_eq_one (h : len ≠ 0) (hle : len.toNat ≤ defaultChunkSize) : chunksNum len = 1 := by
  have := chunksNum_pos h
  unfold chunksNum defaultChunkSize at *
  omega

theorem splitChunk_zero (srcAddr dstAddr : UInt64) (hle : len.toNat ≤ defaultChunkSize) :
    splitChunk srcAddr dstAddr len 0 = ⟨srcAddr, dstAddr, len⟩ := by
  unfold splitChunk
  rw [if_neg (by omega)]
  simp

theorem splitChunk_len (srcAddr dstAddr : UInt64) {i : Nat} (hi : i < chunksNum len) :
    (splitChunk srcAddr dstAddr len i).len.toNat = min defaultChunkSize (len.toNat - i * defaultChunkSize) ∧
      i * defaultChunkSize < len.toNat := by
  have hlt := len.toNat_lt
  have hpos : i * defaultChunkSize < len.toNat := by
    rw [chunksNum, Nat.lt_div_iff_mul_lt (by decide)] at hi
    omega
  refine ⟨?_, hpos⟩
  have hsize : defaultChunkSize < 2 ^ 32 := by decide
  simp only [splitChunk, UInt32.toNat_ofNat']
  generalize i * defaultChunkSize = k at hpos ⊢
  generalize defaultChunkSize = size at hsize ⊢
  split
  · rw [Nat.mod_eq_of_lt hsize]; omega
  · rw [Nat.mod_eq_of_lt (by omega)]; omega

/-- Pieces of size `size`, the last one perhaps shorter, add up to what they are cut from. -/
theorem sum_pieces {f : Nat → Nat} {size total n : Nat}
    (hf : ∀ i < n, f i = min size (total - i * size) ∧ i * size < total) :
    ((List.range n).map f).sum = min (n * size) total := by
  induction n with
  | zero => simp
  | succ n ih =>
    obtain ⟨hn, hlt⟩ := hf n (Nat.lt_succ_self n)
    have hinit := ih fun i hi => hf i (Nat.lt_succ_of_lt hi)
    simp only [List.range_succ, List.map_append, List.sum_append, List.map_cons, List.map_nil,
      List.sum_cons, List.sum_nil, Nat.add_mul, Nat.one_mul, hinit, hn]
    omega

theorem commonSplitChunks_sum (srcAddr dstAddr : UInt64) (len : UInt32) :
    ((commonSplitChunks srcAddr dstAddr len).map fun c => c.len.toNat).sum = len.toNat := by
  -- rounding up leaves no byte out
  have hsize : 0 < defaultChunkSize := by decide
  have hdiv := Nat.div_add_mod (len.toNat + defaultChunkSize - 1) defaultChunkSize
  have hmod := Nat.mod_lt (len.toNat + defaultChunkSize - 1) hsize
  rw [commonSplitChunks, List.map_map]
  refine (sum_pieces fun i hi => splitChunk_len srcAddr dstAddr hi).trans (Nat.min_eq_right ?_)
  rw [chunksNum, Nat.mul_comm]
  omega

/-! ### The loop in machine integers -/

/-- Pieces laid end to end from 0. -/
def offsetOf (chunks : List ChunkInfo) (i : Nat) : Nat := ((chunks.take i).map fun c => c.len.toNat).sum

/-- The chunks cut the `len` bytes at `src` and `dst` into consecutive pieces. -/
structure Tiles (src dst : UInt64) (len : UInt32) (chunks : List ChunkInfo) : Prop where
  ne_nil : chunks ≠ []
  sum : (chunks.map fun c => c.len.toNat).sum = len.toNat
  len_le : ∀ c ∈ chunks, 1 ≤ c.len.toNat ∧ c.len.toNat ≤ defaultChunkSize
  full : ∀ i c, chunks[i]? = some c → i + 1 < chunks.length → c.len.toNat = defaultChunkSize
  addr : ∀ i c, chunks[i]? = some c →
    c.src = src + UInt64.ofNat (offsetOf chunks i) ∧ c.dst = dst + UInt64.ofNat (offsetOf chunks i)
  once : ∀ k < len.toNat, ∃! i, ∃ c, chunks[i]? = some c ∧ offsetOf chunks i ≤ k ∧ k < offsetOf chunks i + c.len.toNat
  inside : ∀ i c, chunks[i]? = some c → offsetOf chunks i + c.len.toNat ≤ len.toNat

namespace SizeT

def chunkSize : UInt64 := 2 * 1024 * 1024

/-- `chunks_num`, computed in `size_t`. -/
def chunksNum (len : UInt32) : UInt64 := (len.toUInt64 + chunkSize - 1) / chunkSize

/-- `remain_len - i * DEFAULT_CHUNK_SIZE`. -/
def remain (len : UInt32) (i : UInt64) : UInt64 := len.toUInt64 - i * chunkSize

/-- The length of chunk `i` before it is stored in 32 bits. -/
def chunkLen (len : UInt32) (i : UInt64) : UInt64 := if remain len i > chunkSize then chunkSize else remain len i

/-- The body of the loop of `common_split_chunks`. -/
def splitChunk (srcAddr dstAddr : UInt64) (len : UInt32) (i : UInt64) : ChunkInfo where
  src := srcAddr + i * chunkSize
  dst := dstAddr + i * chunkSize
  len := (chunkLen len i).toUInt32

/-- `common_split_chunks`, the array allocated, in the integer types of the source. -/
def commonSplitChunks (srcAddr dstAddr : UInt64) (len : UInt32) : List ChunkInfo :=
  (List.range (chunksNum len).toNat).map fun i => splitChunk srcAddr dstAddr len (UInt64.ofNat i)

/-- No intermediate value leaves its type: rounding up and the offsets do not wrap, the remainder does not
go below 0, and the length fits the field. -/
structure Exact (len : UInt32) : Prop where
  num : (len.toUInt64 + chunkSize - 1).toNat = len.toNat + defaultChunkSize - 1
  offset : ∀ i < (chunksNum len).toNat, (UInt64.ofNat i * chunkSize).toNat = i * defaultChunkSize
  remain : ∀ i < (chunksNum len).toNat, UInt64.ofNat i * chunkSize < len.toUInt64
  field : ∀ i < (chunksNum len).toNat,
    (chunkLen len (UInt64.ofNat i)).toUInt32.toNat = (chunkLen len (UInt64.ofNat i)).toNat

theorem round_toNat (len : UInt32) : (len.toUInt64 + chunkSize - 1).toNat = len.toNat + defaultChunkSize - 1 := by
  have hlt := len.toNat_lt
  have hadd : (len.toUInt64 + chunkSize).toNat = len.toNat + defaultChunkSize := by
    rw [UInt64.toNat_add, UInt32.toNat_toUInt64]
    refine Nat.mod_eq_of_lt ?_
    show len.toNat + 2097152 < 2 ^ 64
    omega
  have hle : (1 : UInt64) ≤ len.toUInt64 + chunkSize := by
    rw [UInt64.le_iff_toNat_le, hadd]
    show 1 ≤ len.toNat + 2097152
    omega
  rw [UInt64.toNat_sub_of_le _ _ hle, hadd]
  rfl

theorem chunksNum_toNat (len : UInt32) : (chunksNum len).toNat = OsTransport.chunksNum len := by
  rw [chunksNum, UInt64.toNat_div, round_toNat]
  rfl

section
variable {i : Nat}

theorem offset_toNat (hi : i < OsTransport.chunksNum len) :
    (UInt64.ofNat i * chunkSize).toNat = i * defaultChunkSize := by
  have hle := chunksNum_le len
  rw [UInt64.toNat_mul, UInt64.toNat_ofNat_of_lt' (by show i < 2 ^ 64; omega)]
  refine Nat.mod_eq_of_lt ?_
  show i * 2097152 < 2 ^ 64
  omega

theorem offset_lt (hi : i < OsTransport.chunksNum len) : UInt64.ofNat i * chunkSize < len.toUInt64 := by
  rw [UInt64.lt_iff_toNat_lt, offset_toNat hi, UInt32.toNat_toUInt64]
  exact (splitChunk_len 0 0 hi).2

theorem remain_toNat (hi : i < OsTransport.chunksNum len) :
    (remain len (UInt64.ofNat i)).toNat = len.toNat - i * defaultChunkSize := by
  rw [remain, UInt64.toNat_sub_of_le _ _ (UInt64.le_of_lt (offset_lt hi)), UInt32.toNat_toUInt64, offset_toNat hi]

theorem chunkLen_toNat (hi : i < OsTransport.chunksNum len) : (chunkLen len (UInt64.ofNat i)).toNat =
    min defaultChunkSize (len.toNat - i * defaultChunkSize) := by
  have hremain := remain_toNat hi
  have hgt : remain len (UInt64.ofNat i) > chunkSize ↔ defaultChunkSize < len.toNat - i * defaultChunkSize := by
    rw [gt_iff_lt, UInt64.lt_iff_toNat_lt, hremain]
    rfl
  unfold chunkLen
  split
  · rename_i h
    rw [Nat.min_eq_left (hgt.1 h).le]
    rfl
  · rename_i h
    rw [hremain, Nat.min_eq_right (not_lt.1 fun hlt => h (hgt.2 hlt))]

theorem chunkLen_field (hi : i < OsTransport.chunksNum len) :
    (chunkLen len (UInt64.ofNat i)).toUInt32.toNat = (chunkLen len (UInt64.ofNat i)).toNat := by
  rw [UInt64.toNat_toUInt32]
  refine Nat.mod_eq_of_lt ?_
  rw [chunkLen_toNat hi]
  exact Nat.lt_of_le_of_lt (Nat.min_le_left ..) (by decide)

/-- The loop in machine integers fills in what the loop over the natural numbers does. -/
theorem splitChunk_eq (srcAddr dstAddr : UInt64) (hi : i < OsTransport.chunksNum len) :
    splitChunk srcAddr dstAddr len (UInt64.ofNat i) = OsTransport.splitChunk srcAddr dstAddr len i := by
  have hoffset : UInt64.ofNat i * chunkSize = UInt64.ofNat (i * defaultChunkSize) := (UInt64.ofNat_mul ..).symm
  have hlen : (chunkLen len (UInt64.ofNat i)).toUInt32 = (OsTransport.splitChunk srcAddr dstAddr len i).len := by
    rw [← UInt32.toNat_inj, chunkLen_field hi, chunkLen_toNat hi, (splitChunk_len srcAddr dstAddr hi).1]
  unfold splitChunk
  rw [hoffset, hlen]
  rfl

end

theorem commonSplitChunks_eq (srcAddr dstAddr : UInt64) (len : UInt32) :
    commonSplitChunks srcAddr dstAddr len = OsTransport.commonSplitChunks srcAddr dstAddr len := by
  unfold commonSplitChunks OsTransport.commonSplitChunks
  rw [chunksNum_toNat]
  exact List.map_congr_left fun i hi => splitChunk_eq srcAddr dstAddr (List.mem_range.1 hi)

theorem exact (len : UInt32) : Exact len := by
  refine ⟨round_toNat len, ?_, ?_, ?_⟩ <;> rw [chunksNum_toNat]
  · exact fun i hi => offset_toNat hi
  · exact fun i hi => offset_lt hi
  · exact fun i hi => chunkLen_field hi

end SizeT

theorem commonSplitChunks_getElem? {srcAddr dstAddr : UInt64} {i : Nat} {c : ChunkInfo} :
    (commonSplitChunks srcAddr dstAddr len)[i]? = some c ↔
      i < chunksNum len ∧ splitChunk srcAddr dstAddr len i = c := by
  rw [commonSplitChunks, List.getElem?_map, Option.map_eq_some_iff]
  constructor
  · rintro ⟨j, hj, rfl⟩
    obtain ⟨hi, rfl⟩ := List.getElem?_eq_some_iff.1 hj
    rw [List.length_range] at hi
    exact ⟨hi, by rw [List.getElem_range]⟩
  · rintro ⟨hi, rfl⟩
    exact ⟨i, List.getElem?_range hi, rfl⟩

theorem offsetOf_commonSplitChunks (srcAddr dstAddr : UInt64) {i : Nat} (hi : i < chunksNum len) :
    offsetOf (commonSplitChunks srcAddr dstAddr len) i = i * defaultChunkSize := by
  have hlt := (splitChunk_len srcAddr dstAddr hi).2
  rw [offsetOf, commonSplitChunks, ← List.map_take, List.take_range, Nat.min_eq_left hi.le, List.map_map]
  refine (sum_pieces fun j (hj : j < _) => splitChunk_len srcAddr dstAddr (hj.trans hi)).trans ?_
  exact Nat.min_eq_left hlt.le

/-- `common_split_chunks` tiles the buffer, in machine integers of which none overflows. -/
theorem commonSplitChunks_tiles (srcAddr dstAddr : UInt64) (h : len ≠ 0) :
    Tiles srcAddr dstAddr len (SizeT.commonSplitChunks srcAddr dstAddr len) ∧ SizeT.Exact len := by
  refine ⟨?_, SizeT.exact len⟩
  rw [SizeT.commonSplitChunks_eq]
  have hpos := chunksNum_pos h
  have hlength : (commonSplitChunks srcAddr dstAddr len).length = chunksNum len := by
    rw [commonSplitChunks, List.length_map, List.length_range]
  have hlen : ∀ {i : Nat}, i < chunksNum len → (splitChunk srcAddr dstAddr len i).len.toNat =
      min defaultChunkSize (len.toNat - i * defaultChunkSize) ∧ i * defaultChunkSize < len.toNat :=
    fun hi => splitChunk_len srcAddr dstAddr hi
  have hsize : 0 < defaultChunkSize := by decide
  refine ⟨?_, commonSplitChunks_sum srcAddr dstAddr len, ?_, ?_, ?_, ?_, ?_⟩
  · intro hnil
    rw [hnil, List.length_nil] at hlength
    omega
  · intro c hc
    obtain ⟨i, hi, rfl⟩ := List.mem_map.1 hc
    obtain ⟨hc, hlt⟩ := hlen (List.mem_range.1 hi)
    omega
  · intro i c hc hi
    obtain ⟨-, rfl⟩ := commonSplitChunks_getElem?.1 hc
    rw [hlength] at hi
    obtain ⟨hc, -⟩ := hlen (Nat.lt_of_succ_lt hi)
    have hnext := (hlen hi).2
    rw [Nat.add_mul, Nat.one_mul] at hnext
    omega
  · intro i c hc
    obtain ⟨hi, rfl⟩ := commonSplitChunks_getElem?.1 hc
    rw [offsetOf_commonSplitChunks srcAddr dstAddr hi]
    exact ⟨rfl, rfl⟩
  · intro k hk
    -- byte `k` lies in chunk `k / DEFAULT_CHUNK_SIZE`
    have hdiv := Nat.div_add_mod k defaultChunkSize
    have hmod := Nat.mod_lt k hsize
    have hi : k / defaultChunkSize < chunksNum len := by
      rw [chunksNum, Nat.lt_div_iff_mul_lt hsize, Nat.mul_comm]
      omega
    refine ⟨k / defaultChunkSize, ⟨_, commonSplitChunks_getElem?.2 ⟨hi, rfl⟩, ?_, ?_⟩, ?_⟩
    · rw [offsetOf_commonSplitChunks srcAddr dstAddr hi, Nat.mul_comm]
      omega
    · rw [offsetOf_commonSplitChunks srcAddr dstAddr hi, (hlen hi).1, Nat.mul_comm]
      omega
    · rintro j ⟨c, hc, hle, hlt⟩
      obtain ⟨hj, rfl⟩ := commonSplitChunks_getElem?.1 hc
      rw [offsetOf_commonSplitChunks srcAddr dstAddr hj] at hle hlt
      have hmin : (splitChunk srcAddr dstAddr len j).len.toNat ≤ defaultChunkSize := by
        rw [(hlen hj).1]
        exact Nat.min_le_left ..
      refine (Nat.div_eq_of_lt_le hle ?_).symm
      rw [Nat.add_mul, Nat.one_mul]
      omega
  · intro i c hc
    obtain ⟨hi, rfl⟩ := commonSplitChunks_getElem?.1 hc
    rw [offsetOf_commonSplitChunks srcAddr dstAddr hi]
    obtain ⟨hc, hlt⟩ := hlen hi
    omega

/-- A buffer of 3 MB that ends at the last address. -/
theorem threeMegabytes_tiled :
    Tiles 0xFFFFFFFFFFD00000 0 0x300000 (SizeT.commonSplitChunks 0xFFFFFFFFFFD00000 0 0x300000) ∧
      SizeT.Exact 0x300000 :=
  commonSplitChunks_tiles _ _ (by decide)

end

/-! ### Writes and copies -/

/-- `urma_write_info_t`, as far as it differs between the chunks of a request. -/
structure WriteInfo where
  userCtxServer : UserData
  userCtxClient : UserData
deriving DecidableEq

/-- `urma_info_t`: the write info of a send, or the `request_id` of a receive. -/
inductive UrmaInfo
  | write (info : WriteInfo)
  | recv (requestId : UInt32)
deriving DecidableEq

/-- `build_write_info`. -/
def buildWriteInfo (len serverKey clientKey : UInt32) : WriteInfo where
  userCtxServer := ⟨notSplit, 0, .ofNat 24 len.toNat, serverKey⟩
  userCtxClient := ⟨notSplit, 0, .ofNat 24 len.toNat, clientKey⟩

/-- The `urma_jfs_wr_t` of `urma_write_with_notify`. -/
structure JfsWr where
  src : UInt64
  dst : UInt64
  len : UInt32
  notifyData : UInt64
  userCtx : UInt64
deriving DecidableEq

/-- `urma_write_with_notify` up to the post, whose outcome the environment decides. -/
def urmaWriteWithNotify (info : WriteInfo) (chunk : ChunkInfo) : JfsWr where
  src := chunk.src
  dst := chunk.dst
  len := chunk.len
  notifyData := info.userCtxClient.userCtx
  userCtx := info.userCtxServer.userCtx

/-- The `urma_jfr_wr_t` of `urma_recv_with_notify`. -/
structure JfrWr where
  src : UInt64
  len : UInt32
  userCtx : UInt64
deriving DecidableEq

/-- `urma_recv_with_notify` up to the post. -/
def urmaRecvWithNotify (requestId : UInt32) (chunk : ChunkInfo) : JfrWr where
  src := chunk.src
  len := chunk.len
  userCtx := requestId.toUInt64

/-- The user data `construct_send_task_arg` writes for one side. -/
def chunkUserData (requestId : UInt32) (chunk : ChunkInfo) (chunkId : Nat) (isLastChunk : Bool) :
    UserData where
  chunkType := if isLastChunk then lastChunk else middleChunk
  chunkId := .ofNat 6 chunkId
  chunkSize := .ofNat 24 chunk.len.toNat
  requestId := requestId

/-- The `opcode` of a completion record. -/
inductive CrOpcode
  | writeWithImm | send | other
deriving DecidableEq

/-- `urma_cr_t`, as far as `os_transport_wake_up_task` reads it. -/
structure UrmaCr where
  opcode : CrOpcode
  immData : UInt64
  userCtx : UInt64
deriving DecidableEq

/-- The `request_id` that `os_transport_wake_up_task` wakes; `none` for an unknown opcode. -/
def UrmaCr.requestId? (cr : UrmaCr) : Option UInt32 :=
  match cr.opcode with
  | .writeWithImm => some (UserData.ofUserCtx cr.immData).requestId
  | .send => some (UserData.ofUserCtx cr.userCtx).requestId
  | .other => none

end OsTransport
