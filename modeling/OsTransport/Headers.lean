import OsTransport.Transport

/-!
# What a request puts on the wire

`Request.posted` is what `os_transport_send` posts when every post succeeds and every task it registers
runs: the only chunk of a short buffer, or chunk 0 by the caller and one chunk a task after it. `headers`
reads the two words of a posted write back. The 6-bit `chunk_id` holds the chunk index up to 64 chunks
(`posted_headers_iff`), `chunk_type` is wrong for chunk 0 of a split send alone (`posted_chunkType_iff`),
and a receive of the same length cuts its buffer at the same offsets (`recv_cuts_alike`).
-/

namespace OsTransport

/-- The write handed to URMA. -/
def Op.wr? : Op → Option JfsWr
  | .firstPost wr _ | .post _ wr _ => some wr
  | _ => none

/-- The server's and the client's header of a posted write. -/
def JfsWr.headers (wr : JfsWr) : UserData × UserData :=
  (.ofUserCtx wr.userCtx, .ofUserCtx wr.notifyData)

namespace Request
variable {ρ : Type} (a : Request) (q : ρ)

/-- What `os_transport_send` and the tasks it registers do, in order, when nothing fails. -/
def sendOps : List Op :=
  if a.len.toNat ≤ defaultChunkSize then [.firstPost a.singleWr true]
  else .firstPost a.firstWr true :: (a.taskArgs q).map fun arg => Sys.issueOp a arg true

/-- The writes `os_transport_send` posts. -/
def posted : List JfsWr := (a.sendOps q).filterMap Op.wr?

/-- The receive work requests `os_transport_recv` posts. -/
def recvWrs : List JfrWr := (List.range (chunksNum a.len)).map fun i => urmaRecvWithNotify a.key (a.chunk i)

/-- The write of task `i - 1` of a send. -/
def taskWr (i : Nat) : JfsWr :=
  let last := i == chunksNum a.len - 1
  urmaWriteWithNotify
    ⟨chunkUserData a.key (a.chunk i) i last, chunkUserData a.clientKey (a.chunk i) i last⟩ (a.chunk i)

variable {a q}

theorem posted_short (hle : a.len.toNat ≤ defaultChunkSize) : a.posted q = [a.singleWr] := by
  rw [posted, sendOps, if_pos hle]
  rfl

theorem wr?_issueOp (i : Nat) : (Sys.issueOp a (a.sendTaskArg q i) true).wr? = some (a.taskWr i) := by
  simp only [Sys.issueOp, sendTaskArg, Op.wr?, taskWr]

theorem posted_split (ht : a.type = .send) (hlt : defaultChunkSize < a.len.toNat) :
    a.posted q = a.firstWr :: (List.range (chunksNum a.len - 1)).map fun i => a.taskWr (i + 1) := by
  have hwr : Op.wr? ∘ (fun arg => Sys.issueOp a arg true) ∘ (fun i => a.sendTaskArg q (i + 1)) =
      some ∘ fun i => a.taskWr (i + 1) := funext fun i => wr?_issueOp (i + 1)
  have hargs : a.taskArgs q = (List.range (chunksNum a.len - 1)).map fun i => a.sendTaskArg q (i + 1) := by
    rw [taskArgs, ht]
  rw [posted, sendOps, if_neg (Nat.not_le.2 hlt), 
    List.filterMap_cons_some (show Op.wr? (.firstPost a.firstWr true) = some a.firstWr from rfl), hargs,
    List.map_map, List.filterMap_map, hwr, List.filterMap_eq_map]

theorem length_posted (ht : a.type = .send) (hlen : a.len ≠ 0) :
    (a.posted q).length = chunksNum a.len := by
  rcases Nat.lt_or_ge defaultChunkSize a.len.toNat with hlt | hle
  swap
  · rw [posted_short hle, chunksNum_eq_one hlen hle, List.length_singleton]
  · have := two_le_chunksNum hlt
    rw [posted_split ht hlt, List.length_cons, List.length_map, List.length_range,
      Nat.sub_add_cancel (Nat.le_of_succ_le this)]

theorem posted_getElem? (ht : a.type = .send) (hlt : defaultChunkSize < a.len.toNat) (i : Nat) :
    (a.posted q)[i]? = if i = 0 then some a.firstWr
      else if i < chunksNum a.len then some (a.taskWr i) else none := by
  have := two_le_chunksNum hlt
  rw [posted_split ht hlt]
  cases i with
  | zero => rfl
  | succ i =>
    rw [List.getElem?_cons_succ, List.getElem?_map, if_neg (Nat.succ_ne_zero i)]
    split
    · rw [List.getElem?_range (by omega)]; rfl
    · rw [List.getElem?_eq_none (by simp only [List.length_range]; omega)]; rfl

@[simp] theorem headers_firstWr : a.firstWr.headers =
    (⟨notSplit, 0, .ofNat 24 (a.chunk 0).len.toNat, a.key⟩,
      ⟨notSplit, 0, .ofNat 24 (a.chunk 0).len.toNat, a.clientKey⟩) := by
  simp [JfsWr.headers, firstWr, urmaWriteWithNotify, buildWriteInfo, UserData.ofUserCtx_userCtx]

@[simp] theorem headers_singleWr : a.singleWr.headers =
    (⟨notSplit, 0, .ofNat 24 a.len.toNat, a.key⟩, ⟨notSplit, 0, .ofNat 24 a.len.toNat, a.clientKey⟩) := by
  simp [JfsWr.headers, singleWr, urmaWriteWithNotify, buildWriteInfo, UserData.ofUserCtx_userCtx]

@[simp] theorem headers_taskWr (i : Nat) : (a.taskWr i).headers =
    (chunkUserData a.key (a.chunk i) i (i == chunksNum a.len - 1),
      chunkUserData a.clientKey (a.chunk i) i (i == chunksNum a.len - 1)) := by
  simp [JfsWr.headers, taskWr, urmaWriteWithNotify, UserData.ofUserCtx_userCtx]

/-! ### Headers -/

/-- The headers of the write name chunk `i` of the request. -/
def NamesChunk (a : Request) (i : Nat) (wr : JfsWr) : Prop :=
  (wr.headers.1.chunkId.toNat = i ∧ wr.headers.1.chunkSize.toNat = (a.chunk i).len.toNat ∧
    wr.headers.1.requestId = a.key) ∧
  (wr.headers.2.chunkId.toNat = i ∧ wr.headers.2.chunkSize.toNat = (a.chunk i).len.toNat ∧
    wr.headers.2.requestId = a.clientKey)

theorem chunkSize_toNat {i : Nat} (hi : i < chunksNum a.len) :
    (BitVec.ofNat 24 (a.chunk i).len.toNat).toNat = (a.chunk i).len.toNat := by
  have hlen : (a.chunk i).len.toNat = _ := (splitChunk_len a.src a.dst hi).1
  have hsize : defaultChunkSize < 2 ^ 24 := by decide
  rw [BitVec.toNat_ofNat]
  exact Nat.mod_eq_of_lt (by omega)

theorem namesChunk_firstWr (hlen : a.len ≠ 0) : NamesChunk a 0 a.firstWr := by
  have hsize := chunkSize_toNat (a := a) (i := 0) (chunksNum_pos hlen)
  unfold NamesChunk
  rw [headers_firstWr]
  exact ⟨⟨rfl, hsize, rfl⟩, rfl, hsize, rfl⟩

/-- A task's headers name its chunk as long as its index fits 6 bits. -/
theorem namesChunk_taskWr {i : Nat} (hi : i < chunksNum a.len) : NamesChunk a i (a.taskWr i) ↔ i < 64 := by
  have hsize := chunkSize_toNat hi
  have hid : (BitVec.ofNat 6 i).toNat = i ↔ i < 64 := by
    rw [BitVec.toNat_ofNat]
    exact Nat.mod_eq_iff_lt (by decide)
  unfold NamesChunk
  rw [headers_taskWr]
  constructor
  · exact fun h => hid.1 h.1.1
  · exact fun h => ⟨⟨hid.2 h, hsize, rfl⟩, hid.2 h, hsize, rfl⟩

/-- The headers posted for a request name their chunks, and differ from chunk to chunk. -/
structure HeadersOk (a : Request) (q : ρ) : Prop where
  names : ∀ (i : Nat) (wr : JfsWr), (a.posted q)[i]? = some wr → NamesChunk a i wr
  userCtx_inj : ∀ (i j : Nat) (wr wr' : JfsWr), (a.posted q)[i]? = some wr → (a.posted q)[j]? = some wr' →
    wr.userCtx = wr'.userCtx → i = j
  notifyData_inj : ∀ (i j : Nat) (wr wr' : JfsWr), (a.posted q)[i]? = some wr → (a.posted q)[j]? = some wr' →
    wr.notifyData = wr'.notifyData → i = j

/-- The headers of a split send name their chunks if and only if there are at most 64 of them. -/
theorem posted_headers_iff (ht : a.type = .send) (hlt : defaultChunkSize < a.len.toNat) :
    HeadersOk a q ↔ a.len.toNat ≤ 64 * defaultChunkSize := by
  have hlen : a.len ≠ 0 := fun h => by simp [h] at hlt
  have hnum : chunksNum a.len ≤ 64 ↔ a.len.toNat ≤ 64 * defaultChunkSize := by
    unfold chunksNum defaultChunkSize
    omega
  rw [← hnum]
  constructor
  · intro h
    by_contra hle
    -- chunk 64 is one of the request's, and its index does not fit
    have hlast : 64 < chunksNum a.len := by omega
    have hpost : (a.posted q)[64]? = some (a.taskWr 64) := by
      rw [posted_getElem? ht hlt, if_neg (by decide), if_pos hlast]
    exact absurd ((namesChunk_taskWr hlast).1 (h.names 64 _ hpost)) (by decide)
  · intro hle
    have hnames : ∀ (i : Nat) (wr : JfsWr), (a.posted q)[i]? = some wr → NamesChunk a i wr := by
      intro i wr hwr
      rw [posted_getElem? ht hlt] at hwr
      split at hwr
      · subst i
        cases hwr
        exact namesChunk_firstWr hlen
      split at hwr
      · rename_i hi
        cases hwr
        exact (namesChunk_taskWr hi).2 (by omega)
      · cases hwr
    refine ⟨hnames, fun i j wr wr' hi hj he => ?_, fun i j wr wr' hi hj he => ?_⟩
    · rw [← (hnames i wr hi).1.1, ← (hnames j wr' hj).1.1, JfsWr.headers, JfsWr.headers, he]
    · rw [← (hnames i wr hi).2.1, ← (hnames j wr' hj).2.1, JfsWr.headers, JfsWr.headers, he]

/-- A send of `len` bytes between keys 5 and 6. -/
def sendOf (len : UInt32) : Request := ⟨.send, 0, 0, len, 5, 6⟩

theorem sendOf_headers : HeadersOk (sendOf 0x300000) () :=
  (posted_headers_iff rfl (by decide)).2 (by decide)

/-- In the longest send chunk 64 is numbered 0, and chunks 1 and 65 carry the same header. -/
theorem longest_collides : (∃ wr, ((sendOf 0xFFFFFFFF).posted ())[64]? = some wr ∧
      wr.headers.1.chunkId.toNat = 0 ∧ wr.headers.2.chunkId.toNat = 0) ∧
    ∃ wr wr', ((sendOf 0xFFFFFFFF).posted ())[1]? = some wr ∧
      ((sendOf 0xFFFFFFFF).posted ())[65]? = some wr' ∧ wr.userCtx = wr'.userCtx ∧
      wr.notifyData = wr'.notifyData := by
  have hget : ∀ i, 0 < i → i < 2048 →
      ((sendOf 0xFFFFFFFF).posted ())[i]? = some ((sendOf 0xFFFFFFFF).taskWr i) := fun i h₀ hi => by
    rw [posted_getElem? rfl (by decide), if_neg h₀.ne', 
      if_pos (show i < chunksNum (sendOf 0xFFFFFFFF).len from hi)]
  refine ⟨⟨_, hget 64 (by decide) (by decide), ?_⟩, _, _, hget 1 (by decide) (by decide),
    hget 65 (by decide) (by decide), ?_⟩
  · rw [headers_taskWr]
    decide
  · decide +kernel

/-! ### Chunk types -/

/-- The header says which of `n` chunks it is the `i`-th of. -/
def Classifies (n i : Nat) (d : UserData) : Prop :=
  (d.chunkType = notSplit ↔ n = 1) ∧ (d.chunkType = lastChunk ↔ 2 ≤ n ∧ i = n - 1) ∧
    (d.chunkType = middleChunk ↔ 2 ≤ n ∧ i < n - 1)

theorem classifies_notSplit {n i : Nat} {d : UserData} (hd : d.chunkType = notSplit) :
    Classifies n i d ↔ n = 1 := by
  have hlast : notSplit ≠ lastChunk := by decide
  have hmiddle : notSplit ≠ middleChunk := by decide
  simp only [Classifies, hd, hlast, hmiddle, true_iff, false_iff]
  omega

theorem classifies_task {n i : Nat} (hn : 2 ≤ n) (hi : i < n) (r : UInt32) (c : ChunkInfo) :
    Classifies n i (chunkUserData r c i (i == n - 1)) := by
  have hnot : lastChunk ≠ notSplit ∧ middleChunk ≠ notSplit ∧ middleChunk ≠ lastChunk := by decide
  unfold Classifies chunkUserData
  by_cases hlast : i = n - 1
  · simp only [beq_iff_eq.2 hlast, if_true, hnot.1, hnot.2.2.symm, true_iff, false_iff]
    omega
  · simp only [beq_eq_false_iff_ne.2 hlast, Bool.false_eq_true, if_false, hnot.2.1, hnot.2.2, true_iff,
      false_iff]
    omega

/-- Both headers of a posted chunk classify it, except for chunk 0 of a split send. -/
theorem posted_chunkType_iff (ht : a.type = .send) (hlen : a.len ≠ 0) {i : Nat} {wr : JfsWr}
    (hwr : (a.posted q)[i]? = some wr) :
    (Classifies (chunksNum a.len) i wr.headers.1 ∧ Classifies (chunksNum a.len) i wr.headers.2) ↔
      chunksNum a.len = 1 ∨ 0 < i := by
  rcases Nat.lt_or_ge defaultChunkSize a.len.toNat with hlt | hle
  · have htwo := two_le_chunksNum hlt
    rw [posted_getElem? ht hlt] at hwr
    split at hwr
    · subst i
      cases hwr
      rw [headers_firstWr, classifies_notSplit rfl,
        classifies_notSplit rfl]
      simp
    split at hwr
    · rename_i hne hi
      cases hwr
      rw [headers_taskWr]
      exact ⟨fun _ => .inr (Nat.pos_of_ne_zero hne), fun _ =>
        ⟨classifies_task htwo hi _ _, classifies_task htwo hi _ _⟩⟩
    · cases hwr
  · have hone := chunksNum_eq_one hlen hle
    rw [posted_short hle] at hwr
    obtain ⟨rfl, rfl⟩ : i = 0 ∧ a.singleWr = wr := by
      cases i with
      | zero => exact ⟨rfl, Option.some.inj hwr⟩
      | succ i => cases hwr
    rw [headers_singleWr, hone]
    exact ⟨fun _ => .inl rfl, fun _ => ⟨(classifies_notSplit rfl).2 rfl,
      (classifies_notSplit rfl).2 rfl⟩⟩

theorem sendOf_chunkType : Classifies 2 1 ((sendOf 0x300000).taskWr 1).headers.1 ∧
    Classifies 2 1 ((sendOf 0x300000).taskWr 1).headers.2 :=
  (posted_chunkType_iff (a := sendOf 0x300000) (q := ()) (i := 1) rfl (by decide)
    (by rw [posted_getElem? rfl (by decide), if_neg Nat.one_ne_zero, if_pos (by decide)])).2 (.inr Nat.one_pos)

/-- Chunk 0 of a send of two chunks says that the send was not split. -/
theorem sendOf_first_notSplit : ∃ wr, ((sendOf 0x300000).posted ())[0]? = some wr ∧
    chunksNum 0x300000 = 2 ∧ wr.headers.1.chunkType = notSplit ∧ ¬ Classifies 2 0 wr.headers.1 := by
  refine ⟨(sendOf 0x300000).firstWr, by rw [posted_getElem? rfl (by decide), if_pos rfl], by decide,
    by rw [headers_firstWr], ?_⟩
  rw [headers_firstWr, classifies_notSplit rfl]
  decide

/-! ### Sender and receiver -/

/-- Offset and length of the `i`-th piece of a buffer. -/
def cut (len : UInt32) (i : Nat) : UInt64 × UInt32 :=
  (UInt64.ofNat (i * defaultChunkSize), (splitChunk 0 0 len i).len)

/-- The copies the tasks of `os_transport_recv` make. -/
def copies (a : Request) (q : ρ) : List ChunkInfo :=
  ((a.taskArgs q).map fun arg => Sys.issueOp a arg true).filterMap fun
    | .copy _ dst src len _ => some ⟨src, dst, len⟩
    | _ => none

theorem chunk_cut (a : Request) (i : Nat) : ((a.chunk i).src - a.src, (a.chunk i).len) = cut a.len i ∧
    ((a.chunk i).dst - a.dst, (a.chunk i).len) = cut a.len i := by
  have hsub : ∀ x y : UInt64, x + y - x = y := fun x y => by rw [UInt64.add_comm, UInt64.add_sub_cancel]
  simp only [chunk, splitChunk, cut, hsub, and_self]

theorem copies_eq (ht : a.type = .recv) : a.copies q = (List.range (chunksNum a.len)).map a.chunk := by
  have hargs : a.taskArgs q = (List.range (chunksNum a.len)).map fun i => a.recvTaskArg q i := by
    rw [taskArgs, ht]
  rw [copies, hargs, List.map_map, List.filterMap_map, ← List.filterMap_eq_map]
  congr 1

/-- The pieces a send writes are its chunks, also when there is one. -/
theorem posted_chunks (ht : a.type = .send) (hlen : a.len ≠ 0) :
    (a.posted q).map (fun wr => (⟨wr.src, wr.dst, wr.len⟩ : ChunkInfo)) =
      (List.range (chunksNum a.len)).map a.chunk := by
  rcases Nat.lt_or_ge defaultChunkSize a.len.toNat with hlt | hle
  · obtain ⟨n, hn⟩ := Nat.exists_eq_add_of_le' (Nat.le_of_succ_le (two_le_chunksNum hlt))
    rw [posted_split ht hlt, hn, List.range_succ_eq_map, Nat.add_sub_cancel, List.map_cons, List.map_cons,
      List.map_map, List.map_map]
    rfl
  · have hzero : a.chunk 0 = ⟨a.src, a.dst, a.len⟩ := splitChunk_zero a.src a.dst hle
    rw [posted_short hle, chunksNum_eq_one hlen hle, List.range_one, List.map_singleton, List.map_singleton,
      hzero]
    rfl

theorem headers_of_mem_posted (ht : a.type = .send) {wr : JfsWr} (hwr : wr ∈ a.posted q) :
    wr.headers.1.requestId = a.key ∧ wr.headers.2.requestId = a.clientKey := by
  rcases Nat.lt_or_ge defaultChunkSize a.len.toNat with hlt | hle
  · rw [posted_split ht hlt, List.mem_cons, List.mem_map] at hwr
    rcases hwr with rfl | ⟨i, -, rfl⟩
    · rw [headers_firstWr]
      exact ⟨rfl, rfl⟩
    · rw [headers_taskWr]
      exact ⟨rfl, rfl⟩
  · rw [posted_short hle, List.mem_singleton] at hwr
    rw [hwr, headers_singleWr]
    exact ⟨rfl, rfl⟩

/-- A send and a receive of the same length cut their buffers at the same places: the writes of the one,
and the copies and the receive work requests of the other; so there are as many notifies as receive tasks
and as receive work requests. -/
theorem recv_cuts_alike {σ : Type} {b : Request} {d : σ} (hs : a.type = .send) (hr : b.type = .recv)
    (hlen : a.len ≠ 0) (heq : a.len = b.len) :
    (a.posted q).map (fun wr => (wr.src - a.src, wr.len)) =
        (b.copies d).map (fun c => (c.src - b.src, c.len)) ∧
      (a.posted q).map (fun wr => (wr.dst - a.dst, wr.len)) =
        (b.copies d).map (fun c => (c.dst - b.dst, c.len)) ∧
      (a.posted q).map (fun wr => (wr.dst - a.dst, wr.len)) =
        b.recvWrs.map (fun wr => (wr.src - b.src, wr.len)) ∧
      (a.posted q).countP (fun wr => wr.headers.2.requestId == a.clientKey) = (b.taskArgs d).length ∧
      (b.taskArgs d).length = b.recvWrs.length := by
  have hchunks := posted_chunks (q := q) hs hlen
  -- every list of pieces is cut out of the same range
  have hsrc : ∀ c : Request, ((List.range (chunksNum c.len)).map c.chunk).map (fun x => (x.src - c.src, x.len)) =
      (List.range (chunksNum c.len)).map (cut c.len) := fun c => by
    rw [List.map_map]
    exact List.map_congr_left fun i _ => (chunk_cut c i).1
  have hdst : ∀ c : Request, ((List.range (chunksNum c.len)).map c.chunk).map (fun x => (x.dst - c.dst, x.len)) =
      (List.range (chunksNum c.len)).map (cut c.len) := fun c => by
    rw [List.map_map]
    exact List.map_congr_left fun i _ => (chunk_cut c i).2
  have hposted : ∀ f : ChunkInfo → UInt64 × UInt32, (a.posted q).map (fun wr => f ⟨wr.src, wr.dst, wr.len⟩) =
      ((List.range (chunksNum a.len)).map a.chunk).map f := fun f => by
    rw [← hchunks, List.map_map]
    rfl
  have hargs : (b.taskArgs d).length = chunksNum a.len := by
    rw [taskArgs, hr, heq, List.length_map, List.length_range]
  have hcount : (a.posted q).countP (fun wr => wr.headers.2.requestId == a.clientKey) =
      (a.posted q).length :=
    List.countP_eq_length.2 fun wr hwr => beq_iff_eq.2 (headers_of_mem_posted hs hwr).2
  refine ⟨?_, ?_, ?_, ?_, ?_⟩
  · rw [hposted fun x => (x.src - a.src, x.len), hsrc, copies_eq hr, hsrc, heq]
  · rw [hposted fun x => (x.dst - a.dst, x.len), hdst, copies_eq hr, hdst, heq]
  · have hrecv : b.recvWrs.map (fun wr => (wr.src - b.src, wr.len)) =
        ((List.range (chunksNum b.len)).map b.chunk).map fun x => (x.src - b.src, x.len) := by
      rw [recvWrs, List.map_map, List.map_map]
      rfl
    rw [hposted fun x => (x.dst - a.dst, x.len), hdst, hrecv, hsrc, heq]
  · rw [hcount, length_posted hs hlen, hargs]
  · rw [hargs, heq, recvWrs, List.length_map, List.length_range]

/-- The receive of such a send. -/
def recvOf (len : UInt32) : Request := ⟨.recv, 0, 0, len, 6, 6⟩

theorem sendOf_cuts : ((sendOf 0x300000).posted ()).map (fun wr => (wr.dst - (sendOf 0x300000).dst, wr.len)) =
    (recvOf 0x300000).recvWrs.map (fun wr => (wr.src - (recvOf 0x300000).src, wr.len)) :=
  (recv_cuts_alike (a := sendOf 0x300000) (b := recvOf 0x300000) (q := ()) (d := ()) rfl rfl (by decide)
    rfl).2.2.1

/-! ### Back to the tasks -/

/-- Completions of the work requests of `a` wake the id its tasks are registered under, the notifies of its writes
the client key. -/
structure RoutesBack (a : Request) (q : ρ) : Prop where
  registered : ∀ task ∈ (a.batch q).tasks, task.1 = a.key
  userCtx : a.type = .send → ∀ wr ∈ a.posted q, ∀ imm, (⟨.send, imm, wr.userCtx⟩ : UrmaCr).requestId? = some a.key
  notifyData : a.type = .send → ∀ wr ∈ a.posted q, ∀ ctx,
    (⟨.writeWithImm, wr.notifyData, ctx⟩ : UrmaCr).requestId? = some a.clientKey
  recvUserCtx : a.type = .recv → ∀ wr ∈ a.recvWrs, ∀ imm,
    (⟨.send, imm, wr.userCtx⟩ : UrmaCr).requestId? = some a.key

/-- Read as a header, an id stored as a plain integer is request 0. -/
theorem ofUserCtx_toUInt64 (r : UInt32) : (UserData.ofUserCtx r.toUInt64).requestId = 0 := by
  have hlt := r.toNat_lt
  rw [← UInt32.toNat_inj]
  show (r.toUInt64.toBitVec.extractLsb' 32 32).toNat = 0
  rw [BitVec.extractLsb'_toNat, UInt64.toNat_toBitVec, UInt32.toNat_toUInt64, Nat.shiftRight_eq_div_pow,
    Nat.div_eq_of_lt hlt, Nat.zero_mod]

theorem batch_key (a : Request) (q : ρ) : ∀ task ∈ (a.batch q).tasks, task.1 = a.key := by
  intro task htask
  obtain ⟨arg, -, rfl⟩ := List.mem_map.1 htask
  rfl

/-- Every work request of a send routes back, and none of a receive does unless its key is 0. -/
theorem routesBack_iff (a : Request) (q : ρ) : RoutesBack a q ↔ a.type = .send ∨ a.len = 0 ∨ a.key = 0 := by
  have hrecv : ∀ wr ∈ a.recvWrs, ∀ imm, (⟨.send, imm, wr.userCtx⟩ : UrmaCr).requestId? = some 0 := by
    intro wr hwr imm
    obtain ⟨i, -, rfl⟩ := List.mem_map.1 hwr
    exact congrArg some (ofUserCtx_toUInt64 a.key)
  constructor
  · intro h
    cases ht : a.type with
    | send => exact .inl rfl
    | recv =>
      right
      by_contra hne
      rw [not_or] at hne
      have hmem : urmaRecvWithNotify a.key (a.chunk 0) ∈ a.recvWrs :=
        List.mem_map.2 ⟨0, List.mem_range.2 (chunksNum_pos hne.1), rfl⟩
      have hkey := h.recvUserCtx ht _ hmem 0
      rw [hrecv _ hmem 0] at hkey
      exact hne.2 (Option.some.inj hkey).symm
  · intro hcond
    refine ⟨batch_key a q, ?_, ?_, ?_⟩
    · intro ht wr hwr imm
      exact congrArg some (headers_of_mem_posted ht hwr).1
    · intro ht wr hwr ctx
      exact congrArg some (headers_of_mem_posted ht hwr).2
    · intro ht wr hwr imm
      rw [hrecv wr hwr imm]
      rcases hcond with hsend | hlen | hkey
      · rw [ht] at hsend
        cases hsend
      · have hnil : a.recvWrs = [] := by
          rw [recvWrs, hlen]
          rfl
        rw [hnil] at hwr
        cases hwr
      · rw [hkey]

/-- A completion of the receive under key 6 wakes request 0. -/
theorem recvOf_misrouted : ¬ RoutesBack (recvOf 1) () ∧ ∀ wr ∈ (recvOf 1).recvWrs,
    (⟨.send, 0, wr.userCtx⟩ : UrmaCr).requestId? = some 0 := by
  have hwr : ∀ wr ∈ (recvOf 1).recvWrs, (⟨.send, 0, wr.userCtx⟩ : UrmaCr).requestId? = some 0 := by decide
  refine ⟨fun h => ?_, hwr⟩
  have hmem : urmaRecvWithNotify 6 ((recvOf 1).chunk 0) ∈ (recvOf 1).recvWrs := by decide
  have hkey := h.recvUserCtx rfl _ hmem 0
  rw [hwr _ hmem] at hkey
  exact absurd hkey (by decide)

end Request
end OsTransport
