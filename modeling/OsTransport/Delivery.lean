import OsTransport.Wire

/-!
# The bytes of a transfer

What a send posts and what its receive copies are followed through the receiver's host memory (`Arrived`) to its
device (`Copied`). When the wait for the receive has returned 0 and CUDA has made its copies, the device buffer
holds the bytes of the sender's buffer (`delivered`), whatever else runs over the connection.
-/

namespace OsTransport

namespace Request
variable {ρ : Type} {a b : Request} {q : ρ} {i : Nat}

/-- Where chunk `i` starts. -/
def offset (i : Nat) : UInt64 := UInt64.ofNat (i * defaultChunkSize)

theorem chunk_src : (a.chunk i).src = a.src + offset i := rfl

theorem chunk_dst : (a.chunk i).dst = a.dst + offset i := rfl

theorem offset_toNat (hi : i < chunksNum a.len) : (offset i).toNat = i * defaultChunkSize := by
  have hlt := (splitChunk_len a.src a.dst hi).2
  have := a.len.toNat_lt
  exact UInt64.toNat_ofNat_of_lt' (by show _ < 2 ^ 64; omega)

theorem chunk_end (hi : i < chunksNum a.len) : (offset i).toNat + (a.chunk i).len.toNat ≤ a.len.toNat := by
  obtain ⟨hlen, hlt⟩ := splitChunk_len a.src a.dst hi
  rw [offset_toNat hi, show (a.chunk i).len.toNat = _ from hlen]
  omega

theorem within_chunk (hi : i < chunksNum a.len) : Memory.Within a.dst a.len.toNat (a.chunk i).dst := by
  have hsub : a.dst + offset i - a.dst = offset i := by grind
  rw [chunk_dst, Memory.Within, hsub, offset_toNat hi]
  exact (splitChunk_len a.src a.dst hi).2

theorem chunk_len (h : a.len = b.len) : (a.chunk i).len = (b.chunk i).len := by
  simp only [chunk, splitChunk, h]

theorem exists_chunk {k : Nat} (hk : k < a.len.toNat) :
    ∃ i < chunksNum a.len, (offset i).toNat ≤ k ∧ k < (offset i).toNat + (a.chunk i).len.toNat := by
  have hsize : 0 < defaultChunkSize := by decide
  have hdiv := Nat.div_add_mod k defaultChunkSize
  have hmod := Nat.mod_lt k hsize
  have hi : k / defaultChunkSize < chunksNum a.len := by
    rw [chunksNum, Nat.lt_div_iff_mul_lt hsize, Nat.mul_comm]
    omega
  refine ⟨_, hi, ?_⟩
  rw [offset_toNat hi, show (a.chunk _).len.toNat = _ from (splitChunk_len a.src a.dst hi).1, Nat.mul_comm]
  omega

theorem posted_chunk (ht : a.type = .send) (hlen : a.len ≠ 0) {wr : JfsWr} (h : (a.posted q)[i]? = some wr) :
    i < chunksNum a.len ∧ wr.src = (a.chunk i).src ∧ wr.dst = (a.chunk i).dst ∧ wr.len = (a.chunk i).len := by
  have hchunks := congrArg (fun l => l[i]?) (posted_chunks (q := q) ht hlen)
  simp only [List.getElem?_map, h, Option.map_some] at hchunks
  obtain ⟨j, hj, hc⟩ := Option.map_eq_some_iff.1 hchunks.symm
  obtain ⟨hi, rfl⟩ := List.getElem?_eq_some_iff.1 hj
  rw [List.length_range] at hi
  rw [List.getElem_range] at hc
  exact ⟨hi, by rw [hc], by rw [hc], by rw [hc]⟩

theorem posted_part (ht : a.type = .send) {wr : JfsWr} (h : wr ∈ a.posted q) :
    ∃ off, wr.src = a.src + off ∧ wr.dst = a.dst + off ∧ off.toNat + wr.len.toNat ≤ a.len.toNat := by
  by_cases hlen : a.len = 0
  · have hle : a.len.toNat ≤ defaultChunkSize := by simp [hlen]
    rw [posted_short hle, List.mem_singleton] at h
    subst h
    refine ⟨0, ?_, ?_, ?_⟩ <;> simp [singleWr, urmaWriteWithNotify]
  · obtain ⟨i, hi⟩ := List.getElem?_of_mem h
    obtain ⟨hn, hsrc, hdst, hl⟩ := posted_chunk ht hlen hi
    exact ⟨offset i, hsrc, hdst, hl ▸ chunk_end hn⟩

end Request

namespace Sys
open Progress
variable {ρ ψ : Type} [DecidableEq ρ] [DecidableEq ψ] {args : ρ → Request} {s : Sys ρ ψ} {q : ρ}

theorem Booked.copied_chunk (h : Booked args q s) (ht : (args q).type = .recv) {c : ChunkInfo}
    (hc : c ∈ (s.transfers q).ops.filterMap Op.copied?) :
    ∃ i < (issues (s.transfers q)).length, i < chunksNum (args q).len ∧ c = (args q).chunk i := by
  obtain ⟨op, hop, hcop⟩ := List.mem_filterMap.1 hc
  have hissue : op ∈ issues (s.transfers q) ∧ good op = true := by
    cases op with
    | copy chunk dst src len ok => exact ⟨List.mem_filter.2 ⟨List.mem_filter.2 ⟨hop, rfl⟩, rfl⟩, by cases ok <;> first | rfl | cases hcop⟩
    | _ => cases hcop
  obtain ⟨i, hi⟩ := List.getElem?_of_mem hissue.1
  have hlt := (List.getElem?_eq_some_iff.1 hi).1
  have hdue : (args q).dueOps[i]? = some op := by
    obtain ⟨l, hl⟩ := h.issues_isPrefix
    rw [← hl, List.getElem?_append_left (by rwa [List.length_map]), List.getElem?_map, hi]
    exact congrArg some (attempt_eq hissue.2)
  obtain ⟨rfl, hn⟩ := Request.dueOps_recv ht hdue
  cases hcop
  exact ⟨i, hlt, hn, rfl⟩

/-- When the wait has returned 0 every chunk was copied. -/
theorem Booked.copied_all (h : Booked args q s) (ht : (args q).type = .recv)
    (hw : (s.transfers q).waiter = .returned true) {i : Nat} (hi : i < chunksNum (args q).len) :
    (args q).chunk i ∈ (s.transfers q).ops.filterMap Op.copied? := by
  have hpaid : issues (s.transfers q) = _ := h.kept.verdict.paid (.inr hw)
  rw [Request.taskArgs_issueOp, Request.dueOps, Request.taskChunks, ht] at hpaid
  refine List.mem_filterMap.2 ⟨copyOp (args q) i, ?_, rfl⟩
  have hmem : copyOp (args q) i ∈ issues (s.transfers q) := by
    rw [hpaid]
    exact List.mem_map.2 ⟨i, List.mem_range.2 hi, rfl⟩
  exact (List.mem_filter.1 (List.mem_filter.1 hmem).1).1

end Sys

open Lts Progress
namespace Wire
variable {ρ ψ ρ' ψ' : Type} [DecidableEq ρ] [DecidableEq ψ] [DecidableEq ρ'] [DecidableEq ψ'] {argsS : ρ → Request}
  {argsR : ρ' → Request} {source : Memory} {w w' : Wire ρ ψ ρ' ψ'} {q : ρ} {q' : ρ'}

/-- No other send writes into the buffer of `q`, no other receive into that of `q'`. -/
structure Apart (argsS : ρ → Request) (argsR : ρ' → Request) (q : ρ) (q' : ρ') : Prop where
  host : ∀ p, p ≠ q → ∀ x, Memory.Within (argsS q).dst (argsS q).len.toNat x →
    ¬ Memory.Within (argsS p).dst (argsS p).len.toNat x
  device : ∀ p, p ≠ q' → ∀ x, Memory.Within (argsR q').dst (argsR q').len.toNat x →
    ¬ Memory.Within (argsR p).dst (argsR p).len.toNat x

/-- Every write in flight is one of a send, and the writes of `q` that have arrived are in the host memory. -/
structure Arrived (argsS : ρ → Request) (source : Memory) (q : ρ) (w : Wire ρ ψ ρ' ψ') : Prop where
  known : ∀ wr ∈ w.flying, ∃ p, wr ∈ (argsS p).posted p
  host : ∀ wr ∈ w.notified ++ w.landed, wr.notifies (argsS q).clientKey = true →
    w.host.Shows wr.dst wr.len.toNat source wr.src

omit [DecidableEq ρ'] [DecidableEq ψ'] in
/-- The writes on their way under the client key of `q` are its own. -/
theorem InOrder.mem_posted (h : InOrder argsS q w) (hw : Sending argsS w) {wr : JfsWr} (hwr : wr ∈ w.notified ++ w.landed ++ w.flying)
    (hn : wr.notifies (argsS q).clientKey = true) : wr ∈ (argsS q).posted q := by
  refine (hw.sent q).written.subset ?_
  have horder : (w.notified ++ w.landed ++ w.flying).filter (JfsWr.notifies (argsS q).clientKey) = _ := h
  rw [← horder]
  exact List.mem_filter.2 ⟨hwr, hn⟩

theorem arrived_step (h : Arrived argsS source q w) (hreq : Requests argsS argsR) (hapart : Apart argsS argsR q q')
    (horder : InOrder argsS q w) (hw : Sending argsS w) (hw' : Sending argsS w') {act : WireAct ρ ψ ρ' ψ'}
    (hs : w.step argsS argsR source act = some w') : Arrived argsS source q w' := by
  cases step_cases hs with
  | sender a s hact hstep =>
    refine ⟨fun wr hwr => ?_, h.host⟩
    rcases List.mem_append.1 hwr with hwr | hwr
    · exact h.known wr hwr
    · obtain ⟨op, hop, hwop⟩ := List.mem_filterMap.1 hwr
      obtain ⟨p, -, hop⟩ := mem_added (hw.booked q).kept.linked hstep hop
      exact ⟨p, (hw'.sent p).written.subset (List.mem_filterMap.2 ⟨op, hop, hwop⟩)⟩
  | land r wr rest hpop =>
    have hmem : ∀ {x}, x ∈ w.flying ↔ x = wr ∨ x ∈ rest := mem_popFirst hpop
    refine ⟨fun x hx => h.known x (hmem.2 (.inr hx)), fun x hx hn => ?_⟩
    rw [← List.append_assoc, List.mem_append, List.mem_singleton] at hx
    rcases hx with hx | rfl
    swap
    · exact Memory.shows_copy Memory.shows_self
    obtain ⟨off, hsrc, hdst, hle⟩ := Request.posted_part (hreq.send q)
      (horder.mem_posted hw (List.mem_append_left _ hx) hn)
    obtain ⟨p, hp⟩ := h.known wr (hmem.2 (.inl rfl))
    obtain ⟨off', hsrc', hdst', hle'⟩ := Request.posted_part (hreq.send p) hp
    rcases eq_or_ne p q with rfl | hne
    · -- a write of the same send moves bytes by the same distance
      refine (h.host x hx hn).put_alike Memory.shows_self ?_
      rw [hsrc, hdst, hsrc', hdst']
      grind
    · refine (h.host x hx hn).put_of_disjoint fun y hy hy' => ?_
      have hlt := (argsS q).len.toNat_lt
      have hlt' := (argsS p).len.toNat_lt
      rw [hdst] at hy
      rw [hdst'] at hy'
      exact hapart.host p hne y (hy.of_part hle (by omega)) (hy'.of_part hle' (by omega))
  | notify k r o wr rest s hpop hstep =>
    refine ⟨h.known, fun x hx hn => h.host x ?_ hn⟩
    rw [List.append_assoc, List.mem_append, List.singleton_append, List.mem_cons, ← mem_popFirst hpop] at hx
    exact List.mem_append.2 hx
  | _ => exact ⟨h.known, h.host⟩

/-- The copies CUDA has taken for `q'` are made, or about to be. -/
structure Copied (argsS : ρ → Request) (argsR : ρ' → Request) (source : Memory) (q : ρ) (q' : ρ') (w : Wire ρ ψ ρ' ψ') :
    Prop where
  known : ∀ c ∈ w.stream, ∃ p, c ∈ (w.receiver.transfers p).ops.filterMap Op.copied?
  device : ∀ c ∈ (w.receiver.transfers q').ops.filterMap Op.copied?, c ∈ w.stream ∨
    w.device.Shows c.dst c.len.toNat source ((argsS q).src + (c.dst - (argsR q').dst))

/-- The bytes of a chunk that the receiver has copied are in the host memory. -/
theorem chunk_arrived (h : Arrived argsS source q w) (hreq : Requests argsS argsR) (hp : Paired argsS argsR q q')
    (hw : Sending argsS w) (hr : Receiving argsR w) (horder : InOrder argsS q w) {i : Nat}
    (hi : i < (issues (w.receiver.transfers q')).length) (hn : i < chunksNum (argsR q').len) :
    w.host.Shows ((argsR q').chunk i).src ((argsR q').chunk i).len.toNat source ((argsS q).src + Request.offset i) := by
  have hlen : (argsS q).len ≠ 0 := by
    intro h₀
    rw [← hp.len, h₀, show chunksNum 0 = 0 from rfl] at hn
    exact Nat.not_lt_zero _ hn
  -- its write is the `i`-th that was notified
  have hlt := Nat.lt_of_lt_of_le hi (hr.issues_le q')
  rw [← hp.key] at hlt
  obtain ⟨l, hl⟩ := horder.notified_isPrefix hw
  have hget : ((argsS q).posted q)[i]? = some (w.notified.filter (JfsWr.notifies (argsS q).clientKey))[i] := by
    rw [← hl, List.getElem?_append_left hlt, List.getElem?_eq_getElem hlt]
  obtain ⟨-, hsrc, hdst, hl⟩ := Request.posted_chunk (hreq.send q) hlen hget
  obtain ⟨hmem, hnot⟩ := List.mem_filter.1 (List.getElem_mem hlt)
  have hshow := h.host _ (List.mem_append_left _ hmem) hnot
  rw [hsrc, hdst, hl, Request.chunk_src, Request.chunk_dst, Request.chunk_len hp.len, hp.buffer] at hshow
  exact hshow

theorem copied_step (h : Copied argsS argsR source q q' w) (harr : Arrived argsS source q w) (hreq : Requests argsS argsR)
    (hp : Paired argsS argsR q q') (hapart : Apart argsS argsR q q') (horder : InOrder argsS q w)
    (hw : Sending argsS w) (hr : Receiving argsR w) {act : WireAct ρ ψ ρ' ψ'}
    (hs : w.step argsS argsR source act = some w') : Copied argsS argsR source q q' w' := by
  cases step_cases hs with
  | receiver a s hact hstep =>
    have hl := (hr.booked q').kept.linked
    have hops : ∀ p, (s.transfers p).ops.filterMap Op.copied? = (w.receiver.transfers p).ops.filterMap Op.copied? ++
        if w.receiver.concerns a = some p then (w.receiver.added s a).filterMap Op.copied? else [] := by
      intro p
      rw [Sys.ops_eq hl hstep p, List.filterMap_append]
      split <;> rfl
    refine ⟨fun c hc => ?_, fun c hc => ?_⟩
    · rcases List.mem_append.1 hc with hc | hc
      · obtain ⟨p, hp⟩ := h.known c hc
        exact ⟨p, (hops p).symm ▸ List.mem_append_left _ hp⟩
      · obtain ⟨op, hop, hcop⟩ := List.mem_filterMap.1 hc
        obtain ⟨p, -, hop⟩ := mem_added hl hstep hop
        exact ⟨p, List.mem_filterMap.2 ⟨op, hop, hcop⟩⟩
    · have hc : c ∈ (s.transfers q').ops.filterMap Op.copied? := hc
      rw [hops q'] at hc
      rcases List.mem_append.1 hc with hc | hc
      · exact (h.device c hc).imp_left (List.mem_append_left _)
      · split at hc
        · exact .inl (List.mem_append_right _ hc)
        · cases hc
  | notify k r o wr rest s hpop hstep =>
    have hops : ∀ p, (s.transfers p).ops = (w.receiver.transfers p).ops :=
      fun p => Sys.ops_of_not_concerned hstep (by simp [Sys.concerns])
    refine ⟨fun c hc => ?_, fun c hc => h.device c ?_⟩
    · obtain ⟨p, hp⟩ := h.known c hc
      exact ⟨p, by rw [hops p]; exact hp⟩
    · rw [← hops q']
      exact hc
  | copy n c hn =>
    obtain ⟨hlt, hget⟩ := List.getElem?_eq_some_iff.1 hn
    have hmem : ∀ x, x ∈ w.stream ↔ x = c ∨ x ∈ w.stream.eraseIdx n := by
      intro x
      rw [← (List.getElem_cons_eraseIdx_perm hlt).mem_iff, List.mem_cons, hget]
    refine ⟨fun x hx => h.known x ((hmem x).2 (.inr hx)), fun x hx => ?_⟩
    obtain ⟨p, hcp⟩ := h.known c ((hmem c).2 (.inl rfl))
    obtain ⟨i, hi, hin, rfl⟩ := (hr.booked p).copied_chunk (hreq.recv p) hcp
    obtain ⟨j, hj, hjn, rfl⟩ := (hr.booked q').copied_chunk (hreq.recv q') hx
    have hold := h.device _ hx
    rw [hmem] at hold
    have hoffset : ((argsR q').chunk j).dst - (argsR q').dst = Request.offset j := by
      rw [Request.chunk_dst]
      grind
    rw [hoffset] at hold ⊢
    rcases eq_or_ne p q' with rfl | hne
    · -- a chunk of the same receive: the copy displaces its bytes alike
      have hhost := chunk_arrived harr hreq hp hw hr horder hi hin
      rcases hold with (he | hold) | hold
      · have hdst : _ + Request.offset j = _ + Request.offset i := congrArg ChunkInfo.dst he
        have hij : Request.offset j = Request.offset i := by grind
        rw [he, hij]
        exact .inr (Memory.shows_copy hhost)
      · exact .inl hold
      · refine .inr (hold.put_alike hhost ?_)
        rw [Request.chunk_dst, Request.chunk_dst]
        grind
    · -- a chunk of another receive is elsewhere
      have hlt := (argsR q').len.toNat_lt
      have hlt' := (argsR p).len.toNat_lt
      rcases hold with (he | hold) | hold
      · have hstart := Request.within_chunk (a := argsR p) hin
        rw [← he] at hstart
        exact absurd hstart (hapart.device p hne _ (Request.within_chunk hjn))
      · exact .inl hold
      · refine .inr (hold.put_of_disjoint fun y hy hy' => ?_)
        exact hapart.device p hne y (hy.of_part (Request.chunk_end hjn) (by omega))
          (hy'.of_part (Request.chunk_end hin) (by omega))
  | _ => exact ⟨h.known, h.device⟩

/-! ### Runs -/

section
variable {host device : Memory} {as : List (WireAct ρ ψ ρ' ψ')} (hreq : Requests argsS argsR)
  (ha : Along (step argsS argsR source) (Fed argsS argsR) (start host device) as)
  (h : exec (step argsS argsR source) (start host device) as = some w) (hp : Paired argsS argsR q q')
  (hapart : Apart argsS argsR q q')
include hreq ha h hp hapart

theorem copied : Copied argsS argsR source q q' w := by
  have hinv := exec_inv (I := fun w : Wire ρ ψ ρ' ψ' => Sending argsS w ∧ Receiving argsR w ∧ InOrder argsS q w ∧
      Arrived argsS source q w ∧ Copied argsS argsR source q q' w)
    (fun u act u' hi ha hs => by
      obtain ⟨hw, hr, horder, harr, hcopy⟩ := hi
      have hw' := hw.step hreq.send hreq.ownS (fun a e => by subst e; exact ha) hs
      have hr' := hr.step hreq.ownR (fun a e => by subst e; exact ha) hs
      exact ⟨hw', hr', inOrder_step horder hw hw' hreq.send hp.only hs,
        arrived_step harr hreq hapart horder hw hw' hs, copied_step hcopy harr hreq hp hapart horder hw hr hs⟩)
    ⟨sending_start _ _ _, receiving_start _ _ _, rfl, ⟨fun _ hwr => (by cases hwr), fun _ hwr => (by cases hwr)⟩,
      ⟨fun _ hc => (by cases hc), fun _ hc => (by cases hc)⟩⟩ ha h
  exact hinv.2.2.2.2

/-- When `wait_and_free_sync` has returned 0 for the receive and CUDA has made its copies, the device buffer holds
the bytes of the buffer that was sent. -/
theorem delivered (hret : (w.receiver.transfers q').waiter = .returned true)
    (hmade : ∀ i < chunksNum (argsR q').len, (argsR q').chunk i ∉ w.stream) :
    w.device.Shows (argsR q').dst (argsR q').len.toNat source (argsS q).src := by
  have hr := receiving hreq ha h
  have hcopy := copied hreq ha h hp hapart
  refine Memory.Shows.whole fun k hk => ?_
  obtain ⟨i, hi, hle, hlt⟩ := Request.exists_chunk (a := argsR q') hk
  refine ⟨Request.offset i, _, hle, hlt, ?_⟩
  have hshow := (hcopy.device _ ((hr.booked q').copied_all (hreq.recv q') hret hi)).resolve_left (hmade i hi)
  have hoffset : (argsR q').dst + Request.offset i - (argsR q').dst = Request.offset i := by grind
  rwa [Request.chunk_dst, hoffset] at hshow

end

/-- Chunk 1 follows, and CUDA makes the copies, the second one first. -/
def bothCopied : List (WireAct (Fin 1) (Fin 1) (Fin 1) (Fin 2)) :=
  firstCopied ++ .land 9 :: .notify 1 9 {} :: List.replicate 3 (.receiver (.poller 1 {})) ++
    List.replicate 10 (.receiver (.worker 0 {})) ++ List.replicate 3 (.receiver (.waiter 0 {})) ++ [.copy 1, .copy 0]

theorem bothCopied_delivered :
    (last (step Sys.twoChunks twoCopies ramp) (start (fun _ => 0) (fun _ => 0)) bothCopied (by decide +kernel)).device.Shows
      (twoCopies 0).dst (twoCopies 0).len.toNat ramp (Sys.twoChunks 0).src :=
  delivered twoChunks_requests (by decide +kernel) (exec_last _) twoChunks_paired
    ⟨fun p hp => absurd (Subsingleton.elim p 0) hp, fun p hp => absurd (Subsingleton.elim p 0) hp⟩
    (by decide +kernel) (by decide +kernel)

end Wire
end OsTransport
