import OsTransport.Fifo
import OsTransport.TransportCases

/-!
# The calls of the transport on its pool

`Linked` ties what a request has come to, to the calls it has made on the pool: the submission of its
tasks is the one of its arguments, a cancel of its key is made by `wait_and_free_sync` alone, the callers
of `os_transport_wake_up_task` only wake. The tasks of a request in the queues and on the workers are the
ones its arguments give (`Linked.split`, `Linked.func`).
-/

namespace OsTransport

/-! ### The call a thread is inside of -/

/-- The call that makes the step. -/
def Act.tid? {τ α κ : Type} : Act τ α κ → Option τ
  | .call t _ _ | .thread t _ => some t
  | .worker .. => none

namespace Pc
variable {τ α κ : Type}

/-- Inside a cancel of `r`, or before or after it. -/
def cancels (r : UInt32) : Pc τ α κ → Prop
  | .idle | .done (.int _) => True
  | .cancelFind r' | .cancelRead r' _ | .cancelQueue r' .. | .cancelUpdate r' .. => r' = r
  | _ => False

/-- Inside a wake-up, or before or after it. -/
def waking : Pc τ α κ → Prop
  | .idle | .done (.int _) | .wakeFind _ | .wakeRead .. | .wakeSet .. => True
  | _ => False

theorem accepted_of_cancels {r : UInt32} {pc : Pc τ α κ} (h : pc.cancels r) : pc.accepted = false := by
  cases pc with
  | done ret => cases ret <;> first | rfl | exact h.elim
  | _ => first | rfl | exact h.elim

theorem accepted_of_waking {pc : Pc τ α κ} (h : pc.waking) : pc.accepted = false := by
  cases pc with
  | done ret => cases ret <;> first | rfl | exact h.elim
  | _ => first | rfl | exact h.elim

end Pc

namespace Pool
variable {τ α κ : Type} [DecidableEq τ] {p p' : Pool τ α κ} {t : τ} {o : Oracle} {pc pc' : Pc τ α κ}

theorem cancels_threadStep {r : UInt32} (h : ThreadStep p t o pc p' pc') (hpc : pc.cancels r) :
    pc'.cancels r := by
  cases h with
  | cancelFindSome | cancelFindNone | cancelRead | cancelUpdate | cancelUpdateDangling => first | exact hpc | trivial
  | cancelQueue =>
    split
    · exact hpc
    · trivial
  | _ => exact hpc.elim

theorem waking_threadStep (h : ThreadStep p t o pc p' pc') (hpc : pc.waking) : pc'.waking := by
  cases h with
  | wakeFindSome | wakeFindNone | wakeRead | wakeSet => trivial
  | _ => exact hpc.elim

end Pool

namespace PoolSys
variable {τ α κ : Type} [DecidableEq τ] {s s' : PoolSys τ α κ}

theorem threads_of_ne {a : Act τ α κ} (h : s.step a = some s') {t : τ} (ht : a.tid? ≠ some t) :
    s'.threads t = s.threads t := by
  cases step_cases h with
  | call u c o hu => rw [setThread_threads, if_neg fun e => ht (congrArg some e.symm)]
  | thread u o p pc hp => rw [setThread_threads, if_neg fun e => ht (congrArg some e.symm)]
  | worker i o p hp => rfl

theorem pc_of_ne {a : Act τ α κ} (h : s.step a = some s') {j : Fin 64} (ha : ∀ o, a ≠ .worker j o) :
    (s'.pool.workers j).pc = (s.pool.workers j).pc := by
  have hsame : ∀ {p : Pool τ α κ} {i : Fin 64} {w : WorkerThread τ α κ},
      w.pc = (p.workers i).pc → ((p.setWorker i w).workers j).pc = (p.workers j).pc := fun hw => by
    rw [Pool.setWorker_workers]
    split
    · rename_i hj; rw [hw, hj]
    · rfl
  cases step_cases h with
  | call u c o hu => rfl
  | thread u o p pc hp =>
    generalize s.threads u = pc₀ at hp
    cases hp with
    | attach b i nodes size hm hs => exact hsame rfl
    | wakeSet r i hm => exact hsame rfl
    | cancelQueue r ctx i hm => exact hsame rfl
    | cancelUpdate r ctx n c hd => split <;> rfl
    | cancelUpdateDangling r ctx n hd => split <;> rfl
    | _ => rfl
  | worker i o p hp =>
    have hji : j ≠ i := fun e => ha o (congrArg (Act.worker · o) e.symm)
    cases hp with
    | dec | decDangling | remove => exact congrArg _ (Pool.setPc_workers_ne _ hji _)
    | _ => exact congrArg _ (Pool.setWorker_workers_ne _ hji _)

theorem call_threads {t : τ} {c : Call α κ} {o : Oracle} (h : s.step (.call t c o) = some s') :
    s.threads t = .idle ∧ s'.threads t = enter s.pool o c := by
  cases step_cases h with
  | call u c o hu => exact ⟨hu, by rw [setThread_threads, if_pos rfl]⟩

theorem thread_threads {t : τ} {o : Oracle} (h : s.step (.thread t o) = some s') :
    Pool.ThreadStep s.pool t o (s.threads t) s'.pool (s'.threads t) := by
  cases step_cases h with
  | thread u o p pc hp => rwa [setThread_threads, if_pos rfl]

end PoolSys

/-! ### The submission of a request -/

namespace Request
variable {ρ : Type} {a : Request} {q : ρ}

/-- `b` is the submission of the tasks of request `q`. -/
structure Submits (a : Request) (q : ρ) (b : Submit (TaskArg ρ) Empty) : Prop where
  batch : b.batch = true
  requestId : b.requestId = a.key
  args : b.args = a.taskArgs q

theorem taskArgs_ne (hlen : a.len ≠ 0) (hlt : a.type = .send → defaultChunkSize < a.len.toNat) :
    a.taskArgs q ≠ [] := by
  unfold taskArgs
  cases ht : a.type with
  | send =>
    have := two_le_chunksNum (hlt ht)
    simp only [ne_eq, List.map_eq_nil_iff, List.range_eq_nil]
    omega
  | recv =>
    have := chunksNum_pos hlen
    simp only [ne_eq, List.map_eq_nil_iff, List.range_eq_nil]
    omega

theorem validate_batch (h : a.taskArgs q ≠ []) : ∃ b, (a.batch q).validate = some b ∧ a.Submits q b := by
  obtain ⟨arg, rest, harg⟩ := List.exists_cons_of_ne_nil h
  have htasks : (a.batch q).tasks = (a.key, arg) :: rest.map (Prod.mk a.key) := by
    simp only [batch, harg, List.map_cons]
  cases hv : (a.batch q).validate with
  | none =>
    unfold Batch.validate at hv
    split at hv
    · rename_i hnil; rw [htasks] at hnil; cases hnil
    rename_i task rest' hcons
    rw [htasks] at hcons
    cases hcons
    rw [if_pos (by simp)] at hv
    cases hv
  | some b =>
    obtain ⟨hbatch, hmap⟩ := Batch.validate_eq_some hv
    have hargs : b.args = a.taskArgs q := by
      have := congrArg (List.map Prod.snd) hmap
      simpa [batch, Function.comp_def] using this.symm
    refine ⟨b, rfl, hbatch, ?_, hargs⟩
    have hhead := congrArg List.head? hmap
    rw [htasks, hargs, harg] at hhead
    simpa using (congrArg (Option.map Prod.fst) hhead).symm

end Request

/-! ### Requests and their calls -/

open Lts
namespace Sys
variable {ρ ψ : Type} [DecidableEq ρ] [DecidableEq ψ] {args : ρ → Request}

/-- The call that submits the tasks of `q` has been made. -/
def Registered (args : ρ → Request) (q : ρ) (p : PoolSys (Tid ρ ψ) (TaskArg ρ) Empty) : Prop :=
  ∃ b, (args q).Submits q b ∧ p.MadeBy (.caller q) b

def CallerLink (args : ρ → Request) (q : ρ) (p : PoolSys (Tid ρ ψ) (TaskArg ρ) Empty) : CallerPc → Prop
  | .idle => p.threads (.caller q) = .idle
  | .registering => Registered args q p
  | .posting _ | .failing | .returned true _ =>
    Registered args q p ∧ ∃ ids, p.threads (.caller q) = .done (.ids ids)
  | .returned false _ => p.threads (.caller q) = .idle ∨
    ∃ ret, p.threads (.caller q) = .done ret ∧ ∀ ids, ret ≠ .ids ids

def WaiterLink (key : UInt32) (pc : Pc (Tid ρ ψ) (TaskArg ρ) Empty) : WaiterPc → Prop
  | .idle | .waiting | .checking | .freeing true | .returned true => pc = .idle
  | .cancelling => pc ≠ .idle ∧ pc.cancels key
  | .freeing false | .returned false => ∃ n, pc = .done (.int n)

omit [DecidableEq ρ] [DecidableEq ψ] in
theorem WaiterLink.cancels {key : UInt32} {pc : Pc (Tid ρ ψ) (TaskArg ρ) Empty} {w : WaiterPc}
    (h : WaiterLink key pc w) : pc.cancels key := by
  have hidle : pc = .idle → pc.cancels key := fun h => h ▸ trivial
  have hdone : (∃ n, pc = .done (.int n)) → pc.cancels key := fun ⟨n, hn⟩ => hn ▸ trivial
  cases w with
  | cancelling => exact h.2
  | freeing ok =>
    cases ok
    · exact hdone h
    · exact hidle h
  | returned ok =>
    cases ok
    · exact hdone h
    · exact hidle h
  | _ => exact hidle h

/-- What a request has come to agrees with its calls on the pool. -/
structure LinkedAt (args : ρ → Request) (q : ρ) (p : PoolSys (Tid ρ ψ) (TaskArg ρ) Empty) (x : Transfer) :
    Prop where
  caller : CallerLink args q p x.caller
  waiter : WaiterLink (args q).key (p.threads (.waiter q)) x.waiter
  waited : x.waiter = .idle ∨ ∃ ok, x.caller = .returned true ok
  total : x.caller = .idle ∨ (∃ ok, x.caller = .returned false ok) ∨
    x.sync.totalTasks = ((args q).taskArgs q).length

structure Linked (args : ρ → Request) (s : Sys ρ ψ) : Prop where
  tracked : ∀ t, s.pool.Tracked t
  request : ∀ q, LinkedAt args q s.pool (s.transfers q)
  poller : ∀ k, (s.pool.threads (.poller k)).waking
  taskPc : ∀ i, (∀ task, (s.pool.pool.workers i).pc ≠ .func task) → s.taskPc i = .issue
  running : s.pool.pool.isRunning = true
  alive : s.pool.pool.isDestroying = false

theorem linked_start : Linked args (start : Sys ρ ψ) where
  tracked := PoolSys.tracked_start
  request _ := ⟨rfl, rfl, .inl rfl, .inl rfl⟩
  poller _ := trivial
  taskPc _ _ := rfl
  running := rfl
  alive := rfl

namespace LinkedAt
variable {q : ρ} {p p' : PoolSys (Tid ρ ψ) (TaskArg ρ) Empty} {x x' : Transfer}
  {pa : Act (Tid ρ ψ) (TaskArg ρ) Empty}

theorem caller_frame (h : LinkedAt args q p x) (ht : ∀ t, p.Tracked t) (hs : p.step pa = some p')
    (hc : pa.tid? ≠ some (.caller q)) : CallerLink args q p' x.caller := by
  have hreg : Registered args q p → Registered args q p' := fun ⟨b, hb, hmade⟩ => ⟨b, hb, hmade.step ht hs⟩
  have hcaller := h.caller
  have hthread := PoolSys.threads_of_ne hs hc
  revert hcaller
  cases x.caller with
  | idle => exact hthread.trans
  | registering => exact hreg
  | posting i => exact fun hc => ⟨hreg hc.1, hthread ▸ hc.2⟩
  | failing => exact fun hc => ⟨hreg hc.1, hthread ▸ hc.2⟩
  | returned handle ok =>
    cases handle
    · exact fun hc => hc.imp hthread.trans fun ⟨ret, hr⟩ => ⟨ret, hthread.trans hr.1, hr.2⟩
    · exact fun hc => ⟨hreg hc.1, hthread ▸ hc.2⟩

theorem waiter_frame (h : LinkedAt args q p x) (hs : p.step pa = some p')
    (hw : pa.tid? ≠ some (.waiter q)) : WaiterLink (args q).key (p'.threads (.waiter q)) x.waiter := by
  rw [PoolSys.threads_of_ne hs hw]
  exact h.waiter

theorem frame (h : LinkedAt args q p x) (ht : ∀ t, p.Tracked t) (hs : p.step pa = some p')
    (hc : pa.tid? ≠ some (.caller q)) (hw : pa.tid? ≠ some (.waiter q)) : LinkedAt args q p' x where
  caller := h.caller_frame ht hs hc
  waiter := h.waiter_frame hs hw
  waited := h.waited
  total := h.total

/-- The call moves on. `wait_and_free_sync` is not called before it has returned a handle. -/
theorem setCaller (h : LinkedAt args q p x) (hx : ∀ ok, x.caller ≠ .returned true ok)
    (hcaller : CallerLink args q p x'.caller) (hw : x'.waiter = x.waiter)
    (htotal : x'.caller = .idle ∨ (∃ ok, x'.caller = .returned false ok) ∨
      x'.sync.totalTasks = ((args q).taskArgs q).length) : LinkedAt args q p x' where
  caller := hcaller
  waiter := hw ▸ h.waiter
  waited := .inl (hw.trans (h.waited.resolve_right fun ⟨ok, hok⟩ => hx ok hok))
  total := htotal

theorem setWaiter (h : LinkedAt args q p x) (hx : ∃ ok, x.caller = .returned true ok)
    (hc : x'.caller = x.caller) (hs : x'.sync = x.sync)
    (hwaiter : WaiterLink (args q).key (p.threads (.waiter q)) x'.waiter) : LinkedAt args q p x' where
  caller := hc ▸ h.caller
  waiter := hwaiter
  waited := .inr (hc ▸ hx)
  total := hc ▸ hs ▸ h.total

theorem setTask (h : LinkedAt args q p x) (hc : x'.caller = x.caller) (hw : x'.waiter = x.waiter)
    (ht : x'.sync.totalTasks = x.sync.totalTasks) : LinkedAt args q p x' where
  caller := hc ▸ h.caller
  waiter := hw ▸ h.waiter
  waited := hw ▸ hc ▸ h.waited
  total := hc ▸ ht ▸ h.total

theorem total_of (h : LinkedAt args q p x) (hx : x.caller ≠ .idle)
    (hx' : ∀ ok, x.caller ≠ .returned false ok) : x.sync.totalTasks = ((args q).taskArgs q).length :=
  (h.total.resolve_left hx).resolve_left fun ⟨ok, hok⟩ => hx' ok hok

end LinkedAt

omit [DecidableEq ψ] in
theorem setTransfer_transfers (s : Sys ρ ψ) (q q' : ρ) (x : Transfer) :
    (s.setTransfer q x).transfers q' = if q' = q then x else s.transfers q' := by
  simp [setTransfer, Function.update_apply]

omit [DecidableEq ψ] in
theorem setTransfer_self (s : Sys ρ ψ) (q : ρ) (x : Transfer) : (s.setTransfer q x).transfers q = x := by
  rw [setTransfer_transfers, if_pos rfl]

theorem pool_step {s s' : Sys ρ ψ} {a : Action ρ ψ} (h : step args s a = some s') :
    s'.pool = s.pool ∨ ∃ pa, s.pool.step pa = some s'.pool := by
  cases step_cases h with
  | register q o p hc hlen hlt ho hp => exact .inr ⟨_, hp⟩
  | submit q o p hc hp => exact .inr ⟨_, hp⟩
  | cancel q o p hw he hp => exact .inr ⟨_, hp⟩
  | cancelling q o p hw hp => exact .inr ⟨_, hp⟩
  | wakeUpTask k cr o r p hr hp => exact .inr ⟨_, hp⟩
  | poller k o p hp => exact .inr ⟨_, hp⟩
  | worker i o p hpc hp => exact .inr ⟨_, hp⟩
  | leave i o task q x p hpc hq hl hp => exact .inr ⟨_, hp⟩
  | _ => exact .inl rfl

omit [DecidableEq ρ] in
theorem Stay.frame {a : Request} {arg : TaskArg ρ} {o : Oracle} {x x' : Transfer} {pc pc' : TaskPc}
    (h : Stay a arg o x pc pc' x') : x'.caller = x.caller ∧ x'.waiter = x.waiter ∧ x'.freed = x.freed ∧
      x'.sync.totalTasks = x.sync.totalTasks := by
  cases h with
  | mark ok r hi hf => cases ok <;> exact ⟨rfl, rfl, rfl, rfl⟩
  | _ => exact ⟨rfl, rfl, rfl, rfl⟩

omit [DecidableEq ρ] in
theorem Leave.frame {arg : TaskArg ρ} {x x' : Transfer} {pc : TaskPc} (h : Leave arg x pc x') :
    x'.caller = x.caller ∧ x'.waiter = x.waiter ∧ x'.freed = x.freed ∧
      x'.sync.totalTasks = x.sync.totalTasks := by
  cases h with
  | mark ok info hi hf => cases ok <;> exact ⟨rfl, rfl, rfl, rfl⟩
  | _ => exact ⟨rfl, rfl, rfl, rfl⟩

theorem LinkedAt.step {s s' : Sys ρ ψ} {a : Action ρ ψ} (h : Linked args s) (hs : step args s a = some s')
    (q : ρ) : LinkedAt args q s'.pool (s'.transfers q) := by
  have hq := h.request q
  -- the request that the step is about, and the others
  have hset : ∀ {q₀ : ρ} {x : Transfer} {p : PoolSys (Tid ρ ψ) (TaskArg ρ) Empty},
      (q = q₀ → LinkedAt args q p x) → (q ≠ q₀ → LinkedAt args q p (s.transfers q)) →
      LinkedAt args q p ((s.setTransfer q₀ x).transfers q) := fun h₁ h₂ => by
    rw [setTransfer_transfers]
    split
    · exact h₁ ‹_›
    · exact h₂ ‹_›
  have hcall : ∀ {q₀ : ρ} {x : Transfer}, (∀ ok, (s.transfers q₀).caller ≠ .returned true ok) →
      (q = q₀ → CallerLink args q s.pool x.caller) → x.waiter = (s.transfers q₀).waiter →
      (q = q₀ → x.caller = .idle ∨ (∃ ok, x.caller = .returned false ok) ∨
        x.sync.totalTasks = ((args q).taskArgs q).length) →
      LinkedAt args q s.pool ((s.setTransfer q₀ x).transfers q) := fun h₁ h₂ h₃ h₄ =>
    hset (fun e => by subst e; exact hq.setCaller h₁ (h₂ rfl) h₃ (h₄ rfl)) fun _ => hq
  have hwait : ∀ {q₀ : ρ} {x : Transfer}, (∃ ok, (s.transfers q₀).caller = .returned true ok) →
      x.caller = (s.transfers q₀).caller → x.sync = (s.transfers q₀).sync →
      (q = q₀ → WaiterLink (args q).key (s.pool.threads (.waiter q)) x.waiter) →
      LinkedAt args q s.pool ((s.setTransfer q₀ x).transfers q) := fun h₁ h₂ h₃ h₄ =>
    hset (fun e => by subst e; exact hq.setWaiter h₁ h₂ h₃ (h₄ rfl)) fun _ => hq
  have hcaller : ∀ {q₀ pc}, (s.transfers q₀).caller = pc → CallerLink args q₀ s.pool pc :=
    fun {q₀ pc} hc => hc ▸ (h.request q₀).caller
  have hwaiter : ∀ {q₀ pc}, (s.transfers q₀).waiter = pc →
      WaiterLink (args q₀).key (s.pool.threads (.waiter q₀)) pc := fun {q₀ pc} hw => hw ▸ (h.request q₀).waiter
  have hwaited : ∀ {q₀ pc}, (s.transfers q₀).waiter = pc → pc ≠ .idle →
      ∃ ok, (s.transfers q₀).caller = .returned true ok := fun {q₀ pc} hw hne =>
    (h.request q₀).waited.resolve_left (hw ▸ hne)
  cases step_cases hs with
  | reject q₀ o hc =>
    refine hcall (by simp [hc]) (fun e => ?_) rfl fun _ => .inr (.inl ⟨false, rfl⟩)
    exact .inl (e ▸ hcaller hc)
  | single q₀ o hc hlen ht hle =>
    refine hcall (by simp [hc]) (fun e => ?_) rfl fun _ => .inr (.inl ⟨o.ok, rfl⟩)
    exact .inl (e ▸ hcaller hc)
  | register q₀ o p hc hlen hlt ho hp =>
    have hframe : q ≠ q₀ → LinkedAt args q p (s.transfers q) := fun hne =>
      hq.frame h.tracked hp (by simpa [Act.tid?] using Ne.symm hne) (by simp [Act.tid?])
    refine hset (fun e => ?_) hframe
    subst e
    obtain ⟨b, hv, hb⟩ := Request.validate_batch (Request.taskArgs_ne (q := q) hlen hlt)
    have hmade := PoolSys.madeBy_call (h.tracked _) (show (Call.submitBatch _).submit? = some b from hv) hp
    exact ⟨⟨b, hb, hmade⟩, hq.waiter_frame hp (by simp [Act.tid?]),
      .inl (hq.waited.resolve_right (by simp [hc])), .inr (.inr rfl)⟩
  | submit q₀ o p hc hp =>
    rcases eq_or_ne q q₀ with rfl | hne
    · obtain ⟨b, hb, hmade⟩ := hcaller hc
      refine ⟨?_, hq.waiter_frame hp (by simp [Act.tid?]), hq.waited, hq.total⟩
      change CallerLink args q p (s.transfers q).caller
      rw [hc]
      exact ⟨b, hb, hmade.step h.tracked hp⟩
    · exact hq.frame h.tracked hp (by simpa [Act.tid?] using Ne.symm hne) (by simp [Act.tid?])
  | registered q₀ o ids hc ht =>
    refine hcall (by simp [hc]) (fun e => ?_) rfl fun e => .inr (.inr ?_)
    · subst e; exact ⟨hcaller hc, ids, ht⟩
    · subst e; exact hq.total_of (by simp [hc]) (by simp [hc])
  | refused q₀ o ret hc ht hret =>
    refine hcall (by simp [hc]) (fun e => ?_) rfl fun _ => .inr (.inl ⟨false, rfl⟩)
    subst e; exact .inr ⟨ret, ht, hret⟩
  | firstPost q₀ o i hc ht =>
    have hacc : CallerLink args q₀ s.pool (.posting i) := hcaller hc
    refine hcall (by simp [hc]) (fun e => ?_) rfl fun e => .inr (.inr ?_)
    · subst e
      change CallerLink args q s.pool (if o.ok then .returned true true else .failing)
      split <;> exact hacc
    · subst e; exact hq.total_of (by simp [hc]) (by simp [hc])
  | recvPost q₀ o i pc hc ht hpc =>
    have hacc : CallerLink args q₀ s.pool (.posting i) := hcaller hc
    refine hcall (by simp [hc]) (fun e => ?_) rfl fun e => .inr (.inr ?_)
    · subst e; rcases hpc with ⟨rfl, -⟩ | ⟨rfl, -⟩ | ⟨rfl, -⟩ <;> exact hacc
    · subst e; exact hq.total_of (by simp [hc]) (by simp [hc])
  | fail q₀ o hc =>
    have hacc : CallerLink args q₀ s.pool .failing := hcaller hc
    refine hcall (by simp [hc]) (fun e => ?_) rfl fun e => .inr (.inr ?_)
    · subst e; exact hacc
    · subst e; exact hq.total_of (by simp [hc]) (by simp [hc])
  | wait q₀ ok hc hw =>
    have hidle : s.pool.threads (.waiter q₀) = .idle := hwaiter hw
    exact hwait ⟨ok, hc⟩ rfl rfl fun e => by subst e; exact hidle
  | wake q₀ o hw hr =>
    have hidle : s.pool.threads (.waiter q₀) = .idle := hwaiter hw
    exact hwait (hwaited hw (by simp)) rfl rfl fun e => by subst e; exact hidle
  | success q₀ o hw he =>
    have hidle : s.pool.threads (.waiter q₀) = .idle := hwaiter hw
    exact hwait (hwaited hw (by simp)) rfl rfl fun e => by subst e; exact hidle
  | cancel q₀ o p hw he hp =>
    have hframe : q ≠ q₀ → LinkedAt args q p (s.transfers q) := fun hne =>
      hq.frame h.tracked hp (by simp [Act.tid?]) (by simpa [Act.tid?] using Ne.symm hne)
    refine hset (fun e => ?_) hframe
    subst e
    have hcancels : (PoolSys.enter s.pool.pool o (.cancel (args q).key)).cancels (args q).key ∧
        PoolSys.enter s.pool.pool o (.cancel (args q).key) ≠ .idle := by
      simp only [PoolSys.enter]
      split
      · exact ⟨rfl, by simp⟩
      · exact ⟨trivial, by simp⟩
    refine ⟨hq.caller_frame h.tracked hp (by simp [Act.tid?]), ?_, .inr (hwaited hw (by simp)), hq.total⟩
    change WaiterLink (args q).key (p.threads (.waiter q)) .cancelling
    rw [(PoolSys.call_threads hp).2]
    exact hcancels.symm
  | cancelling q₀ o p hw hp =>
    rcases eq_or_ne q q₀ with rfl | hne
    · have hlink : WaiterLink (args q).key (s.pool.threads (.waiter q)) .cancelling := hwaiter hw
      have hstep := PoolSys.thread_threads hp
      refine ⟨hq.caller_frame h.tracked hp (by simp [Act.tid?]), ?_, hq.waited, hq.total⟩
      change WaiterLink _ _ (s.transfers q).waiter
      rw [hw]
      exact ⟨(Pool.local_threadStep hstep (h.tracked _).made).2.2, Pool.cancels_threadStep hstep hlink.2⟩
    · exact hq.frame h.tracked hp (by simp [Act.tid?]) (by simpa [Act.tid?] using Ne.symm hne)
  | cancelled q₀ o ret hw ht =>
    have hlink : WaiterLink (args q₀).key (s.pool.threads (.waiter q₀)) .cancelling := hwaiter hw
    rw [ht] at hlink
    cases ret with
    | int n => exact hwait (hwaited hw (by simp)) rfl rfl fun e => by subst e; exact ⟨n, ht⟩
    | _ => exact hlink.2.elim
  | free q₀ o ok hw =>
    refine hwait (hwaited hw (by simp)) rfl rfl fun e => ?_
    have := hwaiter hw
    subst e
    cases ok <;> exact this
  | wakeUpTask k cr o r p hr hp => exact hq.frame h.tracked hp (by simp [Act.tid?]) (by simp [Act.tid?])
  | unknown k cr o hr => exact hq
  | poller k o p hp => exact hq.frame h.tracked hp (by simp [Act.tid?]) (by simp [Act.tid?])
  | worker i o p hpc hp => exact hq.frame h.tracked hp (by simp [Act.tid?]) (by simp [Act.tid?])
  | stay i o task q₀ pc x hpc hq₀ hst =>
    obtain ⟨hc, hw, -, ht⟩ := hst.frame
    exact hset (fun e => by subst e; exact hq.setTask hc hw ht) fun _ => hq
  | leave i o task q₀ x p hpc hq₀ hl hp =>
    obtain ⟨hc, hw, -, ht⟩ := hl.frame
    have hframe := hq.frame h.tracked hp (by simp [Act.tid?]) (by simp [Act.tid?])
    exact hset (fun e => by subst e; exact hframe.setTask hc hw ht) fun _ => hframe

theorem Linked.step {s s' : Sys ρ ψ} {a : Action ρ ψ} (h : Linked args s)
    (hs : Sys.step args s a = some s') : Linked args s' := by
  have hpool := pool_step hs
  refine ⟨?_, LinkedAt.step h hs, fun k => ?_, fun i hi => ?_, ?_, ?_⟩
  · rcases hpool with hp | ⟨pa, hp⟩
    · rw [hp]; exact h.tracked
    · exact PoolSys.tracked_step h.tracked hp
  · have hframe : ∀ {pa p}, s.pool.step pa = some p → pa.tid? ≠ some (.poller k) →
        (p.threads (.poller k)).waking := fun hp hne => by
      rw [PoolSys.threads_of_ne hp hne]
      exact h.poller k
    cases step_cases hs with
    | register q o p hc hlen hlt ho hp => exact hframe hp (by simp [Act.tid?])
    | submit q o p hc hp => exact hframe hp (by simp [Act.tid?])
    | cancel q o p hw he hp => exact hframe hp (by simp [Act.tid?])
    | cancelling q o p hw hp => exact hframe hp (by simp [Act.tid?])
    | worker i o p hpc hp => exact hframe hp (by simp [Act.tid?])
    | leave i o task q x p hpc hq hl hp => exact hframe hp (by simp [Act.tid?])
    | wakeUpTask k' cr o r p hr hp =>
      rcases eq_or_ne k k' with rfl | hne
      · change (p.threads (.poller k)).waking
        rw [(PoolSys.call_threads hp).2]
        trivial
      · exact hframe hp (by simpa [Act.tid?] using Ne.symm hne)
    | poller k' o p hp =>
      rcases eq_or_ne k k' with rfl | hne
      · exact Pool.waking_threadStep (PoolSys.thread_threads hp) (h.poller k)
      · exact hframe hp (by simpa [Act.tid?] using Ne.symm hne)
    | _ => exact h.poller k
  · -- a pool step that is not of worker `i` moves neither of its program counters
    have hframe : ∀ {pa p}, s.pool.step pa = some p → (∀ o, pa ≠ .worker i o) →
        (∀ task, (p.pool.workers i).pc ≠ .func task) → s.taskPc i = .issue := fun hp hne hi =>
      h.taskPc i fun task ht => hi task ((PoolSys.pc_of_ne hp hne).trans ht)
    cases step_cases hs with
    | register q o p hc hlen hlt ho hp => exact hframe hp (by simp) hi
    | submit q o p hc hp => exact hframe hp (by simp) hi
    | cancel q o p hw he hp => exact hframe hp (by simp) hi
    | cancelling q o p hw hp => exact hframe hp (by simp) hi
    | wakeUpTask k cr o r p hr hp => exact hframe hp (by simp) hi
    | poller k o p hp => exact hframe hp (by simp) hi
    | worker j o p hpc hp =>
      rcases eq_or_ne i j with rfl | hne
      · exact h.taskPc i hpc
      · exact hframe hp (fun o' e => hne (Act.worker.inj e).1.symm) hi
    | stay j o task q pc x hpc hq hst =>
      have hne : i ≠ j := fun e => hi task (by rw [e]; exact hpc)
      exact (Function.update_of_ne hne ..).trans (h.taskPc i hi)
    | leave j o task q x p hpc hq hl hp =>
      rcases eq_or_ne i j with rfl | hne
      · exact Function.update_self ..
      · exact (Function.update_of_ne hne ..).trans
          (hframe hp (fun o' e => hne (Act.worker.inj e).1.symm) hi)
    | _ => exact h.taskPc i hi
  · rcases hpool with hp | ⟨pa, hp⟩
    · rw [hp]; exact h.running
    · exact (PoolSys.step_flags hp).1.trans h.running
  · rcases hpool with hp | ⟨pa, hp⟩
    · rw [hp]; exact h.alive
    · exact (PoolSys.step_flags hp).2.trans h.alive

theorem linked {s : Sys ρ ψ} {as : List (Action ρ ψ)} (h : exec (Sys.step args) start as = some s) :
    Linked args s :=
  exec_inv' (I := Linked args) (fun _ _ _ hi hs => Linked.step hi hs) linked_start h

/-! ### The tasks of a request -/

/-- `nodes` are the tasks of request `q`, in the order of its chunks. -/
structure TasksOf (a : Request) (q : ρ) (nodes : List (ThreadPoolTask (Tid ρ ψ) (TaskArg ρ) Empty)) :
    Prop where
  owner : ∀ task ∈ nodes, task.owner = .caller q
  requestId : ∀ task ∈ nodes, task.requestId = a.key
  args : nodes.map (fun task => task.taskArg.userArg) = a.taskArgs q

omit [DecidableEq ρ] [DecidableEq ψ] in
theorem TasksOf.length {nodes : List (ThreadPoolTask (Tid ρ ψ) (TaskArg ρ) Empty)} {a : Request} {q : ρ}
    (h : TasksOf a q nodes) : nodes.length = (a.taskArgs q).length := by
  rw [← h.args, List.length_map]

omit [DecidableEq ρ] [DecidableEq ψ] in
theorem TasksOf.flatMap {nodes : List (ThreadPoolTask (Tid ρ ψ) (TaskArg ρ) Empty)} {a : Request} {q : ρ}
    (h : TasksOf a q nodes) {β : Type} (f : TaskArg ρ → List β) :
    nodes.flatMap (fun task => f task.taskArg.userArg) = (a.taskArgs q).flatMap f := by
  rw [← h.args, List.flatMap_map]

omit [DecidableEq ρ] in
theorem sync_of_mem {a : Request} {q : ρ} {arg : TaskArg ρ} (h : arg ∈ a.taskArgs q) : arg.sync = q := by
  unfold Request.taskArgs at h
  split at h <;> obtain ⟨i, -, rfl⟩ := List.mem_map.1 h <;> rfl

namespace Linked
variable {s : Sys ρ ψ} {q : ρ}

/-- The tasks of a request that was accepted by the pool: a prefix taken by one worker, and the rest. -/
theorem split (h : Linked args s) (hacc : (s.pool.threads (.caller q)).accepted = true) :
    ∃ w nodes pre suf, TasksOf (args q) q nodes ∧
      (s.pool.pool.lane (.caller q)).Split (fun task => task.requestId) w nodes pre suf := by
  obtain ⟨b, hb, hmade⟩ : Registered args q s.pool := by
    have hcaller := (h.request q).caller
    revert hcaller
    cases (s.transfers q).caller with
    | idle => intro hc; rw [show s.pool.threads (.caller q) = .idle from hc] at hacc; cases hacc
    | registering => exact id
    | posting i => exact And.left
    | failing => exact And.left
    | returned handle ok =>
      cases handle
      · rintro (hc | ⟨ret, hc, hret⟩) <;> rw [hc] at hacc
        · cases hacc
        · cases ret with
          | ids ids => exact absurd rfl (hret ids)
          | _ => cases hacc
      · exact And.left
  obtain ⟨-, w, nodes, pre, suf, -, -, hsplit⟩ := (h.tracked _).split hacc
  obtain ⟨hm, hlen⟩ := hmade.attached (w, nodes) (by simp [hsplit.attached])
  refine ⟨w, nodes, pre, suf, ⟨fun task ht => (hm.of_mem ht).1, fun task ht => ?_, ?_⟩, hsplit⟩
  · rw [(hm.of_mem ht).2, hb.requestId]
  · rw [← hb.args]
    exact hm.args_eq hlen

theorem accepted_of_waiting (h : Linked args s) (hw : (s.transfers q).waiter ≠ .idle) :
    (s.pool.threads (.caller q)).accepted = true ∧ (args q).taskArgs q ≠ [] := by
  obtain ⟨ok, hc⟩ := (h.request q).waited.resolve_left hw
  have hcaller := (h.request q).caller
  rw [hc] at hcaller
  obtain ⟨⟨b, hb, -⟩, ids, hids⟩ := hcaller
  exact ⟨by rw [hids]; rfl, hb.args ▸ b.args_ne⟩

theorem accepted_owner (h : Linked args s) {t : Tid ρ ψ} (hacc : (s.pool.threads t).accepted = true) :
    ∃ q, t = .caller q := by
  cases t with
  | caller q => exact ⟨q, rfl⟩
  | waiter q =>
    rw [Pc.accepted_of_cancels (h.request q).waiter.cancels] at hacc
    cases hacc
  | poller k =>
    rw [Pc.accepted_of_waking (h.poller k)] at hacc
    cases hacc

/-- Every task that is queued or running is one of a request. -/
theorem task (h : Linked args s) {i : Fin 64} {task : ThreadPoolTask (Tid ρ ψ) (TaskArg ρ) Empty}
    (ht : task ∈ (s.pool.pool.workers i).queue ∨ (s.pool.pool.workers i).pc = .func task) :
    ∃ q, task.owner = .caller q ∧ task.requestId = (args q).key ∧
      task.taskArg.userArg ∈ (args q).taskArgs q ∧ (s.pool.threads (.caller q)).accepted = true := by
  -- the lane of the owner has the task
  have hlane : task ∈ (s.pool.pool.lane task.owner).queued i ∨
      task ∈ (s.pool.pool.lane task.owner).running i := ht.imp
    (fun hq => List.mem_filter.2 ⟨hq, by simp⟩)
    (fun hpc => List.mem_filter.2 ⟨by simp [hpc], by simp⟩)
  have hacc : (s.pool.threads task.owner).accepted = true := by
    by_contra hacc
    have hun := (h.tracked task.owner).unused (by simpa using hacc)
    rw [hun.queued, hun.running] at hlane
    simp at hlane
  obtain ⟨q, hq⟩ := h.accepted_owner hacc
  rw [hq] at hlane hacc
  obtain ⟨w, nodes, pre, suf, hof, hsplit⟩ := h.split hacc
  have hmem : task ∈ nodes := by
    rw [hsplit.append, List.mem_append]
    rcases eq_or_ne i w with rfl | hi
    · rcases hlane with hl | hl
      · rcases hsplit.rest with hr | ⟨hr, -⟩ <;> rw [hr] at hl
        · exact .inr hl
        · cases hl
      · exact .inl (hsplit.executed ▸ List.mem_append_right _ hl)
    · obtain ⟨h₁, h₂⟩ := hsplit.elsewhere i hi
      rw [h₁, h₂] at hlane
      simp at hlane
  exact ⟨q, hq, hof.requestId task hmem, hof.args ▸ List.mem_map_of_mem hmem, hacc⟩

end Linked

end Sys
end OsTransport
