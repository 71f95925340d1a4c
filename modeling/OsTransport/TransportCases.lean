import OsTransport.ThreadPoolCases
import OsTransport.Transport

/-!
# What one step of the transport can do

`Sys.Step` lists the cases of `Sys.step`. A step is at most one step of the pool (`Sys.pool_step`), and it
touches at most one request (`Sys.transfers_ne`).
-/

namespace OsTransport
namespace Sys

variable {ρ ψ : Type} [DecidableEq ρ] [DecidableEq ψ]

/-- How a task function returns: where it stood, and what it leaves of its request. -/
inductive Leave (arg : TaskArg ρ) (x : Transfer) : TaskPc → Transfer → Prop
  | record : Leave arg x .record { x with ops := x.ops ++ [.record] }
  | wild (hf : x.freed = true) : Leave arg x .issue { x with ops := x.ops ++ [.wild arg.chunkInfo] }
  | stale (pc : TaskPc) (hpc : pc ≠ .issue ∧ pc ≠ .record) (hf : x.freed = true) :
      Leave arg x pc { x with ops := x.ops ++ [.stale arg.chunkInfo] }
  | mark (ok : Bool) (info : WriteInfo) (hi : arg.info = .write info) (hf : x.freed = false) :
      Leave arg x (.mark ok) { x with sync := x.sync.markTaskGroupCompleted ok }
  | notLast (hl : arg.isLastChunk = false) (hf : x.freed = false) : Leave arg x .readLast x

/-- A part of the task function after which it goes on: the next part, and what it leaves. -/
inductive Stay (a : Request) (arg : TaskArg ρ) (o : Oracle) (x : Transfer) : TaskPc → TaskPc → Transfer → Prop
  | issue (hf : x.freed = false) :
      Stay a arg o x .issue (.mark o.ok) { x with ops := x.ops ++ [issueOp a arg o.ok] }
  | mark (ok : Bool) (r : UInt32) (hi : arg.info = .recv r) (hf : x.freed = false) :
      Stay a arg o x (.mark ok) .readLast { x with sync := x.sync.markTaskGroupCompleted ok }
  | last (hl : arg.isLastChunk = true) (hf : x.freed = false) : Stay a arg o x .readLast .readStream x
  | stream (hf : x.freed = false) : Stay a arg o x .readStream .readEvent x
  | event (hf : x.freed = false) : Stay a arg o x .readEvent .record x

/-- The cases of `step`. -/
inductive Step (args : ρ → Request) (s : Sys ρ ψ) : Action ρ ψ → Sys ρ ψ → Prop
  | reject (q : ρ) (o : Oracle) (hc : (s.transfers q).caller = .idle) :
      Step args s (.call q o) (s.setTransfer q { s.transfers q with caller := .returned false false })
  | single (q : ρ) (o : Oracle) (hc : (s.transfers q).caller = .idle) (hlen : (args q).len ≠ 0)
      (ht : (args q).type = .send) (hle : (args q).len.toNat ≤ defaultChunkSize) :
      Step args s (.call q o) (s.setTransfer q { s.transfers q with
        caller := .returned false o.ok
        ops := (s.transfers q).ops ++ [.firstPost (args q).singleWr o.ok] })
  | register (q : ρ) (o : Oracle) (p : PoolSys (Tid ρ ψ) (TaskArg ρ) Empty)
      (hc : (s.transfers q).caller = .idle) (hlen : (args q).len ≠ 0)
      (hlt : (args q).type = .send → defaultChunkSize < (args q).len.toNat) (ho : o.ok = true)
      (hp : s.pool.step (.call (.caller q) (.submitBatch ((args q).batch q)) o) = some p) :
      Step args s (.call q o) ({ s with pool := p }.setTransfer q { s.transfers q with
        caller := .registering
        sync := { (s.transfers q).sync with totalTasks := ((args q).taskArgs q).length } })
  | submit (q : ρ) (o : Oracle) (p : PoolSys (Tid ρ ψ) (TaskArg ρ) Empty)
      (hc : (s.transfers q).caller = .registering)
      (hp : s.pool.step (.thread (.caller q) o) = some p) :
      Step args s (.caller q o) { s with pool := p }
  | registered (q : ρ) (o : Oracle) (ids : List UInt64) (hc : (s.transfers q).caller = .registering)
      (ht : s.pool.threads (.caller q) = .done (.ids ids)) :
      Step args s (.caller q o) (s.setTransfer q { s.transfers q with caller := .posting 0 })
  | refused (q : ρ) (o : Oracle) (ret : Ret) (hc : (s.transfers q).caller = .registering)
      (ht : s.pool.threads (.caller q) = .done ret) (hret : ∀ ids, ret ≠ .ids ids) :
      Step args s (.caller q o) (s.setTransfer q { s.transfers q with caller := .returned false false })
  | firstPost (q : ρ) (o : Oracle) (i : Nat) (hc : (s.transfers q).caller = .posting i)
      (ht : (args q).type = .send) :
      Step args s (.caller q o) (s.setTransfer q { s.transfers q with
        caller := if o.ok then .returned true true else .failing
        ops := (s.transfers q).ops ++ [.firstPost (args q).firstWr o.ok] })
  | recvPost (q : ρ) (o : Oracle) (i : Nat) (pc : CallerPc) (hc : (s.transfers q).caller = .posting i)
      (ht : (args q).type = .recv)
      (hpc : pc = .failing ∧ o.ok = false ∨
        pc = .posting (i + 1) ∧ o.ok = true ∧ i + 1 < chunksNum (args q).len ∨
        pc = .returned true true ∧ o.ok = true ∧ chunksNum (args q).len ≤ i + 1) :
      Step args s (.caller q o) (s.setTransfer q { s.transfers q with
        caller := pc
        recvPosts := (s.transfers q).recvPosts ++
          [(urmaRecvWithNotify (args q).key ((args q).chunk i), o.ok)] })
  | fail (q : ρ) (o : Oracle) (hc : (s.transfers q).caller = .failing) :
      Step args s (.caller q o) (s.setTransfer q { s.transfers q with
        caller := .returned true false
        sync := { (s.transfers q).sync with requestCompleted := true } })
  | wait (q : ρ) (ok : Bool) (hc : (s.transfers q).caller = .returned true ok)
      (hw : (s.transfers q).waiter = .idle) :
      Step args s (.wait q) (s.setTransfer q { s.transfers q with waiter := .waiting })
  | wake (q : ρ) (o : Oracle) (hw : (s.transfers q).waiter = .waiting)
      (hr : (s.transfers q).sync.requestCompleted = true) :
      Step args s (.waiter q o) (s.setTransfer q { s.transfers q with waiter := .checking })
  | success (q : ρ) (o : Oracle) (hw : (s.transfers q).waiter = .checking)
      (he : (s.transfers q).sync.completedTasks = (s.transfers q).sync.totalTasks) :
      Step args s (.waiter q o) (s.setTransfer q { s.transfers q with waiter := .freeing true })
  | cancel (q : ρ) (o : Oracle) (p : PoolSys (Tid ρ ψ) (TaskArg ρ) Empty)
      (hw : (s.transfers q).waiter = .checking)
      (he : (s.transfers q).sync.completedTasks ≠ (s.transfers q).sync.totalTasks)
      (hp : s.pool.step (.call (.waiter q) (.cancel (args q).key) o) = some p) :
      Step args s (.waiter q o)
        ({ s with pool := p }.setTransfer q { s.transfers q with waiter := .cancelling })
  | cancelling (q : ρ) (o : Oracle) (p : PoolSys (Tid ρ ψ) (TaskArg ρ) Empty)
      (hw : (s.transfers q).waiter = .cancelling)
      (hp : s.pool.step (.thread (.waiter q) o) = some p) :
      Step args s (.waiter q o) { s with pool := p }
  | cancelled (q : ρ) (o : Oracle) (ret : Ret) (hw : (s.transfers q).waiter = .cancelling)
      (ht : s.pool.threads (.waiter q) = .done ret) :
      Step args s (.waiter q o) (s.setTransfer q { s.transfers q with waiter := .freeing false })
  | free (q : ρ) (o : Oracle) (ok : Bool) (hw : (s.transfers q).waiter = .freeing ok) :
      Step args s (.waiter q o)
        (s.setTransfer q { s.transfers q with waiter := .returned ok, freed := true })
  | wakeUpTask (k : ψ) (cr : UrmaCr) (o : Oracle) (r : UInt32)
      (p : PoolSys (Tid ρ ψ) (TaskArg ρ) Empty) (hr : cr.requestId? = some r)
      (hp : s.pool.step (.call (.poller k) (.wakeUp r) o) = some p) :
      Step args s (.wakeUpTask k cr o) { s with pool := p }
  | unknown (k : ψ) (cr : UrmaCr) (o : Oracle) (hr : cr.requestId? = none) :
      Step args s (.wakeUpTask k cr o) s
  | poller (k : ψ) (o : Oracle) (p : PoolSys (Tid ρ ψ) (TaskArg ρ) Empty)
      (hp : s.pool.step (.thread (.poller k) o) = some p) :
      Step args s (.poller k o) { s with pool := p }
  | worker (i : Fin 64) (o : Oracle) (p : PoolSys (Tid ρ ψ) (TaskArg ρ) Empty)
      (hpc : ∀ task, (s.pool.pool.workers i).pc ≠ .func task)
      (hp : s.pool.step (.worker i o) = some p) :
      Step args s (.worker i o) { s with pool := p }
  | stay (i : Fin 64) (o : Oracle) (task : ThreadPoolTask (Tid ρ ψ) (TaskArg ρ) Empty) (q : ρ)
      (pc : TaskPc) (x : Transfer) (hpc : (s.pool.pool.workers i).pc = .func task)
      (hq : task.taskArg.userArg.sync = q)
      (hs : Stay (args q) task.taskArg.userArg o (s.transfers q) (s.taskPc i) pc x) :
      Step args s (.worker i o) ((s.setTransfer q x).setTaskPc i pc)
  | leave (i : Fin 64) (o : Oracle) (task : ThreadPoolTask (Tid ρ ψ) (TaskArg ρ) Empty) (q : ρ)
      (x : Transfer) (p : PoolSys (Tid ρ ψ) (TaskArg ρ) Empty)
      (hpc : (s.pool.pool.workers i).pc = .func task) (hq : task.taskArg.userArg.sync = q)
      (hl : Leave task.taskArg.userArg (s.transfers q) (s.taskPc i) x)
      (hp : s.pool.step (.worker i o) = some p) :
      Step args s (.worker i o) (({ s with pool := p }.setTransfer q x).setTaskPc i .issue)

variable {args : ρ → Request} {s s' : Sys ρ ψ}

theorem poolStep_eq {a : Act (Tid ρ ψ) (TaskArg ρ) Empty} (h : s.poolStep a = some s') :
    ∃ p, s.pool.step a = some p ∧ s' = { s with pool := p } := by
  obtain ⟨p, hp, rfl⟩ := Option.map_eq_some_iff.1 h
  exact ⟨p, hp, rfl⟩

theorem callStep_cases {q : ρ} {o : Oracle} (h : callStep (args q) s q o = some s') :
    Step args s (.call q o) s' := by
  unfold callStep at h
  simp only at h
  split at h
  case h_2 => cases h
  rename_i hc
  split at h
  · cases h; exact .reject q o hc
  rename_i hlen
  split at h
  · rename_i hs
    cases h
    exact .single q o hc hlen hs.1 hs.2
  rename_i hs
  split at h
  · cases h; exact .reject q o hc
  rename_i ho
  obtain ⟨p, hp, rfl⟩ := poolStep_eq h
  exact .register q o p hc hlen (fun ht => by simpa [ht] using hs) (by simpa using ho) hp

theorem callerStep_cases {q : ρ} {o : Oracle} (h : callerStep (args q) s q o = some s') :
    Step args s (.caller q o) s' := by
  unfold callerStep at h
  simp only at h
  split at h
  case h_1 hc =>
    split at h
    · rename_i ids ht; cases h; exact .registered q o ids hc ht
    · rename_i ret hret ht
      cases h; exact .refused q o ret hc ht fun ids hr => hret ids hr
    · obtain ⟨p, hp, rfl⟩ := poolStep_eq h
      exact .submit q o p hc hp
  case h_2 i hc =>
    split at h
    · rename_i ht; cases h; exact .firstPost q o i hc ht
    · rename_i ht
      cases h
      refine .recvPost q o i _ hc ht ?_
      split
      · rename_i ho
        exact .inl ⟨rfl, by simpa using ho⟩
      rename_i ho
      split
      · rename_i hi
        exact .inr (.inl ⟨rfl, by simpa using ho, hi⟩)
      · rename_i hi
        exact .inr (.inr ⟨rfl, by simpa using ho, Nat.not_lt.1 hi⟩)
  case h_3 hc => cases h; exact .fail q o hc
  case h_4 => cases h

theorem waiterStep_cases {q : ρ} {o : Oracle} (h : waiterStep (args q) s q o = some s') :
    Step args s (.waiter q o) s' := by
  unfold waiterStep at h
  simp only at h
  split at h
  case h_1 hw =>
    split at h
    · rename_i hr; cases h; exact .wake q o hw hr
    · cases h
  case h_2 hw =>
    split at h
    · rename_i he; cases h; exact .success q o hw he
    · rename_i he
      obtain ⟨p, hp, rfl⟩ := poolStep_eq h
      exact .cancel q o p hw he hp
  case h_3 hw =>
    split at h
    · rename_i ret ht; cases h; exact .cancelled q o ret hw ht
    · obtain ⟨p, hp, rfl⟩ := poolStep_eq h
      exact .cancelling q o p hw hp
  case h_4 ok hw => cases h; exact .free q o ok hw
  case h_5 => cases h

theorem taskStep_cases {i : Fin 64} {o : Oracle} {task : ThreadPoolTask (Tid ρ ψ) (TaskArg ρ) Empty}
    (hpc : (s.pool.pool.workers i).pc = .func task)
    (h : taskStep (args task.taskArg.userArg.sync) s i task.taskArg.userArg o = some s') :
    Step args s (.worker i o) s' := by
  have hstay : ∀ {pc x}, Stay (args task.taskArg.userArg.sync) task.taskArg.userArg o
      (s.transfers task.taskArg.userArg.sync) (s.taskPc i) pc x →
      Step args s (.worker i o) ((s.setTransfer task.taskArg.userArg.sync x).setTaskPc i pc) :=
    fun hs => .stay i o task _ _ _ hpc rfl hs
  have hleave : ∀ {x}, Leave task.taskArg.userArg (s.transfers task.taskArg.userArg.sync) (s.taskPc i) x →
      ((s.setTransfer task.taskArg.userArg.sync x).setTaskPc i .issue).poolStep (.worker i o) = some s' →
      Step args s (.worker i o) s' := fun hl hp => by
    obtain ⟨p, hp', rfl⟩ := poolStep_eq hp
    exact .leave i o task _ _ p hpc rfl hl hp'
  unfold taskStep at h
  simp only at h
  split at h
  case h_1 htp => exact hleave (htp ▸ .record) h
  case h_2 htp hf => exact hleave (htp ▸ .wild hf) h
  case h_3 hf hrecord hissue => exact hleave (.stale _ ⟨hissue, hrecord⟩ hf) h
  case h_4 htp hf => cases h; exact hstay (htp ▸ .issue hf)
  case h_5 ok htp hf =>
    split at h
    · rename_i info hi; exact hleave (htp ▸ .mark ok info hi hf) h
    · rename_i r hi; cases h; exact hstay (htp ▸ .mark ok r hi hf)
  case h_6 htp hf =>
    split at h
    · rename_i hl; cases h; exact hstay (htp ▸ .last hl hf)
    · rename_i hl; exact hleave (htp ▸ .notLast (by simpa using hl) hf) h
  case h_7 htp hf => cases h; exact hstay (htp ▸ .stream hf)
  case h_8 htp hf => cases h; exact hstay (htp ▸ .event hf)

theorem step_cases {a : Action ρ ψ} (h : step args s a = some s') : Step args s a s' := by
  cases a with
  | call q o => exact callStep_cases h
  | caller q o => exact callerStep_cases h
  | wait q =>
    simp only [step] at h
    split at h
    · rename_i ok hc hw; cases h; exact .wait q ok hc hw
    · cases h
  | waiter q o => exact waiterStep_cases h
  | wakeUpTask k cr o =>
    simp only [step] at h
    split at h
    · rename_i r hr
      obtain ⟨p, hp, rfl⟩ := poolStep_eq h
      exact .wakeUpTask k cr o r p hr hp
    · rename_i hr; cases h; exact .unknown k cr o hr
  | poller k o =>
    obtain ⟨p, hp, rfl⟩ := poolStep_eq h
    exact .poller k o p hp
  | worker i o =>
    simp only [step] at h
    split at h
    · rename_i task hpc; exact taskStep_cases hpc h
    · rename_i hpc
      obtain ⟨p, hp, rfl⟩ := poolStep_eq h
      exact .worker i o p (fun task ht => hpc task ht) hp

end Sys
end OsTransport
