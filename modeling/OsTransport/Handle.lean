import OsTransport.Shutdown

/-!
# The life of a handle

`os_transport_init`, `os_transport_reg_jfc` and `os_transport_destroy`, called one after another, with `g_inited`
and the handles and pools they allocate and free. A call that accesses freed memory is `none` here, and so is one
that joins a thread that was never created. There is never more than one handle, and never a pool without it
(`Sound`); a call goes wrong exactly where it is given a handle that was destroyed while another one lives, or where
`thread_pool_init` crashes (`one_handle`).
-/

namespace OsTransport

/-- `ThreadPoolUrmaInfo`; `J` are the pointers of URMA. -/
structure ThreadPoolUrmaInfo (J : Type) where
  jfce : J
  jfc : J
  urmaEventMode : Bool
deriving DecidableEq

/-- What the handle's functions know of a pool; `urmaInfo` is `none` while its pointers are NULL. -/
structure PoolObject (J : Type) where
  isRunning : Bool
  urmaInfo : Option (ThreadPoolUrmaInfo J)
deriving DecidableEq

/-- `os_transport_handle_t`; `A` are the addresses of handles and pools. -/
structure Handle (A : Type) where
  workerThreadNum : UInt32
  urmaEventMode : Bool
  threadPool : Option A
deriving DecidableEq

/-- `os_transport_cfg_t`. -/
structure Cfg (J : Type) where
  urmaEventMode : Bool
  workerThreadNum : UInt32
  jfce : J
  jfc : J
deriving DecidableEq

/-- `g_inited`, and the handles and pools that were allocated and not freed. -/
structure Process (A J : Type) where
  gInited : Bool
  handles : A → Option (Handle A)
  pools : A → Option (PoolObject J)

/-- What `thread_pool_init` comes to. -/
inductive PoolInit (A : Type)
  /-- `calloc` fails -/
  | noMemory
  /-- every worker was created, and the pool is at `p` -/
  | made (p : A)
  /-- a `pthread_create` fails; `keepsTid` says whether it leaves `tid` 0 -/
  | failed (keepsTid : Bool)
deriving DecidableEq

inductive ApiCall (A J : Type)
  /-- `out` says whether `handle` is given, `block` is what `malloc` returns -/
  | init (cfg : Option (Cfg J)) (out : Bool) (block : Option A) (pool : PoolInit A)
  | regJfc (jfce jfc : J) (handle : Option A)
  | destroy (handle : Option A)
deriving DecidableEq

/-- The handle a call is given. -/
def ApiCall.handle? {A J : Type} : ApiCall A J → Option A
  | .init .. => none
  | .regJfc _ _ handle | .destroy handle => handle

/-- What a call leaves, whether it returns 0, and what it writes to `*handle`. -/
structure Answer (A J : Type) where
  process : Process A J
  ok : Bool
  handle : Option (Option A) := none

/-! ### The pool of a handle -/

namespace PoolInit
open Lts
variable {A τ α κ : Type} [DecidableEq τ] {s s' : Life τ α κ}

/-- What the life of a pool has come to when `thread_pool_init` is over. -/
def Ends (s : Life τ α κ) : PoolInit A → Prop
  | .noMemory => False
  | .made _ => s.owner = .made
  | .failed true => s.owner = .destroyed
  | .failed false => ∃ i, s.owner = .join i ∧ s.nap i = .lost

/-- A pool that was freed has no thread that could still run. -/
theorem failed_joined {as : List (LifeAct τ α κ)} (h : exec Life.step .calloced as = some s)
    (hr : (failed true : PoolInit A).Ends s) (w : Fin 64) :
    s.nap w = .unborn ∨ (s.sys.pool.workers w).pc = .exited :=
  (Life.alert h).joined w (by rw [show s.owner = .destroyed from hr]; trivial)

/-- `thread_pool_init` does not return from a join that has no thread to wait for. -/
theorem failed_stays {as bs : List (LifeAct τ α κ)} (h : exec Life.step .calloced as = some s)
    (hr : (failed false : PoolInit A).Ends s) (hs : exec Life.step s bs = some s') :
    (failed false : PoolInit A).Ends s' := by
  obtain ⟨i, ho, hn⟩ := hr
  obtain ⟨ho', hn'⟩ := Life.joinsLost_exec h ⟨ho, hn⟩ hs
  exact ⟨i, ho', hn'⟩

/-- Each outcome is that of a run. -/
theorem ends (r : PoolInit A) (hr : r ≠ .noMemory) :
    ∃ (as : List (LifeAct Unit Unit Unit)) (s : Life Unit Unit Unit), exec Life.step .calloced as = some s ∧ r.Ends s := by
  cases r with
  | noMemory => exact absurd rfl hr
  | made p => exact ⟨_, _, Life.createWorkers_exec (Nat.le_refl 64), rfl⟩
  | failed keepsTid =>
    -- the first `pthread_create` fails, and the owner shuts down what there is
    cases keepsTid with
    | false =>
      exact ⟨.owner { ok := false } false :: List.replicate 65 (.owner {} true), _, exec_last (by decide +kernel), 0,
        by decide +kernel, by decide +kernel⟩
    | true =>
      have hend : (last Life.step (.calloced : Life Unit Unit Unit)
          (.owner { ok := false } true :: List.replicate 129 (.owner {} true)) (by decide +kernel)).owner = .destroyed := by
        decide +kernel
      exact ⟨_, _, exec_last _, hend⟩

end PoolInit

/-! ### The calls -/

namespace Process
variable {A J : Type} [DecidableEq A] (s : Process A J)

def setHandle (a : A) (h : Option (Handle A)) : Process A J :=
  { s with handles := Function.update s.handles a h }

def setPool (p : A) (pool : Option (PoolObject J)) : Process A J :=
  { s with pools := Function.update s.pools p pool }

/-- `update_jfc_for_poll`. -/
def updateJfcForPoll (jfce jfc : J) (urmaEventMode : Bool) (p : A) : Option (Process A J) :=
  (s.pools p).map fun pool => s.setPool p (some { pool with urmaInfo := some ⟨jfce, jfc, urmaEventMode⟩ })

/-- `os_transport_reg_jfc`. -/
def regJfc (jfce jfc : J) (handle : Option A) : Option (Answer A J) :=
  if !s.gInited then some ⟨s, false, none⟩
  else match handle with
    | none => some ⟨s, false, none⟩
    | some a => do
      let h ← s.handles a
      let p ← h.threadPool
      let s ← s.updateJfcForPoll jfce jfc h.urmaEventMode p
      return ⟨s, true, none⟩

/-- `thread_pool_start`, with whether it returns 0. -/
def threadPoolStart (p : A) : Option (Process A J × Bool) :=
  (s.pools p).map fun pool =>
    if pool.isRunning then (s, false) else (s.setPool p (some { pool with isRunning := true }), true)

/-- `init_fail` in `os_transport_init`. -/
def initFail (a : A) : Process A J := { s.setHandle a none with gInited := false }

/-- `os_transport_init`. -/
def init (cfg : Option (Cfg J)) (out : Bool) (block : Option A) (pool : PoolInit A) : Option (Answer A J) :=
  match cfg, out with
  | some cfg, true =>
    if s.gInited then some ⟨s, false, some none⟩
    else match block with
      | none => some ⟨s, false, some none⟩
      | some a =>
        let h : Handle A := ⟨cfg.workerThreadNum, cfg.urmaEventMode, none⟩
        let s := { s.setHandle a (some h) with gInited := true }
        match pool with
        | .noMemory | .failed true => some ⟨s.initFail a, false, some none⟩
        -- the join in `thread_pool_destroy` crashes
        | .failed false => none
        | .made p => do
          let s := (s.setPool p (some ⟨false, none⟩)).setHandle a (some { h with threadPool := some p })
          let r ← s.regJfc cfg.jfce cfg.jfc (some a)
          if !r.ok then return ⟨r.process.initFail a, false, some none⟩
          let (s, ok) ← r.process.threadPoolStart p
          -- `thread_pool_destroy` before `init_fail`
          if !ok then return ⟨(s.setPool p none).initFail a, false, some none⟩
          return ⟨s, true, some (some a)⟩
  | _, _ => some ⟨s, false, none⟩

/-- `os_transport_destroy`. -/
def destroy (handle : Option A) : Option (Answer A J) :=
  match handle with
  | none => some ⟨s, false, none⟩
  | some a =>
    if !s.gInited then some ⟨s, false, none⟩
    else do
      let h ← s.handles a
      let s ← match h.threadPool with
        | some p => (s.pools p).map fun _ => s.setPool p none
        | none => some s
      return ⟨{ s.setHandle a none with gInited := false }, true, none⟩

def call : ApiCall A J → Option (Answer A J)
  | .init cfg out block pool => s.init cfg out block pool
  | .regJfc jfce jfc handle => s.regJfc jfce jfc handle
  | .destroy handle => s.destroy handle

def step (c : ApiCall A J) : Option (Process A J) := (s.call c).map Answer.process

/-- The program starts. -/
def start : Process A J := ⟨false, fun _ => none, fun _ => none⟩

/-- Nothing is allocated, or one handle and its pool, which runs and polls in the mode of the handle. -/
inductive Sound : Process A J → Prop
  | idle : Sound start
  | live (a p : A) (h : Handle A) (info : ThreadPoolUrmaInfo J) (hp : h.threadPool = some p)
      (hmode : info.urmaEventMode = h.urmaEventMode) :
      Sound ⟨true, Function.update (fun _ => none) a (some h), Function.update (fun _ => none) p (some ⟨true, some info⟩)⟩

/-- The call is given a handle that does not live while another one does. -/
def Stale (c : ApiCall A J) : Prop := s.gInited = true ∧ ∃ a, c.handle? = some a ∧ s.handles a = none

/-- The call comes to a `thread_pool_init` that joins a thread that was never created. -/
def Crashes (c : ApiCall A J) : Prop := s.gInited = false ∧ ∃ cfg a, c = .init (some cfg) true (some a) (.failed false)

/-- What a call leaves of `s`: `*handle` is written by an `os_transport_init` with valid arguments only, and is the
handle there is or NULL. -/
structure Leaves (c : ApiCall A J) (r : Answer A J) : Prop where
  sound : r.process.Sound
  failed : r.ok = false → r.process = s ∧ ∀ a, r.handle ≠ some (some a)
  written : r.handle.isSome = true ↔ ∃ cfg block pool, c = .init (some cfg) true block pool
  given : ∀ a, r.handle = some (some a) → ∃ h, r.process.handles a = some h

variable {s}

theorem Leaves.quiet {c : ApiCall A J} {s' : Process A J} {ok : Bool} (hs : s'.Sound) (hok : ok = false → s' = s)
    (hc : ∀ cfg block pool, c ≠ .init (some cfg) true block pool) : s.Leaves c ⟨s', ok, none⟩ where
  sound := hs
  failed h := ⟨hok h, fun _ hn => by cases hn⟩
  written := iff_of_false Bool.false_ne_true fun ⟨cfg, block, pool, h⟩ => hc cfg block pool h
  given _ h := by cases h

theorem Leaves.refused (hs : s.Sound) (cfg : Cfg J) (block : Option A) (pool : PoolInit A) :
    s.Leaves (.init (some cfg) true block pool) ⟨s, false, some none⟩ where
  sound := hs
  failed _ := ⟨rfl, fun _ h => by cases h⟩
  written := iff_of_true rfl ⟨cfg, block, pool, rfl⟩
  given _ h := by cases h

theorem init_started (cfg : Option (Cfg J)) (out : Bool) (block : Option A) (pool : PoolInit A) :
    (start : Process A J).Crashes (.init cfg out block pool) ∧ start.init cfg out block pool = none ∨
      ¬ (start : Process A J).Crashes (.init cfg out block pool) ∧
      ∃ r, start.init cfg out block pool = some r ∧ (start : Process A J).Leaves (.init cfg out block pool) r := by
  have hsafe : ∀ c : ApiCall A J, (∀ cfg a, c ≠ .init (some cfg) true (some a) (.failed false)) →
      ¬ (start : Process A J).Crashes c := fun c hc ⟨_, cfg, a, h⟩ => hc cfg a h
  cases cfg with
  | none => exact .inr ⟨hsafe _ (by simp), _, rfl, .quiet .idle (fun _ => rfl) (by simp)⟩
  | some cfg =>
    cases out with
    | false => exact .inr ⟨hsafe _ (by simp), _, rfl, .quiet .idle (fun _ => rfl) (by simp)⟩
    | true =>
      cases block with
      | none => exact .inr ⟨hsafe _ (by simp), _, rfl, .refused .idle cfg none pool⟩
      | some a =>
        have hfailed : ({ (start : Process A J).setHandle a (some ⟨cfg.workerThreadNum, cfg.urmaEventMode, none⟩) with
            gInited := true } : Process A J).initFail a = start := by
          simp [initFail, setHandle, start]
        cases pool with
        | noMemory =>
          refine .inr ⟨hsafe _ (by simp), _, ?_, .refused .idle cfg (some a) .noMemory⟩
          simp only [init, hfailed]
          rfl
        | failed keepsTid =>
          cases keepsTid with
          | false => exact .inl ⟨⟨rfl, cfg, a, rfl⟩, rfl⟩
          | true =>
            refine .inr ⟨hsafe _ (by simp), _, ?_, .refused .idle cfg (some a) (.failed true)⟩
            simp only [init, hfailed]
            rfl
        | made p =>
          have hlive := Sound.live a p ⟨cfg.workerThreadNum, cfg.urmaEventMode, some p⟩
            ⟨cfg.jfce, cfg.jfc, cfg.urmaEventMode⟩ rfl rfl
          refine .inr ⟨hsafe _ (by simp), ⟨_, true, some (some a)⟩, ?_, hlive, fun h => (by cases h),
            iff_of_true rfl ⟨cfg, some a, .made p, rfl⟩, fun b hb => ?_⟩
          · simp [init, regJfc, updateJfcForPoll, threadPoolStart, setHandle, setPool, start]
          · cases hb
            exact ⟨⟨cfg.workerThreadNum, cfg.urmaEventMode, some p⟩, by simp⟩

theorem Sound.call (h : s.Sound) (c : ApiCall A J) : (s.Stale c ∨ s.Crashes c) ∧ s.call c = none ∨
    ¬ (s.Stale c ∨ s.Crashes c) ∧ ∃ r, s.call c = some r ∧ s.Leaves c r := by
  cases h with
  | idle =>
    have hfresh : ∀ c, ¬ (start : Process A J).Stale c := fun c hs => Bool.false_ne_true hs.1
    cases c with
    | init cfg out block pool =>
      rcases init_started cfg out block pool with ⟨hc, hnone⟩ | ⟨hc, r, hr, hl⟩
      · exact .inl ⟨.inr hc, hnone⟩
      · exact .inr ⟨not_or.2 ⟨hfresh _, hc⟩, r, hr, hl⟩
    | regJfc jfce jfc handle =>
      have hsafe : ¬ (start : Process A J).Crashes (.regJfc jfce jfc handle) := fun ⟨_, _, _, h⟩ => by cases h
      exact .inr ⟨not_or.2 ⟨hfresh _, hsafe⟩, _, rfl, .quiet .idle (fun _ => rfl) (by simp)⟩
    | destroy handle =>
      have hsafe : ¬ (start : Process A J).Crashes (.destroy handle) := fun ⟨_, _, _, h⟩ => by cases h
      cases handle <;> exact .inr ⟨not_or.2 ⟨hfresh _, hsafe⟩, _, rfl, .quiet .idle (fun _ => rfl) (by simp)⟩
  | live a p h info hp hmode =>
    have hlive := Sound.live a p h info hp hmode
    generalize hs : (⟨true, Function.update (fun _ => none) a (some h),
      Function.update (fun _ => none) p (some ⟨true, some info⟩)⟩ : Process A J) = s at hlive ⊢
    have hinited : s.gInited = true := hs ▸ rfl
    have hsafe : ∀ c, ¬ s.Crashes c := fun c hc => by
      cases hinited.symm.trans hc.1
    have hat : s.handles a = some h := by simp [← hs]
    -- a call that names no stale handle
    have hfine : ∀ c, (∀ b, c.handle? = some b → b = a) → ¬ (s.Stale c ∨ s.Crashes c) := by
      refine fun c hb => not_or.2 ⟨?_, hsafe c⟩
      rintro ⟨-, b, hc, hnone⟩
      rw [hb b hc, hat] at hnone
      cases hnone
    have hstale : ∀ {c : ApiCall A J} {b}, c.handle? = some b → b ≠ a → s.Stale c ∧ s.handles b = none := by
      intro c b hc hne
      have hnone : s.handles b = none := by simp [← hs, hne]
      exact ⟨⟨hinited, b, hc, hnone⟩, hnone⟩
    cases c with
    | init cfg out block pool =>
      refine .inr ⟨hfine _ (by simp [ApiCall.handle?]), ?_⟩
      rcases cfg with - | cfg
      · exact ⟨_, rfl, .quiet hlive (fun _ => rfl) (by simp)⟩
      cases out with
      | false => exact ⟨_, rfl, .quiet hlive (fun _ => rfl) (by simp)⟩
      | true =>
        refine ⟨_, ?_, .refused hlive cfg block pool⟩
        simp only [Process.call, Process.init]
        rw [if_pos hinited]
    | regJfc jfce jfc handle =>
      cases handle with
      | none =>
        refine .inr ⟨hfine _ (by simp [ApiCall.handle?]), ⟨s, false, none⟩, ?_, .quiet hlive (fun _ => rfl) (by simp)⟩
        simp [Process.call, Process.regJfc, hinited]
      | some b =>
        rcases eq_or_ne b a with rfl | hne
        · refine .inr ⟨hfine _ (by simp [ApiCall.handle?]), ⟨_, true, none⟩, ?_,
            .quiet (.live b p h ⟨jfce, jfc, h.urmaEventMode⟩ hp rfl) (fun h => by cases h) (by simp)⟩
          simp [← hs, Process.call, Process.regJfc, updateJfcForPoll, setPool, hp]
        · obtain ⟨hst, hnone⟩ := hstale (c := .regJfc jfce jfc (some b)) rfl hne
          refine .inl ⟨.inl hst, ?_⟩
          simp [Process.call, Process.regJfc, hinited, hnone]
    | destroy handle =>
      cases handle with
      | none => exact .inr ⟨hfine _ (by simp [ApiCall.handle?]), _, rfl, .quiet hlive (fun _ => rfl) (by simp)⟩
      | some b =>
        rcases eq_or_ne b a with rfl | hne
        · refine .inr ⟨hfine _ (by simp [ApiCall.handle?]), ⟨start, true, none⟩, ?_,
            .quiet .idle (fun h => by cases h) (by simp)⟩
          simp [← hs, Process.call, Process.destroy, setHandle, setPool, start, hp]
        · obtain ⟨hst, hnone⟩ := hstale (c := .destroy (some b)) rfl hne
          refine .inl ⟨.inl hst, ?_⟩
          simp [Process.call, Process.destroy, hinited, hnone]

open Lts

/-- Over every sequence of calls: one handle at most is allocated, its pool is the only one and runs, and neither is
there unless `g_inited` is set. The next call goes wrong exactly if it is given a stale handle while another one
lives, or if its `thread_pool_init` crashes. A call that returns -1 leaves everything but `*handle` as it was. -/
theorem one_handle {as : List (ApiCall A J)} (h : exec step start as = some s) :
    s.Sound ∧ (∀ c, s.step c = none ↔ s.Stale c ∨ s.Crashes c) ∧ ∀ c r, s.call c = some r → s.Leaves c r := by
  have hsound := exec_inv' (I := fun s : Process A J => s.Sound) (fun s c s' hi hs => by
    obtain ⟨r, hc, rfl⟩ := Option.map_eq_some_iff.1 hs
    rcases hi.call c with ⟨-, hnone⟩ | ⟨-, r', hc', hl⟩
    · cases hnone.symm.trans hc
    · cases hc'.symm.trans hc
      exact hl.sound) .idle h
  refine ⟨hsound, fun c => ?_, fun c r hc => ?_⟩
  · rcases hsound.call c with ⟨hwrong, hnone⟩ | ⟨hfine, r, hc, -⟩
    · simp [step, hnone, hwrong]
    · simp [step, hc, hfine]
  · rcases hsound.call c with ⟨-, hnone⟩ | ⟨-, r', hc', hl⟩
    · cases hnone.symm.trans hc
    · cases hc'.symm.trans hc
      exact hl

/-- A handle is made, destroyed twice and made again elsewhere. -/
def madeAgain : List (ApiCall (Fin 4) Unit) :=
  [.init (some ⟨true, 1, (), ()⟩) true (some 0) (.made 1), .destroy (some 0), .destroy (some 0),
    .init (some ⟨true, 1, (), ()⟩) true (some 2) (.made 3)]

def madeAgainEnd : Process (Fin 4) Unit := last step start madeAgain (by decide +kernel)

theorem madeAgain_one_handle : madeAgainEnd.Sound ∧
    (∀ c, madeAgainEnd.step c = none ↔ madeAgainEnd.Stale c ∨ madeAgainEnd.Crashes c) ∧
    ∀ c r, madeAgainEnd.call c = some r → madeAgainEnd.Leaves c r :=
  one_handle (exec_last _)

end Process
end OsTransport
