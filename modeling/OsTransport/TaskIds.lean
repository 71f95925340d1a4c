import OsTransport.Traffic

/-!
# Task ids

`generate_task_id` counts up under `task_id_mutex`. `Ids n s` says after `n` steps that every task a call has made,
attached already or still in its hands, has an id below `next_task_id` which no other task has. So until
`next_task_id` wraps around the ids that the submissions have handed back are not 0, and no two are equal
(`task_ids_distinct`), unless `thread_pool_submit_task` has read one in a task that was freed.
-/

namespace OsTransport

namespace Pool
variable {τ α κ : Type} [DecidableEq τ] {p p' : Pool τ α κ} {t : τ} {o : Oracle} {pc pc' : Pc τ α κ}

omit [DecidableEq τ] in
theorem nodes_afterSelect {b : Submit α κ} {nodes : List (ThreadPoolTask τ α κ)} {i : Fin 64}
    {task : ThreadPoolTask τ α κ} (h : task ∈ (afterSelect b nodes i).nodes) : task ∈ nodes := by
  unfold afterSelect at h
  split at h
  · cases h
  · exact h

omit [DecidableEq τ] in
theorem nodes_afterCreate {b : Submit α κ} {w : Option (Fin 64)} {nodes : List (ThreadPoolTask τ α κ)}
    {task : ThreadPoolTask τ α κ} (h : task ∈ (afterCreate b w nodes).nodes) : task ∈ nodes := by
  unfold afterCreate at h
  split at h
  · exact h
  · cases w <;> exact h

theorem nextTaskId_threadStep (h : p.threadStep t o pc = some (p', pc')) :
    p'.nextTaskId = p.nextTaskId ∨ p'.nextTaskId = p.nextTaskId + 1 := by
  cases pc with
  | create b w nodes =>
    simp only [threadStep] at h
    split at h
    · cases h
    split at h
    · obtain ⟨rfl, -⟩ := Prod.mk.inj (Option.some.inj h)
      exact .inl rfl
    split at h
    · obtain ⟨rfl, -⟩ := Prod.mk.inj (Option.some.inj h)
      exact .inr rfl
    · obtain ⟨rfl, -⟩ := Prod.mk.inj (Option.some.inj h)
      exact .inr rfl
  | cancelUpdate r ctx n =>
    cases threadStep_cases h with
    | cancelUpdate => exact .inl (by split <;> rfl)
    | cancelUpdateDangling => exact .inl (by split <;> rfl)
  | _ => cases threadStep_cases h <;> exact .inl rfl

/-- The tasks in the hands of a call are those from before, and one at most that was just made. -/
theorem nodes_threadStep (h : ThreadStep p t o pc p' pc') : (∀ task ∈ pc'.nodes, task ∈ pc.nodes) ∨
    ∃ new, new.taskId = p.nextTaskId ∧ p'.nextTaskId = p.nextTaskId + 1 ∧
      ∀ task ∈ pc'.nodes, task ∈ pc.nodes ∨ task = new := by
  cases h with
  | select b nodes i best minLoad hm =>
    refine .inl fun task htask => ?_
    rcases selectStep_cases p b nodes i best minLoad with ⟨j, best', m', h⟩ | ⟨j, h⟩ | h <;> rw [h] at htask
    · exact htask
    · exact nodes_afterSelect htask
    · cases htask
  | create b w nodes arg harg =>
    refine .inr ⟨p.createNode t b nodes.length arg, rfl, rfl, fun task htask => ?_⟩
    rcases List.mem_append.1 (nodes_afterCreate htask) with htask | htask
    · exact .inl htask
    · exact .inr (List.mem_singleton.1 htask)
  | attach | findSome | findNone => exact .inl fun _ htask => htask
  | cancelQueue r ctx i hm =>
    refine .inl fun task htask => ?_
    split at htask <;> cases htask
  | _ => exact .inl fun _ htask => (by cases htask)

theorem attached_threadStep (h : ThreadStep p t o pc p' pc') :
    ∃ l, p'.hist.attached = p.hist.attached ++ l ∧ ∀ e ∈ l, e.2.2 = pc.nodes := by
  cases h with
  | attach b i nodes size hm hsize => exact ⟨[(t, i, nodes)], rfl, by simp [Pc.nodes]⟩
  | cancelUpdate r ctx n c hd => exact ⟨[], by split <;> simp, by simp⟩
  | cancelUpdateDangling r ctx n hd => exact ⟨[], by split <;> simp, by simp⟩
  | _ => exact ⟨[], by simp, by simp⟩

theorem kept_threadStep (h : ThreadStep p t o pc p' pc') (hk : pc.Kept t p.hist.attached) :
    pc'.Kept t p'.hist.attached := by
  cases h with
  | select b nodes i best minLoad hm =>
    rcases selectStep_cases p b nodes i best minLoad with ⟨j, best', m', h⟩ | ⟨j, h⟩ | h <;> rw [h]
    · trivial
    · unfold afterSelect
      split <;> trivial
    · trivial
  | create b w nodes arg harg =>
    unfold afterCreate
    split
    · trivial
    · cases w <;> trivial
  | attach b i nodes size hm hsize => exact ⟨i, List.mem_append_right _ (List.mem_singleton_self _)⟩
  | findSome | findNone => exact hk
  | bump | insert | insertFail =>
    obtain ⟨i, hi⟩ := hk
    exact ⟨i, _, hi, rfl⟩
  | cancelQueue => split <;> trivial
  | _ => trivial

end Pool

namespace PoolSys
variable {τ α κ : Type} [DecidableEq τ] {s s' : PoolSys τ α κ} {a : Act τ α κ} {t : τ} {n : Nat}

/-- The task was made and not given up. -/
def Known (s : PoolSys τ α κ) (task : ThreadPoolTask τ α κ) : Prop :=
  (∃ t, task ∈ (s.threads t).nodes) ∨ ∃ e ∈ s.pool.hist.attached, task ∈ e.2.2

theorem known_step (hs : s.step a = some s') :
    ((∀ task, s'.Known task → s.Known task) ∧
        (s'.pool.nextTaskId = s.pool.nextTaskId ∨ s'.pool.nextTaskId = s.pool.nextTaskId + 1)) ∨
      ∃ new, new.taskId = s.pool.nextTaskId ∧ s'.pool.nextTaskId = s.pool.nextTaskId + 1 ∧
        ∀ task, s'.Known task → s.Known task ∨ task = new := by
  cases step_cases hs with
  | call u c o hu =>
    refine .inl ⟨fun task hk => ?_, .inl rfl⟩
    rcases hk with ⟨t, ht⟩ | he
    · rw [setThread_threads] at ht
      split at ht
      · rw [(enter_kept s.pool o c u).1] at ht
        cases ht
      · exact .inl ⟨t, ht⟩
    · exact .inr he
  | worker i o p hp =>
    refine .inl ⟨fun task hk => ?_, .inl (by cases hp <;> rfl)⟩
    rcases hk with ht | he
    · exact .inl ht
    · rw [Pool.workerStep_attached hp] at he
      exact .inr he
  | thread u o p pc hp =>
    obtain ⟨l, hl, hnodes⟩ := Pool.attached_threadStep hp
    -- a task in the hands of `u` now, or known before
    have hknown : ∀ task, (({ s with pool := p } : PoolSys τ α κ).setThread u pc).Known task →
        task ∈ pc.nodes ∨ s.Known task := by
      intro task hk
      rcases hk with ⟨t, ht⟩ | ⟨e, he, htask⟩
      · rw [setThread_threads] at ht
        split at ht
        · exact .inl ht
        · exact .inr (.inl ⟨t, ht⟩)
      · rw [setThread_pool, hl] at he
        rcases List.mem_append.1 he with he | he
        · exact .inr (.inr ⟨e, he, htask⟩)
        · rw [hnodes e he] at htask
          exact .inr (.inl ⟨u, htask⟩)
    rcases Pool.nodes_threadStep hp with hsub | ⟨new, hid, hnext, hsub⟩
    · refine .inl ⟨fun task hk => ?_, ?_⟩
      · rcases hknown task hk with ht | hk
        · exact .inl ⟨u, hsub task ht⟩
        · exact hk
      · obtain ⟨⟨p₁, pc₁⟩, hstep, he⟩ := Option.map_eq_some_iff.1 hs
        rw [← he]
        exact Pool.nextTaskId_threadStep hstep
    · refine .inr ⟨new, hid, hnext, fun task hk => ?_⟩
      rcases hknown task hk with ht | hk
      · exact (hsub task ht).imp_left fun h => .inl ⟨u, h⟩
      · exact .inl hk

theorem kept_step (h : ∀ t, (s.threads t).Kept t s.pool.hist.attached) (hs : s.step a = some s') (t : τ) :
    (s'.threads t).Kept t s'.pool.hist.attached := by
  cases step_cases hs with
  | call u c o hu =>
    rw [setThread_threads]
    split
    · rename_i htu
      subst htu
      exact (enter_kept s.pool o c t).2
    · exact h t
  | worker i o p hp =>
    rw [show p.hist.attached = s.pool.hist.attached from Pool.workerStep_attached hp]
    exact h t
  | thread u o p pc hp =>
    rw [setThread_threads]
    split
    · rename_i htu
      subst htu
      exact Pool.kept_threadStep hp (h t)
    · obtain ⟨l, hl, -⟩ := Pool.attached_threadStep hp
      rw [setThread_pool, hl]
      exact (h t).mono fun e he => List.mem_append_left _ he

/-- After `n` steps: the ids so far are below `next_task_id`, and each names one task. -/
structure Ids (n : Nat) (s : PoolSys τ α κ) : Prop where
  next : s.pool.nextTaskId.toNat ≤ n + 1
  pos : 0 < s.pool.nextTaskId.toNat
  below : ∀ task, s.Known task → 0 < task.taskId.toNat ∧ task.taskId.toNat < s.pool.nextTaskId.toNat
  inj : ∀ task task', s.Known task → s.Known task' → task.taskId = task'.taskId → task = task'

omit [DecidableEq τ] in
theorem ids_start : Ids 0 (start : PoolSys τ α κ) := by
  have hnone : ∀ task, ¬ (start : PoolSys τ α κ).Known task := by
    rintro task (⟨t, ht⟩ | ⟨e, he, -⟩)
    · cases ht
    · cases he
  exact ⟨le_rfl, Nat.one_pos, fun task hk => absurd hk (hnone task), fun task _ hk => absurd hk (hnone task)⟩

theorem Ids.step (h : Ids n s) (hn : n + 1 < 2 ^ 64 - 1) (hs : s.step a = some s') : Ids (n + 1) s' := by
  have hle := h.next
  have hpos := h.pos
  have hnext : (s.pool.nextTaskId + 1).toNat = s.pool.nextTaskId.toNat + 1 := by
    rw [UInt64.toNat_add, UInt64.toNat_one, Nat.mod_eq_of_lt (by omega)]
  rcases known_step hs with ⟨hsub, he⟩ | ⟨new, hid, he, hsub⟩
  · have hge : s.pool.nextTaskId.toNat ≤ s'.pool.nextTaskId.toNat ∧
        s'.pool.nextTaskId.toNat ≤ s.pool.nextTaskId.toNat + 1 := by
      rcases he with he | he <;> rw [he]
      · omega
      · omega
    refine ⟨by omega, by omega, fun task hk => ?_, fun task task' hk hk' => h.inj task task' (hsub _ hk) (hsub _ hk')⟩
    have := h.below task (hsub task hk)
    omega
  · have hnew : ∀ task, s.Known task → task.taskId ≠ new.taskId := by
      intro task hk heq
      have := (h.below task hk).2
      rw [heq, hid] at this
      exact absurd this (Nat.lt_irrefl _)
    refine ⟨by rw [he]; omega, by rw [he]; omega, fun task hk => ?_, fun task task' hk hk' heq => ?_⟩
    · rw [he, hnext]
      rcases hsub task hk with hk | rfl
      · have := h.below task hk
        omega
      · rw [hid]
        omega
    · rcases hsub task hk with hk | rfl <;> rcases hsub task' hk' with hk' | rfl
      · exact h.inj task task' hk hk' heq
      · exact absurd heq (hnew task hk)
      · exact absurd heq.symm (hnew task' hk')
      · rfl

omit [DecidableEq τ] in
theorem Ids.mono (h : Ids n s) {n' : Nat} (hn : n ≤ n') : Ids n' s :=
  ⟨h.next.trans (Nat.add_le_add_right hn 1), h.pos, h.below, h.inj⟩

end PoolSys

namespace World
open Lts PoolSys
variable {τ α κ : Type} [DecidableEq τ] {x : World τ α κ} {ms : List (Move τ α κ)} {t : τ}

/-- What holds after `n` moves. -/
structure Numbered (n : Nat) (x : World τ α κ) : Prop where
  ids : Ids n x.sys
  kept : ∀ t, (x.sys.threads t).Kept t x.sys.pool.hist.attached
  tracked : ∀ t, Tracked x.sys t
  answered : ∀ t ret, x.answers t = some ret → x.sys.threads t = .done ret

theorem numbered_start : Numbered 0 (start : World τ α κ) where
  ids := ids_start
  kept _ := trivial
  tracked := tracked_start
  answered _ _ ha := by cases ha

theorem Numbered.step {n : Nat} {x x' : World τ α κ} {m : Move τ α κ} (h : Numbered n x) (hn : n + 1 < 2 ^ 64 - 1)
    (hm : x.NoStray m) (hi : ∀ u, InTime u x m) (hs : x.step m = some x') : Numbered (n + 1) x' := by
  have hans := fun t => answered_step (h.answered t) hm (hi t) hs
  cases step_cases hm hs with
  | act a v s' hpool => exact ⟨h.ids.step hn hpool, kept_step h.kept hpool, tracked_step h.tracked hpool, hans⟩
  | answer u id ret hu hnone => exact ⟨h.ids.mono (Nat.le_succ n), h.kept, h.tracked, hans⟩

/-- In every run of less than 2^64 - 1 steps, whatever calls are interleaved and whichever of their allocations
fail, in which no freed context is written and no task id is read in a freed task, a call that has handed back ids has
handed back those of the tasks it attached, all different and none 0, and no other call has handed back any of them. -/
theorem task_ids_distinct (h : exec World.step start ms = some x)
    (hc : Along World.step (fun x m => x.NoStray m ∧ ∀ u, InTime u x m) start ms) (hlen : ms.length < 2 ^ 64 - 1)
    {ids : List UInt64} (hids : x.answers t = some (.ids ids)) :
    (∃ i nodes, (t, i, nodes) ∈ x.sys.pool.hist.attached ∧ ids = nodes.map (·.taskId)) ∧ ids.Nodup ∧ 0 ∉ ids ∧
      ∀ u ids', u ≠ t → x.answers u = some (.ids ids') → ids.Disjoint ids' := by
  have hinv := exec_inv_acts (I := fun ms (x : World τ α κ) => ms.length < 2 ^ 64 - 1 → Numbered ms.length x) (l := [])
    (fun l x m x' hi hm hs hlt => by
      rw [List.length_append, List.length_singleton] at hlt ⊢
      exact (hi (by omega)).step hlt hm.1 hm.2 hs)
    (fun _ => numbered_start) hc h
  obtain ⟨hi, hk, ht, hans⟩ := hinv hlen
  have hreturned : ∀ {u : τ} {ids : List UInt64}, x.answers u = some (.ids ids) →
      ∃ i nodes, (u, i, nodes) ∈ x.sys.pool.hist.attached ∧ ids = nodes.map (·.taskId) := by
    intro u ids hu
    have hku := hk u
    rw [hans u _ hu] at hku
    exact hku
  obtain ⟨i, nodes, he, rfl⟩ := hreturned hids
  have hknown : ∀ task ∈ nodes, x.sys.Known task := fun task htask => .inr ⟨_, he, htask⟩
  refine ⟨⟨i, nodes, he, rfl⟩, ?_, ?_, ?_⟩
  · have hnodup : nodes.Nodup := by
      refine (attached_nodup ht).sublist ?_
      exact (List.sublist_flatten_of_mem (List.mem_map_of_mem (f := fun e => e.2.2) he))
    exact hnodup.map_on fun task htask task' htask' heq => hi.inj task task' (hknown _ htask) (hknown _ htask') heq
  · intro hzero
    obtain ⟨task, htask, heq⟩ := List.mem_map.1 hzero
    have := (hi.below task (hknown task htask)).1
    rw [heq] at this
    exact absurd this (Nat.lt_irrefl 0)
  · intro u ids' hne hu id hid hid'
    obtain ⟨j, nodes', he', rfl⟩ := hreturned hu
    obtain ⟨task, htask, rfl⟩ := List.mem_map.1 hid
    obtain ⟨task', htask', heq⟩ := List.mem_map.1 hid'
    obtain rfl := hi.inj task task' (hknown task htask) (.inr ⟨_, he', htask'⟩) heq.symm
    obtain ⟨b, hb⟩ := made_of_attached ht he
    obtain ⟨b', hb'⟩ := made_of_attached ht he'
    exact hne ((hb'.of_mem htask').1.symm.trans (hb.of_mem htask).1)

/-- `twoCalls`, after which both submissions hand back their ids. -/
def twoAnswered : List (Move (Fin 4) Unit Unit) := quietMoves twoCalls ++ [.answer 0 0, .answer 1 0]

def twoAnsweredEnd : World (Fin 4) Unit Unit := last World.step start twoAnswered (by decide +kernel)

theorem twoAnsweredEnd_ids : (∃ i nodes, (1, i, nodes) ∈ twoAnsweredEnd.sys.pool.hist.attached ∧
      [3, 4] = nodes.map (·.taskId)) ∧ ([3, 4] : List UInt64).Nodup ∧ 0 ∉ ([3, 4] : List UInt64) ∧
      ∀ u ids', u ≠ 1 → twoAnsweredEnd.answers u = some (.ids ids') → [3, 4].Disjoint ids' :=
  task_ids_distinct (exec_last _) (by decide +kernel) (by decide +kernel) (by decide +kernel)

end World
end OsTransport
