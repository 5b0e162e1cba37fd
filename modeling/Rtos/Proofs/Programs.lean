import Rtos.Kernel.Program
import Rtos.Proofs.Capacity
import Rtos.Proofs.Inheritance
import Rtos.Proofs.Priority
import Rtos.Proofs.Termination

/-! Rules for applications. A program whose code says at every place which mutexes it has locked
can rely on it: a task that runs there owns exactly these. From this follows a rule for data that a
mutex protects, with an assertion for each place inside the lock and one for when it is free. -/

namespace Rtos

open Lib

open Model (WF Inv Outcome)

variable {S ℓ : Type} {P : Program S ℓ} {b : Boot} {user : S} {n : ℕ} {s : ProgSys S ℓ}
  {k k' : Kernel} {a a' : Model} {t u cur : TaskId} {m : MutexId}

/-- Induction over runs of a program, at the level of the model. -/
theorem prog_induct {I : ℕ → ProgSys S ℓ → Model → Prop}
    (boot : ∀ {k a}, b.start = some k → Sim k a → Started b a → I 0 ⟨k, user, P.boot b⟩ a)
    (interrupt : ∀ {n s a k a' cur e r}, ProgRun P b user n s → Sim s.kernel a → Inv a →
      a.gCurrent = some cur → (∀ c, e ≠ .svc c) → a.Enabled e → Outcome a cur e r a' → Sim k a' →
      Inv a' → I n s a → I n { s with kernel := k } a')
    (work : ∀ {n s a cur f}, ProgRun P b user n s → Sim s.kernel a → Inv a →
      a.gCurrent = some cur → a.pendsv = false → P.code (s.pc cur) = .work f → I n s a →
      I (n + 1) { s with user := (f s.user).1, pc := Function.update s.pc cur (f s.user).2 } a)
    (call : ∀ {n s a k a' cur c next r}, ProgRun P b user n s → Sim s.kernel a → Inv a →
      a.gCurrent = some cur → P.code (s.pc cur) = .call c next → a.Enabled (.svc (c s.user)) →
      (osPortSvcDispatch s.kernel (c s.user)).Returns (r, k) →
      Outcome a cur (.svc (c s.user)) r a' → Sim k a' → Inv a' → I n s a →
      I (n + 1) { s with
        kernel := k
        pc := P.noteStart s.kernel (c s.user) r (Function.update s.pc cur (next r)) } a')
    (h : ProgRun P b user n s) : ∃ a, Sim s.kernel a ∧ Inv a ∧ I n s a := by
  induction h with
  | boot h =>
    obtain ⟨a, hs, hst⟩ := start_sim h
    exact ⟨a, hs, hst.inv, boot h hs hst⟩
  | interrupt hrun hstep ih =>
    obtain ⟨a, hs, hi, hI⟩ := ih
    obtain ⟨cur, -, hc⟩ := hi.cur
    cases hstep with
    | interrupt hne he hr =>
      obtain ⟨a', hs', hi', ho⟩ := exec_sim hs hi hc he hr
      exact ⟨a', hs', hi', interrupt hrun hs hi hc hne (hs.globals ▸ he) ho hs' hi' hI⟩
  | task hrun hstep ih =>
    obtain ⟨a, hs, hi, hI⟩ := ih
    cases hstep with
    | work hp hc hf => exact ⟨a, hs, hi, work hrun hs hi (hs.gCurrent ▸ hc) (hs.pendsv ▸ hp) hf hI⟩
    | call hc hcode he hr =>
      rw [hs.gCurrent] at hc
      obtain ⟨a', hs', hi', ho⟩ := exec_sim hs hi hc he hr
      exact ⟨a', hs', hi', call hrun hs hi hc hcode (hs.globals ▸ he) hr ho hs' hi' hI⟩

/-! Where tasks begin. -/

theorem create_tasks (args : TaskCreateArgs) (k : Kernel)
    (h : (osKernelTaskCreate (some args) k).1 = 0) :
    (osKernelTaskCreate (some args) k).2.tasks = k.tasks ++ [k.gKernelObjectPool.freeList] ∧
      k.gKernelObjectPool.freeList ≠ 0 := by
  have ha := create_accepts h
  refine ⟨?_, ha.object⟩
  rw [create_accepted ha]
  exact enrollTask_tasks _ _

section

variable {c : Syscall} {r : ℤ} {pc : TaskId → ℓ}
  (hr : (osPortSvcDispatch k c).Returns (r, k'))
include hr

theorem noteStart_old (hs : Sim k a) (hi : Inv a) (hu : u ∈ a.tasks) : P.noteStart k c r pc u = pc u := by
  unfold Program.noteStart
  split
  · rename_i args
    split_ifs with h0
    · have heq : osKernelTaskCreate (some args) k = (r, k') := Comp.returns_pure.1 hr
      have hne := (create_tasks args k (by rw [heq, h0])).2
      rw [hs.globals] at hne ⊢
      obtain ⟨-, -, -, hnew⟩ := hi.pool.head hne
      refine Function.update_of_ne ?_ _ _
      rintro rfl
      exact hnew hu
    · rfl
  · rfl

theorem noteStart_new (hs : Sim k a) (hs' : Sim k' a') (hu : u ∈ a'.tasks) (hnew : u ∉ a.tasks)
    (hi : Inv a) (hc : a.gCurrent = some cur) (ho : Outcome a cur (.svc c) r a') :
    ∃ args, c = .taskCreate (some args) ∧ r = 0 ∧ P.noteStart k c r pc u = P.start args.entry := by
  by_cases he : ∃ args, c = .taskCreate args
  · obtain ⟨args, rfl⟩ := he
    have heq : osKernelTaskCreate args k = (r, k') := Comp.returns_pure.1 hr
    cases ho with
    | createFailed hf =>
      obtain ⟨⟨pool, mem, rfl⟩, -⟩ := hf
      exact absurd hu hnew
    | created hf =>
      cases args with
      | none => cases heq
      | some args =>
        have ht := (create_tasks args k (by rw [heq])).1
        rw [heq, hs'.tasks, hs.tasks] at ht
        obtain rfl : u = k.gKernelObjectPool.freeList := by
          rw [ht] at hu
          exact List.mem_singleton.1 ((List.mem_append.1 hu).resolve_left hnew)
        refine ⟨args, rfl, rfl, ?_⟩
        simp only [Program.noteStart, if_true, Function.update_self]
  · rw [ho.tasks_eq hi hc fun args hx => he ⟨args, by injection hx⟩] at hu
    exact absurd hu hnew

end

/-- The tasks that are there when `os_start` is called are at the start of some function. -/
theorem boot_start (P : Program S ℓ) (b : Boot) (t : TaskId) : ∃ e, P.boot b t = P.start e := by
  have hfold : ∀ (l : List (Option TaskCreateArgs)) (x : Kernel × (TaskId → ℓ)),
      (∀ t, ∃ e, x.2 t = P.start e) → ∀ t, ∃ e, (l.foldl P.create x).2 t = P.start e := by
    intro l
    induction l with
    | nil => exact fun x hx => hx
    | cons args l ih =>
      refine fun x hx => ih _ fun t => ?_
      cases args with
      | none => exact hx t
      | some args =>
        change ∃ e, P.noteStart x.1 (.taskCreate (some args)) _ x.2 t = _
        simp only [Program.noteStart]
        split_ifs
        · rw [Function.update_apply]
          split_ifs
          · exact ⟨_, rfl⟩
          · exact hx t
        · exact hx t
  exact hfold _ _ (fun _ => ⟨_, rfl⟩) t

/-! The mutexes a task has locked, read off its code. -/

/-- What a call leaves of the caller's mutexes. -/
def Syscall.holding (c : Syscall) (held : Set MutexId) : Set MutexId :=
  match c with
  | .mutexLock (some m) => insert m held
  | .mutexUnlock (some m) => held \ {m}
  | _ => held

/-- The code agrees with `holding`: it locks what it does not hold and unlocks what it holds. -/
structure Program.Locks (P : Program S ℓ) (holding : ℓ → Set MutexId) : Prop where
  start : ∀ e, holding (P.start e) = ∅
  work : ∀ {l f}, P.code l = .work f → ∀ x, holding (f x).2 = holding l
  call : ∀ {l c next}, P.code l = .call c next → ∀ x r, holding (next r) = (c x).holding (holding l)
  lock : ∀ {l c next}, P.code l = .call c next → ∀ x m, c x = .mutexLock (some m) → m ∉ holding l
  unlock : ∀ {l c next}, P.code l = .call c next → ∀ x m, c x = .mutexUnlock (some m) → m ∈ holding l

def Holding (holding : ℓ → Set MutexId) (pc : TaskId → ℓ) (a : Model) : Prop :=
  ∀ t ∈ a.tasks, ∀ m, m ∈ holding (pc t) ↔ (a.mutex m).owner = some t ∨ t ∈ a.list (.mutex m)

theorem Syscall.mem_holding {c : Syscall} {held : Set MutexId} (hl : c ≠ .mutexLock (some m))
    (hu : c ≠ .mutexUnlock (some m)) : m ∈ c.holding held ↔ m ∈ held := by
  unfold Syscall.holding
  split
  · rename_i m'
    rw [Set.mem_insert_iff]
    exact or_iff_right fun hx => hl (by rw [hx])
  · rename_i m'
    rw [Set.mem_sdiff_singleton]
    exact and_iff_left fun hx => hu (by rw [hx])
  · rfl

theorem Model.MutexStep.others {e : Entry} {r : ℤ} (h : Model.MutexStep a cur m e r a') (ht : t ≠ cur) :
    (a'.mutex m).owner = some t ∨ t ∈ a'.list (.mutex m) ↔
      (a.mutex m).owner = some t ∨ t ∈ a.list (.mutex m) := by
  cases h with
  | other _ _ ho hl => rw [ho, hl]
  | free hm ho hl => simp [hm, ho, hl, ht.symm]
  | queue hm _ ho hl => simp [hm, ho, hl, ht]
  | pass hm ho hl =>
    rw [hm, ho, hl]
    constructor
    · rintro (hh | htl)
      · exact .inr (List.mem_of_mem_head? hh)
      · exact .inr (List.mem_of_mem_tail htl)
    · rintro (hx | hmem)
      · exact absurd (Option.some.inj hx).symm ht
      · exact Model.mem_head_or_tail hmem

theorem Model.MutexStep.caller {c : Syscall} {r : ℤ} {held : Set MutexId}
    (h : Model.MutexStep a cur m (.svc c) r a') (hnot : cur ∉ a.list (.mutex m))
    (hown : m ∈ held ↔ (a.mutex m).owner = some cur) (hlock : c = .mutexLock (some m) → m ∉ held)
    (hunlock : c = .mutexUnlock (some m) → m ∈ held) :
    m ∈ c.holding held ↔ (a'.mutex m).owner = some cur ∨ cur ∈ a'.list (.mutex m) := by
  rw [hown] at hlock hunlock
  cases h with
  | other hl hu hoo hll =>
    rw [Syscall.mem_holding (fun hx => hlock hx (hl (by rw [hx])).1)
      fun hx => (hu (by rw [hx])).1 (hunlock hx), hoo, hll, hown]
    exact (or_iff_left hnot).symm
  | free _ hoo _ => exact iff_of_true (Set.mem_insert m held) (.inl hoo)
  | queue _ _ _ hll => exact iff_of_true (Set.mem_insert m held) (.inr ((hll cur).2 (.inr rfl)))
  | pass _ hoo hll =>
    refine iff_of_false (fun hx => hx.2 rfl) ?_
    rw [hoo, hll]
    rintro (hx | hx)
    · exact hnot (List.mem_of_mem_head? hx)
    · exact hnot (List.mem_of_mem_tail hx)

/-- A task that runs waits for nothing, so it owns what its place in the code says. -/
theorem Holding.running {holding : ℓ → Set MutexId} {pc : TaskId → ℓ} (h : Holding holding pc a)
    (hi : Inv a) (hp : a.pendsv = false) (hc : a.gCurrent = some cur) (m : MutexId) :
    m ∈ holding (pc cur) ↔ (a.mutex m).owner = some cur := by
  rw [h cur (hi.cur_mem hc) m]
  exact or_iff_left (hi.running_not_waiting hp hc rfl)

section

variable {holding : ℓ → Set MutexId} {pc : TaskId → ℓ} {x : S}

theorem Holding.interrupt (h : Holding holding pc a) (hi : Inv a) (hc : a.gCurrent = some cur)
    {e : Entry} {r : ℤ} (hne : ∀ c, e ≠ .svc c) (he : a.Enabled e) (ho : Outcome a cur e r a') :
    Holding holding pc a' := by
  intro t ht m
  rw [ho.tasks_eq hi hc fun args => hne _] at ht
  rw [h t ht m]
  cases ho.mutex_step hi hc he m with
  | other _ _ ho hl => rw [ho, hl]
  | free _ _ _ => exact absurd rfl (hne _)
  | queue _ _ _ _ => exact absurd rfl (hne _)
  | pass _ _ _ => exact absurd rfl (hne _)

theorem Holding.call (h : Holding holding pc a) (hP : P.Locks holding) (hs : Sim k a) (hs' : Sim k' a')
    (hi : Inv a) (hc : a.gCurrent = some cur) {c : S → Syscall} {next : ℤ → ℓ} {r : ℤ}
    (hcode : P.code (pc cur) = .call c next) (he : a.Enabled (.svc (c x)))
    (hr : (osPortSvcDispatch k (c x)).Returns (r, k')) (ho : Outcome a cur (.svc (c x)) r a') :
    Holding holding (P.noteStart k (c x) r (Function.update pc cur (next r))) a' := by
  have hown := h.running hi he.1 hc
  have hnot : ∀ m, cur ∉ a.list (.mutex m) := fun m => hi.running_not_waiting he.1 hc rfl
  intro t ht m
  by_cases hold : t ∈ a.tasks
  · rw [noteStart_old hr hs hi hold]
    by_cases htc : t = cur
    · subst htc
      rw [Function.update_self, hP.call hcode x r]
      exact (ho.mutex_step hi hc he m).caller (hnot m) (hown m) (hP.lock hcode x m)
        (hP.unlock hcode x m)
    · rw [Function.update_of_ne htc, h t hold m]
      exact ((ho.mutex_step hi hc he m).others htc).symm
  · obtain ⟨args, hcr, -, hpc⟩ := noteStart_new (P := P) hr hs hs' ht hold hi hc ho
    rw [hpc, hP.start]
    have htc : t ≠ cur := by
      rintro rfl
      exact hold (hi.cur_mem hc)
    rw [(ho.mutex_step hi hc he m).others htc]
    refine iff_of_false (Set.notMem_empty m) ?_
    rintro (hx | hx)
    · exact hold (hi.owner m t hx)
    · exact hold (hi.wf.mem_tasks hx)

theorem prog_holding (hP : P.Locks holding) (h : ProgRun P b user n s) :
    ∃ a, Sim s.kernel a ∧ Inv a ∧ MutexOk a ∧ Holding holding s.pc a := by
  refine prog_induct (I := fun _ s a => MutexOk a ∧ Holding holding s.pc a) ?_ ?_ ?_ ?_ h
  · intro k a _ _ hst
    refine ⟨hst.mutexOk, fun t _ m => ?_⟩
    obtain ⟨e, he⟩ := boot_start P b t
    dsimp only
    rw [he, hP.start]
    refine iff_of_false (Set.notMem_empty m) ?_
    rintro (hx | hx)
    · exact hst.owner_ne m t hx
    · rw [hst.list_wait rfl] at hx
      cases hx
  · rintro n s a k a' cur e r _ _ hi hc hne he ho _ _ ⟨ok, hh⟩
    exact ⟨ok.step hi hc he ho, hh.interrupt hi hc hne he ho⟩
  · rintro n s a cur f _ _ _ _ _ hf ⟨ok, hh⟩
    refine ⟨ok, fun t ht m => ?_⟩
    rw [← hh t ht m]
    dsimp only
    by_cases htc : t = cur
    · rw [htc, Function.update_self, hP.work hf]
    · rw [Function.update_of_ne htc]
  · rintro n s a k a' cur c next r _ hs hi hc hcode he hr ho hs' _ ⟨ok, hh⟩
    exact ⟨ok.step hi hc he ho, hh.call hP hs hs' hi hc hcode he hr ho⟩

/-- The code of a program tells who has which mutex: in every run a task owns or waits for exactly
those it is said to hold where it is, and while it runs it owns them. Of two tasks that are both
said to hold one, one has not run since it asked for it. -/
theorem lock_discipline (hP : P.Locks holding) (h : ProgRun P b user n s) :
    (∀ t ∈ s.kernel.tasks, ∀ m, m ∈ holding (s.pc t) ↔
      (s.kernel.mutex m).owner = some t ∨ s.kernel.Waits t m) ∧
    (s.kernel.TaskRuns → ∀ t, s.kernel.gCurrent = some t → ∀ m, m ∈ holding (s.pc t) ↔
      (s.kernel.mutex m).owner = some t) ∧
    ∀ t ∈ s.kernel.tasks, ∀ u ∈ s.kernel.tasks, t ≠ u → ∀ m, m ∈ holding (s.pc t) →
      m ∈ holding (s.pc u) → s.kernel.Waits t m ∨ s.kernel.Waits u m := by
  obtain ⟨a, hs, hi, -, hh⟩ := prog_holding hP h
  simp only [hs.waits_iff]
  rw [hs.tasks, hs.mutex, hs.gCurrent]
  refine ⟨hh, fun hp t hc => hh.running hi (hs.pendsv ▸ hp) hc, fun t ht u hu hne m h1 h2 => ?_⟩
  rcases (hh t ht m).1 h1 with h1 | h1
  · rcases (hh u hu m).1 h2 with h2 | h2
    · exact absurd (Option.some.inj (h1.symm.trans h2)) hne
    · exact .inr h2
  · exact .inl h1

end

/-! Data that a mutex protects. -/

/-- Proof rules for the code around the mutex `m`. What is true of the data while nobody owns `m` is
`free`, and `inside l` while the owner is at `l`. -/
structure Program.Protects (P : Program S ℓ) (holding : ℓ → Set MutexId) (m : MutexId)
    (free : S → Prop) (inside : ℓ → S → Prop) : Prop where
  lock : ∀ {l c next}, P.code l = .call c next → ∀ x, c x = .mutexLock (some m) →
    ∀ r y, free y → inside (next r) y
  unlock : ∀ {l c next}, P.code l = .call c next → ∀ x, c x = .mutexUnlock (some m) →
    inside l x → free x
  call : ∀ {l c next}, P.code l = .call c next → m ∈ holding l → ∀ x,
    c x ≠ .mutexUnlock (some m) → inside l x → ∀ r, inside (next r) x
  work : ∀ {l f}, P.code l = .work f → m ∈ holding l → ∀ x, inside l x → inside (f x).2 (f x).1
  outside : ∀ {l f}, P.code l = .work f → m ∉ holding l → ∀ x, (free x → free (f x).1) ∧
    ∀ l', m ∈ holding l' → inside l' x → inside l' (f x).1

/-- A task that waits for the mutex will find the data as they are when it is free. -/
structure Guarded (free : S → Prop) (inside : ℓ → S → Prop) (m : MutexId) (s : ProgSys S ℓ)
    (a : Model) : Prop where
  unowned : (a.mutex m).owner = none → free s.user
  owned : ∀ t, (a.mutex m).owner = some t → inside (s.pc t) s.user
  waiting : ∀ t ∈ a.list (.mutex m), ∀ y, free y → inside (s.pc t) y

section

variable {holding : ℓ → Set MutexId} {free : S → Prop} {inside : ℓ → S → Prop}

theorem Guarded.work (h : Guarded free inside m s a) (hP : P.Protects holding m free inside)
    (hh : Holding holding s.pc a) (hi : Inv a) (hp : a.pendsv = false) (hc : a.gCurrent = some cur)
    {f : S → S × ℓ} (hf : P.code (s.pc cur) = .work f) :
    Guarded free inside m
      { s with user := (f s.user).1, pc := Function.update s.pc cur (f s.user).2 } a := by
  have hown := hh.running hi hp hc m
  refine ⟨fun hn => ?_, fun t ht => ?_, fun t ht y hy => ?_⟩
  · refine (hP.outside hf ?_ s.user).1 (h.unowned hn)
    rw [hown, hn]
    nofun
  · dsimp only
    by_cases htc : t = cur
    · subst htc
      rw [Function.update_self]
      exact hP.work hf (hown.2 ht) s.user (h.owned t ht)
    · rw [Function.update_of_ne htc]
      refine (hP.outside hf ?_ s.user).2 _ ?_ (h.owned t ht)
      · rw [hown, ht]
        simpa using htc
      · exact (hh t (hi.owner m t ht) m).2 (.inl ht)
  · have htc : t ≠ cur := by
      rintro rfl
      exact hi.running_not_waiting hp hc rfl ht
    dsimp only
    rw [Function.update_of_ne htc]
    exact h.waiting t ht y hy

theorem Guarded.call (h : Guarded free inside m s a) (hP : P.Protects holding m free inside)
    (hh : Holding holding s.pc a) (hs : Sim s.kernel a) (hi : Inv a) (hc : a.gCurrent = some cur)
    {c : S → Syscall} {next : ℤ → ℓ} {r : ℤ} (hcode : P.code (s.pc cur) = .call c next)
    (he : a.Enabled (.svc (c s.user))) (hr : (osPortSvcDispatch s.kernel (c s.user)).Returns (r, k'))
    (ho : Outcome a cur (.svc (c s.user)) r a') :
    Guarded free inside m { s with
      kernel := k'
      pc := P.noteStart s.kernel (c s.user) r (Function.update s.pc cur (next r)) } a' := by
  have hown := hh.running hi he.1 hc m
  have hnot : cur ∉ a.list (.mutex m) := hi.running_not_waiting he.1 hc rfl
  -- where the tasks are after the call
  have hpc : ∀ t ∈ a.tasks, P.noteStart s.kernel (c s.user) r (Function.update s.pc cur (next r)) t =
      if t = cur then next r else s.pc t := by
    intro t ht
    rw [noteStart_old hr hs hi ht, Function.update_apply]
  have hcaller : P.noteStart s.kernel (c s.user) r (Function.update s.pc cur (next r)) cur = next r := by
    rw [hpc cur (hi.cur_mem hc), if_pos rfl]
  have hother : ∀ t ∈ a.tasks, t ≠ cur →
      P.noteStart s.kernel (c s.user) r (Function.update s.pc cur (next r)) t = s.pc t := by
    intro t ht htc
    rw [hpc t ht, if_neg htc]
  have hwait : ∀ t ∈ a.list (.mutex m), ∀ y, free y →
      inside (P.noteStart s.kernel (c s.user) r (Function.update s.pc cur (next r)) t) y := by
    intro t ht y hy
    rw [hother t (hi.wf.mem_tasks ht) fun hx => hnot (hx ▸ ht)]
    exact h.waiting t ht y hy
  have hstep := ho.mutex_step hi hc he m
  generalize P.noteStart s.kernel (c s.user) r (Function.update s.pc cur (next r)) = pc' at *
  obtain ⟨d, hd⟩ : ∃ d, c s.user = d := ⟨_, rfl⟩
  rw [hd] at hstep
  cases hstep with
  | other _ hu hoo hll =>
    refine ⟨fun hn => h.unowned (hoo ▸ hn), fun t ht => ?_, fun t ht => hwait t ((hll t).1 ht)⟩
    rw [hoo] at ht
    dsimp only
    by_cases htc : t = cur
    · subst htc
      rw [hcaller]
      refine hP.call hcode (hown.2 ht) s.user (fun hx => ?_) (h.owned t ht) r
      exact (hu (by rw [← hd, hx])).1 ht
    · rw [hother t (hi.owner m t ht) htc]
      exact h.owned t ht
  | free hm hoo hll =>
    refine ⟨fun hn => ?_, fun t ht => ?_, fun t ht => hwait t (hll ▸ ht)⟩
    · cases hoo.symm.trans hn
    · obtain rfl := Option.some.inj (hoo.symm.trans ht)
      dsimp only
      rw [hcaller]
      exact hP.lock hcode s.user hd _ s.user (h.unowned hm)
  | queue hm hne hoo hll =>
    refine ⟨fun hn => ?_, fun t ht => ?_, fun t ht y hy => ?_⟩
    · cases hoo.symm.trans hn
    · obtain rfl := Option.some.inj (hoo.symm.trans ht)
      dsimp only
      rw [hother _ (hi.owner m _ hm) hne]
      exact h.owned _ hm
    · rcases (hll t).1 ht with ht | rfl
      · exact hwait t ht y hy
      · dsimp only
        rw [hcaller]
        exact hP.lock hcode s.user hd _ y hy
  | pass hm hoo hll =>
    have hfree := hP.unlock hcode s.user hd (h.owned cur hm)
    refine ⟨fun _ => hfree, fun t ht => ?_, fun t ht => hwait t (List.mem_of_mem_tail (hll ▸ ht))⟩
    exact hwait t (List.mem_of_mem_head? (hoo ▸ ht)) s.user hfree

theorem prog_guarded (hL : P.Locks holding) (hP : P.Protects holding m free inside)
    (hfree : free user) (h : ProgRun P b user n s) :
    ∃ a, Sim s.kernel a ∧ Inv a ∧ Guarded free inside m s a := by
  have hholding : ∀ {n s a}, ProgRun P b user n s → Sim s.kernel a → Holding holding s.pc a := by
    intro n s a hrun hs
    obtain ⟨a', hs', -, -, hh⟩ := prog_holding hL hrun
    rwa [hs'.unique hs] at hh
  refine prog_induct (I := fun _ s a => Guarded free inside m s a) ?_ ?_ ?_ ?_ h
  · intro k a _ _ hst
    refine ⟨fun _ => hfree, fun t ht => absurd ht (hst.owner_ne m t), fun t ht => ?_⟩
    rw [hst.list_wait rfl] at ht
    cases ht
  · intro n s a k a' cur e r _ _ hi hc hne he ho _ _ hg
    cases ho.mutex_step hi hc he m with
    | other _ _ hoo hll =>
      refine ⟨?_, ?_, fun t ht => hg.waiting t ((hll t).1 ht)⟩
      · rw [hoo]
        exact hg.unowned
      · rw [hoo]
        exact hg.owned
    | free _ _ _ => exact absurd rfl (hne _)
    | queue _ _ _ _ => exact absurd rfl (hne _)
    | pass _ _ _ => exact absurd rfl (hne _)
  · intro n s a cur f hrun hs hi hc hp hf hg
    exact hg.work hP (hholding hrun hs) hi hp hc hf
  · intro n s a k a' cur c next r hrun hs hi hc hcode he hr ho hs' _ hg
    exact hg.call hP (hholding hrun hs) hs hi hc hcode he hr ho

/-- The rule: if the data are as `free` says at the start, then whenever nobody owns the mutex they
are so, and while a task owns it they are as the assertion says at the place where the task is. -/
theorem resource_rule (hL : P.Locks holding) (hP : P.Protects holding m free inside)
    (hfree : free user) (h : ProgRun P b user n s) :
    ((s.kernel.mutex m).owner = none → free s.user) ∧
    ∀ t, (s.kernel.mutex m).owner = some t → inside (s.pc t) s.user := by
  obtain ⟨a, hs, -, hg⟩ := prog_guarded hL hP hfree h
  rw [hs.mutex]
  exact ⟨hg.unowned, hg.owned⟩

end

/-! Programs that never hold two mutexes inherit priorities as they should, so the most urgent of
their tasks that can run does. -/

def Program.Flat (P : Program S ℓ) (holding : ℓ → Set MutexId) : Prop :=
  ∀ {l c next}, P.code l = .call c next → ∀ x m, c x = .mutexLock (some m) → holding l = ∅

theorem prog_inherits {holding : ℓ → Set MutexId} (hL : P.Locks holding) (hF : P.Flat holding)
    (h : ProgRun P b user n s) : ∃ a, Sim s.kernel a ∧ Inv a ∧ Inherits a ∧ BestNext a := by
  refine prog_induct (I := fun _ _ a => Inherits a ∧ BestNext a) ?_ ?_ ?_ ?_ h
  · intro k a _ _ hst
    exact ⟨hst.inherits, bestNext_of_firstReady hst.inv.wf hst.gNext⟩
  · rintro n s a k a' cur e r _ _ hi hc hne he ho _ hi' ⟨hh, hbest⟩
    exact ⟨hh.step hi hc he ho fun m hm => absurd hm (hne _), hbest.step hh hi hi' hc he ho⟩
  · exact fun _ _ _ _ _ _ h => h
  · rintro n s a k a' cur c next r hrun hs hi hc hcode he _ ho _ hi' ⟨hh, hbest⟩
    refine ⟨hh.step hi hc he ho fun m hm m' hown => ?_, hbest.step hh hi hi' hc he ho⟩
    obtain ⟨a₁, hs₁, -, -, hold⟩ := prog_holding hL hrun
    obtain rfl := hs₁.unique hs
    have hmem := (hold.running hi he.1 hc m').2 hown
    rw [hF hcode s.user m (by injection hm)] at hmem
    exact hmem

theorem runs_of_urgent (h : ProgRun P b user n s) (hs : Sim s.kernel a) (hi : Inv a)
    (hbest : BestNext a) (hp : a.pendsv = false) (hc : a.gCurrent = some cur) (ht : t ∈ a.tasks)
    (hst : (a.tcb t).state ≠ .blocked) (hlt : ∀ u ∈ a.tasks, u ≠ t → (a.tcb u).state ≠ .blocked →
      (a.tcb t).priority < (a.tcb u).priority) : cur = t := by
  obtain ⟨os, hrun⟩ := h.run
  have hnext := run_chosen hrun (hs.pendsv.trans hp)
  rw [hs.gNext, hs.gCurrent, hc] at hnext
  by_contra hne
  have hcur : (a.tcb cur).state ≠ .blocked := by
    rw [hi.running hp cur hc]
    nofun
  exact absurd (hbest cur hnext t ht hst) (not_le.2 (hlt cur (hi.cur_mem hc) hne hcur))

theorem Inherits.ended (h : Inherits a) : Model.Ended a := by
  intro t ht
  by_cases hex : ∃ m, (a.mutex m).owner = some t ∨ t ∈ a.list (.mutex m)
  · obtain ⟨m, hm⟩ := hex
    obtain ⟨h1, h2⟩ := h.owned m t hm
    exact ⟨[m], h1, h2⟩
  · refine ⟨[], h.unowned t ht fun m => ?_⟩
    exact not_or.1 fun hm => hex ⟨m, hm⟩

/-! Programs whose tasks never sleep and use no semaphores. -/

def Program.OnlyLocks (P : Program S ℓ) : Prop :=
  ∀ {l c next}, P.code l = .call c next → ∀ x q, Model.waitsIn (.svc (c x)) = some q →
    ∃ m, q = .mutex m

theorem prog_blocked (hP : P.OnlyLocks) (h : ProgRun P b user n s) :
    ∃ a, Sim s.kernel a ∧ Inv a ∧ ∀ t ∈ a.tasks, (a.tcb t).state = .blocked →
      ∃ m, t ∈ a.list (.mutex m) := by
  -- the other wait queues stay empty
  obtain ⟨a, hs, hi, hempty⟩ : ∃ a, Sim s.kernel a ∧ Inv a ∧
      ∀ q : QueueRef, q.isWait = true → (∀ m, q ≠ .mutex m) → a.list q = [] := by
    refine prog_induct (I := fun _ _ a => ∀ q : QueueRef, q.isWait = true → (∀ m, q ≠ .mutex m) →
      a.list q = []) ?_ ?_ ?_ ?_ h
    · exact fun _ _ hst q hq _ => hst.list_wait hq
    · intro n s a k a' cur e r _ _ hi hc hne he ho _ hi' hI q hq hm
      cases e with
      | svc c => exact absurd rfl (hne c)
      | pendSV => exact List.perm_nil.1 (hI q hq hm ▸ ho.wait_list_perm hi hc he hq nofun)
      | sysTick =>
        cases ho with
        | tick =>
          refine List.eq_nil_iff_forall_not_mem.2 fun t ht => ?_
          have hw := hi'.wf.of_wait hq ht
          rcases hi.tick_frame.tcb t with htcb | ⟨-, htcb⟩
          · have hmem : t ∈ a.tasks := hi.tick_frame.tasks ▸ hi'.wf.mem_tasks ht
            rw [htcb] at hw
            have := hi.wf.home_mem (q := q) hmem (by rw [Model.home, if_pos hw.1, hw.2])
            rw [hI q hq hm] at this
            cases this
          · rw [htcb] at hw
            cases hw.1
    · exact fun _ _ _ _ _ _ h => h
    · intro n s a k a' cur c next r _ hs hi hc hcode he _ ho _ _ hI q hq hm
      refine List.perm_nil.1 (hI q hq hm ▸ ho.wait_list_perm hi hc he hq fun hx => ?_)
      obtain ⟨m, hqm⟩ := hP hcode s.user q hx
      exact hm m hqm
  refine ⟨a, hs, hi, fun t ht hb => ?_⟩
  obtain ⟨q, hq, hw⟩ := (hi.wf.ok t ht (by simp)).waiting hb
  have hmem := hi.wf.home_mem (q := q) ht (by rw [Model.home, if_pos hb, hq])
  by_cases hm : ∃ m, q = .mutex m
  · obtain ⟨m, rfl⟩ := hm
    exact ⟨m, hmem⟩
  · rw [hempty q hw fun m hx => hm ⟨m, hx⟩] at hmem
    cases hmem

end Rtos
