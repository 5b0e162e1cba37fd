import Rtos.Model.Moves
import Rtos.Lib.Chain

/-! The invariant of a running system: every task in its queue, a live current
task, a next task that can run, and object blocks that are free and not tasks. -/

namespace Rtos

open Lib

namespace Model

/-- The free kernel objects are listed by the pool, and none of them is a task. -/
def PoolOk (a : Model) : Prop :=
  ∃ l, Chain (fun t => ptr (a.spMem t)) (ptr a.gKernelObjectPool.freeList) l ∧ ∀ t ∈ l, t ∉ a.tasks

structure Inv (a : Model) : Prop where
  wf : WF a
  pool : PoolOk a
  cur : ∃ c ∈ a.tasks, a.gCurrent = some c
  next : ∃ n ∈ a.tasks, a.gNext = some n ∧ (a.tcb n).state ≠ .blocked
  running : a.pendsv = false → ∀ c, a.gCurrent = some c → (a.tcb c).state = .running
  unique : ∀ t ∈ a.tasks, (a.tcb t).state = .running → a.gCurrent = some t
  idle : ∃ i, a.idle = some i ∧ (a.tcb i).state ≠ .blocked
  owner : ∀ m o, (a.mutex m).owner = some o → o ∈ a.tasks
  blockedOn : ∀ t ∈ a.tasks, (a.tcb t).blockedOn = none

variable {a b : Model} {t u cur : TaskId} {q : QueueRef} {p : Priority} {m : MutexId}

theorem PoolOk.congr (h : PoolOk a) (htasks : b.tasks = a.tasks)
    (hpool : b.gKernelObjectPool = a.gKernelObjectPool) (hsp : ∀ t, (b.tcb t).sp = (a.tcb t).sp) :
    PoolOk b := by
  obtain ⟨l, hl, hn⟩ := h
  refine ⟨l, ?_, by rw [htasks]; exact hn⟩
  rw [hpool]
  exact hl.congr fun x _ => congrArg ptr (hsp x)

theorem idle_mem {i : TaskId} (h : a.idle = some i) : i ∈ a.tasks := List.mem_of_mem_head? h

/-- Steps that leave the choice of tasks alone: no state changes, only links,
priorities and owners do. -/
theorem Inv.quiet (h : Inv a) (hw : WF b) (htasks : b.tasks = a.tasks)
    (hpool : b.gKernelObjectPool = a.gKernelObjectPool)
    (htcb : ∀ t, (b.tcb t).sp = (a.tcb t).sp ∧ (b.tcb t).state = (a.tcb t).state ∧
      (b.tcb t).blockedOn = (a.tcb t).blockedOn)
    (hcur : b.gCurrent = a.gCurrent) (hnext : b.gNext = a.gNext) (hpend : b.pendsv = a.pendsv)
    (howner : ∀ m o, (b.mutex m).owner = some o → o ∈ a.tasks) : Inv b := by
  have hst : ∀ t, (b.tcb t).state = (a.tcb t).state := fun t => (htcb t).2.1
  refine ⟨hw, h.pool.congr htasks hpool fun t => (htcb t).1, ?_, ?_, ?_, ?_, ?_, ?_, ?_⟩
  · rw [htasks, hcur]; exact h.cur
  · rw [htasks, hnext]; simpa only [hst] using h.next
  · rw [hpend, hcur]; simpa only [hst] using h.running
  · rw [htasks, hcur]; simpa only [hst] using h.unique
  · obtain ⟨i, hi, hs⟩ := h.idle
    exact ⟨i, by rw [Globals.idle, htasks]; exact hi, by rw [hst]; exact hs⟩
  · rw [htasks]; exact howner
  · rw [htasks]; exact fun t ht => by rw [(htcb t).2.2]; exact h.blockedOn t ht

theorem Inv.firstReady (h : Inv a) : ∃ n, a.firstReady = some n := by
  obtain ⟨i, hi, hs⟩ := h.idle
  exact firstReady_isSome h.wf (idle_mem hi) hs

theorem Inv.reschedule (h : Inv a) : Inv a.reschedule := by
  obtain ⟨n, hn⟩ := h.firstReady
  obtain ⟨h1, h2, -, -⟩ := firstReady_some h.wf hn
  refine ⟨h.wf.reschedule, h.pool.congr (by simp) (by simp) (by simp), by simpa using h.cur,
    ⟨n, by simpa using h1, by simpa using hn, by simpa using h2⟩, fun hp => ?_,
    by simpa using h.unique, by simpa [Globals.idle] using h.idle, by simpa using h.owner,
    by simpa using h.blockedOn⟩
  simpa using h.running (reschedule_pendsv.1 hp).1

theorem Inv.rotate (h : Inv a) (tcb : Option TaskId) : Inv (a.rotate tcb) :=
  h.quiet (h.wf.rotate tcb) (by simp) (by simp) (by simp) (by simp) (by simp) (by simp)
    (by simpa using h.owner)

theorem Inv.setPriority (h : Inv a) (ht : t ∈ a.tasks) (p : Priority) : Inv (a.setPriority t p) := by
  refine h.quiet (h.wf.setPriority ht p) (by simp) (by simp) (fun u => ?_) (by simp) (by simp)
    (by simp) (by simpa using h.owner)
  rw [setPriority_tcb]
  split_ifs with hu
  · simp [hu]
  · simp

/-- A blocked task becomes ready: it was neither current and running nor next. -/
theorem Inv.ready (h : Inv a) (hw : WF b) (ht : (a.tcb t).state = .blocked) {r : ℤ}
    (hg : b.toGlobals = a.toGlobals)
    (htcb : ∀ u, b.tcb u = if u = t then woken (a.tcb t) r else a.tcb u) : Inv b := by
  have hst : ∀ u, (a.tcb u).state ≠ .blocked → (b.tcb u).state = (a.tcb u).state := fun u hu => by
    rw [htcb, if_neg]
    exact fun hc => hu (hc ▸ ht)
  refine ⟨hw, h.pool.congr (by rw [hg]) (by rw [hg]) fun u => ?_, by rw [hg]; exact h.cur, ?_, ?_, ?_,
    ?_, by rw [hg]; exact h.owner, ?_⟩
  · rw [htcb]; split_ifs with hu
    · rw [hu]; rfl
    · rfl
  · obtain ⟨n, hn, hn1, hn2⟩ := h.next
    rw [hg]
    exact ⟨n, hn, hn1, by rwa [hst n hn2]⟩
  · rw [hg]
    intro hp c hc
    have h1 := h.running hp c hc
    rw [hst c (by rw [h1]; simp), h1]
  · rw [hg]
    intro u hu hr
    rw [htcb] at hr
    split_ifs at hr
    · cases hr
    · exact h.unique u hu hr
  · obtain ⟨i, hi, hs⟩ := h.idle
    rw [hg]
    exact ⟨i, hi, by rwa [hst i hs]⟩
  · rw [hg]
    intro u hu
    rw [htcb]
    split_ifs with hc
    · exact h.blockedOn t (hc ▸ hu)
    · exact h.blockedOn u hu

theorem Inv.release (h : Inv a) (hq : q.isWait = true) (ht : t ∈ a.list q) (r : ℤ) :
    Inv (a.release q t r) :=
  h.ready (h.wf.release ht r) (h.wf.of_wait hq ht).1 release_toGlobals fun _ => release_tcb

theorem Inv.wake (h : Inv a) (hq : q.isWait = true) (hs : q ≠ .sleep) (ht : t ∈ a.list q) :
    Inv (a.wake q t) :=
  h.ready (h.wf.wake hq hs ht) (h.wf.of_wait hq ht).1 wake_toGlobals fun _ => wake_tcb

theorem Inv.expire (h : Inv a) (ht : t ∈ a.timeouts) : Inv (a.expire t) :=
  h.ready (h.wf.expire ht) ((h.wf.ok t (h.wf.timeouts_tasks t ht) (by simp)).sleeping ht).1
    expire_toGlobals fun _ => expire_tcb

theorem Inv.expireAll (now : Word) (l : List TaskId) (h : Inv a) (hl : l.Nodup)
    (hsub : ∀ t ∈ l, t ∈ a.timeouts) : Inv (expireAll now l a) := by
  induction l generalizing a with
  | nil => exact h
  | cons t l ih =>
    rw [List.nodup_cons] at hl
    simp only [Model.expireAll]
    split_ifs
    · refine ih (h.expire (hsub t (by simp))) hl.2 fun u hu => ?_
      have hne : u ≠ t := fun hc => hl.1 (hc ▸ hu)
      rw [expire_timeouts]
      exact (List.mem_erase_of_ne hne).2 (hsub u (by simp [hu]))
    · exact h

theorem Inv.processTimeouts (h : Inv a) : Inv a.processTimeouts :=
  (h.expireAll a.gTick a.timeouts h.wf.timeouts_nodup fun _ ht => ht).reschedule

theorem Inv.sysTick (h : Inv a) : Inv a.sysTick := by
  have h1 : Inv { a with gTick := a.gTick + 1 } :=
    h.quiet (h.wf.congr rfl (by simp) rfl rfl) rfl rfl (by simp) rfl rfl rfl h.owner
  exact (h1.processTimeouts.rotate _).reschedule

theorem Inv.setMutex (h : Inv a) (m : MutexId) {f : Mutex → Mutex}
    (hf : ∀ o, (f (a.mutex m)).owner = some o → o ∈ a.tasks) : Inv (a.setMutex m f) := by
  refine h.quiet (h.wf.congr rfl (by simp) rfl rfl) rfl rfl (by simp) rfl rfl rfl fun m' o ho => ?_
  by_cases hm : m' = m
  · subst hm
    exact hf o (by simpa using ho)
  · exact h.owner m' o (by simpa [Model.setMutex, hm] using ho)

theorem Inv.setOwned (h : Inv a) (t : TaskId) (v : Option MutexId) :
    Inv (a.setTcb t fun c => { c with ownedMutexes := v }) := by
  have hk : ∀ {β : Type} (g : TcbData → β) (_ : g { a.tcb t with ownedMutexes := v } = g (a.tcb t))
      (u : TaskId), g ((a.setTcb t fun c => { c with ownedMutexes := v }).tcb u) = g (a.tcb u) :=
    fun g hg u => setTcb_keeps a u g hg
  refine h.quiet (h.wf.congr rfl (fun u => ⟨?_, ?_, ?_, ?_⟩) rfl rfl) rfl rfl (fun u => ⟨?_, ?_, ?_⟩)
    rfl rfl rfl h.owner
  · rw [hk TcbData.state rfl]
  · exact hk TcbData.waitQueue rfl u
  · exact hk TcbData.priority rfl u
  · exact hk TcbData.wakeTick rfl u
  · exact hk TcbData.sp rfl u
  · exact hk TcbData.state rfl u
  · exact hk TcbData.blockedOn rfl u

theorem Inv.addToOwned (h : Inv a) (t : TaskId) (m : MutexId) : Inv (a.addToOwned t m) :=
  (h.setMutex m fun o ho => h.owner m o ho).setOwned t (some m)

theorem Inv.dropOwned (h : Inv a) (t : TaskId) (m : MutexId) (found : Option (Option MutexId)) :
    Inv (a.dropOwned t m found) := by
  unfold Model.dropOwned
  split
  · exact h
  · refine Inv.setMutex ?_ m ?_
    · split
      · exact h.setOwned t _
      · exact h.setMutex _ fun o ho => h.owner _ o ho
    · split
      · exact fun o ho => h.owner m o ho
      · intro o ho
        refine (h.setMutex _ fun o ho => h.owner _ o ho).owner m o ho

/-- Blocking takes the current task out of the running; some other task is chosen. -/
theorem Inv.block (h : Inv a) (hp : a.pendsv = false) (hidle : a.gCurrent ≠ a.idle)
    (hq : q.isWait = true) {ticks : Word} (hticks : ticks ≠ osWaitForever → q = .sleep) (o : Bool) :
    Inv (a.block q ticks o) ∧ (a.block q ticks o).pendsv = true := by
  obtain ⟨cur, hcur, hc⟩ := h.cur
  have hrun := h.running hp cur hc
  have hs : (a.tcb cur).state ≠ .blocked := by rw [hrun]; simp
  have hnot : cur ∉ a.timeouts := fun hm => hs ((h.wf.ok cur hcur (by simp)).sleeping hm).1
  have hw : WF ((a.enqueue cur q o).sleepUntil cur ticks) := by
    refine (h.wf.enqueue hcur hs hq o).sleepUntil (by simpa using hcur) ticks (fun hf => ?_)
      (by simpa using hnot)
    simp [enqueue_tcb, hticks hf]
  have hdef : a.block q ticks o = ((a.enqueue cur q o).sleepUntil cur ticks).reschedule := by
    simp only [Model.block, hc]
  set b := (a.enqueue cur q o).sleepUntil cur ticks with hb
  have hg : b.toGlobals = a.toGlobals := by simp [hb]
  have hbc : (b.tcb cur).state = .blocked := by
    rw [hb, sleepUntil_tcb]; split_ifs <;> simp [enqueue_tcb]
  have hbu : ∀ u, u ≠ cur → b.tcb u = a.tcb u := fun u hu => by
    simp [hb, sleepUntil_tcb, enqueue_tcb, hu]
  obtain ⟨i, hi, his⟩ := h.idle
  have hic : i ≠ cur := fun he => hidle (by rw [hc, hi, he])
  obtain ⟨n, hn⟩ := firstReady_isSome hw (t := i) (by rw [hg]; exact idle_mem hi)
    (by rwa [hbu i hic])
  obtain ⟨n1, n2, -, -⟩ := firstReady_some hw hn
  have hne : b.firstReady ≠ b.gCurrent := by
    rw [hg, hc, hn]
    rintro he
    rw [Option.some.inj he] at n2
    exact n2 hbc
  rw [hdef]
  refine ⟨⟨hw.reschedule, h.pool.congr (by simp [hg]) (by simp [hg]) fun u => ?_,
    by simpa [hg] using h.cur, ⟨n, by simpa using n1, by simpa using hn, by simpa using n2⟩,
    fun hf => ?_, fun u hu hr => ?_, ⟨i, by simpa [Globals.idle, hg] using hi, ?_⟩,
    by simpa [hg] using h.owner, fun u hu => ?_⟩, ?_⟩
  · by_cases hu : u = cur
    · subst hu
      simp only [reschedule_tcb, hb, sleepUntil_tcb, enqueue_tcb]
      split_ifs <;> rfl
    · simp [hbu u hu]
  · exact absurd (reschedule_pendsv.1 hf).2 hne
  · rw [reschedule_tcb] at hr
    by_cases huc : u = cur
    · rw [huc, hbc] at hr
      cases hr
    · rw [hbu u huc] at hr
      simpa [hg] using h.unique u (by simpa [hg] using hu) hr
  · rw [reschedule_tcb, hbu i hic]
    exact his
  · by_cases huc : u = cur
    · subst huc
      have := h.blockedOn u hcur
      simp only [reschedule_tcb, hb, sleepUntil_tcb, enqueue_tcb]
      split_ifs <;> exact this
    · rw [reschedule_tcb, hbu u huc]
      exact h.blockedOn u (by simpa [hg] using hu)
  · by_contra hf
    exact hne (reschedule_pendsv.1 (by simpa using hf)).2

theorem Inv.yieldCpu (h : Inv a) : Inv a.yieldCpu := by
  have hr := h.rotate a.gCurrent
  obtain ⟨n, hn⟩ := hr.firstReady
  obtain ⟨h1, h2, -, -⟩ := firstReady_some hr.wf hn
  exact ⟨hr.wf.congr rfl (fun _ => ⟨Iff.rfl, rfl, rfl, rfl⟩) rfl rfl,
    hr.pool.congr rfl rfl fun _ => rfl, hr.cur, ⟨n, h1, hn, h2⟩, nofun, hr.unique, hr.idle,
    hr.owner, hr.blockedOn⟩

theorem Inv.pendSV (h : Inv a) : Inv (commit { a with pendsv := false }) := by
  obtain ⟨n, hn, hn1, hn2⟩ := h.next
  have hw : WF { a with pendsv := false } := h.wf.congr rfl (by simp) rfl rfl
  have hcw := hw.commit hn1 hn2
  rw [commit_eq (a := { a with pendsv := false }) hn1] at hcw ⊢
  refine ⟨hcw, h.pool, ⟨n, hn, rfl⟩, ⟨n, hn, hn1, ?_⟩, fun _ => ?_, fun u hu hr => ?_, ?_,
    h.owner, h.blockedOn⟩
  · simp [commitState]
  · rintro c hc
    obtain rfl := Option.some.inj hc
    simp [commitState]
  · simp only [commitState] at hr
    split_ifs at hr with h1 h2
    · rw [h1]
    · exact absurd ⟨h.unique u hu hr, hr⟩ h2
  · obtain ⟨i, hi, hs⟩ := h.idle
    refine ⟨i, hi, fun hc => hs ?_⟩
    exact (commitState_blocked (fun hin => hin ▸ hn2)).1 hc

/-! Creation. Whether it fails or not, free objects stay free and tasks stay tasks. -/

theorem PoolOk.head (h : PoolOk a) (hn : a.gKernelObjectPool.freeList ≠ 0) :
    ∃ l, Chain (fun t => ptr (a.spMem t)) (ptr (a.spMem a.gKernelObjectPool.freeList)) l ∧
      (∀ t ∈ l, t ∉ a.tasks ∧ t ≠ a.gKernelObjectPool.freeList) ∧
      a.gKernelObjectPool.freeList ∉ a.tasks := by
  obtain ⟨l, hl, hnot⟩ := h
  have hnd := hl.nodup
  cases l with
  | nil => simp [Chain, ptr, hn] at hl
  | cons x l =>
    obtain ⟨hx, hl⟩ := hl
    obtain rfl : a.gKernelObjectPool.freeList = x := by simpa [ptr, hn] using hx
    rw [List.nodup_cons] at hnd
    exact ⟨l, hl, fun t ht => ⟨hnot t (by simp [ht]), fun hc => hnd.1 (hc ▸ ht)⟩, hnot _ (by simp)⟩

/-- The result of a creation that fails: some object block may have been taken and given back. -/
structure CreateFailed (a b : Model) : Prop where
  eq : ∃ pool mem, b = { a.withSpMem mem with gKernelObjectPool := pool }
  sp : ∀ t ∈ a.tasks, (b.tcb t).sp = (a.tcb t).sp
  pool : PoolOk b

/-- The result of a creation that succeeds with block `t`. -/
structure Created (a b : Model) (t : TaskId) : Prop where
  new : t ∉ a.tasks
  eq : ∃ pool stackPool mem sp p, b = (({ a with
      gKernelObjectPool := pool, gUserStackPool := stackPool, stackMem := mem } : Model).setTcb t
        fun _ => newTcbData sp p).enroll t
  pool : PoolOk b

theorem CreateFailed.refl (h : PoolOk a) : CreateFailed a a :=
  ⟨⟨a.gKernelObjectPool, a.spMem, rfl⟩, fun _ _ => rfl, h⟩

section
variable (a t)

theorem enroll_cases : ∃ a' : Model, a' = ({ a with tasks := a.tasks ++ [t] } : Model).readyAdd t ∧
    ((a.gCurrent ≠ none ∧ a'.firstReady ≠ a.gCurrent) ∧ a.enroll t = a'.schedule.trigger ∨
      ¬ (a.gCurrent ≠ none ∧ a'.firstReady ≠ a.gCurrent) ∧ a.enroll t = a'.schedule) := by
  refine ⟨_, rfl, ?_⟩
  unfold enroll
  simp only
  split_ifs with h
  · exact .inl ⟨h, rfl⟩
  · exact .inr ⟨h, rfl⟩

@[simp] theorem enroll_tcb : (a.enroll t).tcb = a.tcb := by
  obtain ⟨_, rfl, ⟨-, h⟩ | ⟨-, h⟩⟩ := enroll_cases a t <;> rw [h] <;> rfl

@[simp] theorem enroll_tasks : (a.enroll t).tasks = a.tasks ++ [t] := by
  obtain ⟨_, rfl, ⟨-, h⟩ | ⟨-, h⟩⟩ := enroll_cases a t <;> rw [h] <;> rfl

@[simp] theorem enroll_pool : (a.enroll t).gKernelObjectPool = a.gKernelObjectPool := by
  obtain ⟨_, rfl, ⟨-, h⟩ | ⟨-, h⟩⟩ := enroll_cases a t <;> rw [h] <;> rfl

@[simp] theorem enroll_timeouts : (a.enroll t).timeouts = a.timeouts := by
  obtain ⟨_, rfl, ⟨-, h⟩ | ⟨-, h⟩⟩ := enroll_cases a t <;> rw [h] <;> rfl

@[simp] theorem enroll_mutex : (a.enroll t).mutex = a.mutex := by
  obtain ⟨_, rfl, ⟨-, h⟩ | ⟨-, h⟩⟩ := enroll_cases a t <;> rw [h] <;> rfl

@[simp] theorem enroll_semCount : (a.enroll t).semCount = a.semCount := by
  obtain ⟨_, rfl, ⟨-, h⟩ | ⟨-, h⟩⟩ := enroll_cases a t <;> rw [h] <;> rfl

@[simp] theorem enroll_gCurrent : (a.enroll t).gCurrent = a.gCurrent := by
  obtain ⟨_, rfl, ⟨-, h⟩ | ⟨-, h⟩⟩ := enroll_cases a t <;> rw [h] <;> rfl

@[simp] theorem enroll_gTick : (a.enroll t).gTick = a.gTick := by
  obtain ⟨_, rfl, ⟨-, h⟩ | ⟨-, h⟩⟩ := enroll_cases a t <;> rw [h] <;> rfl

theorem enroll_gNext : (a.enroll t).gNext = (a.enroll t).firstReady := by
  obtain ⟨_, rfl, ⟨-, h⟩ | ⟨-, h⟩⟩ := enroll_cases a t <;> rw [h] <;> rfl

theorem enroll_list (q : QueueRef) : (a.enroll t).list q =
    if q = .ready (a.tcb t).priority then a.list q ++ [t] else a.list q := by
  have h : (a.enroll t).list = (({ a with tasks := a.tasks ++ [t] } : Model).readyAdd t).list := by
    obtain ⟨_, rfl, ⟨-, h⟩ | ⟨-, h⟩⟩ := enroll_cases a t <;> rw [h] <;> rfl
  rw [h, readyAdd, add, setList_list]
  split_ifs with hq
  · rw [hq]
  · rfl

theorem enroll_pendsv : (a.enroll t).pendsv =
    (a.pendsv || decide (a.gCurrent ≠ none ∧ (a.enroll t).firstReady ≠ a.gCurrent)) := by
  obtain ⟨a', ha, ⟨hc, h⟩ | ⟨hc, h⟩⟩ := enroll_cases a t
  · have hf : (a.enroll t).firstReady = a'.firstReady := by rw [h]; exact firstReady_congr rfl
    rw [hf, decide_eq_true hc, Bool.or_true, h]
    rfl
  · have hf : (a.enroll t).firstReady = a'.firstReady := by rw [h]; exact firstReady_congr rfl
    rw [hf, decide_eq_false hc, Bool.or_false, h, ha]
    rfl

end

/-- A block just taken off the pool can be given back, or kept out of it. -/
theorem PoolOk.kobjFree (l : List TaskId) {b : Model}
    (hl : Chain (fun t => ptr (b.spMem t)) (ptr b.gKernelObjectPool.freeList) l)
    (hnot : ∀ x ∈ l, x ∉ b.tasks ∧ x ≠ t) (ht : t ∉ b.tasks) : PoolOk (b.kobjFree t).2 := by
  simp only [Model.kobjFree, osMempoolFree]
  split_ifs with h0 h1 h2
  · exact ⟨l, hl, fun x hx => (hnot x hx).1⟩
  · exact ⟨l, hl, fun x hx => (hnot x hx).1⟩
  · exact ⟨l, hl, fun x hx => (hnot x hx).1⟩
  · refine ⟨t :: l, ⟨by simp [ptr, h0], ?_⟩, fun x hx => ?_⟩
    · simp only [spMem, withSpMem, Function.update_self]
      refine hl.congr fun x hx => ?_
      simp only [Function.update_of_ne (hnot x hx).2]
    · rcases List.mem_cons.1 hx with rfl | hx
      · exact ht
      · exact (hnot x hx).1

theorem kobjAlloc_some (hn : a.gKernelObjectPool.freeList ≠ 0) :
    ∃ pool : Mempool, pool.freeList = a.spMem a.gKernelObjectPool.freeList ∧
      a.kobjAlloc sizeofTcb =
        (a.gKernelObjectPool.freeList, { a with gKernelObjectPool := pool }) := by
  have hsz : ¬ (sizeofTcb = 0 ∨ osKernelObjectBlockSize < sizeofTcb) := by decide
  refine ⟨{ a.gKernelObjectPool with
    freeList := a.spMem a.gKernelObjectPool.freeList
    freeCount := u32 (a.gKernelObjectPool.freeCount + (2 ^ 32 - 1)) }, rfl, ?_⟩
  simp [kobjAlloc, hsz, osMempoolAlloc, hn]

theorem kstackAlloc_cases (words : ℕ) (a : Model) : a.kstackAlloc words = (0, a) ∨
    ∃ s pool, s ≠ 0 ∧ a.kstackAlloc words = (s, { a with gUserStackPool := pool }) := by
  unfold kstackAlloc osMempoolAlloc
  split_ifs with h1
  · exact .inl rfl
  · simp only
    split_ifs with h2
    · exact .inr ⟨_, _, h2, rfl⟩
    · exact .inl rfl

theorem taskCreate_cases (h : PoolOk a) (args : Option TaskCreateArgs) :
    ((a.taskCreate args).1 = -1 ∧ CreateFailed a (a.taskCreate args).2) ∨
      ((a.taskCreate args).1 = 0 ∧ ∃ t, Created a (a.taskCreate args).2 t) := by
  cases args with
  | none => exact .inl ⟨rfl, .refl h⟩
  | some args =>
    by_cases hn : a.gKernelObjectPool.freeList = 0
    · have ha : (a.kobjAlloc sizeofTcb).1 = 0 ∧ (a.kobjAlloc sizeofTcb).2 = a := by
        unfold kobjAlloc osMempoolAlloc
        split_ifs <;> simp_all
      simp only [taskCreate, ha.1, ha.2, if_true]
      split_ifs <;> exact .inl ⟨rfl, .refl h⟩
    obtain ⟨l, hl, hnot, hnew⟩ := h.head hn
    obtain ⟨pool, hfree, ha⟩ := kobjAlloc_some hn
    have hl' : Chain (fun t => ptr (a.spMem t)) (ptr pool.freeList) l := by rwa [hfree]
    simp only [taskCreate, ha]
    split_ifs with he hp hs
    · exact .inl ⟨rfl, .refl h⟩
    · -- no stack: the object goes back to the pool
      rcases kstackAlloc_cases args.stackWords { a with gKernelObjectPool := pool } with hk | hk
      · rw [hk]
        refine .inl ⟨rfl, ⟨_, (osMempoolFree a.spMem pool a.gKernelObjectPool.freeList).2.1, rfl⟩,
          fun u hu => ?_, PoolOk.kobjFree l hl' hnot hnew⟩
        have hne : u ≠ a.gKernelObjectPool.freeList := fun hc => hnew (hc ▸ hu)
        simp only [Model.kobjFree, osMempoolFree, withSpMem]
        split_ifs <;> simp [Function.update_of_ne hne, spMem]
      · obtain ⟨s, spool, h0, hk⟩ := hk
        rw [hk] at hs
        exact absurd hs h0
    · rcases kstackAlloc_cases args.stackWords { a with gKernelObjectPool := pool } with hk | hk
      · rw [hk] at hs
        exact absurd rfl hs
      · obtain ⟨s, spool, h0, hk⟩ := hk
        rw [hk]
        refine .inr ⟨rfl, _, hnew, ⟨_, _, _, _, _, rfl⟩, ⟨l, ?_, fun x hx => ?_⟩⟩
        · rw [enroll_pool]
          refine hl'.congr fun x hx => ?_
          rw [spMem, enroll_tcb, createInternal, setTcb_tcb_ne _ _ (hnot x hx).2]
          rfl
        · rw [enroll_tasks, List.mem_append, not_or]
          exact ⟨(hnot x hx).1, by simpa using (hnot x hx).2⟩
    · exact .inl ⟨rfl, .refl h⟩

end Model
end Rtos
