import Rtos.Model.Invariant

/-! What a lock and an unlock come to in a running system, and the invariant over
every entry. `blocked_on` is set and cleared within one lock call, so no walk ever
finds it set in another task and the inheritance walk ends after one owner. -/

namespace Rtos

open Lib

namespace Model

variable {a b : Model} {t u cur o : TaskId} {q : QueueRef} {p : Priority} {m : MutexId}

def setBlockedOn (t : TaskId) (v : Option MutexId) (a : Model) : Model :=
  a.setTcb t fun c => { c with blockedOn := v }

/-- The owner takes over the priority of a more urgent caller. -/
def boost (cur o : TaskId) (a : Model) : Model :=
  if (a.tcb cur).priority < (a.tcb o).priority then a.setPriority o (a.tcb cur).priority else a

theorem setTcb_comm {f g : TcbData → TcbData} (h : t ≠ u) :
    (a.setTcb t f).setTcb u g = (a.setTcb u g).setTcb t f := by
  simp only [setTcb, Function.update_of_ne h.symm, Function.update_of_ne h,
    Function.update_comm h]

theorem setTcb_setTcb {f g : TcbData → TcbData} :
    (a.setTcb t f).setTcb t g = a.setTcb t (g ∘ f) := by
  simp [setTcb]

theorem setTcb_same {f : TcbData → TcbData} (h : f (a.tcb t) = a.tcb t) : a.setTcb t f = a := by
  simp [setTcb, h]

/-! `setBlockedOn` passes through everything that does not read the field. -/

theorem setBlockedOn_insert (v : Option MutexId) :
    (a.setBlockedOn t v).insertByPriority q u = (a.insertByPriority q u).setBlockedOn t v := by
  have hp : ∀ i, ((a.setBlockedOn t v).tcb i).priority = (a.tcb i).priority := fun i =>
    setTcb_keeps a i TcbData.priority rfl
  simp only [insertByPriority, hp]
  rfl

theorem setBlockedOn_readyRemove (v : Option MutexId) :
    (a.setBlockedOn t v).readyRemove u = (a.readyRemove u).setBlockedOn t v := by
  have hp : ((a.setBlockedOn t v).tcb u).priority = (a.tcb u).priority :=
    setTcb_keeps a u TcbData.priority rfl
  simp only [readyRemove, hp]
  rfl

theorem setBlockedOn_readyAdd (v : Option MutexId) :
    (a.setBlockedOn t v).readyAdd u = (a.readyAdd u).setBlockedOn t v := by
  have hp : ((a.setBlockedOn t v).tcb u).priority = (a.tcb u).priority :=
    setTcb_keeps a u TcbData.priority rfl
  simp only [readyAdd, hp]
  rfl

theorem setBlockedOn_reschedule (v : Option MutexId) :
    (a.setBlockedOn t v).reschedule = a.reschedule.setBlockedOn t v := by
  unfold reschedule
  have h : (a.setBlockedOn t v).firstReady = a.firstReady := firstReady_congr rfl
  rw [h]
  have hc : (a.setBlockedOn t v).gCurrent = a.gCurrent := rfl
  rw [hc]
  split_ifs <;> simp only [schedule, trigger, h] <;> rfl

theorem setBlockedOn_setPriority (v : Option MutexId) (h : t ≠ u) :
    (a.setBlockedOn t v).setPriority u p = (a.setPriority u p).setBlockedOn t v := by
  have hu : (a.setBlockedOn t v).tcb u = a.tcb u := setTcb_tcb_ne a _ h.symm
  have hset : ∀ b : Model, (b.setBlockedOn t v).setTcb u (fun c => { c with priority := p }) =
      (b.setTcb u fun c => { c with priority := p }).setBlockedOn t v := fun b => setTcb_comm h
  have hrem : ∀ (b : Model) q, (b.setBlockedOn t v).remove q u = (b.remove q u).setBlockedOn t v :=
    fun _ _ => rfl
  simp only [setPriority, hu]
  split
  · rw [hset, hrem, setBlockedOn_insert]
  · rw [hset]
  · rw [setBlockedOn_readyRemove, hset, setBlockedOn_readyAdd]

theorem setBlockedOn_boost (v : Option MutexId) (h : cur ≠ o) :
    (a.setBlockedOn cur v).boost cur o = (a.boost cur o).setBlockedOn cur v := by
  have hp : ∀ i, ((a.setBlockedOn cur v).tcb i).priority = (a.tcb i).priority := fun i =>
    setTcb_keeps a i TcbData.priority rfl
  simp only [boost, hp]
  split_ifs
  · exact setBlockedOn_setPriority v h
  · rfl

theorem setBlockedOn_block (v : Option MutexId) (hc : a.gCurrent = some cur) :
    (a.setBlockedOn cur v).block q osWaitForever true =
      (a.block q osWaitForever true).setBlockedOn cur v := by
  have hc' : (a.setBlockedOn cur v).gCurrent = some cur := hc
  have hset : ∀ b : Model, (b.setBlockedOn cur v).setTcb cur (fun c => { c with
        state := .blocked, waitQueue := some q, wakeTick := osWaitForever, waitResult := 0 }) =
      (b.setTcb cur fun c => { c with
        state := .blocked, waitQueue := some q, wakeTick := osWaitForever
        waitResult := 0 }).setBlockedOn cur v := fun b => by
    rw [setBlockedOn, setTcb_setTcb, setBlockedOn, setTcb_setTcb]
    rfl
  simp only [block, hc, hc', sleepUntil, ne_eq, not_true_eq_false, if_false, enqueue, if_true]
  rw [setBlockedOn_readyRemove, hset, setBlockedOn_insert, setBlockedOn_reschedule]

/-! The inheritance walk. -/

theorem boost_tcb : (a.boost cur o).tcb u =
    if u = o ∧ (a.tcb cur).priority < (a.tcb o).priority then
      { a.tcb o with priority := (a.tcb cur).priority }
    else a.tcb u := by
  unfold boost
  split_ifs with h1 h2 h2
  · rw [setPriority_tcb, if_pos h2.1]
  · rw [setPriority_tcb, if_neg fun hu => h2 ⟨hu, h1⟩]
  · exact absurd h2.2 h1
  · rfl

@[simp] theorem boost_toGlobals : (a.boost cur o).toGlobals = a.toGlobals := by
  unfold boost; split_ifs <;> simp

@[simp] theorem boost_timeouts : (a.boost cur o).timeouts = a.timeouts := by
  unfold boost; split_ifs <;> simp

theorem Inv.boost (h : Inv a) (cur : TaskId) (ho : o ∈ a.tasks) : Inv (a.boost cur o) := by
  unfold Model.boost
  split_ifs
  · exact h.setPriority ho _
  · exact h

/-- With `blocked_on` clear in the owner, the walk boosts it and stops. -/
theorem inherit_returns (cur : TaskId) (ho : (a.tcb o).blockedOn = none) :
    (inherit cur (some o, a)).Returns b ↔ a.boost cur o = b := by
  have hstep : inheritStep cur (some o, a) = .inr (a.boost cur o) := by
    simp only [inheritStep, boost]
    split_ifs with h
    · have : ((a.setPriority o (a.tcb cur).priority).tcb o).blockedOn = none := by
        rw [setPriority_tcb, if_pos rfl]; exact ho
      rw [this]
      split
      · cases ‹none = some _›
      · rfl
    · rfl
  rw [inherit, Comp.returns_loop, hstep]
  simp

theorem Inv.cur_mem (h : Inv a) (hc : a.gCurrent = some cur) : cur ∈ a.tasks := by
  obtain ⟨c, hm, hc'⟩ := h.cur
  rw [hc] at hc'
  exact Option.some.inj hc' ▸ hm

/-- The contended lock: `blocked_on` is back where it was. -/
theorem lock_blocks (h : Inv a) (hc : a.gCurrent = some cur) (hoc : o ≠ cur) :
    ((((a.setBlockedOn cur (some m)).boost cur o).block (.mutex m) osWaitForever true).setBlockedOn
      cur none) = (a.boost cur o).block (.mutex m) osWaitForever true := by
  have hbc : (a.boost cur o).gCurrent = some cur := by simp [hc]
  rw [setBlockedOn_boost _ hoc.symm, setBlockedOn_block _ hbc, setBlockedOn, setBlockedOn,
    setTcb_setTcb]
  apply setTcb_same
  have hn : (((a.boost cur o).block (.mutex m) osWaitForever true).tcb cur).blockedOn = none := by
    rw [block_tcb hbc, if_pos rfl, boost_tcb, if_neg fun hx => hoc hx.1.symm]
    exact h.blockedOn cur (h.cur_mem hc)
  simp only [Function.comp]
  rw [← hn]

/-- A lock in a running system: free, held by the caller, or held by another task. -/
theorem mutexLock_returns (h : Inv a) (hc : a.gCurrent = some cur) {r : ℤ} :
    (a.mutexLock (some m)).Returns (r, b) ↔
      ((a.mutex m).owner = none ∧ r = 0 ∧
        b = (a.setMutex m fun x => { x with owner := some cur }).addToOwned cur m) ∨
      ((a.mutex m).owner = some cur ∧ r = -1 ∧ b = a) ∨
      (∃ o, (a.mutex m).owner = some o ∧ o ≠ cur ∧ r = 0 ∧
        b = ((a.boost cur o).block (.mutex m) osWaitForever true).addToOwned cur m) := by
  simp only [mutexLock, Comp.returns_bind, Comp.returns_ofOption, hc, Option.some.injEq,
    exists_eq_left']
  cases hown : (a.mutex m).owner with
  | none => simp [eq_comm]
  | some o =>
    by_cases hoc : o = cur
    · simp [hoc, eq_comm]
    · have hob : ((a.setBlockedOn cur (some m)).tcb o).blockedOn = none := by
        rw [setBlockedOn, setTcb_tcb_ne _ _ hoc]
        exact h.blockedOn o (h.owner m o hown)
      have hret := fun x => inherit_returns (b := x) cur hob
      have hl := lock_blocks (m := m) h hc hoc
      unfold setBlockedOn at hret hl
      simp only [hoc, if_false, Comp.returns_bind, hret, exists_eq_left', hl]
      have hco : cur ≠ o := fun he => hoc he.symm
      simp [hco, eq_comm]

/-- An unlock by a task that is not the owner does nothing; the owner's takes the mutex
off its list, settles its priority, and passes the mutex on. -/
theorem mutexUnlock_returns (hc : a.gCurrent = some cur) {r : ℤ} :
    (a.mutexUnlock (some m)).Returns (r, b) ↔
      ((a.mutex m).owner ≠ some cur ∧ r = -1 ∧ b = a) ∨
      ((a.mutex m).owner = some cur ∧ r = 0 ∧ ∃ found p,
        (ownedFind (fun c => (a.mutex c).nextMutex) m (none, (a.tcb cur).ownedMutexes)).Returns found ∧
        ((a.dropOwned cur m found).recomputePriority cur).Returns p ∧
        b = ((a.dropOwned cur m found).setPriority cur p).handOff m) := by
  simp only [mutexUnlock, hc]
  split_ifs with hown
  · simp [hown, eq_comm]
  · rw [not_not] at hown
    simp only [Comp.returns_bind, Comp.returns_ofOption, Option.some.injEq, exists_eq_left',
      removeFromOwned, Comp.returns_pure, hown, Prod.mk.injEq]
    constructor
    · rintro ⟨x, ⟨found, hf, rfl⟩, p, hp, rfl, rfl⟩
      exact .inr ⟨trivial, rfl, found, p, hf, hp, rfl⟩
    · rintro (⟨hne, -⟩ | ⟨-, rfl, found, p, hf, hp, rfl⟩)
      · exact absurd rfl hne
      · exact ⟨_, ⟨found, hf, rfl⟩, p, hp, rfl, rfl⟩

theorem Inv.handOff (h : Inv a) (m : MutexId) : Inv (a.handOff m) := by
  unfold Model.handOff
  split
  · rename_i t l hl
    have hm : t ∈ a.list (.mutex m) := by simp [hl]
    have hw := h.wake (q := .mutex m) rfl (by simp) hm
    refine (hw.setMutex m fun o ho => ?_).reschedule
    obtain rfl := Option.some.inj ho
    simpa using h.wf.mem_tasks hm
  · exact h.setMutex m nofun

theorem Inv.createFailed (h : Inv a) (hf : CreateFailed a b) : Inv b := by
  obtain ⟨⟨pool, mem, rfl⟩, hsp, hpool⟩ := hf
  exact ⟨h.wf.congr rfl (fun _ => ⟨Iff.rfl, rfl, rfl, rfl⟩) rfl rfl, hpool, h.cur, h.next, h.running,
    h.unique, h.idle, h.owner, h.blockedOn⟩

theorem Created.wf (hf : Created a b t) (hw : WF a) : WF b := by
  obtain ⟨hnew, ⟨pool, stackPool, mem, sp, p, rfl⟩, -⟩ := hf
  have h1 : WF ({ a with gKernelObjectPool := pool, gUserStackPool := stackPool
                         stackMem := mem } : Model) :=
    hw.congr rfl (fun _ => ⟨Iff.rfl, rfl, rfl, rfl⟩) rfl rfl
  exact (h1.setTcb_new hnew _).enroll hnew (by simp [newTcbData]) (by simp [newTcbData])

/-- What a creation leaves alone. -/
structure Created.Frame (a b : Model) (t : TaskId) : Prop where
  tasks : b.tasks = a.tasks ++ [t]
  tcb : ∀ u, u ≠ t → b.tcb u = a.tcb u
  new : ∃ sp p, b.tcb t = newTcbData sp p
  list : ∀ q, b.list q = if q = .ready (b.tcb t).priority then a.list q ++ [t] else a.list q
  timeouts : b.timeouts = a.timeouts
  mutex : b.mutex = a.mutex
  semCount : b.semCount = a.semCount
  gCurrent : b.gCurrent = a.gCurrent
  gTick : b.gTick = a.gTick
  gNext : b.gNext = b.firstReady
  pendsv : b.pendsv = (a.pendsv || decide (a.gCurrent ≠ none ∧ b.firstReady ≠ a.gCurrent))

theorem Created.frame (hf : Created a b t) : Created.Frame a b t := by
  obtain ⟨-, ⟨pool, stackPool, mem, sp, p, rfl⟩, -⟩ := hf
  refine ⟨by simp, fun u hu => ?_, ⟨sp, p, by simp⟩, fun q => ?_, by simp, by simp, by simp, by simp,
    by simp, enroll_gNext _ _, enroll_pendsv _ _⟩
  · rw [enroll_tcb, setTcb_tcb_ne _ _ hu]
  · rw [enroll_list, enroll_tcb]
    rfl

theorem Inv.created (h : Inv a) (hf : Created a b t) : Inv b := by
  have hw := hf.wf h.wf
  have fr := hf.frame
  obtain ⟨sp, p, hnew⟩ := fr.new
  have hne : ∀ u ∈ a.tasks, u ≠ t := fun u hu hc => hf.new (hc ▸ hu)
  have hmem : ∀ u ∈ a.tasks, u ∈ b.tasks := fun u hu => by rw [fr.tasks]; simp [hu]
  have hold : ∀ u ∈ b.tasks, u ∈ a.tasks ∨ u = t := fun u hu => by
    rw [fr.tasks] at hu; simpa using hu
  obtain ⟨c, hc, hcur⟩ := h.cur
  obtain ⟨i, hi, his⟩ := h.idle
  have hbi : b.idle = some i := by
    rw [Globals.idle, fr.tasks, List.head?_append, show a.tasks.head? = some i from hi]
    rfl
  obtain ⟨n, hn⟩ := firstReady_isSome hw (hmem i (idle_mem hi))
    (by rw [fr.tcb i (hne i (idle_mem hi))]; exact his)
  obtain ⟨n1, n2, -, -⟩ := firstReady_some hw hn
  refine ⟨hw, hf.pool, ⟨c, hmem c hc, by rw [fr.gCurrent, hcur]⟩, ⟨n, n1, by rw [fr.gNext, hn], n2⟩,
    fun hp => ?_, fun u hu hr => ?_, ⟨i, hbi, ?_⟩, fun m o ho => ?_, fun u hu => ?_⟩
  · rw [fr.pendsv, Bool.or_eq_false_iff, decide_eq_false_iff_not] at hp
    intro c' hc'
    rw [fr.gCurrent, hcur] at hc'
    obtain rfl := Option.some.inj hc'
    rw [fr.tcb c (hne c hc)]
    exact h.running hp.1 c hcur
  · rw [fr.gCurrent]
    rcases hold u hu with hu | rfl
    · rw [fr.tcb u (hne u hu)] at hr
      exact h.unique u hu hr
    · rw [hnew] at hr
      cases hr
  · rw [fr.tcb i (hne i (idle_mem hi))]
    exact his
  · rw [fr.mutex] at ho
    exact hmem o (h.owner m o ho)
  · rcases hold u hu with hu | rfl
    · rw [fr.tcb u (hne u hu)]
      exact h.blockedOn u hu
    · rw [hnew]
      rfl

/-- Every way an entry can end in a running system whose current task is `cur`. -/
inductive Outcome (a : Model) (cur : TaskId) : Entry → ℤ → Model → Prop
  | tick : Outcome a cur .sysTick 0 a.sysTick
  | pendSV : Outcome a cur .pendSV 0 (commit { a with pendsv := false })
  | yield : Outcome a cur (.svc .yield) 0 a.yieldCpu
  | delayZero : Outcome a cur (.svc (.delayTicks 0)) 0 a.yieldCpu
  | delay {ticks : Word} : ticks ≠ 0 →
      Outcome a cur (.svc (.delayTicks ticks)) 0 (a.block .sleep ticks false)
  | takeNull : Outcome a cur (.svc (.semTake none)) (-1) a
  | take {s : SemId} : 0 < a.semCount s → Outcome a cur (.svc (.semTake (some s))) 0
      { a with semCount := Function.update a.semCount s (i32 (a.semCount s - 1)) }
  | takeBlock {s : SemId} : ¬ 0 < a.semCount s → Outcome a cur (.svc (.semTake (some s))) 0
      (a.block (.sem s) osWaitForever false)
  | giveNull : Outcome a cur (.svc (.semGive none)) (-1) a
  | give {s : SemId} : a.list (.sem s) = [] → Outcome a cur (.svc (.semGive (some s))) 0
      { a with semCount := Function.update a.semCount s (i32 (a.semCount s + 1)) }
  | giveWake {s : SemId} {t : TaskId} {l : List TaskId} : a.list (.sem s) = t :: l →
      Outcome a cur (.svc (.semGive (some s))) 0 (a.wake (.sem s) t).reschedule
  | lockNull : Outcome a cur (.svc (.mutexLock none)) (-1) a
  | lockFree {m : MutexId} : (a.mutex m).owner = none → Outcome a cur (.svc (.mutexLock (some m))) 0
      ((a.setMutex m fun x => { x with owner := some cur }).addToOwned cur m)
  | lockOwn {m : MutexId} : (a.mutex m).owner = some cur →
      Outcome a cur (.svc (.mutexLock (some m))) (-1) a
  | lockBlock {m : MutexId} {o : TaskId} : (a.mutex m).owner = some o → o ≠ cur →
      Outcome a cur (.svc (.mutexLock (some m))) 0
        (((a.boost cur o).block (.mutex m) osWaitForever true).addToOwned cur m)
  | unlockNull : Outcome a cur (.svc (.mutexUnlock none)) (-1) a
  | unlockOther {m : MutexId} : (a.mutex m).owner ≠ some cur →
      Outcome a cur (.svc (.mutexUnlock (some m))) (-1) a
  | unlock {m : MutexId} {found : Option (Option MutexId)} {p : Priority} :
      (a.mutex m).owner = some cur →
      (ownedFind (fun c => (a.mutex c).nextMutex) m (none, (a.tcb cur).ownedMutexes)).Returns found →
      ((a.dropOwned cur m found).recomputePriority cur).Returns p →
      Outcome a cur (.svc (.mutexUnlock (some m))) 0
        (((a.dropOwned cur m found).setPriority cur p).handOff m)
  | createFailed {args : Option TaskCreateArgs} {b : Model} : CreateFailed a b →
      Outcome a cur (.svc (.taskCreate args)) (-1) b
  | created {args : Option TaskCreateArgs} {b : Model} {t : TaskId} : Created a b t →
      Outcome a cur (.svc (.taskCreate args)) 0 b
  | unrecognized : Outcome a cur (.svc .unrecognized) (-1) a

theorem exec_outcome (h : Inv a) (hc : a.gCurrent = some cur) {e : Entry} {r : ℤ}
    (hr : (a.exec e).Returns (r, b)) : Outcome a cur e r b := by
  cases e with
  | sysTick =>
    obtain ⟨rfl, rfl⟩ := Prod.mk.inj (Comp.returns_pure.1 hr)
    exact .tick
  | pendSV =>
    obtain ⟨rfl, rfl⟩ := Prod.mk.inj (Comp.returns_pure.1 hr)
    exact .pendSV
  | svc c =>
    cases c with
    | yield =>
      obtain ⟨rfl, rfl⟩ := Prod.mk.inj (Comp.returns_pure.1 hr)
      exact .yield
    | delayTicks ticks =>
      obtain ⟨rfl, rfl⟩ := Prod.mk.inj (Comp.returns_pure.1 hr)
      unfold delayTicks
      split_ifs with h0
      · subst h0; exact .delayZero
      · exact .delay h0
    | semTake s =>
      have he := Comp.returns_pure.1 hr
      cases s with
      | none => cases he; exact .takeNull
      | some s =>
        simp only [semTake] at he
        split_ifs at he with hs <;> cases he
        · exact .take hs
        · exact .takeBlock hs
    | semGive s =>
      have he := Comp.returns_pure.1 hr
      cases s with
      | none => cases he; exact .giveNull
      | some s =>
        simp only [semGive] at he
        split at he <;> cases he
        · exact .giveWake ‹_›
        · exact .give ‹_›
    | taskCreate args =>
      have he := Comp.returns_pure.1 hr
      rcases taskCreate_cases h.pool args with ⟨h1, h2⟩ | ⟨h1, t, h2⟩
      · rw [he] at h1 h2
        subst h1
        exact .createFailed h2
      · rw [he] at h1 h2
        subst h1
        exact .created h2
    | unrecognized =>
      obtain ⟨rfl, rfl⟩ := Prod.mk.inj (Comp.returns_pure.1 hr)
      exact .unrecognized
    | mutexLock mutex =>
      cases mutex with
      | none =>
        obtain ⟨rfl, rfl⟩ := Prod.mk.inj (Comp.returns_pure.1 hr)
        exact .lockNull
      | some m =>
        rcases (mutexLock_returns h hc).1 hr with
          ⟨ho, rfl, rfl⟩ | ⟨ho, rfl, rfl⟩ | ⟨o, ho, hoc, rfl, rfl⟩
        · exact .lockFree ho
        · exact .lockOwn ho
        · exact .lockBlock ho hoc
    | mutexUnlock mutex =>
      cases mutex with
      | none =>
        obtain ⟨rfl, rfl⟩ := Prod.mk.inj (Comp.returns_pure.1 hr)
        exact .unlockNull
      | some m =>
        rcases (mutexUnlock_returns hc).1 hr with
          ⟨ho, rfl, rfl⟩ | ⟨ho, rfl, found, p, hf, hp, rfl⟩
        · exact .unlockOther ho
        · exact .unlock ho hf hp

@[simp] theorem dropOwned_tasks (found : Option (Option MutexId)) :
    (a.dropOwned t m found).tasks = a.tasks := by
  unfold dropOwned; split
  · rfl
  · split <;> rfl

theorem Inv.outcome (h : Inv a) (hc : a.gCurrent = some cur) {e : Entry} (he : a.Enabled e) {r : ℤ}
    (ho : Outcome a cur e r b) : Inv b := by
  have hcur := h.cur_mem hc
  cases ho with
  | tick => exact h.sysTick
  | pendSV => exact h.pendSV
  | yield => exact h.yieldCpu
  | delayZero => exact h.yieldCpu
  | delay _ => exact (h.block he.1 he.2 rfl (fun _ => rfl) false).1
  | take _ => exact h.quiet (h.wf.congr rfl (by simp) rfl rfl) rfl rfl (by simp) rfl rfl rfl h.owner
  | takeBlock _ => exact (h.block he.1 he.2 rfl (fun hf => absurd rfl hf) false).1
  | give _ => exact h.quiet (h.wf.congr rfl (by simp) rfl rfl) rfl rfl (by simp) rfl rfl rfl h.owner
  | giveWake hl => exact (h.wake rfl (by simp) (by simp [hl])).reschedule
  | lockFree _ =>
    refine (h.setMutex _ fun o ho => ?_).addToOwned cur _
    exact Option.some.inj ho ▸ hcur
  | @lockBlock m o ho _ =>
    have hb := h.boost cur (h.owner m o ho)
    have hp : (a.boost cur o).pendsv = false := by rw [boost_toGlobals]; exact he.1
    have hi : (a.boost cur o).gCurrent ≠ (a.boost cur o).idle := by
      rw [boost_toGlobals]; exact he.2
    exact ((hb.block hp hi rfl (fun hf => absurd rfl hf) true).1).addToOwned cur m
  | unlock _ _ _ =>
    refine Inv.handOff ((h.dropOwned cur _ _).setPriority ?_ _) _
    simpa using hcur
  | createFailed hf => exact h.createFailed hf
  | created hf => exact h.created hf
  | takeNull => exact h
  | giveNull => exact h
  | lockNull => exact h
  | lockOwn _ => exact h
  | unlockNull => exact h
  | unlockOther _ => exact h
  | unrecognized => exact h

end Model
end Rtos
