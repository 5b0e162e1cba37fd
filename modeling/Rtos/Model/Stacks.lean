import Rtos.Model.Frames

/-! What the kernel does to the tasks' stacks and to the pools: but for a creation, nothing. -/

namespace Rtos

open Lib

/-- The tasks, the one that has the core, and their stacks. -/
def Globals.stackData (g : Globals) :
    List TaskId × Option TaskId × Layout × (ℕ → ℕ) × Mempool :=
  (g.tasks, g.gCurrent, g.layout, g.stackMem, g.gUserStackPool)

/-- The tasks, the one that has the core, and what the two pools hold. -/
def Globals.memoryData (g : Globals) :
    List TaskId × Option TaskId × Layout × (ℕ → ℕ) × Mempool × Mempool :=
  (g.tasks, g.gCurrent, g.layout, g.stackMem, g.gUserStackPool, g.gKernelObjectPool)

namespace Model

variable {a b c : Model} {t u cur o : TaskId} {q : QueueRef} {p : Priority} {m : MutexId}

structure MemoryKept (a b : Model) : Prop where
  data : b.memoryData = a.memoryData
  sp : ∀ t, (b.tcb t).sp = (a.tcb t).sp

namespace MemoryKept

theorem refl (a : Model) : MemoryKept a a := ⟨rfl, fun _ => rfl⟩

theorem trans (h : MemoryKept a b) (h' : MemoryKept b c) : MemoryKept a c :=
  ⟨h'.data.trans h.data, fun t => (h'.sp t).trans (h.sp t)⟩

theorem of_globals (hg : b.toGlobals = a.toGlobals) (hsp : ∀ t, (b.tcb t).sp = (a.tcb t).sp) :
    MemoryKept a b :=
  ⟨by rw [hg], hsp⟩

theorem reschedule : MemoryKept a a.reschedule := by
  refine ⟨?_, fun t => by rw [reschedule_tcb]⟩
  unfold Model.reschedule
  split_ifs <;> rfl

theorem rotate (tcb : Option TaskId) : MemoryKept a (a.rotate tcb) :=
  of_globals (rotate_toGlobals tcb) fun t => by rw [rotate_tcb]

theorem wake : MemoryKept a (a.wake q t) := by
  refine of_globals wake_toGlobals fun u => ?_
  rw [wake_tcb]
  split_ifs with hu
  · rw [hu]
    rfl
  · rfl

theorem block (hc : a.gCurrent = some cur) (ticks : Word) (o : Bool) :
    MemoryKept a (a.block q ticks o) := by
  refine ⟨?_, block_keeps hc ticks o TcbData.sp fun _ _ => rfl⟩
  rw [block_eq hc, reschedule.data]
  simp

theorem setPriority : MemoryKept a (a.setPriority t p) := by
  refine of_globals setPriority_toGlobals fun u => ?_
  rw [setPriority_tcb]
  split_ifs with hu
  · rw [hu]
  · rfl

theorem boost : MemoryKept a (a.boost cur o) :=
  of_globals boost_toGlobals fun u => boost_keeps TcbData.sp (fun _ _ => rfl) u

theorem setMutex (f : Mutex → Mutex) : MemoryKept a (a.setMutex m f) := ⟨rfl, fun _ => rfl⟩

theorem setOwned (v : Option MutexId) :
    MemoryKept a (a.setTcb t fun c => { c with ownedMutexes := v }) :=
  of_globals rfl fun u => setTcb_keeps a u TcbData.sp rfl

theorem addToOwned : MemoryKept a (a.addToOwned t m) := (setMutex _).trans (setOwned _)

theorem dropOwned (found : Option (Option MutexId)) : MemoryKept a (a.dropOwned t m found) := by
  unfold Model.dropOwned
  split
  · exact refl a
  · refine MemoryKept.trans ?_ (setMutex _)
    split
    · exact setOwned _
    · exact setMutex _

theorem handOff : MemoryKept a (a.handOff m) := by
  unfold Model.handOff
  split
  · exact (wake.trans (setMutex _)).trans reschedule
  · exact setMutex _

theorem yieldCpu : MemoryKept a a.yieldCpu := (rotate a.gCurrent).trans ⟨rfl, fun _ => rfl⟩

theorem sysTick (h : Inv a) : MemoryKept a a.sysTick := by
  have hw : WF ({ a with gTick := a.gTick + 1 } : Model) := h.wf.congr rfl (by simp) rfl rfl
  obtain ⟨h1, h2, -⟩ := expireAll_frame (a.gTick + 1) a.timeouts hw hw.timeouts_nodup fun _ ht => ht
  have h0 : MemoryKept a (expireAll (a.gTick + 1) a.timeouts { a with gTick := a.gTick + 1 }) := by
    refine ⟨by rw [h1]; rfl, fun t => ?_⟩
    rcases h2 t with he | ⟨-, he⟩
    · rw [he]
    · rw [he]
      rfl
  rw [sysTick_eq]
  exact ((h0.trans reschedule).trans (rotate _)).trans reschedule

end MemoryKept

/-- An entry that creates no task and switches to none. -/
theorem Outcome.memoryKept {e : Entry} {r : ℤ} (ho : Outcome a cur e r b) (h : Inv a)
    (hc : a.gCurrent = some cur) (hp : e ≠ .pendSV) (he : ∀ args, e ≠ .svc (.taskCreate args)) :
    MemoryKept a b := by
  cases ho with
  | pendSV => exact absurd rfl hp
  | created _ => exact absurd rfl (he _)
  | createFailed _ => exact absurd rfl (he _)
  | tick => exact .sysTick h
  | yield => exact .yieldCpu
  | delayZero => exact .yieldCpu
  | delay _ => exact .block hc _ _
  | takeBlock _ => exact .block hc _ _
  | giveWake _ => exact MemoryKept.wake.trans .reschedule
  | lockFree _ => exact (MemoryKept.setMutex _).trans .addToOwned
  | @lockBlock m o _ _ =>
    have hcb : (a.boost cur o).gCurrent = some cur := by rw [boost_toGlobals, hc]
    exact (MemoryKept.boost.trans (.block hcb _ _)).trans .addToOwned
  | unlock _ _ _ => exact ((MemoryKept.dropOwned _).trans .setPriority).trans .handOff
  | take _ => exact ⟨rfl, fun _ => rfl⟩
  | give _ => exact ⟨rfl, fun _ => rfl⟩
  | _ => exact .refl a

/-- What is left of that where a creation fails: it has written to the pools. -/
structure StacksKept (a b : Model) : Prop where
  data : b.stackData = a.stackData
  sp : ∀ t ∈ a.tasks, (b.tcb t).sp = (a.tcb t).sp

theorem MemoryKept.stacksKept (h : MemoryKept a b) : StacksKept a b := by
  have hd : b.stackData = a.stackData :=
    congrArg (fun d => (d.1, d.2.1, d.2.2.1, d.2.2.2.1, d.2.2.2.2.1)) h.data
  exact ⟨hd, fun t _ => h.sp t⟩

/-- An entry other than PendSV keeps the stacks, or it is a creation that succeeds. -/
theorem Outcome.stackCases {e : Entry} {r : ℤ} (ho : Outcome a cur e r b) (h : Inv a)
    (hc : a.gCurrent = some cur) (hp : e ≠ .pendSV) :
    (StacksKept a b ∧ ∀ args, e = .svc (.taskCreate args) → r ≠ 0) ∨
      r = 0 ∧ ∃ args t, e = .svc (.taskCreate args) ∧ Created a b t := by
  by_cases he : ∃ args, e = .svc (.taskCreate args)
  · obtain ⟨args, rfl⟩ := he
    cases ho with
    | created hf => exact .inr ⟨rfl, _, _, rfl, hf⟩
    | createFailed hf =>
      obtain ⟨⟨pool, mem, rfl⟩, hsp, -⟩ := hf
      exact .inl ⟨⟨rfl, hsp⟩, fun _ _ => by decide⟩
  · have hno : ∀ args, e ≠ .svc (.taskCreate args) := fun args hx => he ⟨args, hx⟩
    exact .inl ⟨(ho.memoryKept h hc hp hno).stacksKept, fun args hx => absurd hx (hno args)⟩

end Model
end Rtos
