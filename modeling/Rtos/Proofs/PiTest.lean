import Rtos.App.PiTest
import Rtos.Proofs.Cast

/-! The priority inversion test: whatever the interrupts do, the high task gets the mutex after a
fixed number of steps, and the medium task never runs. -/

namespace Rtos

open Lib

open Model (WF Inv Outcome)

variable {x : PiLinks} {b : Boot} {n : ℕ} {s : ProgSys PiState PiPc} {k : Kernel} {a a' : Model}
  {t u cur d l h m : TaskId}

/-- The lines between a lock and its unlock. -/
def piHolding (x : PiLinks) : PiPc → Set MutexId
  | .low .lock => ∅
  | .low .spin => ∅
  | .low _ => {x.gPiMutex}
  | .high .acquired => {x.gPiMutex}
  | .high .unlock => {x.gPiMutex}
  | _ => ∅

theorem pi_locks (x : PiLinks) : (piProgram x).Locks (piHolding x) := by
  refine ⟨fun e => ?_, fun {l f} hl y => ?_, fun {l c next} hl y r => ?_, fun {l c next} hl y m hm => ?_,
    fun {l c next} hl y m hm => ?_⟩
  · simp only [piProgram]
    split_ifs <;> rfl
  · rcases l with _ | _ | _ | _
    · cases hl
      rfl
    · rename_i line
      cases line <;> cases hl <;> first | rfl | skip
      dsimp only
      split_ifs <;> rfl
    · cases hl
      rfl
    · rename_i line
      cases line <;> cases hl <;> rfl
  · rcases l with _ | ⟨_ | _ | _ | _ | _ | _ | _ | _ | _ | _⟩ | _ | ⟨_ | _ | _ | _⟩ <;> cases hl <;>
      simp [piHolding, Syscall.holding]
  · rcases l with _ | ⟨_ | _ | _ | _ | _ | _ | _ | _ | _ | _⟩ | _ | ⟨_ | _ | _ | _⟩ <;> cases hl <;>
      cases hm <;> exact Set.notMem_empty _
  · rcases l with _ | ⟨_ | _ | _ | _ | _ | _ | _ | _ | _ | _⟩ | _ | ⟨_ | _ | _ | _⟩ <;> cases hl <;>
      cases hm <;> exact rfl

theorem pi_flat (x : PiLinks) : (piProgram x).Flat (piHolding x) := by
  intro l c next hl y m hm
  rcases l with _ | ⟨_ | _ | _ | _ | _ | _ | _ | _ | _ | _⟩ | _ | ⟨_ | _ | _ | _⟩ <;> cases hl <;>
    cases hm <;> rfl

theorem pi_onlyLocks (x : PiLinks) : (piProgram x).OnlyLocks := by
  intro l c next hl y q hq
  rcases l with _ | ⟨_ | _ | _ | _ | _ | _ | _ | _ | _ | _⟩ | _ | ⟨_ | _ | _ | _⟩ <;> cases hl <;>
    cases hq <;> exact ⟨_, rfl⟩

theorem piHolding_eq {pc : PiPc} {m : MutexId} (h : m ∈ piHolding x pc) : m = x.gPiMutex := by
  rcases pc with _ | ⟨_ | _ | _ | _ | _ | _ | _ | _ | _ | _⟩ | _ | ⟨_ | _ | _ | _⟩ <;>
    first | exact h | exact absurd h (Set.notMem_empty _)

/-! What the program may count on, as it keeps to these rules. -/

structure PiFacts (x : PiLinks) (s : ProgSys PiState PiPc) (a : Model) : Prop where
  holding : Holding (piHolding x) s.pc a
  inherits : Inherits a
  best : BestNext a
  blocked : ∀ t ∈ a.tasks, (a.tcb t).state = .blocked → ∃ m, t ∈ a.list (.mutex m)

theorem pi_facts (hr : ProgRun (piProgram x) b .zero n s) (hs : Sim s.kernel a) : PiFacts x s a := by
  obtain ⟨a₁, hs₁, -, -, hh⟩ := prog_holding (pi_locks x) hr
  obtain ⟨a₂, hs₂, -, hinh, hbest⟩ := prog_inherits (pi_locks x) (pi_flat x) hr
  obtain ⟨a₃, hs₃, -, hb⟩ := prog_blocked (pi_onlyLocks x) hr
  obtain rfl := hs₁.unique hs
  obtain rfl := hs₂.unique hs
  obtain rfl := hs₃.unique hs
  exact ⟨hh, hinh, hbest, hb⟩

namespace PiFacts

variable (hF : PiFacts x s a)
include hF

/-- A task waits only where it has asked for the mutex and does not own it yet. -/
theorem awake (ht : t ∈ a.tasks)
    (h : x.gPiMutex ∉ piHolding x (s.pc t) ∨ (a.mutex x.gPiMutex).owner = some t) :
    (a.tcb t).state ≠ .blocked := by
  intro hb
  obtain ⟨m, hm⟩ := hF.blocked t ht hb
  have hmem := (hF.holding t ht m).2 (.inr hm)
  obtain rfl := piHolding_eq hmem
  rcases h with h | h
  · exact h hmem
  · exact hF.inherits.ok.apart _ t h hm

theorem waits (ht : t ∈ a.tasks) (h : x.gPiMutex ∈ piHolding x (s.pc t))
    (hne : (a.mutex x.gPiMutex).owner ≠ some t) : t ∈ a.list (.mutex x.gPiMutex) :=
  ((hF.holding t ht _).1 h).resolve_left hne

/-- Only an owner that somebody waits for has more than its own priority. -/
theorem base (ht : t ∈ a.tasks) (h : (a.mutex x.gPiMutex).owner = some t →
    a.list (.mutex x.gPiMutex) = []) : (a.tcb t).priority = (a.tcb t).basePriority := by
  refine hF.inherits.base t ht fun m hm => ?_
  obtain rfl := piHolding_eq ((hF.holding t ht m).2 (.inl hm))
  exact h hm

theorem mem_list (hi : Inv a) (ht : t ∈ a.list (.mutex x.gPiMutex)) : t ∈ a.tasks ∧
    x.gPiMutex ∈ piHolding x (s.pc t) ∧ (a.mutex x.gPiMutex).owner ≠ some t := by
  have hmem := hi.wf.mem_tasks ht
  exact ⟨hmem, (hF.holding t hmem _).2 (.inr ht), fun ho => hF.inherits.ok.apart _ t ho ht⟩

end PiFacts

/-! The phases of the test. Each step of a task leads to the next one. -/

/-- Where the low task is in its critical section once all tasks are there, after how many steps. -/
inductive PiWorking : ℕ → PiLow → PiState → Prop
  | clear : PiWorking 5 .clear ⟨1, 0, 0, 0, 0⟩
  | test {i : ℕ} : i ≤ 50000 → PiWorking (6 + 2 * i) .test ⟨1, 0, 0, 0, BitVec.ofNat 32 i⟩
  | count {i : ℕ} : i < 50000 → PiWorking (7 + 2 * i) .count ⟨1, 0, 0, 0, BitVec.ofNat 32 i⟩
  | done : PiWorking 100007 .done ⟨1, 0, 0, 0, 50000⟩
  | unlock : PiWorking 100008 .unlock ⟨1, 1, 0, 0, 50000⟩

/-- The number of steps, the tasks, the owner of the mutex, the globals, and whose turn it is. -/
inductive PiPhase :
    ℕ → List (TaskId × PiPc × Priority) → Option TaskId → PiState → TaskId → Prop
  | lock {d l : TaskId} :
      PiPhase 0 [(d, .idle, osTaskIdle), (l, .low .lock, osTaskLow)] none .zero l
  | locked {d l : TaskId} :
      PiPhase 1 [(d, .idle, osTaskIdle), (l, .low .locked, osTaskLow)] (some l) .zero l
  | createHigh {d l : TaskId} :
      PiPhase 2 [(d, .idle, osTaskIdle), (l, .low .createHigh, osTaskLow)] (some l) ⟨1, 0, 0, 0, 0⟩ l
  | preempted {d l h : TaskId} :
      PiPhase 3 [(d, .idle, osTaskIdle), (l, .low .createMedium, osTaskLow), (h, .high .lock, osTaskHigh)]
        (some l) ⟨1, 0, 0, 0, 0⟩ h
  | boosted {d l h : TaskId} :
      PiPhase 4 [(d, .idle, osTaskIdle), (l, .low .createMedium, osTaskLow),
        (h, .high .acquired, osTaskHigh)] (some l) ⟨1, 0, 0, 0, 0⟩ l
  | working {d l h m : TaskId} {n : ℕ} {line : PiLow} {u : PiState} : PiWorking n line u →
      PiPhase n [(d, .idle, osTaskIdle), (l, .low line, osTaskLow), (h, .high .acquired, osTaskHigh),
        (m, .medium, osTaskMedium)] (some l) u l
  | acquired {d l h m : TaskId} :
      PiPhase 100009 [(d, .idle, osTaskIdle), (l, .low .spin, osTaskLow),
        (h, .high .acquired, osTaskHigh), (m, .medium, osTaskMedium)] (some h) ⟨1, 1, 0, 0, 50000⟩ h
  | release {d l h m : TaskId} :
      PiPhase 100010 [(d, .idle, osTaskIdle), (l, .low .spin, osTaskLow),
        (h, .high .unlock, osTaskHigh), (m, .medium, osTaskMedium)] (some h) ⟨1, 1, 0, 1, 50000⟩ h
  | free {d l h m : TaskId} {n : ℕ} : 100011 ≤ n →
      PiPhase n [(d, .idle, osTaskIdle), (l, .low .spin, osTaskLow), (h, .high .spin, osTaskHigh),
        (m, .medium, osTaskMedium)] none ⟨1, 1, 0, 1, 50000⟩ h

/-! Who runs. -/

section

variable {cast : List (TaskId × PiPc × Priority)} (hF : PiFacts x s a) (hcast : Cast s.pc a cast)
include hF hcast

theorem PiFacts.list_nil (hi : Inv a) (h : ∀ r ∈ cast, x.gPiMutex ∈ piHolding x r.2.1 →
    (a.mutex x.gPiMutex).owner = some r.1) : a.list (.mutex x.gPiMutex) = [] := by
  refine List.eq_nil_iff_forall_not_mem.2 fun u hu => ?_
  obtain ⟨ht, hm, hne⟩ := hF.mem_list hi hu
  rw [hcast.tasks] at ht
  obtain ⟨r, hr, rfl⟩ := List.mem_map.1 ht
  rw [(hcast.role r hr).1] at hm
  exact hne (h r hr hm)

theorem PiFacts.priority {pc : PiPc} {q : Priority} (hr : (t, pc, q) ∈ cast)
    (h : (a.mutex x.gPiMutex).owner = some t → a.list (.mutex x.gPiMutex) = []) :
    (a.tcb t).priority = q := by
  have ht : t ∈ a.tasks := by
    rw [hcast.tasks]
    exact List.mem_map_of_mem (f := Prod.fst) hr
  rw [hF.base ht h]
  exact (hcast.role _ hr).2

variable (hrun : ProgRun (piProgram x) b .zero n s) (hs : Sim s.kernel a) (hi : Inv a)
  (hp : a.pendsv = false) (hc : a.gCurrent = some cur)
include hrun hs hi hp hc

/-- While nobody waits for the mutex, the task with the most urgent base priority runs. -/
theorem PiFacts.runs_unblocked {pc : PiPc} {q : Priority} (hl : a.list (.mutex x.gPiMutex) = [])
    (hr : (t, pc, q) ∈ cast) (hlt : ∀ r ∈ cast, r.1 ≠ t → q < r.2.2) : cur = t := by
  have hmem : ∀ {r}, r ∈ cast → r.1 ∈ a.tasks := fun hr => by
    rw [hcast.tasks]
    exact List.mem_map_of_mem hr
  refine runs_of_urgent hrun hs hi hF.best hp hc (hmem hr) (fun hb => ?_) fun u hu hne _ => ?_
  · obtain ⟨m, hm⟩ := hF.blocked t (hmem hr) hb
    obtain rfl := piHolding_eq ((hF.holding t (hmem hr) m).2 (.inr hm))
    rw [hl] at hm
    cases hm
  · rw [hcast.tasks] at hu
    obtain ⟨⟨u, pc', q'⟩, hu', rfl⟩ := List.mem_map.1 hu
    rw [hF.priority hcast hr fun _ => hl, hF.priority hcast hu' fun _ => hl]
    exact hlt _ hu' hne

end

/-- While the high task waits for the mutex, its owner runs in its place. -/
theorem PiFacts.runs_boosted {rest : List (TaskId × PiPc × Priority)} {pc : PiPc} {q : Priority}
    (hF : PiFacts x s a) (hcast : Cast s.pc a ((d, .idle, osTaskIdle) :: (l, pc, q) ::
      (h, .high .acquired, osTaskHigh) :: rest))
    (hrun : ProgRun (piProgram x) b .zero n s) (hs : Sim s.kernel a) (hi : Inv a)
    (hp : a.pendsv = false) (hc : a.gCurrent = some cur)
    (ho : (a.mutex x.gPiMutex).owner = some l) (hrest : ∀ r ∈ rest, r.2.2 = osTaskMedium) : cur = l := by
  have hmem : ∀ {r}, r ∈ (d, PiPc.idle, osTaskIdle) :: (l, pc, q) ::
      (h, .high .acquired, osTaskHigh) :: rest → r.1 ∈ a.tasks := fun hr => by
    rw [hcast.tasks]
    exact List.mem_map_of_mem hr
  have hnd := hcast.nodup
  simp only [List.map_cons, List.nodup_cons, List.mem_cons, not_or] at hnd
  obtain ⟨⟨hdl, hdh, -⟩, ⟨hlh, hlrest⟩, -⟩ := hnd
  have hlmem : l ∈ a.tasks := hmem (r := (l, pc, q)) (by simp)
  have hhmem : h ∈ a.tasks := hmem (r := (h, .high .acquired, osTaskHigh)) (by simp)
  -- those that do not own the mutex have their own priorities
  have hpri : ∀ {u pc' q'}, (u, pc', q') ∈ (d, PiPc.idle, osTaskIdle) :: (l, pc, q) ::
      (h, .high .acquired, osTaskHigh) :: rest → u ≠ l → (a.tcb u).priority = q' :=
    fun hu hne => hF.priority hcast hu fun hx =>
      absurd (Option.some.inj (hx.symm.trans ho)) hne
  have hwait : h ∈ a.list (.mutex x.gPiMutex) := by
    refine hF.waits hhmem ?_ ?_
    · rw [(hcast.role (h, .high .acquired, osTaskHigh) (by simp)).1]
      exact rfl
    · rw [ho]
      simpa using hlh
  have hzero : (a.tcb l).priority = osTaskHigh := by
    have hle := hF.inherits.boosted _ l ho h hwait
    rw [hpri (List.mem_cons_of_mem _ (List.mem_cons_of_mem _ List.mem_cons_self)) (Ne.symm hlh)] at hle
    exact le_antisymm hle (Fin.zero_le _)
  refine runs_of_urgent hrun hs hi hF.best hp hc hlmem (hF.awake hlmem (.inr ho)) fun u hu hne hst => ?_
  rw [hcast.tasks] at hu
  obtain ⟨⟨u, pc', q'⟩, hu', rfl⟩ := List.mem_map.1 hu
  rw [hzero, hpri hu' hne]
  simp only [List.mem_cons] at hu'
  rcases hu' with hu' | hu' | hu' | hu'
  · cases hu'
    decide
  · cases hu'
    exact absurd rfl hne
  · cases hu'
    exact absurd (hi.wf.of_wait rfl hwait).1 hst
  · obtain rfl : q' = osTaskMedium := hrest _ hu'
    decide

/-- The task whose turn it is runs, if any does. -/
theorem PiPhase.runs {cast : List (TaskId × PiPc × Priority)} {o : Option TaskId} {u : PiState}
    (hph : PiPhase n cast o u t) (hcast : Cast s.pc a cast) (ho : (a.mutex x.gPiMutex).owner = o)
    (hrun : ProgRun (piProgram x) b .zero n s) (hs : Sim s.kernel a) (hi : Inv a)
    (hp : a.pendsv = false) (hc : a.gCurrent = some cur) : cur = t := by
  have hF := pi_facts hrun hs
  have hfirst : ∀ q, (∃ pc, (t, pc, q) ∈ cast) → (∀ r ∈ cast, r.1 ≠ t → q < r.2.2) →
      (∀ r ∈ cast, x.gPiMutex ∈ piHolding x r.2.1 → some r.1 = o) → cur = t := by
    rintro q ⟨pc, hr⟩ hlt hnil
    exact hF.runs_unblocked hcast hrun hs hi hp hc
      (hF.list_nil hcast hi fun r hr hm => ho.trans (hnil r hr hm).symm) hr hlt
  have h1 : osTaskLow < osTaskIdle := by decide
  have h2 : osTaskHigh < osTaskIdle := by decide
  have h3 : osTaskHigh < osTaskLow := by decide
  have h4 : osTaskHigh < osTaskMedium := by decide
  cases hph with
  | boosted => exact hF.runs_boosted hcast hrun hs hi hp hc ho nofun
  | working _ => exact hF.runs_boosted hcast hrun hs hi hp hc ho (by simp)
  | lock => exact hfirst osTaskLow ⟨.low .lock, by simp⟩ (by simp [h1]) (by simp [piHolding])
  | locked => exact hfirst osTaskLow ⟨.low .locked, by simp⟩ (by simp [h1]) (by simp [piHolding])
  | createHigh =>
    exact hfirst osTaskLow ⟨.low .createHigh, by simp⟩ (by simp [h1]) (by simp [piHolding])
  | preempted =>
    exact hfirst osTaskHigh ⟨.high .lock, by simp⟩ (by simp [h2, h3]) (by simp [piHolding])
  | acquired =>
    exact hfirst osTaskHigh ⟨.high .acquired, by simp⟩ (by simp [h2, h3, h4]) (by simp [piHolding])
  | release =>
    exact hfirst osTaskHigh ⟨.high .unlock, by simp⟩ (by simp [h2, h3, h4]) (by simp [piHolding])
  | free _ =>
    exact hfirst osTaskHigh ⟨.high .spin, by simp⟩ (by simp [h2, h3, h4]) (by simp [piHolding])

theorem mem_second {α : Type} {r r' : α} {l : List α} : r ∈ r' :: r :: l :=
  List.mem_cons_of_mem _ List.mem_cons_self

theorem mem_third {α : Type} {r r' r'' : α} {l : List α} : r ∈ r' :: r'' :: r :: l :=
  List.mem_cons_of_mem _ mem_second

/-- A turn of the loop is two steps. -/
theorem PiWorking.work {line : PiLow} {u : PiState} {f : PiState → PiState × PiPc}
    (hw : PiWorking n line u) (hf : piCode x (.low line) = .work f) :
    ∃ line', (f u).2 = .low line' ∧ PiWorking (n + 1) line' (f u).1 := by
  cases hw with
  | clear =>
    cases hf
    exact ⟨_, rfl, .test (Nat.zero_le _)⟩
  | @test i hi =>
    cases hf
    have hlt : BitVec.ofNat 32 i < piBusyIters ↔ i < 50000 := by
      rw [BitVec.lt_def, BitVec.toNat_ofNat, Nat.mod_eq_of_lt (by omega)]
      rfl
    dsimp only
    split_ifs with h
    · refine ⟨_, rfl, ?_⟩
      rw [show 6 + 2 * i + 1 = 7 + 2 * i by omega]
      exact .count (hlt.1 h)
    · obtain rfl : i = 50000 := by
        rw [hlt] at h
        omega
      exact ⟨_, rfl, .done⟩
  | @count i hi =>
    cases hf
    refine ⟨_, rfl, ?_⟩
    have h := PiWorking.test (i := i + 1) hi
    rw [show 6 + 2 * (i + 1) = 7 + 2 * i + 1 by omega, BitVec.ofNat_add] at h
    exact h
  | done =>
    cases hf
    exact ⟨_, rfl, .unlock⟩
  | unlock => cases hf

/-- What a piece of work of the task whose turn it is leads to. -/
theorem PiPhase.work {cast : List (TaskId × PiPc × Priority)} {o : Option TaskId} {u : PiState}
    (hph : PiPhase n cast o u cur) (hcast : Cast s.pc a cast) {f : PiState → PiState × PiPc}
    (hf : (piProgram x).code (s.pc cur) = .work f) :
    ∃ cast' t', Cast (Function.update s.pc cur (f u).2) a cast' ∧ PiPhase (n + 1) cast' o (f u).1 t' := by
  have hpc : ∀ {pc q}, (cur, pc, q) ∈ cast → piCode x pc = .work f := fun {pc q} hr => by
    have : s.pc cur = pc := (hcast.role _ hr).1
    rw [← this]
    exact hf
  have hupd : ∀ p, ∀ v ∈ a.tasks, Function.update s.pc cur p v = if v = cur then p else s.pc v :=
    fun p v _ => Function.update_apply _ _ _ _
  cases hph with
  | lock => cases hpc mem_second
  | locked =>
    cases hpc mem_second
    exact ⟨_, _, Cast.move [_] hcast rfl (fun _ _ => rfl) (hupd _), .createHigh⟩
  | createHigh => cases hpc mem_second
  | preempted => cases hpc mem_third
  | boosted => cases hpc mem_second
  | working hw =>
    obtain ⟨line, hline, hw'⟩ := hw.work (hpc mem_second)
    rw [hline]
    exact ⟨_, _, Cast.move [_] hcast rfl (fun _ _ => rfl) (hupd _), .working hw'⟩
  | acquired =>
    cases hpc mem_third
    exact ⟨_, _, Cast.move [_, _] hcast rfl (fun _ _ => rfl) (hupd _), .release⟩
  | release => cases hpc mem_third
  | free hn =>
    cases hpc mem_third
    exact ⟨_, _, Cast.move [_, _] hcast rfl (fun _ _ => rfl) (hupd _), .free (by omega)⟩

/-! What the calls do to the mutex. -/

section

variable {r : ℤ} (hi : Inv a) (hc : a.gCurrent = some cur)
include hi hc

theorem pi_lock_free (he : a.Enabled (.svc (.mutexLock (some x.gPiMutex))))
    (ho : Outcome a cur (.svc (.mutexLock (some x.gPiMutex))) r a')
    (hn : (a.mutex x.gPiMutex).owner = none) : (a'.mutex x.gPiMutex).owner = some cur := by
  cases ho.mutex_step hi hc he x.gPiMutex with
  | other hl _ _ _ => cases hn.symm.trans (hl rfl).1
  | free _ h _ => exact h
  | queue hm _ _ _ => cases hn.symm.trans hm

theorem pi_lock_owned (he : a.Enabled (.svc (.mutexLock (some x.gPiMutex))))
    (ho : Outcome a cur (.svc (.mutexLock (some x.gPiMutex))) r a')
    (hl : (a.mutex x.gPiMutex).owner = some l) : (a'.mutex x.gPiMutex).owner = some l := by
  cases ho.mutex_step hi hc he x.gPiMutex with
  | other _ _ h _ => rw [h, hl]
  | free hm _ _ => cases hl.symm.trans hm
  | queue hm _ h _ => rw [h, ← hm, hl]

theorem pi_unlock (he : a.Enabled (.svc (.mutexUnlock (some x.gPiMutex))))
    (ho : Outcome a cur (.svc (.mutexUnlock (some x.gPiMutex))) r a')
    (hm : (a.mutex x.gPiMutex).owner = some cur) :
    (a'.mutex x.gPiMutex).owner = (a.list (.mutex x.gPiMutex)).head? := by
  cases ho.mutex_step hi hc he x.gPiMutex with
  | other _ hu _ _ => exact absurd hm (hu rfl).1
  | pass _ h _ => exact h

theorem pi_create {args : Option TaskCreateArgs} (he : a.Enabled (.svc (.taskCreate args)))
    (ho : Outcome a cur (.svc (.taskCreate args)) r a') :
    (a'.mutex x.gPiMutex).owner = (a.mutex x.gPiMutex).owner := by
  cases ho.mutex_step hi hc he x.gPiMutex with
  | other _ _ h _ => exact h

end

theorem PiLinks.start_high (x : PiLinks) : (piProgram x).start x.piHighTask = .high .lock := by
  have h := x.distinct
  simp only [List.nodup_cons, List.mem_cons, not_or] at h
  obtain ⟨-, ⟨-, h2, -⟩, ⟨h3, -⟩, -⟩ := h
  simp [piProgram, Ne.symm h2, Ne.symm h3]

theorem PiLinks.start_medium (x : PiLinks) : (piProgram x).start x.piMediumTask = .medium := by
  have h := x.distinct
  simp only [List.nodup_cons, List.mem_cons, not_or] at h
  obtain ⟨-, ⟨h1, -⟩, -⟩ := h
  simp [piProgram, Ne.symm h1]

theorem piArgs_inOrder (p : Priority) {e : ℕ} (he : e ≠ 0) :
    TaskCreateArgs.InOrder ⟨p, e, 0, 256⟩ :=
  ⟨he, p.isLt, Nat.succ_pos _, Nat.le_refl _⟩

/-- Nobody but the high task waits for the mutex. -/
theorem PiFacts.first_waiter {line : PiLow} (hF : PiFacts x s a)
    (hcast : Cast s.pc a [(d, .idle, osTaskIdle), (l, .low line, osTaskLow),
      (h, .high .acquired, osTaskHigh), (m, .medium, osTaskMedium)]) (hi : Inv a)
    (ho : (a.mutex x.gPiMutex).owner = some l) :
    (a.list (.mutex x.gPiMutex)).head? = some h := by
  have hall : ∀ u ∈ a.list (.mutex x.gPiMutex), u = h := by
    intro u hu
    obtain ⟨ht, hm, hne⟩ := hF.mem_list hi hu
    rw [hcast.tasks] at ht
    simp only [List.map_cons, List.map_nil, List.mem_cons, List.not_mem_nil, or_false] at ht
    rcases ht with rfl | rfl | rfl | rfl
    · rw [(hcast.role _ List.mem_cons_self).1] at hm
      cases hm
    · exact absurd ho hne
    · rfl
    · rw [(hcast.role (u, .medium, osTaskMedium) (by simp)).1] at hm
      cases hm
  have hnd := hcast.nodup
  simp only [List.map_cons, List.nodup_cons, List.mem_cons, not_or] at hnd
  have hwait : h ∈ a.list (.mutex x.gPiMutex) := by
    refine hF.waits ?_ ?_ ?_
    · rw [hcast.tasks]
      simp
    · rw [(hcast.role (h, .high .acquired, osTaskHigh) (by simp)).1]
      exact rfl
    · rw [ho]
      simpa using hnd.2.1.1
  cases hl : a.list (.mutex x.gPiMutex) with
  | nil =>
    rw [hl] at hwait
    cases hwait
  | cons v vs =>
    rw [hl] at hall
    rw [List.head?_cons, hall v List.mem_cons_self]

/-- What a call of the task whose turn it is leads to. -/
theorem PiPhase.call {cast : List (TaskId × PiPc × Priority)} {o : Option TaskId} {u : PiState}
    (hph : PiPhase n cast o u cur) (hcast : Cast s.pc a cast)
    (ho : (a.mutex x.gPiMutex).owner = o) (hb : PiBoot x b) (hf : PoolsFit b.layout)
    (hrun : ProgRun (piProgram x) b .zero n s) (hs : Sim s.kernel a) (hs' : Sim k a') (hi : Inv a)
    (hc : a.gCurrent = some cur) {c : PiState → Syscall} {next : ℤ → PiPc} {r : ℤ}
    (hcode : (piProgram x).code (s.pc cur) = .call c next) (he : a.Enabled (.svc (c s.user)))
    (hr : (osPortSvcDispatch s.kernel (c s.user)).Returns (r, k))
    (hout : Outcome a cur (.svc (c s.user)) r a') :
    ∃ cast' t', Cast ((piProgram x).noteStart s.kernel (c s.user) r
        (Function.update s.pc cur (next r))) a' cast' ∧
      PiPhase (n + 1) cast' (a'.mutex x.gPiMutex).owner u t' := by
  have hpc : ∀ {pc q}, (cur, pc, q) ∈ cast → piCode x pc = .call c next := fun {pc q} hr => by
    have : s.pc cur = pc := (hcast.role _ hr).1
    rw [← this]
    exact hcode
  have hF := pi_facts hrun hs
  have hlen : a.tasks.length = cast.length := by rw [hcast.tasks, List.length_map]
  have hroom := le_min hb.objects hb.stackBlocks
  have hd := x.distinct
  simp only [List.nodup_cons, List.mem_cons, not_or] at hd
  cases hph with
  | lock =>
    cases hpc mem_second
    rw [pi_lock_free hi hc he hout ho]
    exact ⟨_, _, Cast.call [_] hcast hs hs' hi hc he hr hout nofun, .locked⟩
  | locked => cases hpc mem_second
  | createHigh =>
    cases hpc mem_second
    obtain ⟨t, ht⟩ := Cast.create [_] hcast hs hs' hi he hr hout hrun rfl hf rfl
      (piArgs_inOrder osTaskHigh (Ne.symm hd.1.2.2.1)) (hlen ▸ lt_of_lt_of_le (by simp) hroom)
    rw [x.start_high] at ht
    rw [pi_create hi hc he hout, ho]
    exact ⟨_, _, ht, .preempted⟩
  | preempted =>
    cases hpc mem_third
    rw [pi_lock_owned hi hc he hout ho]
    exact ⟨_, _, Cast.call [_, _] hcast hs hs' hi hc he hr hout nofun, .boosted⟩
  | boosted =>
    cases hpc mem_second
    obtain ⟨t, ht⟩ := Cast.create [_] hcast hs hs' hi he hr hout hrun rfl hf rfl
      (piArgs_inOrder osTaskMedium (Ne.symm hd.1.2.1)) (hlen ▸ lt_of_lt_of_le (by simp) hroom)
    rw [x.start_medium] at ht
    rw [pi_create hi hc he hout, ho]
    exact ⟨_, _, ht, .working .clear⟩
  | @working d _ h m _ _ _ hw =>
    have hline := hpc mem_second
    cases hw with
    | unlock =>
      cases hline
      rw [pi_unlock hi hc he hout ho, hF.first_waiter hcast hi ho]
      exact ⟨_, _, Cast.call [_] hcast hs hs' hi hc he hr hout nofun, .acquired⟩
    | clear => cases hline
    | test _ => cases hline
    | count _ => cases hline
    | done => cases hline
  | acquired => cases hpc mem_third
  | release =>
    cases hpc mem_third
    rw [pi_unlock hi hc he hout ho, hF.list_nil hcast hi (by simp [piHolding, ho])]
    exact ⟨_, _, Cast.call [_, _] hcast hs hs' hi hc he hr hout nofun, .free (Nat.le_refl _)⟩
  | free _ => cases hpc mem_third

theorem pi_phase (hb : PiBoot x b) (hf : PoolsFit b.layout)
    (hrun : ProgRun (piProgram x) b .zero n s) : ∃ a, Sim s.kernel a ∧ Inv a ∧
      ∃ cast t, Cast s.pc a cast ∧ PiPhase n cast (a.mutex x.gPiMutex).owner s.user t := by
  refine prog_induct (I := fun n s a => ∃ cast t, Cast s.pc a cast ∧
    PiPhase n cast (a.mutex x.gPiMutex).owner s.user t) ?_ ?_ ?_ ?_ hrun
  · intro k a hstart hs hst
    have hd := x.distinct
    simp only [List.nodup_cons, List.mem_cons, not_or] at hd
    obtain ⟨d, new, hcast, hnew⟩ := boot_cast (P := piProgram x)
      (l := [⟨osTaskLow, x.piLowTask, 0, 256⟩]) hb.creates
      (by simpa using piArgs_inOrder osTaskLow (Ne.symm hd.1.1)) hf
      (le_trans (by simp) (le_min hb.objects hb.stackBlocks)) hstart hs
    have hidle : (piProgram x).start b.layout.osIdleTask = .idle := by
      have hne := hb.idle
      simp only [List.mem_cons, not_or] at hne
      simp [piProgram, hne.1, hne.2.1, hne.2.2.1]
    cases hnew with
    | @cons _ r _ new hr hrest =>
      cases hrest
      obtain ⟨l, pc, q⟩ := r
      obtain ⟨hpc, hq⟩ := hr
      obtain rfl : q = osTaskLow := Fin.ext hq
      obtain rfl : pc = .low .lock := hpc.trans (by simp [piProgram])
      rw [hidle] at hcast
      rw [hst.mutex]
      exact ⟨_, _, hcast, .lock⟩
  · rintro n s a k a' cur e r _ hs hi hc hne he ho hs' _ ⟨cast, t, hcast, hph⟩
    refine ⟨cast, t, hcast.interrupt hs hs' hi hc he hne ho, ?_⟩
    cases ho.mutex_step hi hc he x.gPiMutex with
    | other _ _ hoo _ =>
      rw [hoo]
      exact hph
    | free _ _ _ => exact absurd rfl (hne _)
    | queue _ _ _ _ => exact absurd rfl (hne _)
    | pass _ _ _ => exact absurd rfl (hne _)
  · rintro n s a cur f hrun hs hi hc hp hf' ⟨cast, t, hcast, hph⟩
    obtain rfl := hph.runs hcast rfl hrun hs hi hp hc
    exact hph.work hcast hf'
  · rintro n s a k a' cur c next r hrun hs hi hc hcode he hr ho hs' _ ⟨cast, t, hcast, hph⟩
    obtain rfl := hph.runs hcast rfl hrun hs hi he.1 hc
    exact hph.call hcast rfl hb hf hrun hs hs' hi hc hcode he hr ho

/-! What the test is to show. -/

section

variable {cast : List (TaskId × PiPc × Priority)} {o : Option TaskId} {u : PiState}

theorem PiWorking.early {line : PiLow} (h : PiWorking n line u) :
    n < 100009 ∧ u.gPiMediumSpins = 0 ∧ u.gPiHighAcquired = 0 := by
  cases h with
  | clear => exact ⟨by omega, rfl, rfl⟩
  | test _ => exact ⟨by omega, rfl, rfl⟩
  | count _ => exact ⟨by omega, rfl, rfl⟩
  | done => exact ⟨by omega, rfl, rfl⟩
  | unlock => exact ⟨by omega, rfl, rfl⟩

theorem PiPhase.globals (h : PiPhase n cast o u t) :
    u.gPiMediumSpins = 0 ∧ u.gPiHighAcquired = if 100010 ≤ n then 1 else 0 := by
  cases h with
  | working hw =>
    obtain ⟨hn, h1, h2⟩ := hw.early
    exact ⟨h1, by rw [h2, if_neg (by omega)]⟩
  | free hn => exact ⟨rfl, by rw [if_pos (by omega)]⟩
  | _ => exact ⟨rfl, rfl⟩

/-- It is the turn of the low task or of the high one. -/
theorem PiPhase.turn (h : PiPhase n cast o u t) (hcast : Cast s.pc a cast) :
    ((∃ line, s.pc t = .low line) ∨ ∃ line, s.pc t = .high line) ∧ a.idle ≠ some t := by
  have hnd := hcast.nodup
  have hlow : ∀ {line q}, (t, .low line, q) ∈ cast →
      (∃ line, s.pc t = .low line) ∨ ∃ line, s.pc t = .high line :=
    fun hr => .inl ⟨_, (hcast.role _ hr).1⟩
  have hhigh : ∀ {line q}, (t, .high line, q) ∈ cast →
      (∃ line, s.pc t = .low line) ∨ ∃ line, s.pc t = .high line :=
    fun hr => .inr ⟨_, (hcast.role _ hr).1⟩
  rw [Globals.idle, hcast.tasks]
  cases h <;> simp only [List.map_cons, List.map_nil, List.nodup_cons, List.mem_cons, not_or] at hnd <;>
    refine ⟨?_, fun hx => ?_⟩
  all_goals
    first
    | exact hlow mem_second
    | exact hhigh mem_third
    | exact hnd.1.1 (Option.some.inj hx)
    | exact hnd.1.2.1 (Option.some.inj hx)

end

/-- A task can go on whenever no switch is pending. -/
theorem pi_goes_on (hb : PiBoot x b) (hf : PoolsFit b.layout)
    (hrun : ProgRun (piProgram x) b .zero n s) (hp : s.kernel.TaskRuns) :
    ∃ s', ProgStep (piProgram x) s .task s' := by
  obtain ⟨a, hs, hi, cast, t, hcast, hph⟩ := pi_phase hb hf hrun
  obtain ⟨cur, -, hc⟩ := hi.cur
  obtain rfl := hph.runs hcast rfl hrun hs hi (hs.pendsv ▸ hp) hc
  have hc' : s.kernel.gCurrent = some cur := hs.gCurrent.trans hc
  cases hcode : (piProgram x).code (s.pc cur) with
  | work f => exact ⟨_, .work hp hc' hcode⟩
  | call c next =>
    have he : s.kernel.Enabled (.svc (c s.user)) := by
      refine ⟨hp, ?_⟩
      rw [hs.globals, hc]
      exact Ne.symm (hph.turn hcast).2
    have he' : a.Enabled (.svc (c s.user)) := hs.globals ▸ he
    obtain ⟨⟨r, k'⟩, hr⟩ := (exec_refines hs hi he').halts_iff.2
      (hi.exec_halts (pi_facts hrun hs).inherits.ended _)
    exact ⟨_, .call hc' hcode he hr⟩

/-- On every layout with room for the four tasks, and however the tick and the switches fall between
their steps: the medium task never makes one, the high task has got the mutex exactly when 100010
steps have been made, and there is always a next one, if need be after the switch that is pending. -/
theorem pi_test_passes (hb : PiBoot x b) (hf : PoolsFit b.layout)
    (hrun : ProgRun (piProgram x) b .zero n s) :
    s.user.gPiMediumSpins = 0 ∧
    s.user.gPiHighAcquired = (if 100010 ≤ n then 1 else 0) ∧
    (s.kernel.TaskRuns → ∀ t, s.kernel.gCurrent = some t →
      (∃ line, s.pc t = .low line) ∨ ∃ line, s.pc t = .high line) ∧
    ((∃ s', ProgStep (piProgram x) s .task s') ∨
      ∃ s₁ s', ProgStep (piProgram x) s (.interrupt .pendSV) s₁ ∧
        ProgStep (piProgram x) s₁ .task s') := by
  obtain ⟨a, hs, hi, cast, t, hcast, hph⟩ := pi_phase hb hf hrun
  obtain ⟨h1, h2⟩ := hph.globals
  refine ⟨h1, h2, fun hp t' hc => ?_, ?_⟩
  · rw [hs.gCurrent] at hc
    obtain rfl := hph.runs hcast rfl hrun hs hi (hs.pendsv ▸ hp) hc
    exact (hph.turn hcast).1
  · cases hp : s.kernel.pendsv with
    | false => exact .inl (pi_goes_on hb hf hrun hp)
    | true =>
      have hstep : ProgStep (piProgram x) s (.interrupt .pendSV)
          { s with kernel := pendSVHandler s.kernel } :=
        .interrupt nofun hp (Comp.returns_pure.2 rfl)
      have hp' : (pendSVHandler s.kernel).pendsv = false := by
        unfold pendSVHandler osCommitSwitch
        split
        · rfl
        · split
          · split_ifs <;> rfl
          · rfl
      obtain ⟨s', hs'⟩ := pi_goes_on hb hf (hrun.interrupt hstep) hp'
      exact .inr ⟨_, s', hstep, hs'⟩

def PiLinks.small : PiLinks := ⟨0, 0x400, 0x500, 0x600, by decide⟩

/-- From the boot on there is always a next step, so the high task does get the mutex. -/
theorem pi_test_passes_small : ∃ s : ProgSys PiState PiPc,
    ProgRun (piProgram .small) (.app (piCreates .small)) .zero 100010 s ∧
    s.user.gPiHighAcquired = 1 ∧ s.user.gPiMediumSpins = 0 := by
  have hb : PiBoot .small (.app (piCreates .small)) := ⟨rfl, by decide, by decide, by decide⟩
  have hf : PoolsFit (Boot.app (piCreates .small)).layout :=
    ⟨⟨by decide, by decide, by decide, by decide⟩, ⟨by decide, by decide, by decide, by decide⟩⟩
  have hall : ∀ n, ∃ s, ProgRun (piProgram .small) (.app (piCreates .small)) .zero n s := by
    intro n
    induction n with
    | zero =>
      have hstart : (Boot.app (piCreates .small)).start.isSome := by decide +kernel
      obtain ⟨k, hk⟩ := Option.isSome_iff_exists.1 hstart
      exact ⟨_, .boot hk⟩
    | succ n ih =>
      obtain ⟨s, hs⟩ := ih
      rcases (pi_test_passes hb hf hs).2.2.2 with ⟨s', h1⟩ | ⟨s₁, s', h1, h2⟩
      · exact ⟨s', hs.task h1⟩
      · exact ⟨s', (hs.interrupt h1).task h2⟩
  obtain ⟨s, hs⟩ := hall 100010
  obtain ⟨h1, h2, -⟩ := pi_test_passes hb hf hs
  exact ⟨s, hs, by rw [h2, if_pos (Nat.le_refl _)], h1⟩

end Rtos
