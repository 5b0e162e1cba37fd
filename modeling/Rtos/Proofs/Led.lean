import Rtos.App.Led
import Rtos.Proofs.Programs

/-! The LED application: the mutex keeps the two LEDs from being lit together. -/

namespace Rtos

variable {x : LedLinks} {b : Boot} {user : LedState} {n : ℕ} {s : ProgSys LedState LedPc}

/-- The pin of the LED. -/
def LedTask.bit : LedTask → ℕ
  | .task0 => 9
  | .task1 => 12

def LedState.Lit (s : LedState) (i : LedTask) : Prop := s.gpioaOdr.getLsbD i.bit = true

instance (s : LedState) (i : LedTask) : Decidable (s.Lit i) :=
  inferInstanceAs (Decidable (_ = true))

theorem writeBsrr_bit (v : Word) (s : LedState) {j : ℕ} (hj : j < 16) :
    (writeBsrr v s).gpioaOdr.getLsbD j =
      (s.gpioaOdr.getLsbD j && !v.getLsbD (16 + j) || v.getLsbD j) := by
  have hmask : ∀ j < 16, (0xFFFF : Word).getLsbD j = true := by decide
  have hj' : j < 32 := by omega
  simp only [writeBsrr, BitVec.getLsbD_or, BitVec.getLsbD_and, BitVec.getLsbD_not,
    BitVec.getLsbD_ushiftRight, hmask j hj, hj', decide_true, Bool.true_and, Bool.and_true]

theorem pin_bit (i : LedTask) : ∀ j < 16,
    i.pin.getLsbD j = decide (j = i.bit) ∧ i.pin.getLsbD (16 + j) = false ∧
    (i.pin <<< 16).getLsbD j = false ∧ (i.pin <<< 16).getLsbD (16 + j) = decide (j = i.bit) := by
  cases i <;> decide

theorem ledOn_bit (i : LedTask) (s : LedState) {j : ℕ} (hj : j < 16) :
    (ledOn i.pin s).gpioaOdr.getLsbD j = (s.gpioaOdr.getLsbD j || decide (j = i.bit)) := by
  obtain ⟨h1, h2, -, -⟩ := pin_bit i j hj
  rw [ledOn, writeBsrr_bit _ _ hj, h1, h2, Bool.not_false, Bool.and_true]

theorem ledOff_bit (i : LedTask) (s : LedState) {j : ℕ} (hj : j < 16) :
    (ledOff i.pin s).gpioaOdr.getLsbD j = (s.gpioaOdr.getLsbD j && !decide (j = i.bit)) := by
  obtain ⟨-, -, h3, h4⟩ := pin_bit i j hj
  rw [ledOff, writeBsrr_bit _ _ hj, h3, h4, Bool.or_false]

/-- The LEDs as `on` says, and the other pins as they were. -/
structure Lights (user : LedState) (on : LedTask → Bool) (s : LedState) : Prop where
  led : ∀ i : LedTask, s.gpioaOdr.getLsbD i.bit = on i
  others : ∀ j < 16, (∀ i : LedTask, j ≠ i.bit) → s.gpioaOdr.getLsbD j = user.gpioaOdr.getLsbD j

theorem LedTask.bit_lt (i : LedTask) : i.bit < 16 := by
  cases i <;> decide

theorem LedTask.bit_inj {i j : LedTask} : i.bit = j.bit ↔ i = j := by
  cases i <;> cases j <;> decide

theorem Lights.on {on : LedTask → Bool} {s : LedState} (h : Lights user on s) (i : LedTask) :
    Lights user (fun j => on j || decide (j = i)) (ledOn i.pin s) := by
  refine ⟨fun j => ?_, fun j hj hne => ?_⟩
  · simp only [ledOn_bit i _ j.bit_lt, h.led, LedTask.bit_inj]
  · rw [ledOn_bit i _ hj, h.others j hj hne, decide_eq_false (hne i), Bool.or_false]

theorem Lights.off {on : LedTask → Bool} {s : LedState} (h : Lights user on s) (i : LedTask) :
    Lights user (fun j => on j && !decide (j = i)) (ledOff i.pin s) := by
  refine ⟨fun j => ?_, fun j hj hne => ?_⟩
  · simp only [ledOff_bit i _ j.bit_lt, h.led, LedTask.bit_inj]
  · rw [ledOff_bit i _ hj, h.others j hj hne, decide_eq_false (hne i), Bool.not_false, Bool.and_true]

/-- The lines between the lock and the unlock. -/
def ledHolding (x : LedLinks) : LedPc → Set MutexId
  | .at _ .on => {x.gLedMutex}
  | .at _ .lit => {x.gLedMutex}
  | .at _ .off => {x.gLedMutex}
  | .at _ .unlock => {x.gLedMutex}
  | _ => ∅

theorem led_locks (x : LedLinks) : (ledProgram x).Locks (ledHolding x) := by
  refine ⟨fun e => ?_, fun {l f} hl y => ?_, fun {l c next} hl y r => ?_, fun {l c next} hl y m hm => ?_,
    fun {l c next} hl y m hm => ?_⟩
  · simp only [ledProgram]
    split_ifs <;> rfl
  · rcases l with _ | ⟨i, _ | _ | _ | _ | _ | _ | _⟩ <;> cases hl <;> rfl
  · rcases l with _ | ⟨i, _ | _ | _ | _ | _ | _ | _⟩ <;> cases hl <;> simp [ledHolding, Syscall.holding]
  · rcases l with _ | ⟨i, _ | _ | _ | _ | _ | _ | _⟩ <;> cases hl <;> cases hm
    exact Set.notMem_empty _
  · rcases l with _ | ⟨i, _ | _ | _ | _ | _ | _ | _⟩ <;> cases hl <;> cases hm
    exact rfl

/-- What is lit while the owner of the mutex is at a line. -/
def ledInside (user : LedState) : LedPc → LedState → Prop
  | .at _ .on => Lights user fun _ => false
  | .at i .lit => Lights user fun j => decide (j = i)
  | .at i .off => Lights user fun j => decide (j = i)
  | .at _ .unlock => Lights user fun _ => false
  | _ => fun _ => False

theorem led_protects (x : LedLinks) (user : LedState) : (ledProgram x).Protects (ledHolding x)
    x.gLedMutex (Lights user fun _ => false) (ledInside user) := by
  refine ⟨fun {l c next} hl y hm r z hz => ?_, fun {l c next} hl y hm hy => ?_,
    fun {l c next} hl hm y hne hy r => ?_, fun {l f} hl hm y hy => ?_, fun {l f} hl hm y => ?_⟩
  · rcases l with _ | ⟨i, _ | _ | _ | _ | _ | _ | _⟩ <;> cases hl <;> cases hm
    exact hz
  · rcases l with _ | ⟨i, _ | _ | _ | _ | _ | _ | _⟩ <;> cases hl <;> cases hm
    exact hy
  · rcases l with _ | ⟨i, _ | _ | _ | _ | _ | _ | _⟩ <;> cases hl
    · exact absurd hm (Set.notMem_empty _)
    · exact hy
    · exact absurd rfl hne
    · exact absurd hm (Set.notMem_empty _)
  · rcases l with _ | ⟨i, _ | _ | _ | _ | _ | _ | _⟩ <;> cases hl
    · exact absurd hm (Set.notMem_empty _)
    · have h' := Lights.on hy i
      simp only [Bool.false_or] at h'
      exact h'
    · have h' := Lights.off hy i
      simp only [Bool.and_not_self] at h'
      exact h'
    · exact absurd hm (Set.notMem_empty _)
  · -- outside the lock a task works on its counter alone
    have hodr : (f y).1.gpioaOdr = y.gpioaOdr := by
      rcases l with _ | ⟨_ | _, _ | _ | _ | _ | _ | _ | _⟩ <;> cases hl <;>
        first | rfl | exact absurd rfl hm
    have hkeep : ∀ on, Lights user on y → Lights user on (f y).1 := by
      intro on h
      exact ⟨fun i => by rw [hodr, h.led], fun j hj hne => by rw [hodr, h.others j hj hne]⟩
    refine ⟨hkeep _, fun l' hm' h' => ?_⟩
    rcases l' with _ | ⟨i, _ | _ | _ | _ | _ | _ | _⟩
    case at.on => exact hkeep _ h'
    case at.lit => exact hkeep _ h'
    case at.off => exact hkeep _ h'
    case at.unlock => exact hkeep _ h'
    all_goals exact absurd hm' (Set.notMem_empty _)

def LedLinks.small : LedLinks := ⟨0, fun i => if i = .task0 then 0x400 else 0x500⟩

def LedState.small : LedState := ledGpioInit ⟨0, 0x44444444, 0, 0, 0⟩

/-- `task0` sleeps with its LED lit, `task1` has asked for the mutex, and the idle task runs. -/
theorem led_contended : ∃ s : ProgSys LedState LedPc,
    ProgRun (ledProgram .small) (.app (ledCreates .small)) .small 4 s ∧ s.user.Lit .task0 ∧
    s.pc 192 = .at .task0 .off ∧ s.pc 128 = .at .task1 .on ∧ s.kernel.tasks = [256, 192, 128] ∧
    (s.kernel.mutex 0).owner = some 192 :=
  Program.play_exists (ledProgram .small) (.app (ledCreates .small)) .small 10
    [.interrupt .pendSV, .task, .task, .task, .interrupt .pendSV, .task, .interrupt .pendSV]
    (fun s => s.user.Lit .task0 ∧ s.pc 192 = .at .task0 .off ∧ s.pc 128 = .at .task1 .on ∧
      s.kernel.tasks = [256, 192, 128] ∧ (s.kernel.mutex 0).owner = some 192)
    (by decide +kernel)

/-- There `task1` is at a line of the lock and does not own the mutex, so it waits for it. -/
theorem lock_discipline_led : ∃ s : ProgSys LedState LedPc,
    ProgRun (ledProgram .small) (.app (ledCreates .small)) .small 4 s ∧
    (s.kernel.mutex 0).owner = some 192 ∧ s.kernel.Waits 128 0 := by
  obtain ⟨s, hr, -, -, hpc, ht, ho⟩ := led_contended
  have hd := (lock_discipline (led_locks .small) hr).1 128 (by rw [ht]; decide) 0
  rw [hpc, ho] at hd
  refine ⟨s, hr, ho, (hd.1 rfl).resolve_left (by decide)⟩

/-- The data are as the line of the owner says. -/
theorem resource_rule_led : ∃ s : ProgSys LedState LedPc,
    ProgRun (ledProgram .small) (.app (ledCreates .small)) .small 4 s ∧
    Lights .small (fun i => decide (i = .task0)) s.user := by
  obtain ⟨s, hr, -, hpc, -, -, ho⟩ := led_contended
  have h0 : Lights .small (fun _ => false) .small :=
    ⟨fun i => by cases i <;> decide, fun _ _ _ => rfl⟩
  have hin := (resource_rule (led_locks .small) (led_protects .small .small) h0 hr).2 192 ho
  rw [hpc] at hin
  exact ⟨s, hr, hin⟩

/-- If both LEDs are off at the start, then in every run at most one is lit, and only while a task
that executes its function owns the mutex, between its `led_on` and its `led_off`. The other pins of
the port are left alone. -/
theorem led_exclusive (hoff : ∀ i, ¬ user.Lit i) (h : ProgRun (ledProgram x) b user n s) :
    (∀ i j, s.user.Lit i → s.user.Lit j → i = j) ∧
    (∀ i, s.user.Lit i → ∃ t, (s.kernel.mutex x.gLedMutex).owner = some t ∧
      (s.pc t = .at i .lit ∨ s.pc t = .at i .off)) ∧
    ∀ j < 16, (∀ i : LedTask, j ≠ i.bit) →
      s.user.gpioaOdr.getLsbD j = user.gpioaOdr.getLsbD j := by
  have h0 : Lights user (fun _ => false) user :=
    ⟨fun i => Bool.eq_false_iff.2 (hoff i), fun _ _ _ => rfl⟩
  obtain ⟨a, hs, -, hg⟩ := prog_guarded (led_locks x) (led_protects x user) h0 h
  -- either no LED is lit, or the one of the owner
  have hcase : Lights user (fun _ => false) s.user ∨ ∃ t i, (a.mutex x.gLedMutex).owner = some t ∧
      (s.pc t = .at i .lit ∨ s.pc t = .at i .off) ∧ Lights user (fun j => decide (j = i)) s.user := by
    cases ho : (a.mutex x.gLedMutex).owner with
    | none => exact .inl (hg.unowned ho)
    | some t =>
      have hin := hg.owned t ho
      rcases hpc : s.pc t with _ | ⟨i, _ | _ | _ | _ | _ | _ | _⟩ <;> rw [hpc] at hin
      case at.on => exact .inl hin
      case at.unlock => exact .inl hin
      case at.lit => exact .inr ⟨t, i, rfl, .inl hpc, hin⟩
      case at.off => exact .inr ⟨t, i, rfl, .inr hpc, hin⟩
      all_goals exact hin.elim
  rw [hs.mutex]
  rcases hcase with hl | ⟨t, i, ho, hpc, hl⟩
  · have hdark : ∀ i, ¬ s.user.Lit i := fun i hi => by cases (hl.led i).symm.trans hi
    exact ⟨fun i _ hi => absurd hi (hdark i), fun i hi => absurd hi (hdark i), hl.others⟩
  · have hone : ∀ j, s.user.Lit j → j = i := fun j hj =>
      of_decide_eq_true ((hl.led j).symm.trans hj)
    refine ⟨fun j j' hj hj' => (hone j hj).trans (hone j' hj').symm, fun j hj => ?_, hl.others⟩
    rw [hone j hj]
    exact ⟨t, ho, hpc⟩

theorem led_exclusive_small : ∃ s : ProgSys LedState LedPc,
    ProgRun (ledProgram .small) (.app (ledCreates .small)) .small 4 s ∧
    s.user.Lit .task0 ∧ ¬ s.user.Lit .task1 := by
  obtain ⟨s, hr, h0, -⟩ := led_contended
  refine ⟨s, hr, h0, fun hx => ?_⟩
  have hoff : ∀ i, ¬ LedState.small.Lit i := by
    intro i
    cases i <;> decide
  cases (led_exclusive hoff hr).1 _ _ h0 hx

end Rtos
