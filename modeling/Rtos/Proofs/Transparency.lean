import Rtos.Proofs.Context
import Rtos.Proofs.Switch

/-! Context switches are transparent, over whole runs of the machine. -/

namespace Rtos

open Lib

open Model (WF Inv PoolOk)

variable {b : Boot} {k k' : Kernel} {a a' : Model} {stack : TaskId → ℕ} {ctx : TaskId → Context}
  {t u : TaskId} {args : TaskCreateArgs} {m m' : Machine} {mem : ℕ → ℕ}

/-! What the kernel's entries do to the stacks. -/

structure StackKept (k k' : Kernel) : Prop where
  data : k'.stackData = k.stackData
  sp : ∀ t ∈ k.tasks, (k'.tcb t).sp = (k.tcb t).sp

theorem Sim.stackKept (hs : Sim k a) (hs' : Sim k' a') (h : Model.StacksKept a a') :
    StackKept k k' := by
  refine ⟨?_, fun t ht => ?_⟩
  · rw [hs.globals, hs'.globals]
    exact h.data
  · rw [hs.sp, hs'.sp]
    exact h.sp t (hs.globals ▸ ht)

namespace StackKept

variable (h : StackKept k k')
include h

theorem tasks : k'.tasks = k.tasks := congrArg Prod.fst h.data

theorem gCurrent : k'.gCurrent = k.gCurrent := congrArg (fun x => x.2.1) h.data

theorem stackMem : k'.stackMem = k.stackMem := congrArg (fun x => x.2.2.2.1) h.data

theorem blocks (hs : Stacks b k stack) : Stacks b k' stack :=
  hs.congr h.tasks (congrArg (fun x => x.2.2.1) h.data) h.stackMem (congrArg (fun x => x.2.2.2.2) h.data)

theorem saved (ht : t ∈ k.tasks) (hs : SavedAt k stack ctx t) : SavedAt k' stack ctx t := by
  unfold SavedAt
  rw [h.stackMem, h.sp t ht]
  exact hs

end StackKept

/-- The block that a creation takes is not a task. -/
theorem Sim.new (hs : Sim k a) (hp : PoolOk a) (hr : osKernelTaskCreate (some args) k = (0, k')) :
    k.gKernelObjectPool.freeList ∉ k.tasks := by
  have ha : Accepts k args := create_accepts (by rw [hr])
  have hn : a.gKernelObjectPool.freeList ≠ 0 := by
    rw [← hs.globals]
    exact ha.object
  obtain ⟨l, -, -, hnew⟩ := hp.head hn
  rw [hs.globals]
  exact hnew

theorem noteStack_kept {c : Syscall} {r : ℤ} (h : ∀ args, c = .taskCreate args → r ≠ 0) :
    noteStack k c r stack = stack := by
  unfold noteStack
  split
  · exact if_neg (h _ rfl)
  · rfl

theorem noteCreated_kept {c : Syscall} {r : ℤ} (h : ∀ args, c = .taskCreate args → r ≠ 0) :
    noteCreated k c r ctx = ctx := by
  unfold noteCreated
  split
  · exact if_neg (h _ rfl)
  · rfl

/-- What is saved on the stack of a task stays there when another one is created. -/
theorem NewStack.other (h : NewStack b k k' stack args) (hnew : k.gKernelObjectPool.freeList ∉ k.tasks)
    (hu : u ∈ k.tasks) {s : ℕ} {c : Context} (hs : SavedAt k stack ctx u) :
    SavedAt k' (Function.update stack k.gKernelObjectPool.freeList s)
      (Function.update ctx k.gKernelObjectPool.freeList c) u := by
  have hne : u ≠ k.gKernelObjectPool.freeList := fun hc => hnew (hc ▸ hu)
  unfold SavedAt
  rw [Function.update_of_ne hne, Function.update_of_ne hne, h.sp u hne]
  have h1 := hs.inside
  have h2 := hs.below
  exact hs.congr fun x hx hx' => h.mem u hu x (by omega) (by omega)

theorem NewStack.new (h : NewStack b k k' stack args) :
    SavedAt k' (Function.update stack k.gKernelObjectPool.freeList k.gUserStackPool.freeList)
      (Function.update ctx k.gKernelObjectPool.freeList
        (initialContext k.layout args k.gUserStackPool.freeList)) k.gKernelObjectPool.freeList := by
  unfold SavedAt
  rw [Function.update_self, Function.update_self]
  exact h.saved

/-! From memory to `os_start`. -/

structure SetupOk (b : Boot) (x : Setup) : Prop where
  sim : ∃ a, Sim x.k a ∧ Booting b a
  blocks : Stacks b x.k x.stack
  saved : ∀ t ∈ x.k.tasks, SavedAt x.k x.stack x.context t

theorem SetupOk.create {x : Setup} (h : SetupOk b x) (hl : StackPoolOk b.layout)
    (o : Option TaskCreateArgs)
    (ho : ∀ args, o = some args → (osKernelTaskCreate o x.k).1 = 0 → 33 ≤ args.stackWords) :
    SetupOk b (x.create o) := by
  obtain ⟨a, hs, hb⟩ := h.sim
  obtain ⟨hr, hs'⟩ := hs.taskCreate hb.wf hb.pool o
  rcases Model.taskCreate_cases hb.pool o with ⟨h1, hf⟩ | ⟨h1, t, hf⟩
  · have hne : (osKernelTaskCreate o x.k).1 ≠ 0 := by
      rw [hr, h1]
      decide
    have hk : StackKept x.k (osKernelTaskCreate o x.k).2 := by
      refine hs.stackKept hs' ⟨?_, hf.sp⟩
      obtain ⟨pool, mem, he⟩ := hf.eq
      rw [he]
      rfl
    have hst : (x.create o).stack = x.stack := noteStack_kept fun _ _ => hne
    have hctx : (x.create o).context = x.context := noteCreated_kept fun _ _ => hne
    refine ⟨⟨_, hs', hb.createFailed hf⟩, ?_, fun t ht => ?_⟩
    · rw [hst]
      exact hk.blocks h.blocks
    · rw [hst, hctx]
      have htk : t ∈ x.k.tasks := hk.tasks ▸ ht
      exact hk.saved htk (h.saved t htk)
  · have h0 : (osKernelTaskCreate o x.k).1 = 0 := hr.trans h1
    cases o with
    | none => cases h1
    | some args =>
      have hret : osKernelTaskCreate (some args) x.k = (0, (osKernelTaskCreate (some args) x.k).2) :=
        Prod.ext h0 rfl
      have hnew := hs.new hb.pool hret
      have hn := h.blocks.create hl hnew (ho args rfl h0) hret
      have hst : (x.create (some args)).stack = Function.update x.stack x.k.gKernelObjectPool.freeList
          x.k.gUserStackPool.freeList := if_pos h0
      have hctx : (x.create (some args)).context = Function.update x.context
          x.k.gKernelObjectPool.freeList (initialContext x.k.layout args x.k.gUserStackPool.freeList) :=
        if_pos h0
      refine ⟨⟨_, hs', hb.created hf⟩, ?_, fun t ht => ?_⟩
      · rw [hst]
        exact hn.blocks
      · rw [hst, hctx]
        rcases List.mem_append.1 (hn.tasks ▸ ht) with htk | htk
        · exact hn.other hnew htk (h.saved t htk)
        · rw [List.mem_singleton.1 htk]
          exact hn.new

/-- The kernel after the idle task and these tasks have been asked for. -/
def Boot.after (b : Boot) (os : List (Option TaskCreateArgs)) : Kernel :=
  (some b.idleArgs :: os).foldl (fun k args => (osKernelTaskCreate args k).2) (osKallocInit b.memory)

/-- The tasks created before `os_start` have room for what a switch saves. -/
def Boot.Roomy (b : Boot) : Prop :=
  ∀ os args, os ++ [some args] <+: b.creates →
    (osKernelTaskCreate (some args) (b.after os)).1 = 0 → 33 ≤ args.stackWords

def Boot.setupAfter (b : Boot) (os : List (Option TaskCreateArgs)) : Setup :=
  (some b.idleArgs :: os).foldl Setup.create
    ⟨osKallocInit b.memory, fun _ => 0, fun _ => ⟨fun _ => 0, fun _ => 0, 0⟩⟩

theorem Boot.setupAfter_snoc (b : Boot) (os : List (Option TaskCreateArgs))
    (o : Option TaskCreateArgs) : b.setupAfter (os ++ [o]) = (b.setupAfter os).create o := by
  rw [setupAfter, ← List.cons_append, List.foldl_append]
  rfl

theorem Boot.setupAfter_k (b : Boot) (os : List (Option TaskCreateArgs)) :
    (b.setupAfter os).k = b.after os := by
  induction os using List.reverseRecOn with
  | nil => rfl
  | append_singleton os o ih =>
    rw [setupAfter_snoc, after, ← List.cons_append, List.foldl_append, Setup.create, ih]
    rfl

theorem Boot.setup_k (b : Boot) : b.setup.k = b.created := b.setupAfter_k b.creates

theorem Boot.setup_ok (hl : StackPoolOk b.layout) (hb : b.Roomy) : SetupOk b b.setup := by
  have hall : ∀ os, os <+: b.creates → SetupOk b (b.setupAfter os) := by
    intro os
    induction os using List.reverseRecOn with
    | nil =>
      intro _
      have h0 : SetupOk b ⟨osKallocInit b.memory, fun _ => 0, fun _ => ⟨fun _ => 0, fun _ => 0, 0⟩⟩ :=
        ⟨⟨b.model, b.model_sim, b.model_booting⟩, ⟨rfl, _, b.stackPool hl.fits⟩, nofun⟩
      refine h0.create hl (some b.idleArgs) ?_
      intro args ha _
      obtain rfl := Option.some.inj ha
      change 33 ≤ 128
      decide
    | append_singleton os o ih =>
      intro hpre
      rw [b.setupAfter_snoc]
      refine (ih ((List.prefix_append _ _).trans hpre)).create hl o ?_
      intro args ha hret
      rw [b.setupAfter_k] at hret
      subst ha
      exact hb os args hpre hret
  exact hall b.creates (List.prefix_refl _)

/-! The kernel's state on the machine. -/

def Sound (k : Kernel) : Prop := ∃ a, Sim k a ∧ Inv a

namespace Sound

theorem current (h : Sound k) : ∃ t ∈ k.tasks, k.gCurrent = some t := by
  obtain ⟨a, hs, hi⟩ := h
  rw [hs.globals]
  exact hi.cur

theorem write (h : Sound k) (mem : ℕ → ℕ) : Sound { k with stackMem := mem } := by
  obtain ⟨a, hs, hi⟩ := h
  refine ⟨_, hs.mapGlobals fun g => { g with stackMem := mem }, ?_⟩
  exact ⟨hi.wf.congr rfl (fun _ => ⟨Iff.rfl, rfl, rfl, rfl⟩) rfl rfl,
    hi.pool.congr rfl rfl fun _ => rfl, hi.cur, hi.next, hi.running, hi.unique, hi.idle, hi.owner,
    hi.blockedOn⟩

/-- The stack pointer of a task is not a link of the object pool. -/
theorem setSp (h : Sound k) (ht : t ∈ k.tasks) (sp : ℕ) :
    Sound (k.setTcb t fun c => { c with sp := sp }) := by
  obtain ⟨a, hs, hi⟩ := h
  have hta : t ∈ a.tasks := by
    rw [← hs.globals]
    exact ht
  have hk : ∀ {β : Type} (f : TcbData → β) (_ : f { a.tcb t with sp := sp } = f (a.tcb t))
      (u : TaskId), f ((a.setTcb t fun c => { c with sp := sp }).tcb u) = f (a.tcb u) :=
    fun f hf u => Model.setTcb_keeps a u f hf
  have hst := hk TcbData.state rfl
  refine ⟨a.setTcb t fun c => { c with sp := sp }, hs.setTcb t (fun _ => rfl) fun _ =>
    ⟨rfl, rfl, rfl, rfl⟩, hi.wf.congr rfl (fun u => ⟨by rw [hst], hk TcbData.waitQueue rfl u,
      hk TcbData.priority rfl u, hk TcbData.wakeTick rfl u⟩) rfl rfl, ?_, hi.cur, ?_, ?_, ?_, ?_,
    hi.owner, fun u hu => (hk TcbData.blockedOn rfl u).trans (hi.blockedOn u hu)⟩
  · obtain ⟨l, hc, hn⟩ := hi.pool
    refine ⟨l, hc.congr fun x hx => ?_, hn⟩
    have hne : x ≠ t := fun he => hn x hx (he ▸ hta)
    simp only [Model.spMem, Model.setTcb_tcb_ne _ _ hne]
  · obtain ⟨n, h1, h2, h3⟩ := hi.next
    exact ⟨n, h1, h2, by rw [hst]; exact h3⟩
  · exact fun hp c hc => (hst c).trans (hi.running hp c hc)
  · exact fun u hu hr => hi.unique u hu ((hst u).symm.trans hr)
  · obtain ⟨i, h1, h2⟩ := hi.idle
    exact ⟨i, h1, by rw [hst]; exact h2⟩

/-- A system call or a tick keeps the stacks, or it is a creation that succeeds. -/
theorem entry (h : Sound k) {e : Entry} {r : ℤ} (he : k.Enabled e) (hp : e ≠ .pendSV)
    (hr : (exec k e).Returns (r, k')) : Sound k' ∧
      ((StackKept k k' ∧ ∀ args, e = .svc (.taskCreate args) → r ≠ 0) ∨
        ∃ args, e = .svc (.taskCreate (some args)) ∧ r = 0 ∧
          osKernelTaskCreate (some args) k = (0, k') ∧
          k.gKernelObjectPool.freeList ∉ k.tasks) := by
  obtain ⟨a, hs, hi⟩ := h
  obtain ⟨cur, -, hc⟩ := hi.cur
  obtain ⟨a', hs', hi', ho⟩ := exec_sim hs hi hc he hr
  refine ⟨⟨a', hs', hi'⟩, ?_⟩
  rcases ho.stackCases hi hc hp with ⟨hk, hne⟩ | ⟨rfl, args, t, rfl, -⟩
  · exact .inl ⟨hs.stackKept hs' hk, hne⟩
  · have hret : osKernelTaskCreate args k = (0, k') := Comp.returns_pure.1 hr
    cases args with
    | none => cases congrArg Prod.fst hret
    | some args => exact .inr ⟨args, rfl, rfl, hret, hs.new hi.pool hret⟩

theorem tick (h : Sound k) {r : ℤ} (hr : (exec k .sysTick).Returns (r, k')) (hp : k.pendsv = true) :
    k'.pendsv = true := by
  obtain ⟨a, hs, hi⟩ := h
  obtain ⟨cur, -, hc⟩ := hi.cur
  obtain ⟨a', hs', -, ho⟩ := exec_sim (e := .sysTick) hs hi hc trivial hr
  have ha : a.trigger = a := by
    have hpa : true = a.pendsv := by
      rw [← hs.globals]
      exact hp.symm
    simp only [Model.trigger, hpa]
  cases ho with
  | tick =>
    rw [hs'.globals, ← ha, Model.trigger_sysTick]
    rfl

/-- `os_commit_switch` changes nothing about the stacks but the task that has the core. -/
theorem commit (h : Sound k) (hp : k.pendsv = true) : Sound (pendSVHandler k) ∧
    ∃ n ∈ k.tasks, (pendSVHandler k).stackData =
        (k.tasks, some n, k.layout, k.stackMem, k.gUserStackPool) ∧
      ∀ t, ((pendSVHandler k).tcb t).sp = (k.tcb t).sp := by
  obtain ⟨a, hs, hi⟩ := h
  obtain ⟨cur, -, hc⟩ := hi.cur
  have hr : (exec k .pendSV).Returns (0, pendSVHandler k) := Comp.returns_pure.2 rfl
  obtain ⟨a', hs', hi', ho⟩ := exec_sim (e := .pendSV) hs hi hc hp hr
  refine ⟨⟨a', hs', hi'⟩, ?_⟩
  obtain ⟨n, hn, hnext, -⟩ := hi.next
  cases ho with
  | pendSV =>
    have he := Model.commit_eq (a := { a with pendsv := false }) hnext
    rw [he] at hs'
    refine ⟨n, ?_, ?_, fun t => ?_⟩
    · rw [hs.globals]
      exact hn
    · rw [hs'.globals, hs.globals]
      rfl
    · rw [hs'.sp, hs.sp]

end Sound

/-! The invariant: a task that does not have the core has its registers on its stack. So has the
current task while `os_start` runs; an exception leaves a part of them in the core. -/

structure Transparent (b : Boot) (ctx : TaskId → Context) (m : Machine) : Prop where
  sound : Sound m.k
  blocks : Stacks b m.k m.stack
  saved : ∀ t ∈ m.k.tasks, m.gFirstSwitch = true ∨ m.k.gCurrent ≠ some t →
    SavedAt m.k m.stack ctx t
  pending : m.gFirstSwitch = true → m.k.pendsv = true
  start : m.gFirstSwitch = true → m.handler = false → ∀ t, m.k.gCurrent = some t →
    m.stack t + 4 * 9 ≤ m.cpu.psp ∧ m.cpu.psp ≤ (m.k.tcb t).sp
  exception : m.gFirstSwitch = false → m.handler = true → ∀ t, m.k.gCurrent = some t →
    Framed m.k.stackMem (m.stack t) m.cpu.psp (ctx t) ∧ m.cpu.low = (ctx t).low
  thread : m.gFirstSwitch = false → m.handler = false → ∀ t, m.k.gCurrent = some t →
    m.cpu.Fits (m.stack t)

theorem savedAt_update {c : Context} (hne : u ≠ t) :
    SavedAt k stack (Function.update ctx t c) u ↔ SavedAt k stack ctx u := by
  unfold SavedAt
  rw [Function.update_of_ne hne]

namespace Transparent

theorem current (h : Transparent b ctx m) (hc : m.k.gCurrent = some t) : t ∈ m.k.tasks := by
  obtain ⟨u, hu, he⟩ := h.sound.current
  obtain rfl : t = u := Option.some.inj (hc.symm.trans he)
  exact hu

theorem started (h : Transparent b ctx m) (hp : m.k.pendsv = false) : m.gFirstSwitch = false := by
  by_contra hne
  cases hp.symm.trans (h.pending (eq_true_of_ne_false hne))

/-- What a write to the stack of the current task leaves alone. -/
theorem write_others (h : Transparent b ctx m) (hc : m.k.gCurrent = some t)
    (hm : ∀ x, x < m.stack t ∨ m.stack t + 4 * osTaskStackWords ≤ x → mem x = m.k.stackMem x)
    (hu : u ∈ m.k.tasks) (hne : u ≠ t) : SavedAt { m.k with stackMem := mem } m.stack ctx u := by
  have hnc : m.k.gCurrent ≠ some u := fun he => hne (Option.some.inj (he.symm.trans hc))
  exact h.blocks.write_other (h.current hc) hm hu hne (h.saved u hu (.inr hnc))

theorem task (h : Transparent b ctx m) (hh : m.handler = false) (hr : m.k.TaskRuns) {c : Context}
    (hc : m.k.gCurrent = some t) (hf : c.Fits (m.stack t))
    (hm : ∀ x, x < m.stack t ∨ m.stack t + 4 * osTaskStackWords ≤ x → mem x = m.k.stackMem x) :
    Transparent b ctx { m with k := { m.k with stackMem := mem }, cpu := c } := by
  have hfirst := h.started hr
  have hne : ∀ {P : Prop}, m.gFirstSwitch = true → P := fun he => by cases hfirst.symm.trans he
  refine ⟨h.sound.write mem, h.blocks.write (h.current hc) hm, fun u hu hu' => ?_, hne, hne, ?_, ?_⟩
  · rcases hu' with he | he
    · exact hne he
    · exact h.write_others hc hm hu fun hut => he (hut ▸ hc)
  · intro _ he
    cases hh.symm.trans he
  · intro _ _ u hu
    obtain rfl : t = u := Option.some.inj (hc.symm.trans hu)
    exact hf

theorem ret (h : Transparent b ctx m) (hh : m.handler = true) (hp : m.k.pendsv = false) :
    Transparent b ctx m.leave ∧ ∃ t, m.k.gCurrent = some t ∧ m.leave.cpu = ctx t := by
  have hfirst := h.started hp
  obtain ⟨t, -, hc⟩ := h.sound.current
  obtain ⟨hf, hlow⟩ := h.exception hfirst hh t hc
  have hcpu : m.leave.cpu = ctx t := by
    change Context.unstack m.cpu.low m.k.stackMem m.cpu.psp = ctx t
    rw [hlow]
    exact hf.unstack
  refine ⟨⟨h.sound, h.blocks, h.saved, h.pending, ?_, ?_, fun _ _ u hu => ?_⟩, t, hc, hcpu⟩
  · intro he
    cases hfirst.symm.trans he
  · intro _ he
    cases he
  · obtain rfl : t = u := Option.some.inj (hc.symm.trans hu)
    rw [hcpu]
    exact hf.fits

/-- The registers of a task that an exception interrupts. -/
def noteEntry (m : Machine) (ctx : TaskId → Context) : TaskId → Context :=
  match m.k.gCurrent with
  | none => ctx
  | some t => if m.handler ∨ m.gFirstSwitch then ctx else Function.update ctx t m.cpu

theorem noteEntry_quiet (h : m.handler = true ∨ m.gFirstSwitch = true) : noteEntry m ctx = ctx := by
  unfold noteEntry
  split
  · rfl
  · exact if_pos h

theorem noteEntry_thread (hc : m.k.gCurrent = some t) (hh : m.handler = false)
    (hf : m.gFirstSwitch = false) : noteEntry m ctx = Function.update ctx t m.cpu := by
  unfold noteEntry
  rw [hc]
  exact if_neg (by simp [hh, hf])

theorem noteContext_other {x : MAct} (h1 : ∀ c r, x ≠ .svc c r) (h2 : x ≠ .sysTick)
    (h3 : x ≠ .pendSV) : noteContext m x ctx = ctx := by
  unfold noteContext
  split
  · rfl
  · split_ifs
    · rfl
    · split
      · exact absurd rfl (h1 _ _)
      · exact absurd rfl h2
      · exact absurd rfl h3
      · rfl

theorem enter_handler (m : Machine) : m.enter.handler = true := by
  unfold Machine.enter
  split
  · assumption
  · rfl

theorem enter_eq (hh : m.handler = false) : m.enter =
    { m with
      k := { m.k with stackMem := storeWords m.k.stackMem m.cpu.frameAddr m.cpu.stacked }
      cpu := { m.cpu with psp := m.cpu.frameAddr }
      handler := true } := by
  rw [Machine.enter, hh]
  rfl

theorem Fits.inside (mem : ℕ → ℕ) (f : Fin 8 → ℕ) {s : ℕ} {c : Context} (h : c.Fits s)
    (h8 : s % 8 = 0) :
    ∀ x, x < s ∨ s + 4 * osTaskStackWords ≤ x → storeWords mem c.frameAddr f x = mem x := by
  intro x hx
  have h1 := h.room
  have h2 := h.top
  refine storeWords_outside ?_
  rw [Context.frameAddr]
  omega

/-- While `os_start` runs, the frame goes below the one of the first task. -/
theorem enter_start (h : Transparent b ctx m) (hl : StackPoolOk b.layout) (hh : m.handler = false)
    (hf : m.gFirstSwitch = true) : Transparent b ctx m.enter := by
  obtain ⟨t, ht, hc⟩ := h.sound.current
  obtain ⟨h8, -⟩ := h.blocks.block hl ht
  obtain ⟨h1, h2⟩ := h.start hf hh t hc
  have hs := h.saved t ht (.inl hf)
  have hbelow := hs.below
  have hlow : m.stack t ≤ m.cpu.frameAddr ∧ m.cpu.frameAddr + 32 ≤ (m.k.tcb t).sp := by
    rw [Context.frameAddr]
    omega
  have hm : ∀ x, x < m.stack t ∨ m.stack t + 4 * osTaskStackWords ≤ x →
      storeWords m.k.stackMem m.cpu.frameAddr m.cpu.stacked x = m.k.stackMem x :=
    fun x hx => storeWords_outside (by omega)
  rw [enter_eq hh]
  refine ⟨h.sound.write _, h.blocks.write ht hm, fun u hu _ => ?_, h.pending, ?_, ?_, ?_⟩
  · by_cases hut : u = t
    · rw [hut]
      exact hs.congr fun x hx _ => storeWords_outside (by omega)
    · exact h.write_others hc hm hu hut
  · intro _ he
    cases he
  · intro he
    cases hf.symm.trans he
  · intro he
    cases hf.symm.trans he

theorem enter_thread (h : Transparent b ctx m) (hl : StackPoolOk b.layout) (hh : m.handler = false)
    (hf : m.gFirstSwitch = false) (hc : m.k.gCurrent = some t) :
    Transparent b (Function.update ctx t m.cpu) m.enter := by
  have ht := h.current hc
  obtain ⟨h8, -⟩ := h.blocks.block hl ht
  have hfit := h.thread hf hh t hc
  have hm := Fits.inside m.k.stackMem m.cpu.stacked hfit h8
  rw [enter_eq hh]
  refine ⟨h.sound.write _, h.blocks.write ht hm, fun u hu hu' => ?_, h.pending, ?_, ?_, ?_⟩
  · rcases hu' with he | he
    · cases hf.symm.trans he
    · have hut : u ≠ t := fun hut => he (hut ▸ hc)
      exact (savedAt_update hut).2 (h.write_others hc hm hu hut)
  · intro _ he
    cases he
  · intro _ _ u hu
    obtain rfl : t = u := Option.some.inj (hc.symm.trans hu)
    rw [Function.update_self]
    exact ⟨hfit.framed h8 _, rfl⟩
  · intro _ he
    cases he

theorem enter (h : Transparent b ctx m) (hl : StackPoolOk b.layout) :
    Transparent b (noteEntry m ctx) m.enter := by
  obtain ⟨t, -, hc⟩ := h.sound.current
  by_cases hh : m.handler = true
  · have he : m.enter = m := if_pos hh
    rw [he, noteEntry_quiet (.inl hh)]
    exact h
  have hh' : m.handler = false := eq_false_of_ne_true hh
  cases hf : m.gFirstSwitch with
  | true =>
    rw [noteEntry_quiet (.inr hf)]
    exact h.enter_start hl hh' hf
  | false =>
    rw [noteEntry_thread hc hh' hf]
    exact h.enter_thread hl hh' hf hc

/-! Inside an exception. -/

theorem kept (h : Transparent b ctx m) (hh : m.handler = true) (hk : StackKept m.k k') (hs : Sound k')
    (hp : m.gFirstSwitch = true → k'.pendsv = true) : Transparent b ctx { m with k := k' } := by
  refine ⟨hs, hk.blocks h.blocks, fun t ht ht' => ?_, hp, ?_, ?_, ?_⟩
  · have htk : t ∈ m.k.tasks := hk.tasks ▸ ht
    refine hk.saved htk (h.saved t htk ?_)
    rwa [← hk.gCurrent]
  · intro _ he
    cases hh.symm.trans he
  · intro hf _ t hc
    have := h.exception hf hh t (hk.gCurrent ▸ hc)
    rw [← hk.stackMem] at this
    exact this
  · intro _ he
    cases hh.symm.trans he

theorem created (h : Transparent b ctx m) (hh : m.handler = true) (hf : m.gFirstSwitch = false)
    (hnew : m.k.gKernelObjectPool.freeList ∉ m.k.tasks) (hn : NewStack b m.k k' m.stack args)
    (hs : Sound k') :
    Transparent b (Function.update ctx m.k.gKernelObjectPool.freeList
        (initialContext m.k.layout args m.k.gUserStackPool.freeList))
      { m with
        k := k'
        stack := Function.update m.stack m.k.gKernelObjectPool.freeList
          m.k.gUserStackPool.freeList } := by
  have hff : ∀ {P : Prop}, m.gFirstSwitch = true → P := fun he => by cases hf.symm.trans he
  refine ⟨hs, hn.blocks, fun t ht ht' => ?_, hff, hff, fun _ _ t hc => ?_, ?_⟩
  · rcases List.mem_append.1 (hn.tasks ▸ ht) with htk | htk
    · refine hn.other hnew htk (h.saved t htk (ht'.imp_right fun hx => ?_))
      rwa [← hn.gCurrent]
    · rw [List.mem_singleton.1 htk]
      exact hn.new
  · have hc' : m.k.gCurrent = some t := hn.gCurrent ▸ hc
    have ht := h.current hc'
    have hne : t ≠ m.k.gKernelObjectPool.freeList := fun he => hnew (he ▸ ht)
    obtain ⟨hfr, hlow⟩ := h.exception hf hh t hc'
    have h1 := hfr.room
    have h2 := hfr.below
    simp only [Function.update_of_ne hne]
    exact ⟨hfr.congr fun x hx hx' => hn.mem t ht x (by omega) (by omega), hlow⟩
  · intro _ he
    cases hh.symm.trans he

/-- `frame->r0 = ret`. -/
theorem result (h : Transparent b ctx m) (hh : m.handler = true) (hf : m.gFirstSwitch = false)
    (hc : m.k.gCurrent = some t) (v : ℕ) :
    Transparent b (Function.update ctx t { ctx t with hw := Function.update (ctx t).hw r0Slot v })
      { m with k := { m.k with stackMem := Function.update m.k.stackMem m.cpu.psp v } } := by
  have hff : ∀ {P : Prop}, m.gFirstSwitch = true → P := fun he => by cases hf.symm.trans he
  have ht := h.current hc
  obtain ⟨hfr, hlow⟩ := h.exception hf hh t hc
  have h1 := hfr.room
  have h2 := hfr.below
  have hm : ∀ x, x < m.stack t ∨ m.stack t + 4 * osTaskStackWords ≤ x →
      Function.update m.k.stackMem m.cpu.psp v x = m.k.stackMem x :=
    fun x hx => Function.update_of_ne (by omega) _ _
  refine ⟨h.sound.write _, h.blocks.write ht hm, fun u hu hu' => ?_, hff, hff, fun _ _ u hu => ?_, ?_⟩
  · rcases hu' with he | he
    · exact hff he
    · have hut : u ≠ t := fun hut => he (hut ▸ hc)
      exact (savedAt_update hut).2 (h.write_others hc hm hu hut)
  · obtain rfl : t = u := Option.some.inj (hc.symm.trans hu)
    rw [Function.update_self]
    exact ⟨hfr.result v, hlow⟩
  · intro _ he
    cases hh.symm.trans he

end Transparent

/-! PendSV. Once it has saved the registers, every task has them on its stack. -/

structure AllSaved (b : Boot) (ctx : TaskId → Context) (m : Machine) : Prop where
  sound : Sound m.k
  blocks : Stacks b m.k m.stack
  saved : ∀ t ∈ m.k.tasks, SavedAt m.k m.stack ctx t
  pending : m.k.pendsv = true
  gFirstSwitch : m.gFirstSwitch = false
  handler : m.handler = true

theorem Transparent.saveContext (h : Transparent b ctx m) (hh : m.handler = true)
    (hp : m.k.pendsv = true) : AllSaved b ctx m.saveContext := by
  cases hfirst : m.gFirstSwitch with
  | true =>
    have he : m.saveContext = { m with gFirstSwitch := false } := if_pos hfirst
    rw [he]
    exact ⟨h.sound, h.blocks, fun t ht => h.saved t ht (.inl hfirst), hp, rfl, hh⟩
  | false =>
    obtain ⟨t, ht, hc⟩ := h.sound.current
    obtain ⟨hfr, hlow⟩ := h.exception hfirst hh t hc
    have h1 := hfr.room
    have h2 := hfr.below
    set mem := storeWords m.k.stackMem (m.cpu.psp - 32) m.cpu.low with hmem
    have he : m.saveContext = { m with
        k := ({ m.k with stackMem := mem } : Kernel).setTcb t fun c =>
          { c with sp := m.cpu.psp - 32 } } := by
      unfold Machine.saveContext
      rw [hfirst]
      simp only [Bool.false_eq_true, if_false, hc]
      rfl
    have hm : ∀ x, x < m.stack t ∨ m.stack t + 4 * osTaskStackWords ≤ x →
        mem x = m.k.stackMem x := fun x hx => storeWords_outside (by omega)
    have hself : Saved mem (m.stack t) (m.cpu.psp - 32) (ctx t) := by
      rw [hmem, hlow]
      exact hfr.save
    rw [he]
    refine ⟨(h.sound.write mem).setSp ht _, (h.blocks.write ht hm).congr rfl rfl rfl rfl,
      fun u hu => ?_, hp, hfirst, hh⟩
    unfold SavedAt
    by_cases hut : u = t
    · rw [hut]
      simp only [Kernel.setTcb, Function.update_self]
      exact hself
    · simp only [Kernel.setTcb, Function.update_of_ne hut]
      exact h.write_others hc hm hu hut

theorem AllSaved.loadContext (h : AllSaved b ctx m) :
    Transparent b ctx { m with k := pendSVHandler m.k }.loadContext := by
  obtain ⟨hs, n, hn, hd, hsp⟩ := h.sound.commit h.pending
  set k' := pendSVHandler m.k
  have htasks : k'.tasks = m.k.tasks := congrArg Prod.fst hd
  have hcur : k'.gCurrent = some n := congrArg (fun x => x.2.1) hd
  have hmem : k'.stackMem = m.k.stackMem := congrArg (fun x => x.2.2.2.1) hd
  have hsaved : ∀ t ∈ m.k.tasks, SavedAt k' m.stack ctx t := fun t ht => by
    unfold SavedAt
    rw [hmem, hsp]
    exact h.saved t ht
  have he : ({ m with k := k' } : Machine).loadContext = { m with
      k := k'
      cpu := { m.cpu with low := loadWords 8 k'.stackMem (k'.tcb n).sp, psp := (k'.tcb n).sp + 32 } } := by
    unfold Machine.loadContext
    rw [hcur]
  have hff : ∀ {P : Prop}, m.gFirstSwitch = true → P := fun hf => by cases h.gFirstSwitch.symm.trans hf
  have hhf : ∀ {P : Prop}, m.handler = false → P := fun hf => by cases h.handler.symm.trans hf
  rw [he]
  refine ⟨hs, ?_, fun t ht _ => hsaved t (htasks ▸ ht), hff, hff, fun _ _ t hc => ?_, fun _ => hhf⟩
  · exact h.blocks.congr htasks (congrArg (fun x => x.2.2.1) hd) hmem (congrArg (fun x => x.2.2.2.2) hd)
  · obtain rfl : n = t := Option.some.inj (hcur.symm.trans hc)
    have hsn := hsaved n hn
    exact ⟨hsn.frame, hsn.low⟩

/-! Whole runs. -/

namespace Transparent

theorem svc (h : Transparent b ctx m) (hl : StackPoolOk b.layout) {c : Syscall} {r : ℤ}
    (hh : m.handler = false) (he : m.k.Enabled (.svc c))
    (hr : (exec m.enter.k (.svc c)).Returns (r, k'))
    (h33 : ∀ args, c = .taskCreate (some args) → r = 0 → 33 ≤ args.stackWords) :
    Transparent b (noteContext m (.svc c r) ctx) { m.enter with
      k := { k' with stackMem := Function.update k'.stackMem m.enter.cpu.psp (r % 2 ^ 32).toNat }
      stack := noteStack m.enter.k c r m.stack } := by
  obtain ⟨t, ht, hc⟩ := h.sound.current
  have hfirst := h.started he.1
  have heq := enter_eq hh
  have hen := h.enter_thread hl hh hfirst hc
  have hh' := enter_handler m
  have hfirst' : m.enter.gFirstSwitch = false := by
    rw [heq]
    exact hfirst
  have hnote : noteContext m (.svc c r) ctx = noteCreated m.k c r (Function.update ctx t
      { m.cpu with hw := Function.update m.cpu.hw r0Slot (r % 2 ^ 32).toNat }) := by
    unfold noteContext
    rw [hc]
    exact if_neg (by simp [hh, hfirst])
  have he' : m.enter.k.Enabled (.svc c) := by
    rw [heq]
    exact he
  obtain ⟨hs, ⟨hk, hne⟩ | ⟨args, hargs, rfl, hret, hnew⟩⟩ := hen.sound.entry he' nofun hr
  · have hne' : ∀ args, c = .taskCreate args → r ≠ 0 := fun args ha => hne args (congrArg _ ha)
    have hst : noteStack m.enter.k c r m.stack = m.enter.stack := by
      rw [noteStack_kept hne', heq]
    have hc' : k'.gCurrent = some t := by
      rw [hk.gCurrent, heq]
      exact hc
    have hres := (hen.kept hh' hk hs fun hf => by cases hfirst'.symm.trans hf).result hh' hfirst' hc'
      (r % 2 ^ 32).toNat
    rw [Function.update_self, Function.update_idem] at hres
    rw [hnote, noteCreated_kept hne', hst]
    exact hres
  · obtain rfl : c = .taskCreate (some args) := Entry.svc.inj hargs
    have hn := hen.blocks.create hl hnew (h33 args rfl rfl) hret
    have hc' : k'.gCurrent = some t := by
      rw [hn.gCurrent, heq]
      exact hc
    have hne : t ≠ m.enter.k.gKernelObjectPool.freeList := fun hx => by
      rw [← hx, heq] at hnew
      exact hnew ht
    have hres := (hen.created hh' hfirst' hnew hn hs).result hh' hfirst' hc' ((0 : ℤ) % 2 ^ 32).toNat
    rw [Function.update_of_ne hne, Function.update_self, Function.update_comm hne.symm,
      Function.update_idem] at hres
    have hst : noteStack m.enter.k (.taskCreate (some args)) 0 m.stack = Function.update m.enter.stack
        m.enter.k.gKernelObjectPool.freeList m.enter.k.gUserStackPool.freeList := by
      rw [heq]
      rfl
    have hcr : noteCreated m.k (.taskCreate (some args)) 0 (Function.update ctx t
          { m.cpu with hw := Function.update m.cpu.hw r0Slot ((0 : ℤ) % 2 ^ 32).toNat }) =
        Function.update (Function.update ctx t
          { m.cpu with hw := Function.update m.cpu.hw r0Slot ((0 : ℤ) % 2 ^ 32).toNat })
          m.enter.k.gKernelObjectPool.freeList
          (initialContext m.enter.k.layout args m.enter.k.gUserStackPool.freeList) := by
      rw [heq]
      rfl
    rw [hnote, hcr, hst]
    exact hres

theorem step (h : Transparent b ctx m) (hl : StackPoolOk b.layout) {x : MAct} (hx : m.Step x m')
    (h33 : ∀ args, x = .svc (.taskCreate (some args)) 0 → 33 ≤ args.stackWords) :
    Transparent b (noteContext m x ctx) m' := by
  obtain ⟨t, ht, hc⟩ := h.sound.current
  cases hx with
  | task hh hr hct hf hm =>
    rw [noteContext_other (x := .task) nofun nofun nofun]
    exact h.task hh hr hct hf hm
  | ret hh hp =>
    rw [noteContext_other (x := .ret) nofun nofun nofun]
    exact (h.ret hh hp).1
  | @svc c r k' hh he hr => exact h.svc hl hh he hr fun args ha h0 => h33 args (by rw [ha, h0])
  | @sysTick r k' hr =>
    have hen := h.enter hl
    obtain ⟨hs, ⟨hk, -⟩ | ⟨args, hargs, -⟩⟩ := hen.sound.entry (e := .sysTick) trivial nofun hr
    · exact hen.kept (enter_handler m) hk hs fun hf => hen.sound.tick hr (hen.pending hf)
    · cases hargs
  | pendSV hp =>
    have hen := h.enter hl
    have hp' : m.enter.k.pendsv = true := by
      unfold Machine.enter
      split
      · exact hp
      · exact hp
    exact (hen.saveContext (enter_handler m) hp').loadContext

end Transparent

/-- `os_start` up to the first PendSV leaves the stacks alone. -/
theorem Boot.start_kept (h : b.start = some k) : k.tasks = b.created.tasks ∧
    k.layout = b.created.layout ∧ k.stackMem = b.created.stackMem ∧
    k.gUserStackPool = b.created.gUserStackPool ∧ k.tcb = b.created.tcb ∧ k.pendsv = true := by
  unfold Boot.start osStart at h
  simp only at h
  split_ifs at h
  obtain rfl := Option.some.inj h
  exact ⟨rfl, rfl, rfl, rfl, rfl, rfl⟩

/-- What `os_start` then writes is below the frame of the first task. -/
theorem Boot.start_transparent (hl : StackPoolOk b.layout) (hb : b.Roomy) {c : Context}
    (h : b.start = some k) (hc : k.gCurrent = some t) (h1 : b.setup.stack t + 4 * 9 ≤ c.psp)
    (h2 : c.psp ≤ (k.tcb t).sp)
    (hm : ∀ a, a < b.setup.stack t ∨ (k.tcb t).sp ≤ a → mem a = k.stackMem a) :
    Transparent b b.setup.context ⟨{ k with stackMem := mem }, c, true, false, b.setup.stack⟩ := by
  obtain ⟨a, hs, hst⟩ := start_sim h
  obtain ⟨hk1, hk2, hk3, hk4, hk5, hpend⟩ := Boot.start_kept h
  have hset := Boot.setup_ok hl hb
  have hblocks : Stacks b k b.setup.stack := by
    refine Stacks.congr ?_ hk1 hk2 hk3 hk4
    rw [← b.setup_k]
    exact hset.blocks
  have hsaved : ∀ u ∈ k.tasks, SavedAt k b.setup.stack b.setup.context u := fun u hu => by
    rw [hk1, ← b.setup_k] at hu
    have hsu := hset.saved u hu
    unfold SavedAt at hsu ⊢
    rw [hk3, hk5, ← b.setup_k]
    exact hsu
  have hsound : Sound k := ⟨a, hs, hst.inv⟩
  have ht : t ∈ k.tasks := by
    obtain ⟨u, hu, he⟩ := hsound.current
    rwa [Option.some.inj (hc.symm.trans he)]
  have hst := hsaved t ht
  have hbelow := hst.below
  have hm' : ∀ x, x < b.setup.stack t ∨ b.setup.stack t + 4 * osTaskStackWords ≤ x →
      mem x = k.stackMem x := fun x hx => hm x (by omega)
  refine ⟨hsound.write mem, hblocks.write ht hm', fun u hu _ => ?_, fun _ => hpend, ?_, nofun, nofun⟩
  · by_cases hut : u = t
    · rw [hut]
      exact hst.congr fun x hx _ => hm x (.inr hx)
    · exact hblocks.write_other ht hm' hu hut (hsaved u hu)
  · intro _ _ u hu
    obtain rfl : t = u := Option.some.inj (hc.symm.trans hu)
    exact ⟨h1, h2⟩

theorem Machine.Run.transparent {tr : List (Machine × MAct)} (hl : StackPoolOk b.layout)
    (hb : b.Roomy) (h : Machine.Run b tr m)
    (htr : ∀ x ∈ tr, ∀ args, x.2 = .svc (.taskCreate (some args)) 0 → 33 ≤ args.stackWords) :
    Transparent b (lastContext b tr) m := by
  induction h with
  | boot h hc h1 h2 hm => exact Boot.start_transparent hl hb h hc h1 h2 hm
  | @snoc tr m m' x _ hx ih =>
    have hprev := ih fun y hy => htr y (List.mem_append_left _ hy)
    have := hprev.step hl hx (htr (m, x) (by simp))
    rw [lastContext, List.foldl_append]
    exact this

/-- A task that gets the core back finds the registers it had when it was last interrupted, and
the first time those that it was created with. -/
theorem context_transparent {tr : List (Machine × MAct)} (hl : StackPoolOk b.layout)
    (hb : b.Roomy) (h : Machine.Run b (tr ++ [(m, .ret)]) m')
    (htr : ∀ x ∈ tr, ∀ args, x.2 = .svc (.taskCreate (some args)) 0 → 33 ≤ args.stackWords) :
    ∃ t, m'.k.gCurrent = some t ∧ m'.cpu = lastContext b tr t := by
  generalize hall : tr ++ [(m, MAct.ret)] = l at h
  cases h with
  | boot => simp at hall
  | snoc hrun hstep =>
    obtain ⟨rfl, he⟩ := List.append_inj' hall rfl
    obtain ⟨rfl, rfl⟩ := Prod.mk.inj (List.singleton_inj.1 he)
    cases hstep with
    | ret hh hp => exact ((hrun.transparent hl hb htr).ret hh hp).2

/-- A tick takes the core from task 192, with its stack pointer between two multiples of eight;
it gets it back when task 128 yields. -/
theorem context_transparent_small : ∃ tr m m', Machine.Run (Boot.small [1, 1] 0 0 (by decide))
      (tr ++ [(m, .ret)]) m' ∧
    (m'.k.gCurrent = some 192 ∧ m'.cpu.psp = 3476 ∧ m'.cpu.hw r0Slot = 5) ∧
    ∃ t, m'.k.gCurrent = some t ∧ m'.cpu = lastContext (Boot.small [1, 1] 0 0 (by decide)) tr t := by
  have hl : StackPoolOk (Boot.small [1, 1] 0 0 (by decide)).layout :=
    ⟨⟨by decide, by decide, by decide, by decide⟩, by decide⟩
  have hb : (Boot.small [1, 1] 0 0 (by decide)).Roomy := by
    intro os args hpre _
    obtain ⟨p, -, he⟩ := List.mem_map.1 (hpre.subset (by simp : some args ∈ os ++ [some args]))
    rw [← Option.some.inj he]
    change 33 ≤ 128
    decide
  obtain ⟨tr, m, h, hacts, hh, hp, hx⟩ := Boot.playMachine_exists (Boot.small [1, 1] 0 0 (by decide))
    ⟨fun _ => 0, fun _ => 0, 3108⟩ 20
    [.pendSV, .ret, .task ⟨fun i => 20 + i, fun i => if i = xpsrSlot then 2 ^ 24 else 5 + i, 3476⟩ 3080 9,
      .sysTick, .pendSV, .ret, .svc .yield, .pendSV]
    (fun tr m => tr.map Prod.snd = [.pendSV, .ret, .task, .sysTick, .pendSV, .ret, .svc .yield 0, .pendSV] ∧
      m.handler = true ∧ m.k.pendsv = false ∧ m.leave.k.gCurrent = some 192 ∧
      m.leave.cpu.psp = 3476 ∧ m.leave.cpu.hw r0Slot = 5) (by decide +kernel)
  have htr : ∀ x ∈ tr, ∀ args, x.2 = .svc (.taskCreate (some args)) 0 → 33 ≤ args.stackWords := by
    intro x hm args he
    have hin := List.mem_map_of_mem (f := Prod.snd) hm
    rw [hacts, he] at hin
    simp at hin
  exact ⟨tr, m, m.leave, h.snoc (.ret hh hp), hx,
    context_transparent hl hb (h.snoc (.ret hh hp)) htr⟩

end Rtos
