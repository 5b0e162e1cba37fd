import Rtos.Kernel.Memory
import Rtos.Proofs.Queue

/-! The blocking queue down to its bytes: a run in which every copy is a loop that may be preempted
after every byte is a run in which each message is copied at once. -/

namespace Rtos

open Lib

open Model (Inv Outcome)

/-! Steps other than the copy do not look at memory. -/

variable {s s' : QueueSys} {f f' : ByteSys} {m : Word → Byte} {es : List QueueEvent} {e : QueueEvent}
  {q q₀ : OsQueue} {t u : TaskId} {call : QueueCall} {stage : QueueStage} {p : Word} {n : ℕ}

structure CoarseFrame (s : QueueSys) (e : QueueEvent) (s' : QueueSys) : Prop where
  mem : s'.mem = s.mem
  anyMem : ∀ m, QueueStep { s with mem := m } e { s' with mem := m }
  calls : ∀ u call stage, s'.pc u = .inside call stage → ∃ stage', s.pc u = .inside call stage'
  queue : s'.queue = s.queue ∨ ∃ t call, s.pc t = .inside call .index ∧
    s'.queue = (s.updateIndex call).queue
  unlock : ∀ t call, s.pc t = .inside call .copy → s'.kernel = s.kernel ∨ ∃ e' r, s.kernel.Enabled e' ∧
    (exec s.kernel e').Returns (r, s'.kernel) ∧
    (s.kernel.gCurrent = some t → e' ≠ .svc (.mutexUnlock (some s.queue.lock)))

theorem inside_ne_outside {pc : QueuePc} (h : pc = .inside call stage) : pc ≠ .outside := by
  rw [h]
  intro hx
  cases hx

theorem coarse_frame (h : QueueStep s e s') (he : e ≠ .called)
    (hcopy : ∀ t call, s.pc t = .inside call .copy → s'.pc t = s.pc t) :
    CoarseFrame s e s' := by
  cases h with
  | interrupt hx hen hr =>
    refine ⟨rfl, fun m => .interrupt hx hen hr, fun u call stage hu => ⟨stage, hu⟩, .inl rfl,
      fun t _ _ => .inr ⟨_, _, hen, hr, fun _ => ?_⟩⟩
    rcases hx with rfl | rfl
    · intro hcall
      cases hcall
    · intro hcall
      cases hcall
  | other hrun hpc hf hr =>
    refine ⟨rfl, fun m => .other hrun hpc hf hr, fun u call stage hu => ⟨stage, hu⟩, .inl rfl,
      fun t _ _ => .inr ⟨_, _, hrun.enabled _, hr, fun _ => ?_⟩⟩
    intro hx
    cases hx
    exact hf rfl
  | refuse hrun hpc =>
    exact ⟨rfl, fun m => .refuse hrun hpc, fun u call stage hu => ⟨stage, hu⟩, .inl rfl,
      fun _ _ _ => .inl rfl⟩
  | call => exact absurd rfl he
  | @syscall t call' stage c r k hrun hpc hc hr =>
    refine ⟨rfl, fun m => .syscall hrun hpc hc hr, fun u call₁ stage₁ hu => ?_, .inl rfl, fun t' _ ht' =>
      .inr ⟨_, _, hrun.enabled _, hr, fun hcur => ?_⟩⟩
    · by_cases hut : u = t
      · subst hut
        rw [QueueSys.goto_pc, Function.update_self] at hu
        refine ⟨stage, hpc.trans ?_⟩
        have hsame : ∀ c st, (QueueSys.resume call' r stage).2 = .inside c st → c = call' := by
          intro c st hx
          cases stage <;> simp only [QueueSys.resume] at hx <;> (try split_ifs at hx) <;> cases hx <;> rfl
        rw [hsame _ _ hu]
      · rw [QueueSys.goto_pc, Function.update_of_ne hut] at hu
        exact ⟨_, hu⟩
    · obtain rfl : t = t' := Option.some.inj (hrun.2.1.symm.trans hcur)
      rw [hpc] at ht'
      cases ht'
      cases hc
  | @copy t call' hrun hpc =>
    have := hcopy t call' hpc
    rw [QueueSys.goto_pc, Function.update_self, hpc] at this
    cases this
  | @index t call' hrun hpc =>
    refine ⟨by cases call' <;> rfl, fun m => ?_, fun u call₁ stage₁ hu => ?_, .inr ⟨t, call', hpc, rfl⟩,
      fun _ _ _ => .inl (by cases call' <;> rfl)⟩
    · have := QueueStep.index (s := { s with mem := m }) hrun hpc
      cases call' <;> exact this
    · by_cases hut : u = t
      · subst hut
        rw [QueueSys.goto_pc, Function.update_self] at hu
        cases hu
        exact ⟨_, hpc⟩
      · rw [QueueSys.goto_pc, Function.update_of_ne hut] at hu
        cases call' <;> exact ⟨_, hu⟩

/-- Whoever copies keeps the lock. -/
theorem owner_kept (hinv : QueueInv q es s) (hfr : CoarseFrame s e s')
    (hpc : s.pc t = .inside call .copy) (ho : (s.kernel.mutex q.lock).owner = some t) :
    (s'.kernel.mutex q.lock).owner = some t := by
  obtain ⟨a, hs, hi, -, hsto⟩ := hinv
  rcases hfr.unlock t call hpc with hk | ⟨e', r, hen, hr, hne⟩
  · rw [hk]
    exact ho
  · obtain ⟨cur, -, hc⟩ := hi.cur
    obtain ⟨a', hs', -, hout⟩ := exec_sim hs hi hc hen hr
    rw [hs.globals] at ho
    rw [hs'.globals]
    rw [hsto.consts.2.2.2, hs.globals] at hne
    cases hout.mutex_step hi hc (hs.globals ▸ hen) q.lock with
    | other _ _ hoo _ => exact hoo.trans ho
    | free hm _ _ => cases hm.symm.trans ho
    | queue hm _ hoo _ => rwa [hoo, ← hm]
    | pass hm _ _ =>
      obtain rfl := Option.some.inj (hm.symm.trans ho)
      exact absurd rfl (hne hc)

/-! The relation between the two levels. -/

/-- The bytes of the queue's slots. -/
def InStorage (s : QueueSys) (a : Word) : Prop :=
  InBlock s.queue.storage (s.queue.capacity.toNat * s.queue.msgSize.toNat) a

/-- The bytes of the slot that a copy into it has written. -/
def Written (f : ByteSys) (a : Word) : Prop :=
  ∃ t c msg, f.loop t = some c ∧ f.sys.pc t = .inside (.send msg) .copy ∧
    InBlock (f.slot (.send msg)) (f.sys.queue.msgSize.toNat - c.len.toNat) a

/-- How far a copy has come, with `m` in the memory of the coarse level. -/
def Midway (f : ByteSys) (m : Word → Byte) (t : TaskId) (c : Memcpy) (n : ℕ) : QueueCall → Prop
  | .send msg => c.d = f.slot (.send msg) + BitVec.ofNat 32 n ∧ c.s = f.buf t + BitVec.ofNat 32 n ∧
      ∀ i < n, msg[i]? = some (f.sys.mem (f.slot (.send msg) + BitVec.ofNat 32 i))
  | .recv => c.d = f.buf t + BitVec.ofNat 32 n ∧ c.s = f.slot .recv + BitVec.ofNat 32 n ∧
      ∀ i < n, f.sys.mem (f.buf t + BitVec.ofNat 32 i) = m (f.slot .recv + BitVec.ofNat 32 i)

structure BytesOk (f : ByteSys) (m : Word → Byte) : Prop where
  own : ∀ t, f.sys.pc t ≠ .outside → f.Own t (f.buf t)
  owner : ∀ t c, f.loop t = some c → (f.sys.kernel.mutex f.sys.queue.lock).owner = some t
  midway : ∀ t c, f.loop t = some c → ∃ call n, f.sys.pc t = .inside call .copy ∧
    n + c.len.toNat = f.sys.queue.msgSize.toNat ∧ Midway f m t c n call
  msg : ∀ t msg stage, f.sys.pc t = .inside (.send msg) stage →
    loadBytes f.sys.mem (f.buf t) f.sys.queue.msgSize.toNat = msg
  same : ∀ a, InStorage f.sys a → ¬ Written f a → f.sys.mem a = m a

theorem slot_inStorage (hinv : QueueInv q es { f.sys with mem := m })
    (hpl : Placed q.storage q.msgSize q.capacity) (call : QueueCall) {i : ℕ}
    (hi : i < f.sys.queue.msgSize.toNat) :
    InStorage f.sys (f.slot call + BitVec.ofNat 32 i) := by
  obtain ⟨a, -, -, -, hsto⟩ := hinv
  obtain ⟨h1, h2, h3, -⟩ := hsto.consts
  have hidx := hsto.index_lt hpl call
  have hlt : (f.sys.queue.index call).toNat < q.capacity.toNat := hidx
  have hslot : f.slot call = slotAddr q.storage q.msgSize (f.sys.queue.index call) := by
    rw [← h1, ← h2]
    cases call <;> rfl
  have hto := slotAddr_toNat hpl.fits hpl.size_pos hlt
  have hle : ((f.sys.queue.index call).toNat + 1) * q.msgSize.toNat ≤
      q.capacity.toNat * q.msgSize.toNat := Nat.mul_le_mul_right _ hlt
  rw [Nat.succ_mul] at hle
  have hfit : q.storage.toNat + q.capacity.toNat * q.msgSize.toNat ≤ 2 ^ 32 := hpl.fits
  have h1' : f.sys.queue.storage = q.storage := h1
  have h2' : f.sys.queue.msgSize = q.msgSize := h2
  have h3' : f.sys.queue.capacity = q.capacity := h3
  rw [h2'] at hi
  unfold InStorage InBlock
  rw [hslot, h1', h2', h3']
  generalize (f.sys.queue.index call).toNat * q.msgSize.toNat = x at hto hle
  generalize q.capacity.toNat * q.msgSize.toNat = y at hle hfit ⊢
  generalize slotAddr q.storage q.msgSize (f.sys.queue.index call) = z at hto ⊢
  bv_omega

theorem inBlock_add {i n : ℕ} (hn : n ≤ 2 ^ 32) (hi : i < n) :
    InBlock p n (p + BitVec.ofNat 32 i) := by
  unfold InBlock
  bv_omega

theorem add_ofNat_succ (p : Word) (n : ℕ) :
    p + BitVec.ofNat 32 n + 1 = p + BitVec.ofNat 32 (n + 1) := by
  bv_omega

theorem add_ofNat_ne (p : Word) {i n : ℕ} (hi : i < n) (hn : n < 2 ^ 32) :
    p + BitVec.ofNat 32 i ≠ p + BitVec.ofNat 32 n := by
  bv_omega

theorem inBlock_iff {a : Word} (hn : n ≤ 2 ^ 32) :
    InBlock p n a ↔ ∃ i < n, a = p + BitVec.ofNat 32 i := by
  constructor
  · intro h
    refine ⟨(a - p).toNat, h, ?_⟩
    bv_omega
  · rintro ⟨i, hi, rfl⟩
    exact inBlock_add hn hi

/-- A task that runs at its copy has the lock. -/
theorem copier_owns (hinv : QueueInv q es { f.sys with mem := m }) (hrun : f.sys.kernel.Runs t)
    (hpc : f.sys.pc t = .inside call .copy) :
    (f.sys.kernel.mutex f.sys.queue.lock).owner = some t := by
  obtain ⟨a, hs, hi, hctl, hsto⟩ := hinv
  have hg : f.sys.kernel.toGlobals = a.toGlobals := hs.globals
  have hlock : f.sys.queue.lock = q.lock := hsto.consts.2.2.2
  rw [hg] at hrun
  rw [hlock, hg]
  exact hctl.lock.owner_of_runs hi hrun.1 hrun.2.1 (by rw [hpc]; rfl)

namespace BytesOk

variable (h : BytesOk f m) (hinv : QueueInv q es { f.sys with mem := m })
  (hpl : Placed q.storage q.msgSize q.capacity)

include h

omit h in
/-- After a task has moved on in its copy, with nobody else in one. -/
theorem loop_update {c c' : Memcpy} (hone : ∀ u c, f.loop u = some c → u = t)
    (hu : Function.update f.loop t (some c') u = some c) : u = t ∧ c = c' := by
  by_cases hut : u = t
  · rw [hut, Function.update_self] at hu
    exact ⟨hut, (Option.some.inj hu).symm⟩
  · rw [Function.update_of_ne hut] at hu
    exact absurd (hone u c hu) hut

theorem loop_unique {c c' : Memcpy} (ht : f.loop t = some c) (hu : f.loop u = some c') : t = u :=
  Option.some.inj ((h.owner t c ht).symm.trans (h.owner u c' hu))

/-- A byte of the slot that a running copy works on, before it is written. -/
theorem not_written {c : Memcpy} {call : QueueCall} (ht : f.loop t = some c)
    (hpc : f.sys.pc t = .inside call .copy) {a : Word}
    (ha : ∀ msg, call = .send msg →
      ¬ InBlock (f.slot call) (f.sys.queue.msgSize.toNat - c.len.toNat) a) : ¬ Written f a := by
  rintro ⟨u, c', msg, hu, hp, hb⟩
  obtain rfl := h.loop_unique ht hu
  obtain rfl : c = c' := Option.some.inj (ht.symm.trans hu)
  rw [hpc] at hp
  cases hp
  exact ha msg rfl hb

theorem not_written_recv {c : Memcpy} (ht : f.loop t = some c)
    (hpc : f.sys.pc t = .inside .recv .copy) {a : Word} : ¬ Written f a := by
  apply h.not_written ht hpc
  intro msg hx
  cases hx

include hinv

/-- While a copy is going on, nobody moves an index. -/
theorem queue_kept {c : Memcpy} (hfr : CoarseFrame f.sys e s) (ht : f.loop t = some c) :
    s.queue = f.sys.queue := by
  obtain ⟨a, hs, -, hctl, hsto⟩ := hinv
  rcases hfr.queue with hq | ⟨u, call, hu, -⟩
  · exact hq
  · have hown := hctl.lock.owner_of_copied hu (.inl rfl)
    have hlock : f.sys.queue.lock = q.lock := hsto.consts.2.2.2
    have ho := h.owner t c ht
    rw [show f.sys.kernel.mutex = a.mutex by
      have := hs.globals
      exact congrArg Globals.mutex this, hlock, hown] at ho
    obtain rfl := Option.some.inj ho
    obtain ⟨call', n, hpc, -⟩ := h.midway u c ht
    rw [hu] at hpc
    cases hpc

theorem coarse (hst : QueueStep f.sys e s) (he : e ≠ .called)
    (hcopy : ∀ t call, f.sys.pc t = .inside call .copy → s.pc t = f.sys.pc t) :
    QueueStep { f.sys with mem := m } e { s with mem := m } ∧ BytesOk { f with sys := s } m := by
  have hfr := coarse_frame hst he hcopy
  have hfr' := coarse_frame (hfr.anyMem m) he hcopy
  have hconst : s.queue.storage = f.sys.queue.storage ∧ s.queue.msgSize = f.sys.queue.msgSize ∧
      s.queue.capacity = f.sys.queue.capacity ∧ s.queue.lock = f.sys.queue.lock := by
    rcases hfr.queue with hq | ⟨u, call, -, hq⟩
    · rw [hq]
      exact ⟨rfl, rfl, rfl, rfl⟩
    · rw [hq]
      cases call <;> exact ⟨rfl, rfl, rfl, rfl⟩
  obtain ⟨hc1, hc2, hc3, hc4⟩ := hconst
  have hpc : ∀ u, s.pc u ≠ .outside → f.sys.pc u ≠ .outside := by
    intro u hu
    cases hx : s.pc u with
    | outside => exact absurd hx hu
    | inside call stage =>
      obtain ⟨stage', hs'⟩ := hfr.calls u call stage hx
      exact inside_ne_outside hs'
  have hlock : f.sys.queue.lock = q.lock := by
    obtain ⟨a, -, -, -, hsto⟩ := hinv
    exact hsto.consts.2.2.2
  refine ⟨hfr.anyMem m, ?_, ?_, ?_, ?_, ?_⟩
  · intro t ht
    obtain ⟨h1, h2⟩ := h.own t (hpc t ht)
    simp only [ByteSys.Own, hc1, hc2, hc3]
    exact ⟨h1, fun u hu hut => h2 u hu (hpc u hut)⟩
  · intro t c ht
    obtain ⟨call, n, hcp, -⟩ := h.midway t c ht
    have ho := h.owner t c ht
    rw [hlock] at ho
    have hkept := owner_kept hinv hfr' hcp ho
    rw [hc4, hlock]
    exact hkept
  · intro t c ht
    obtain ⟨call, n, hcp, hn, hmid⟩ := h.midway t c ht
    have hq := h.queue_kept hinv hfr ht
    refine ⟨call, n, (hcopy t call hcp).trans hcp, by rw [hc2]; exact hn, ?_⟩
    cases call <;> simpa only [Midway, ByteSys.slot, hq, hfr.mem] using hmid
  · intro t msg stage ht
    obtain ⟨stage', ht'⟩ := hfr.calls t _ stage ht
    rw [hc2, hfr.mem]
    exact h.msg t msg stage' ht'
  · intro a ha hw
    rw [hfr.mem]
    apply h.same a
    · simpa only [InStorage, hc1, hc2, hc3] using ha
    · rintro ⟨t, c, msg, ht, hp, hb⟩
      refine hw ⟨t, c, msg, ht, (hcopy t _ hp).trans hp, ?_⟩
      simpa only [ByteSys.slot, h.queue_kept hinv hfr ht] using hb

include hpl

theorem work {mem : Word → Byte} (hstore : ∀ a, InStorage f.sys a → mem a = f.sys.mem a)
    (hbuf : ∀ u, f.sys.pc u ≠ .outside → ∀ a, InBlock (f.buf u) f.sys.queue.msgSize.toNat a →
      mem a = f.sys.mem a) :
    BytesOk { f with sys := { f.sys with mem := mem } } m := by
  have hlt : f.sys.queue.msgSize.toNat < 2 ^ 32 := f.sys.queue.msgSize.isLt
  refine ⟨h.own, h.owner, ?_, ?_, ?_⟩
  · intro t c ht
    obtain ⟨call, n, hcp, hn, hmid⟩ := h.midway t c ht
    refine ⟨call, n, hcp, hn, ?_⟩
    cases call with
    | send msg =>
      refine ⟨hmid.1, hmid.2.1, fun i hi => ?_⟩
      rw [hmid.2.2 i hi]
      exact congrArg some (hstore _ (slot_inStorage hinv hpl (.send msg) (by omega))).symm
    | recv =>
      refine ⟨hmid.1, hmid.2.1, fun i hi => ?_⟩
      refine Eq.trans ?_ (hmid.2.2 i hi)
      exact hbuf t (inside_ne_outside hcp) _ (inBlock_add (by omega) (by omega))
  · intro t msg stage ht
    rw [← h.msg t msg stage ht]
    refine List.map_congr_left fun i hi => ?_
    exact hbuf t (inside_ne_outside ht) _ (inBlock_add (by omega) (List.mem_range.1 hi))
  · intro a ha hw
    exact (hstore a ha).trans (h.same a ha hw)

omit hinv hpl in
/-- A task that calls is in no copy. -/
theorem no_loop (hpc : f.sys.pc t = .outside) : f.loop t = none := by
  cases hl : f.loop t with
  | none => rfl
  | some c =>
    obtain ⟨call, n, hcp, -⟩ := h.midway t c hl
    rw [hpc] at hcp
    cases hcp

omit hinv hpl in
theorem called (hpc : f.sys.pc t = .outside) (hown : f.Own t p)
    (hmsg : ∀ msg, call = .send msg → msg = loadBytes f.sys.mem p f.sys.queue.msgSize.toNat) :
    BytesOk { f with sys := f.sys.goto t (.inside call .take), buf := Function.update f.buf t p } m := by
  have hnl := h.no_loop hpc
  have hbuf : ∀ u c, f.loop u = some c → u ≠ t := by
    rintro u c hu rfl
    cases hnl.symm.trans hu
  have hold : ∀ u, u ≠ t → Function.update f.sys.pc t (.inside call .take) u = f.sys.pc u ∧
      Function.update f.buf t p u = f.buf u :=
    fun u hu => ⟨Function.update_of_ne hu _ _, Function.update_of_ne hu _ _⟩
  refine ⟨?_, h.owner, ?_, ?_, ?_⟩
  · intro u hu
    by_cases hut : u = t
    · subst hut
      simp only [ByteSys.Own, QueueSys.goto_pc, QueueSys.goto_queue, Function.update_self]
      refine ⟨hown.1, fun v hv hvo a ha => ?_⟩
      rw [(hold v hv).1] at hvo
      rw [(hold v hv).2]
      exact hown.2 v hv hvo a ha
    · rw [QueueSys.goto_pc, (hold u hut).1] at hu
      obtain ⟨h1, h2⟩ := h.own u hu
      simp only [ByteSys.Own, QueueSys.goto_pc, QueueSys.goto_queue, (hold u hut).2]
      refine ⟨h1, fun v hv hvo a ha hb => ?_⟩
      by_cases hvt : v = t
      · subst hvt
        rw [Function.update_self] at hb
        exact hown.2 u hut hu a hb ha
      · rw [(hold v hvt).1] at hvo
        rw [(hold v hvt).2] at hb
        exact h2 v hv hvo a ha hb
  · intro u c hu
    obtain ⟨call', n, hcp, hn, hmid⟩ := h.midway u c hu
    obtain ⟨h1, h2⟩ := hold u (hbuf u c hu)
    refine ⟨call', n, h1.trans hcp, hn, ?_⟩
    cases call' <;> simpa only [Midway, ByteSys.slot, QueueSys.goto_queue, QueueSys.goto_mem, h2]
      using hmid
  · intro u msg stage hu
    by_cases hut : u = t
    · subst hut
      simp only [QueueSys.goto_pc, Function.update_self, QueuePc.inside.injEq] at hu
      simp only [QueueSys.goto_queue, QueueSys.goto_mem, Function.update_self]
      exact (hmsg msg hu.1).symm
    · simp only [QueueSys.goto_pc, (hold u hut).1] at hu
      simp only [QueueSys.goto_queue, QueueSys.goto_mem, (hold u hut).2]
      exact h.msg u msg stage hu
  · intro a ha hw
    apply h.same a ha
    rintro ⟨u, c, msg, hu, hp, hb⟩
    exact hw ⟨u, c, msg, hu, (hold u (hbuf u c hu)).1.trans hp, hb⟩

omit hpl in
theorem enter (hrun : f.sys.kernel.Runs t) (hpc : f.sys.pc t = .inside call .copy)
    (hnl : f.loop t = none) :
    BytesOk { f with loop := Function.update f.loop t (some (f.memcpyArgs t call)) } m := by
  have hown := copier_owns hinv hrun hpc
  have hone : ∀ u c, f.loop u = some c → u = t :=
    fun u c hu => Option.some.inj ((h.owner u c hu).symm.trans hown)
  refine ⟨h.own, ?_, ?_, h.msg, ?_⟩
  · intro u c hu
    rw [(loop_update hone hu).1]
    exact hown
  · intro u c hu
    obtain ⟨rfl, rfl⟩ := loop_update hone hu
    refine ⟨call, 0, hpc, ?_, ?_⟩
    · cases call <;> exact Nat.zero_add _
    · cases call <;> exact ⟨(BitVec.add_zero _).symm, (BitVec.add_zero _).symm,
        fun i hi => absurd hi i.not_lt_zero⟩
  · intro a ha hw
    refine h.same a ha ?_
    rintro ⟨u, c, msg, hu, -⟩
    rw [hone u c hu, hnl] at hu
    cases hu

section Round

variable {c : Memcpy} (ht : f.loop t = some c) (hlen : 0 < c.len)
  (hn : n + c.len.toNat = f.sys.queue.msgSize.toNat)

omit hinv hpl in
include ht in
theorem round_owner {u : TaskId} {c' : Memcpy}
    (hu : Function.update f.loop t (some (c.round f.sys.mem).2) u = some c') :
    (f.sys.kernel.mutex f.sys.queue.lock).owner = some u := by
  rw [(loop_update (fun u c' hu => h.loop_unique hu ht) hu).1]
  exact h.owner t c ht

include ht hlen hn

/-- A byte goes from the buffer to the slot. -/
theorem round_send {msg : Message} (hpc : f.sys.pc t = .inside (.send msg) .copy)
    (hmid : Midway f m t c n (.send msg)) :
    BytesOk { f with sys := { f.sys with mem := (c.round f.sys.mem).1 }
                     loop := Function.update f.loop t (some (c.round f.sys.mem).2) } m := by
  obtain ⟨hd, hs, hdone⟩ := hmid
  have hlt : f.sys.queue.msgSize.toNat < 2 ^ 32 := f.sys.queue.msgSize.isLt
  have hpos : 0 < c.len.toNat := hlen
  have hlen' : (c.len - 1).toNat = c.len.toNat - 1 := by bv_omega
  have hslot := slot_inStorage hinv hpl (.send msg) (show n < _ by omega)
  have hbyte : msg[n]? = some (f.sys.mem c.s) := by
    have hm := h.msg t msg .copy hpc
    rw [← hm, hs, loadBytes, List.getElem?_map, List.getElem?_range (by omega)]
    rfl
  refine ⟨h.own, fun u c' hu => h.round_owner ht hu, ?_, ?_, ?_⟩
  · intro u c' hu
    obtain ⟨rfl, rfl⟩ := loop_update (fun u c' hu => h.loop_unique hu ht) hu
    refine ⟨.send msg, n + 1, hpc, ?_, ?_, ?_, fun i hi => ?_⟩
    · simp only [Memcpy.round]
      omega
    · simp only [Memcpy.round, hd]
      exact add_ofNat_succ _ n
    · simp only [Memcpy.round, hs]
      exact add_ofNat_succ _ n
    · simp only [Memcpy.round]
      rcases Nat.lt_succ_iff_lt_or_eq.1 hi with hi | rfl
      · rw [hdone i hi, Function.update_of_ne (by rw [hd]; exact add_ofNat_ne _ hi (by omega))]
        rfl
      · rw [hbyte, hd]
        exact congrArg some (Function.update_self (f.slot (.send msg) + BitVec.ofNat 32 i) _
          f.sys.mem).symm
  · intro u msg' stage hu
    rw [← h.msg u msg' stage hu]
    refine List.map_congr_left fun i hi => ?_
    refine Function.update_of_ne ?_ _ _
    have hout := (h.own u (inside_ne_outside hu)).1 (f.buf u + BitVec.ofNat 32 i)
      (inBlock_add (by omega) (List.mem_range.1 hi))
    rintro hx
    rw [hd] at hx
    exact hout (hx ▸ hslot)
  · intro a ha hw
    have hne : a ≠ c.d := by
      rintro rfl
      refine hw ⟨t, _, msg, Function.update_self _ _ _, hpc, ?_⟩
      rw [hd]
      refine inBlock_add ?_ ?_
      · simp only
        omega
      · simp only [Memcpy.round]
        omega
    refine (Function.update_of_ne hne _ _).trans (h.same a ha ?_)
    refine h.not_written ht hpc fun _ _ hb => hw ⟨t, _, msg, Function.update_self _ _ _, hpc, ?_⟩
    unfold InBlock at hb ⊢
    refine Nat.lt_of_lt_of_le hb ?_
    simp only [Memcpy.round]
    omega

/-- A byte goes from the slot to the buffer. -/
theorem round_recv (hpc : f.sys.pc t = .inside .recv .copy) (hmid : Midway f m t c n .recv) :
    BytesOk { f with sys := { f.sys with mem := (c.round f.sys.mem).1 }
                     loop := Function.update f.loop t (some (c.round f.sys.mem).2) } m := by
  obtain ⟨hd, hs, hdone⟩ := hmid
  have hlt : f.sys.queue.msgSize.toNat < 2 ^ 32 := f.sys.queue.msgSize.isLt
  have hpos : 0 < c.len.toNat := hlen
  have hlen' : (c.len - 1).toNat = c.len.toNat - 1 := by bv_omega
  have hslot := slot_inStorage hinv hpl .recv (show n < _ by omega)
  have hbuf : InBlock (f.buf t) f.sys.queue.msgSize.toNat c.d := by
    rw [hd]
    exact inBlock_add (by omega) (by omega)
  have hnw : ∀ a, ¬ Written f a := fun a => h.not_written_recv ht hpc
  refine ⟨h.own, fun u c' hu => h.round_owner ht hu, ?_, ?_, ?_⟩
  · intro u c' hu
    obtain ⟨rfl, rfl⟩ := loop_update (fun u c' hu => h.loop_unique hu ht) hu
    refine ⟨.recv, n + 1, hpc, ?_, ?_, ?_, fun i hi => ?_⟩
    · simp only [Memcpy.round]
      omega
    · simp only [Memcpy.round, hd]
      exact add_ofNat_succ _ n
    · simp only [Memcpy.round, hs]
      exact add_ofNat_succ _ n
    · simp only [Memcpy.round]
      rcases Nat.lt_succ_iff_lt_or_eq.1 hi with hi | rfl
      · rw [Function.update_of_ne (by rw [hd]; exact add_ofNat_ne _ hi (by omega))]
        exact hdone i hi
      · rw [← hd, Function.update_self, hs]
        exact h.same _ hslot (hnw _)
  · intro u msg' stage hu
    rw [← h.msg u msg' stage hu]
    have hut : t ≠ u := by
      rintro rfl
      rw [hpc] at hu
      cases hu
    refine List.map_congr_left fun i hi => ?_
    refine Function.update_of_ne ?_ _ _
    rintro hx
    exact (h.own u (inside_ne_outside hu)).2 t hut (inside_ne_outside hpc) _
      (inBlock_add (by omega) (List.mem_range.1 hi)) (hx ▸ hbuf)
  · intro a ha _
    have hne : a ≠ c.d := by
      rintro rfl
      exact (h.own t (inside_ne_outside hpc)).1 _ hbuf ha
    exact (Function.update_of_ne hne _ _).trans (h.same a ha (hnw a))

omit hn in
theorem round :
    BytesOk { f with sys := { f.sys with mem := (c.round f.sys.mem).1 }
                     loop := Function.update f.loop t (some (c.round f.sys.mem).2) } m := by
  obtain ⟨call, n, hpc, hn, hmid⟩ := h.midway t c ht
  cases call with
  | send msg => exact h.round_send hinv hpl ht hlen hn hpc hmid
  | recv => exact h.round_recv hinv hpl ht hlen hn hpc hmid

end Round

section Leave

variable {c : Memcpy} (hpc : f.sys.pc t = .inside call .copy) (ht : f.loop t = some c)

omit hinv hpl

include hpc ht in
/-- After the last copy under way, over a storage that is the coarse level's again. -/
theorem left {m' : Word → Byte} (hsame : ∀ a, InStorage f.sys a → f.sys.mem a = m' a) :
    BytesOk { f with sys := f.sys.goto t (.inside call .index)
                     loop := Function.update f.loop t none } m' := by
  have hnone : ∀ u, Function.update f.loop t none u = none := by
    intro u
    by_cases hut : u = t
    · rw [hut, Function.update_self]
    · rw [Function.update_of_ne hut]
      cases hu : f.loop u with
      | none => rfl
      | some c' => exact absurd (h.loop_unique hu ht) hut
  have hinside : ∀ u, Function.update f.sys.pc t (.inside call .index) u ≠ .outside ↔
      f.sys.pc u ≠ .outside := by
    intro u
    by_cases hut : u = t
    · rw [hut, Function.update_self, hpc]
      exact iff_of_true (inside_ne_outside rfl) (inside_ne_outside rfl)
    · rw [Function.update_of_ne hut]
  refine ⟨?_, ?_, ?_, ?_, fun a ha _ => hsame a ha⟩
  · intro u hu
    obtain ⟨h1, h2⟩ := h.own u ((hinside u).1 hu)
    exact ⟨h1, fun v hv hvo => h2 v hv ((hinside v).1 hvo)⟩
  · intro u c' hu
    cases (hnone u).symm.trans hu
  · intro u c' hu
    cases (hnone u).symm.trans hu
  · intro u msg stage hu
    by_cases hut : u = t
    · rw [QueueSys.goto_pc, hut, Function.update_self] at hu
      cases hu
      exact h.msg u msg .copy (hut ▸ hpc)
    · rw [QueueSys.goto_pc, Function.update_of_ne hut] at hu
      exact h.msg u msg stage hu

/-- The slot holds the message, and the rest of the storage is as it was. -/
theorem copied_send {msg : Message} (hpc : f.sys.pc t = .inside (.send msg) .copy)
    (ht : f.loop t = some c) (hlen : c.len.toNat = 0)
    (hmid : Midway f m t c f.sys.queue.msgSize.toNat (.send msg)) :
    f.copied t (.send msg) = .copiedIn msg ∧
      ∀ a, InStorage f.sys a → f.sys.mem a = storeBytes m (f.slot (.send msg)) msg a := by
  obtain ⟨-, -, hdone⟩ := hmid
  have hlt : f.sys.queue.msgSize.toNat < 2 ^ 32 := f.sys.queue.msgSize.isLt
  have hmlen : msg.length = f.sys.queue.msgSize.toNat := by
    rw [← h.msg t msg .copy hpc, loadBytes_length]
  have hload : loadBytes f.sys.mem (f.slot (.send msg)) f.sys.queue.msgSize.toNat = msg := by
    refine List.ext_getElem? fun i => ?_
    rcases Nat.lt_or_ge i f.sys.queue.msgSize.toNat with hi | hi
    · rw [hdone i hi, loadBytes, List.getElem?_map, List.getElem?_range hi]
      rfl
    · rw [List.getElem?_eq_none (by rwa [loadBytes_length]), List.getElem?_eq_none (by omega)]
  refine ⟨by rw [ByteSys.copied, hload], ?_⟩
  intro a ha
  by_cases hb : InBlock (f.slot (.send msg)) f.sys.queue.msgSize.toNat a
  · obtain ⟨i, hi, rfl⟩ := (inBlock_iff (by omega)).1 hb
    have hidx : (f.slot (.send msg) + BitVec.ofNat 32 i - f.slot (.send msg)).toNat = i := by
      bv_omega
    rw [storeBytes, hidx, hdone i hi]
    rfl
  · have hge : msg.length ≤ (a - f.slot (.send msg)).toNat := by
      rw [hmlen]
      exact Nat.not_lt.1 hb
    rw [storeBytes, List.getElem?_eq_none hge, Option.getD_none]
    refine h.same a ha (h.not_written ht hpc fun _ _ hb' => hb ?_)
    rwa [hlen] at hb'

theorem copied_recv (hpc : f.sys.pc t = .inside .recv .copy) (ht : f.loop t = some c)
    (hmid : Midway f m t c f.sys.queue.msgSize.toNat .recv) :
    f.copied t .recv = .copiedOut (loadBytes m (f.slot .recv) f.sys.queue.msgSize.toNat) ∧
      ∀ a, InStorage f.sys a → f.sys.mem a = m a := by
  obtain ⟨-, -, hdone⟩ := hmid
  have hload : loadBytes f.sys.mem (f.buf t) f.sys.queue.msgSize.toNat =
      loadBytes m (f.slot .recv) f.sys.queue.msgSize.toNat :=
    List.map_congr_left fun i hi => hdone i (List.mem_range.1 hi)
  exact ⟨by rw [ByteSys.copied, hload], fun a ha => h.same a ha (h.not_written_recv ht hpc)⟩

include hpc ht in
/-- The whole copy happens, one level up, with its last step. -/
theorem leave (hrun : f.sys.kernel.Runs t) (hlen : ¬ 0 < c.len) :
    ∃ m', QueueStep { f.sys with mem := m } (f.copied t call)
        { f.sys.goto t (.inside call .index) with mem := m' } ∧
      BytesOk { f with sys := f.sys.goto t (.inside call .index)
                       loop := Function.update f.loop t none } m' := by
  obtain ⟨call', n, hpc', hn, hmid⟩ := h.midway t c ht
  obtain rfl : call = call' := by
    rw [hpc] at hpc'
    cases hpc'
    rfl
  have hlen0 : c.len.toNat = 0 := by bv_omega
  obtain rfl : n = f.sys.queue.msgSize.toNat := by omega
  have hstep := QueueStep.copy (s := { f.sys with mem := m }) hrun hpc
  cases call with
  | send msg =>
    obtain ⟨hev, hsame⟩ := h.copied_send hpc ht hlen0 hmid
    refine ⟨storeBytes m (f.slot (.send msg)) msg, ?_, h.left hpc ht hsame⟩
    rw [hev]
    exact hstep
  | recv =>
    obtain ⟨hev, hsame⟩ := h.copied_recv hpc ht hmid
    refine ⟨m, ?_, h.left hpc ht hsame⟩
    rw [hev]
    exact hstep

end Leave

end BytesOk

variable {b : Boot} {os : List Obs} {k k₀ : Kernel} {storage msgSize capacity : Word}
  {buf : TaskId → Word} {mem : Word → Byte}

theorem byteRun_sim (h0 : Run b os k) (hun : q₀.Unused k)
    (hinit : osQueueInit storage msgSize capacity q₀ k = (0, q, k₀))
    (hfit : Fits storage msgSize capacity.toNat)
    (h : ByteRun ⟨⟨k₀, q, mem, fun _ => .outside⟩, buf, fun _ => none⟩ es f) :
    ∃ m, QueueRun ⟨k₀, q, mem, fun _ => .outside⟩ es { f.sys with mem := m } ∧ BytesOk f m := by
  obtain ⟨hpl, -, hq1, hq2, hq3⟩ := osQueueInit_placed hinit hfit
  rw [← hq1, ← hq2, ← hq3] at hpl
  induction h with
  | init =>
    refine ⟨mem, .init, fun t ht => absurd rfl ht, ?_, ?_, ?_, fun _ _ _ => rfl⟩
    · intro t c ht
      cases ht
    · intro t c ht
      cases ht
    · intro t msg stage ht
      cases ht
  | snoc _ hst ih =>
    obtain ⟨m, hrun, hok⟩ := ih
    have hinv := queueRun_inv h0 hun hinit hfit hrun
    cases hst with
    | coarse hs he hcopy =>
      obtain ⟨hs', hok'⟩ := hok.coarse hinv hs he hcopy
      exact ⟨m, hrun.snoc hs', hok'⟩
    | work _ _ hstore hbuf =>
      refine ⟨m, ?_, hok.work hinv hpl hstore hbuf⟩
      rw [Option.toList_none, List.append_nil]
      exact hrun
    | call hruns hpc hown hmsg =>
      refine ⟨m, hrun.snoc (.call hruns hpc fun msg hm => ?_), hok.called hpc hown hmsg⟩
      rw [hmsg msg hm, loadBytes_length]
    | enter hruns hpc hnl =>
      refine ⟨m, ?_, hok.enter hinv hruns hpc hnl⟩
      rw [Option.toList_none, List.append_nil]
      exact hrun
    | round hruns hl hlen =>
      refine ⟨m, ?_, hok.round hinv hpl hl hlen⟩
      rw [Option.toList_none, List.append_nil]
      exact hrun
    | leave hruns hpc hl hlen =>
      obtain ⟨m', hs', hok'⟩ := hok.leave hpc hl hruns hlen
      exact ⟨m', hrun.snoc hs', hok'⟩

/-- The queue with its copies byte by byte refines the one that copies at once: every run has the
same events and control as a run of that one, and the same storage whenever no copy is under way.
So what is received is still a prefix of what was sent. -/
theorem queue_bytes_refine (h0 : Run b os k) (hun : q₀.Unused k)
    (hinit : osQueueInit storage msgSize capacity q₀ k = (0, q, k₀))
    (hfit : Fits storage msgSize capacity.toNat)
    (h : ByteRun ⟨⟨k₀, q, mem, fun _ => .outside⟩, buf, fun _ => none⟩ es f) :
    (∃ m, QueueRun ⟨k₀, q, mem, fun _ => .outside⟩ es { f.sys with mem := m } ∧
      ((∀ t, f.loop t = none) → ∀ a, InStorage f.sys a → m a = f.sys.mem a)) ∧
    copiesOut es <+: copiesIn es := by
  obtain ⟨m, hrun, hok⟩ := byteRun_sim h0 hun hinit hfit h
  refine ⟨⟨m, hrun, fun hnone a ha => (hok.same a ha ?_).symm⟩, ?_⟩
  · rintro ⟨t, c, msg, ht, -⟩
    cases (hnone t).symm.trans ht
  · obtain ⟨a, -, -, -, hsto⟩ := queueRun_inv h0 hun hinit hfit hrun
    rw [hsto.taken]
    exact List.take_prefix _ _

/-- Task 192, in a call that sends the two bytes at 64. -/
def ByteSys.sending (q : OsQueue) (k : Kernel) : ByteSys :=
  ⟨⟨k, q, fun a => a.setWidth 8, Function.update (fun _ => .outside) 192 (.inside (.send [64, 65]) .take)⟩,
    Function.update (fun _ => 0) 192 64, fun _ => none⟩

theorem sending_run {q : OsQueue} {k : Kernel} (hq : q.storage = 16 ∧ q.msgSize = 2 ∧ q.capacity = 2)
    (hrun : k.Runs 192) :
    ByteRun ⟨⟨k, q, fun a => a.setWidth 8, fun _ => .outside⟩, fun _ => 0, fun _ => none⟩ [.called]
      (.sending q k) := by
  obtain ⟨h1, h2, h3⟩ := hq
  refine ByteRun.snoc (e := some .called) .init (.call hrun rfl ⟨?_, ?_⟩ ?_)
  · intro a ha hb
    rw [h2] at ha
    rw [h1, h2, h3] at hb
    unfold InBlock at ha hb
    change (a - 64).toNat < 2 at ha
    change (a - 16).toNat < 4 at hb
    bv_omega
  · intro u _ hu
    exact absurd rfl hu
  · intro msg hm
    cases hm
    rw [h2]
    rfl

/-- Then also task 128, in a call that receives to 80. -/
def ByteSys.exchanging (q : OsQueue) (k : Kernel) : ByteSys :=
  ⟨(ByteSys.sending q k).sys.goto 128 (.inside .recv .take),
    Function.update (ByteSys.sending q k).buf 128 80, fun _ => none⟩

theorem exchanging_run {q : OsQueue} {k : Kernel} {f₀ : ByteSys}
    (hq : q.storage = 16 ∧ q.msgSize = 2 ∧ q.capacity = 2) (h : ByteRun f₀ es (.sending q k))
    (hrun : k.Runs 128) : ByteRun f₀ (es ++ [.called]) (.exchanging q k) := by
  obtain ⟨h1, h2, h3⟩ := hq
  refine ByteRun.snoc (e := some .called) h (.call hrun rfl ⟨?_, ?_⟩ ?_)
  · intro a ha hb
    change InBlock 80 q.msgSize.toNat a at ha
    change InBlock q.storage (q.capacity.toNat * q.msgSize.toNat) a at hb
    rw [h2] at ha
    rw [h1, h2, h3] at hb
    unfold InBlock at ha hb
    change (a - 80).toNat < 2 at ha
    change (a - 16).toNat < 4 at hb
    bv_omega
  · intro u hne hu a ha hb
    obtain rfl : u = 192 := by
      by_contra hu'
      have hout : (ByteSys.sending q k).sys.pc u = .outside := by
        simp only [ByteSys.sending, Function.update_of_ne hu']
      exact hu hout
    change InBlock 80 q.msgSize.toNat a at ha
    change InBlock 64 q.msgSize.toNat a at hb
    rw [h2] at ha hb
    unfold InBlock at ha hb
    change (a - 80).toNat < 2 at ha
    change (a - 64).toNat < 2 at hb
    bv_omega
  · intro msg hm
    cases hm

/-- A tick and a switch come between the two rounds that copy the message in, and task 128, which
then waits for it, receives it. -/
def exchangeMoves : List ByteSys.Move :=
  let goes (t : TaskId) (n : ℕ) : List ByteSys.Move := List.replicate n (.go t)
  let switch : List ByteSys.Move := [.interrupt .sysTick, .interrupt .pendSV]
  List.flatten [switch, goes 192 4, switch, goes 128 1, [.interrupt .pendSV], goes 192 5, switch,
    goes 128 8]

theorem queue_bytes_refine_small : ∃ (q : OsQueue) (k : Kernel) (es : List QueueEvent) (f : ByteSys),
    ByteRun ⟨⟨k, q, fun a => a.setWidth 8, fun _ => .outside⟩, fun _ => 0, fun _ => none⟩ es f ∧
    (copiesIn es = [[64, 65]] ∧ copiesOut es = [[64, 65]]) ∧ copiesOut es <+: copiesIn es := by
  have hfit : Fits (16 : Word) 2 (2 : Word).toNat := by
    unfold Fits
    decide
  obtain ⟨os, k, h0, hun, hret, hruns, hplay⟩ := Boot.play_exists
    (Boot.small [1, 1] 0 0 (by decide)) 10 [.pendSV]
    (fun _ k => OsQueue.small.Unused k ∧ (osQueueInit 16 2 2 .small k).1 = 0 ∧
      (osQueueInit 16 2 2 .small k).2.2.Runs 192 ∧
      (((exec (osQueueInit 16 2 2 .small k).2.2 .sysTick).run 10).any fun x =>
        ((exec x.2 .pendSV).run 10).any fun y => decide (x.2.Enabled .pendSV ∧ y.2.Runs 128) &&
          ((ByteSys.exchanging (osQueueInit 16 2 2 .small k).2.1 y.2).play 10 exchangeMoves).any
            fun z => decide (copiesIn z.1 = [[64, 65]] ∧ copiesOut z.1 = [[64, 65]])) = true)
    (by decide +kernel)
  have hinit : osQueueInit 16 2 2 .small k = (0, _, _) := Prod.ext hret (Prod.ext rfl rfl)
  obtain ⟨-, -, h1, h2, h3⟩ := osQueueInit_placed hinit hfit
  obtain ⟨⟨r₁, k₁⟩, hx, hplay⟩ := (Option.any_eq_true _ _).1 hplay
  obtain ⟨⟨r₂, k₂⟩, hy, hplay⟩ := (Option.any_eq_true _ _).1 hplay
  obtain ⟨hk, hplay⟩ := (Bool.and_eq_true_iff ..).1 hplay
  obtain ⟨hen, hruns'⟩ := of_decide_eq_true hk
  obtain ⟨⟨es, f⟩, hz, hc⟩ := (Option.any_eq_true _ _).1 hplay
  have hsend := sending_run ⟨h1, h2, h3⟩ hruns
  have htick := hsend.snoc (ByteSys.interrupt_step (.inl rfl) trivial ⟨10, hx⟩)
  have hswitch := htick.snoc (ByteSys.interrupt_step (.inr rfl) hen ⟨10, hy⟩)
  have hrun := (exchanging_run ⟨h1, h2, h3⟩ hswitch hruns').play hz
  refine ⟨_, _, _, f, hrun, ?_, (queue_bytes_refine h0 hun hinit hfit hrun).2⟩
  rw [copiesIn_append, copiesOut_append]
  exact of_decide_eq_true hc

end Rtos
