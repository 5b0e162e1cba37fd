import Mathlib.Data.List.Rotate
import Rtos.Proofs.Slicing

/-! Time slices. A tick puts the running task behind the others of its priority if it is the
first of its ready queue, and leaves the queue alone if it is not; either way the first of the
queue runs next. -/

namespace Rtos

open Lib

open Model (WF Inv)

variable {b : Boot} {k k' : Kernel} {a : Model} {t cur : TaskId} {p : Priority} {q : List TaskId}

/-- No timeout ends on the next tick. -/
def Kernel.Quiet (k : Kernel) : Prop :=
  ∀ t, k.gTimeoutQueue.head = some t → osTickReached (k.gTick + 1) (k.tcb t).wakeTick = false

/-- A SysTick and the PendSV it pends, with no timeout that ends. -/
def Slice (k k' : Kernel) : Prop :=
  k.Quiet ∧ ∃ k₁, (sysTickHandler k).Returns k₁ ∧ k' = k₁.resumed

namespace Model

def resumed (a : Model) : Model := if a.pendsv then commit { a with pendsv := false } else a

/-- Task `cur` runs, and is in the first ready queue that is not empty. -/
structure Turn (a : Model) (p : Priority) (q : List TaskId) (cur : TaskId) : Prop where
  inv : Inv a
  runs : a.pendsv = false
  first : ∀ p' < p, a.list (.ready p') = []
  list : a.list (.ready p) = q
  current : a.gCurrent = some cur
  mem : cur ∈ q

/-- The ready queue of the running task after a tick. -/
def turned (q : List TaskId) (cur : TaskId) : List TaskId :=
  if q.head? = some cur then q.rotate 1 else q

theorem turned_perm : (turned q cur).Perm q := by
  unfold turned
  split_ifs
  · exact List.rotate_perm q 1
  · exact .refl q

theorem Turn.rotate_list (h : Turn a p q cur) {c : Model} (htcb : c.tcb = a.tcb)
    (hl : c.list = a.list) (p' : Priority) : (c.rotate (some cur)).list (.ready p') =
      if p' = p then turned q cur else a.list (.ready p') := by
  have hprio : (a.tcb cur).priority = p :=
    (h.inv.wf.of_ready (p := p) (by rw [h.list]; exact h.mem)).2
  simp only [Model.rotate, htcb, hl, hprio, h.list, turned]
  split_ifs with hh hp hp
  · obtain ⟨l, rfl⟩ := List.head?_eq_some_iff.1 hh
    rw [hp, setList_list_self, hl, h.list]
    simp
  · rw [setList_list_ne _ _ (by simpa using hp), hl]
  · rw [hp, hl, h.list]
  · rw [hl]

theorem resumed_list (a : Model) : a.resumed.list = a.list := by
  unfold resumed commit
  split_ifs
  · cases a.gNext <;> rfl
  · rfl

theorem Inv.resumed (h : Inv a) : Inv a.resumed := by
  unfold Model.resumed
  split_ifs
  · exact h.pendSV
  · exact h

theorem Inv.resumed_runs (h : Inv a) : a.resumed.pendsv = false := by
  obtain ⟨n, -, hn, -⟩ := h.next
  unfold Model.resumed
  split_ifs with hp
  · rw [commit_eq (a := { a with pendsv := false }) hn]
  · simpa using hp

/-- After a call that has scheduled, the task that the scheduler found runs. -/
theorem Inv.resumed_current (h : Inv a) (hn : a.gNext = a.firstReady)
    (hp : a.pendsv = false → a.gCurrent = a.firstReady) : a.resumed.gCurrent = a.firstReady := by
  obtain ⟨n, -, hn', -⟩ := h.next
  unfold Model.resumed
  split_ifs with hpend
  · rw [commit_eq (a := { a with pendsv := false }) hn', ← hn, hn']
  · exact hp (by simpa using hpend)

theorem expireAll_quiet {now : Word} (h : ∀ t, a.timeouts.head? = some t →
    osTickReached now (a.tcb t).wakeTick = false) : expireAll now a.timeouts a = a := by
  cases hl : a.timeouts with
  | nil => rfl
  | cons t l =>
    have := h t (by rw [hl]; rfl)
    simp [expireAll, this]

theorem Turn.step (h : Turn a p q cur) (hquiet : ∀ t, a.timeouts.head? = some t →
    osTickReached (a.gTick + 1) (a.tcb t).wakeTick = false) :
    ∃ n, (turned q cur).head? = some n ∧ Turn a.sysTick.resumed p (turned q cur) n := by
  have hexp : expireAll (a.gTick + 1) a.timeouts { a with gTick := a.gTick + 1 } =
      { a with gTick := a.gTick + 1 } :=
    expireAll_quiet (a := { a with gTick := a.gTick + 1 }) hquiet
  set c := ({ a with gTick := a.gTick + 1 } : Model).reschedule with hc
  have htick : a.sysTick = (c.rotate (some cur)).reschedule := by
    rw [sysTick_eq, hexp, ← hc]
    have hcur : c.gCurrent = some cur := by
      rw [hc, reschedule_gCurrent]
      exact h.current
    simp only [hcur]
  have hlist := h.rotate_list (c := c) (by rw [hc]; exact reschedule_tcb)
    (by rw [hc]; exact reschedule_list)
  have hi := h.inv.sysTick
  have hmem : cur ∈ turned q cur := turned_perm.mem_iff.2 h.mem
  obtain ⟨n, hn⟩ : ∃ n, (turned q cur).head? = some n := by
    cases hl : turned q cur with
    | nil => simp [hl] at hmem
    | cons n l => exact ⟨n, rfl⟩
  have hready : ∀ p', a.sysTick.list (.ready p') =
      if p' = p then turned q cur else a.list (.ready p') := fun p' => by
    rw [htick, reschedule_list]
    exact hlist p'
  have hfirst : a.sysTick.firstReady = some n := by
    refine (scan_some (L := fun p' => a.sysTick.list (.ready p'))).2 ⟨p, ?_, fun p' hp' => ?_⟩
    · rw [hready, if_pos rfl]
      exact hn
    · rw [hready, if_neg (ne_of_lt hp'), h.first p' hp']
  have hcong : (c.rotate (some cur)).firstReady = a.sysTick.firstReady := by
    rw [htick]
    exact (firstReady_congr reschedule_list).symm
  refine ⟨n, hn, hi.resumed, hi.resumed_runs, fun p' hp' => ?_, ?_, ?_, List.mem_of_mem_head? hn⟩
  · rw [resumed_list, hready, if_neg (ne_of_lt hp'), h.first p' hp']
  · rw [resumed_list, hready, if_pos rfl]
  · rw [hi.resumed_current ?_ fun hp => ?_, hfirst]
    · rw [← hcong, htick, reschedule_gNext]
    · rw [htick] at hp
      rw [← hcong, (reschedule_pendsv.1 hp).2, htick, reschedule_gCurrent]

end Model

theorem Sim.resumed_sim (hs : Sim k a) : Sim k.resumed a.resumed := by
  unfold Kernel.resumed Model.resumed
  rw [hs.pendsv]
  split_ifs
  · exact (hs.mapGlobals fun g => { g with pendsv := false }).commit
  · exact hs

theorem Sim.slice (hs : Sim k a) (h : a.Turn p q cur) (hsl : Slice k k') :
    ∃ a' n, Sim k' a' ∧ (Model.turned q cur).head? = some n ∧ a'.Turn p (Model.turned q cur) n := by
  obtain ⟨hquiet, k₁, hk₁, rfl⟩ := hsl
  obtain ⟨k₂, hk₂, hs₂⟩ := hs.sysTick h.inv.wf
  obtain rfl := hk₁.unique hk₂
  have hq : ∀ t, a.timeouts.head? = some t →
      osTickReached (a.gTick + 1) (a.tcb t).wakeTick = false := fun t ht => by
    have := hquiet t (by rw [hs.timeouts.head, ht])
    rwa [hs.gTick, show (k.tcb t).wakeTick = (a.tcb t).wakeTick from
      congrArg TcbData.wakeTick (hs.data t)] at this
  obtain ⟨n, hn, ht⟩ := h.step hq
  exact ⟨_, n, hs₂.resumed_sim, hn, ht⟩

/-- How far the queue has turned after `i` slices. -/
def turns (q : List TaskId) (cur : TaskId) (i : ℕ) : ℕ := if q.head? = some cur then i else i - 1

theorem turned_turns (i : ℕ) {n : TaskId}
    (hn : i = 0 ∧ n = cur ∨ 0 < i ∧ (q.rotate (turns q cur i)).head? = some n) :
    Model.turned (q.rotate (turns q cur i)) n = q.rotate (turns q cur (i + 1)) := by
  unfold Model.turned
  rcases hn with ⟨rfl, rfl⟩ | ⟨hi, hn⟩
  · unfold turns
    by_cases hh : q.head? = some n
    · simp [hh]
    · simp [hh]
  · rw [if_pos hn, List.rotate_rotate]
    congr 1
    unfold turns
    split_ifs <;> omega

/-- After each slice the first of the queue runs, and the queue has turned on. -/
theorem Sim.slices {f : ℕ → Kernel} {n : ℕ} (hs : Sim (f 0) a) (h : a.Turn p q cur)
    (hf : ∀ i < n, Slice (f i) (f (i + 1))) : ∀ i ≤ n, ∃ a' c, Sim (f i) a' ∧
      a'.Turn p (q.rotate (turns q cur i)) c ∧
      (i = 0 ∧ c = cur ∨ 0 < i ∧ (q.rotate (turns q cur i)).head? = some c) := by
  intro i hi
  induction i with
  | zero =>
    have h0 : turns q cur 0 = 0 := by simp [turns]
    exact ⟨a, cur, hs, by rwa [h0, List.rotate_zero], .inl ⟨rfl, rfl⟩⟩
  | succ i ih =>
    obtain ⟨a', c, hs', ht, hc⟩ := ih (by omega)
    obtain ⟨a'', c', hs'', hhead, ht'⟩ := hs'.slice ht (hf i (by omega))
    rw [turned_turns i hc] at hhead ht'
    exact ⟨a'', c', hs'', ht', .inr ⟨by omega, hhead⟩⟩

/-- Of `n` numbers in a row exactly one leaves the remainder `j`. -/
theorem window_mod {n j : ℕ} (c : ℕ) (hj : j < n) : ∃! i, i < n ∧ (c + i) % n = j := by
  have hn : 0 < n := by omega
  refine ⟨(j + (n - c % n)) % n, ⟨Nat.mod_lt _ hn, ?_⟩, ?_⟩
  · have hc := Nat.mod_lt c hn
    rw [Nat.add_mod_mod, Nat.add_mod, ← Nat.add_mod_mod (c % n)]
    rw [Nat.mod_mod, ← Nat.add_mod_mod (c % n), Nat.mod_mod, Nat.add_mod_mod,
      show c % n + (j + (n - c % n)) = j + n by omega, Nat.add_mod_right, Nat.mod_eq_of_lt hj]
  · rintro i ⟨hi, hmod⟩
    have h1 : c % n + i = j ∨ c % n + i = j + n := by
      have hc := Nat.mod_lt c hn
      rw [Nat.add_mod, Nat.mod_eq_of_lt hi] at hmod
      rcases lt_or_ge (c % n + i) n with hlt | hge
      · rw [Nat.mod_eq_of_lt hlt] at hmod
        exact .inl hmod
      · rw [Nat.mod_eq_sub_mod hge, Nat.mod_eq_of_lt (by omega)] at hmod
        exact .inr (by omega)
    have hc := Nat.mod_lt c hn
    rcases h1 with h1 | h1
    · rw [show j + (n - c % n) = i + n by omega, Nat.add_mod_right, Nat.mod_eq_of_lt hi]
    · rw [show j + (n - c % n) = i by omega, Nat.mod_eq_of_lt hi]

theorem head?_rotate_mod (n : ℕ) (hq : q ≠ []) : (q.rotate n).head? = q[n % q.length]? := by
  rw [← List.rotate_mod]
  exact List.head?_rotate (Nat.mod_lt _ (List.length_pos_iff.2 hq))

/-- From any state in which a task of the first ready queue `q` runs, `n` ticks with their
PendSVs: the tasks of `q` run in turn, each once in any `q.length` ticks in a row. -/
theorem round_robin (h : Reachable b k) (hrun : k.TaskRuns)
    (hq : Dll.Repr k.links (k.queue (.ready p)) q)
    (hfirst : ∀ p' < p, (k.queue (.ready p')).head = none) (hcur : k.gCurrent = some cur)
    (hmem : cur ∈ q) {f : ℕ → Kernel} {n : ℕ} (h0 : f 0 = k)
    (hf : ∀ i < n, Slice (f i) (f (i + 1))) :
    (∀ i, 1 ≤ i → i ≤ n →
      (f i).gCurrent = q[(if q.head? = some cur then i else i - 1) % q.length]? ∧
      Dll.Repr (f i).links ((f i).queue (.ready p))
        (q.rotate (if q.head? = some cur then i else i - 1))) ∧
    (∀ m, m + q.length ≤ n → ∀ t ∈ q, ∃! i, i < q.length ∧ (f (m + 1 + i)).gCurrent = some t) ∧
    ∀ i ≤ n, (f i).Quiet → ∃ k', Slice (f i) k' := by
  subst h0
  obtain ⟨os, hr⟩ := h
  obtain ⟨a, hs, hi⟩ := run_sim hr
  have hlist : a.list (.ready p) = q := (hs.repr (.ready p)).unique hq
  have hturn : a.Turn p q cur := by
    refine ⟨hi, hs.pendsv ▸ hrun, fun p' hp' => ?_, hlist, hs.gCurrent ▸ hcur, hmem⟩
    have := hfirst p' hp'
    rwa [(hs.repr (.ready p')).head, List.head?_eq_none_iff] at this
  have hall := hs.slices hturn hf
  have hne : q ≠ [] := List.ne_nil_of_mem hmem
  have hcurs : ∀ i, 1 ≤ i → i ≤ n → (f i).gCurrent = q[turns q cur i % q.length]? := by
    intro i h1 hn
    obtain ⟨a', c, hs', ht, hc⟩ := hall i hn
    have hc := (hc.resolve_left (by omega)).2
    rw [← head?_rotate_mod _ hne, hc, hs'.gCurrent, ht.current]
  refine ⟨fun i h1 hn => ⟨hcurs i h1 hn, ?_⟩, fun m hm t ht => ?_, fun i hn hquiet => ?_⟩
  · obtain ⟨a', c, hs', ht, -⟩ := hall i hn
    have := hs'.repr (.ready p)
    rwa [ht.list] at this
  · obtain ⟨j, hj, rfl⟩ := List.getElem_of_mem ht
    have hmove : ∀ i, turns q cur (m + 1 + i) = turns q cur (m + 1) + i := fun i => by
      unfold turns
      split_ifs <;> omega
    obtain ⟨i, ⟨hi1, hi2⟩, huniq⟩ := window_mod (turns q cur (m + 1)) hj
    have hiff : ∀ i', i' < q.length → ((f (m + 1 + i')).gCurrent = some q[j] ↔
        (turns q cur (m + 1) + i') % q.length = j) := fun i' hi' => by
      rw [hcurs _ (by omega) (by omega), hmove]
      have hlt := Nat.mod_lt (turns q cur (m + 1) + i') (List.length_pos_iff.2 hne)
      rw [List.getElem?_eq_getElem hlt, Option.some_inj]
      exact hq.nodup.getElem_inj_iff
    refine ⟨i, ⟨hi1, (hiff i hi1).2 hi2⟩, fun i' hi' => huniq i' ⟨hi'.1, ?_⟩⟩
    exact (hiff i' hi'.1).1 hi'.2
  · obtain ⟨a', c, hs', ht, -⟩ := hall i hn
    obtain ⟨k₁, hk₁, -⟩ := hs'.sysTick ht.inv.wf
    exact ⟨_, hquiet, k₁, hk₁, rfl⟩

/-- Two tasks of one priority, and a tick while the first of them runs. -/
theorem round_robin_small : ∃ k k', Reachable (Boot.small [1, 1] 0 0 (by decide)) k ∧
    k.gCurrent = some 192 ∧ Slice k k' ∧ k'.gCurrent = some 128 := by
  obtain ⟨os, k, hr, hrun, hcur, hhead, htail, hp1, hn1, hp2, hn2, hfirst, htimeout⟩ :=
    Boot.play_exists (Boot.small [1, 1] 0 0 (by decide)) 10 [.pendSV]
    (fun _ k => k.pendsv = false ∧ k.gCurrent = some 192 ∧
      (k.queue (.ready 1)).head = some 192 ∧ (k.queue (.ready 1)).tail = some 128 ∧
      (k.tcb 192).prev = none ∧ (k.tcb 192).next = some 128 ∧ (k.tcb 128).prev = some 192 ∧
      (k.tcb 128).next = none ∧ (∀ p' < (1 : Priority), (k.queue (.ready p')).head = none) ∧
      k.gTimeoutQueue.head = none) (by decide +kernel)
  have hq : Dll.Repr k.links (k.queue (.ready 1)) [192, 128] :=
    ⟨by decide, hhead, htail, hp1, hn1, hp2, hn2, trivial⟩
  have hquiet : k.Quiet := fun t ht => by
    rw [htimeout] at ht
    cases ht
  obtain ⟨k', hk'⟩ := (round_robin (f := fun _ => k) (n := 0) ⟨os, hr⟩ hrun hq hfirst hcur (by decide)
    rfl fun i hi => absurd hi (Nat.not_lt_zero i)).2.2 0 le_rfl hquiet
  refine ⟨k, k', ⟨os, hr⟩, hcur, hk', ?_⟩
  refine ((round_robin (f := fun i => if i = 0 then k else k') (n := 1) ⟨os, hr⟩ hrun hq hfirst hcur
    (by decide) rfl fun i hi => ?_).1 1 le_rfl le_rfl).1
  obtain rfl : i = 0 := by omega
  exact hk'

end Rtos
