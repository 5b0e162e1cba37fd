import Rtos.Proofs.Structure
import Rtos.Model.Frames

/-! Delays end on time. What counts is how many ticks a sleeper has left: it is
between 1 and `2^31`, the timeout list is sorted by it, and a tick takes one off. On
that range the signed comparisons of the source agree with the order of the naturals,
whatever the value of `g_tick`. -/

namespace Rtos

open Lib

open Model (WF Inv Outcome)

variable {b : Boot} {os os₁ os₂ : List Obs} {o : Obs} {k k' : Kernel} {a a' : Model} {t u cur : TaskId}
  {d : Word}

/-- The argument of a delay is at most `2^31`. -/
def Obs.ShortDelay (o : Obs) : Prop := ∀ d, o.entry = .svc (.delayTicks d) → d.toNat ≤ 2 ^ 31

/-- The entry is a call of a delay of `d` ticks by `t`. -/
def Obs.Delays (o : Obs) (t : TaskId) (d : Word) : Prop :=
  o.entry = .svc (.delayTicks d) ∧ o.pre.gCurrent = some t

def ticks (os : List Obs) : ℕ := os.countP fun o => o.entry = .sysTick

theorem ticks_snoc : ticks (os ++ [o]) = ticks os + if o.entry = .sysTick then 1 else 0 := by
  simp [ticks, List.countP_append, List.countP_singleton]

/-! Wrapping counters. -/

theorem tickReached_iff {x y g : Word} (hx : 1 ≤ (x - g).toNat ∧ (x - g).toNat ≤ 2 ^ 31)
    (hy : 1 ≤ (y - g).toNat ∧ (y - g).toNat ≤ 2 ^ 31) :
    osTickReached x y = true ↔ (y - g).toNat ≤ (x - g).toNat := by
  have he : x - y = (x - g) - (y - g) := by bv_omega
  rw [osTickReached, decide_eq_true_eq, he]
  generalize x - g = u at *
  generalize y - g = v at *
  rw [BitVec.toInt_eq_toNat_cond, BitVec.toNat_sub]
  split_ifs <;> omega

/-- A tick is taken for past when it is now, or more than `2^31` ahead. -/
theorem reached_iff {x now : Word} :
    osTickReached now x = true ↔ (x - now).toNat = 0 ∨ 2 ^ 31 < (x - now).toNat := by
  have he : now - x = 0 - (x - now) := by bv_omega
  rw [osTickReached, decide_eq_true_eq, he]
  generalize x - now = u at *
  rw [BitVec.toInt_eq_toNat_cond, BitVec.toNat_sub]
  have h0 : (0 : Word).toNat = 0 := rfl
  have hu := u.isLt
  rw [h0]
  split_ifs <;> omega

theorem now_reached_iff {x now : Word} (hx : (x - now).toNat < 2 ^ 31) :
    osTickReached now x = true ↔ (x - now).toNat = 0 := by
  rw [reached_iff]
  omega

theorem left_succ {x g : Word} (h : 1 ≤ (x - g).toNat) :
    (x - (g + 1)).toNat = (x - g).toNat - 1 := by
  bv_omega

namespace Model

/-- The ticks a sleeper has left. -/
def left (a : Model) (u : TaskId) : ℕ := ((a.tcb u).wakeTick - a.gTick).toNat

structure OnTime (a : Model) : Prop where
  bound : ∀ u ∈ a.timeouts, 1 ≤ a.left u ∧ a.left u ≤ 2 ^ 31
  sorted : a.timeouts.Pairwise fun u v => a.left u ≤ a.left v

/-- Nothing that concerns the sleepers has changed. -/
structure TimeFrame (a b : Model) : Prop where
  timeouts : b.timeouts = a.timeouts
  gTick : b.gTick = a.gTick
  wakeTick : ∀ u ∈ a.timeouts, (b.tcb u).wakeTick = (a.tcb u).wakeTick

theorem TimeFrame.left (fr : TimeFrame a a') (hu : u ∈ a.timeouts) : a'.left u = a.left u := by
  rw [Model.left, Model.left, fr.gTick, fr.wakeTick u hu]

theorem OnTime.frame (h : OnTime a) (fr : TimeFrame a a') : OnTime a' := by
  constructor
  · intro u hu
    rw [fr.timeouts] at hu
    rw [fr.left hu]
    exact h.bound u hu
  · rw [fr.timeouts]
    refine h.sorted.imp_of_mem fun {u v} hu hv hle => ?_
    rwa [fr.left hu, fr.left hv]

/-- The sleepers whose time has come are the first in the list, and they alone are woken. -/
theorem expireAll_timeouts (now : Word) (l : List TaskId) (hnd : l.Nodup) (hl : a.timeouts = l)
    (hb : ∀ u ∈ l, ((a.tcb u).wakeTick - now).toNat < 2 ^ 31)
    (hs : l.Pairwise fun u v =>
      ((a.tcb u).wakeTick - now).toNat ≤ ((a.tcb v).wakeTick - now).toNat) :
    (expireAll now l a).timeouts = l.filter (fun u => ((a.tcb u).wakeTick - now).toNat ≠ 0) ∧
    ∀ u ∈ l, if ((a.tcb u).wakeTick - now).toNat = 0
      then (expireAll now l a).tcb u = woken (a.tcb u) (-1)
      else (expireAll now l a).tcb u = a.tcb u := by
  induction l generalizing a with
  | nil => exact ⟨hl, nofun⟩
  | cons t l ih =>
    rw [List.nodup_cons] at hnd
    rw [List.pairwise_cons] at hs
    have hreach := now_reached_iff (hb t (by simp))
    simp only [expireAll]
    split_ifs with hnow
    · have h0 := hreach.1 hnow
      have htcb : ∀ u ∈ l, (a.expire t).tcb u = a.tcb u := fun u hu => by
        rw [expire_tcb, if_neg fun hc : u = t => hnd.1 (hc ▸ hu)]
      have hl' : (a.expire t).timeouts = l := by rw [expire_timeouts, hl, List.erase_cons_head]
      obtain ⟨h1, h2⟩ := ih hnd.2 hl' (fun u hu => by
          rw [htcb u hu]
          exact hb u (by simp [hu]))
        (hs.2.imp_of_mem fun {u v} hu hv hle => by rwa [htcb u hu, htcb v hv])
      refine ⟨?_, fun u hu => ?_⟩
      · rw [h1, List.filter_cons_of_neg (by simp [h0])]
        exact List.filter_congr fun u hu => by rw [htcb u hu]
      · rcases List.mem_cons.1 hu with rfl | hu
        · rw [if_pos h0]
          rw [expireAll_tcb_other now hnd.1, expire_tcb, if_pos rfl]
        · have := h2 u hu
          rwa [htcb u hu] at this
    · -- the first sleeper has time left, and so have all behind it
      have hpos : ∀ u ∈ t :: l, ((a.tcb u).wakeTick - now).toNat ≠ 0 := by
        intro u hu hc
        rcases List.mem_cons.1 hu with rfl | hu
        · exact hnow (hreach.2 hc)
        · have := hs.1 u hu
          exact hnow (hreach.2 (by omega))
      refine ⟨?_, fun u hu => ?_⟩
      · rw [hl, List.filter_eq_self.2 fun u hu => by simpa using hpos u hu]
      · rw [if_neg (hpos u hu)]

/-- A tick takes one off what every sleeper has left, and wakes those with nothing left. -/
structure Ticked (a b : Model) : Prop where
  gTick : b.gTick = a.gTick + 1
  timeouts : b.timeouts = a.timeouts.filter fun u => a.left u ≠ 1
  wake : ∀ u ∈ a.timeouts, a.left u = 1 → (b.tcb u).state = .ready
  stay : ∀ u ∈ a.timeouts, a.left u ≠ 1 → b.tcb u = a.tcb u

/-- The effect of a tick on a task of the timeout list, and on the list. -/
theorem OnTime.sysTick_eq (h : OnTime a) (hnd : a.timeouts.Nodup) :
    a.sysTick.timeouts = a.timeouts.filter (fun u => a.left u ≠ 1) ∧
    ∀ u ∈ a.timeouts, a.sysTick.tcb u =
      if a.left u = 1 then woken (a.tcb u) (-1) else a.tcb u := by
  have hleft : ∀ u ∈ a.timeouts, ((a.tcb u).wakeTick - (a.gTick + 1)).toNat = a.left u - 1 :=
    fun u hu => left_succ (h.bound u hu).1
  obtain ⟨h1, h2⟩ := expireAll_timeouts (a := { a with gTick := a.gTick + 1 }) (a.gTick + 1)
    a.timeouts hnd rfl
    (fun u hu => by
      have hb := h.bound u hu
      have hlt := hleft u hu
      simp only
      omega)
    (h.sorted.imp_of_mem fun {u v} hu hv hle => by
      have hu' := hleft u hu
      have hv' := hleft v hv
      simp only
      omega)
  have hiff : ∀ u ∈ a.timeouts, ((a.tcb u).wakeTick - (a.gTick + 1)).toNat = 0 ↔ a.left u = 1 := by
    intro u hu
    have hb := h.bound u hu
    rw [hleft u hu]
    omega
  rw [Model.sysTick_eq]
  simp only [reschedule_timeouts, rotate_timeouts, reschedule_tcb, rotate_tcb]
  refine ⟨?_, fun u hu => ?_⟩
  · rw [h1]
    exact List.filter_congr fun u hu => decide_eq_decide.2 (not_congr (hiff u hu))
  · have := h2 u hu
    simp only [hiff u hu] at this
    split_ifs at this ⊢ <;> exact this

theorem OnTime.ticked (h : OnTime a) (hnd : a.timeouts.Nodup) : Ticked a a.sysTick := by
  obtain ⟨h1, h2⟩ := h.sysTick_eq hnd
  refine ⟨sysTick_gTick, h1, fun u hu hl => ?_, fun u hu hl => ?_⟩
  · rw [h2 u hu, if_pos hl]
    rfl
  · rw [h2 u hu, if_neg hl]

theorem OnTime.tick (h : OnTime a) (hnd : a.timeouts.Nodup) : OnTime a.sysTick := by
  have tk := h.ticked hnd
  have hmem : ∀ u ∈ a.sysTick.timeouts, u ∈ a.timeouts ∧ a.left u ≠ 1 := fun u hu => by
    rw [tk.timeouts, List.mem_filter] at hu
    exact ⟨hu.1, by simpa using hu.2⟩
  have hleft : ∀ u ∈ a.sysTick.timeouts, a.sysTick.left u = a.left u - 1 := fun u hu => by
    obtain ⟨h1, h2⟩ := hmem u hu
    rw [Model.left, tk.stay u h1 h2, tk.gTick]
    exact left_succ (h.bound u h1).1
  constructor
  · intro u hu
    obtain ⟨h1, h2⟩ := hmem u hu
    have := h.bound u h1
    rw [hleft u hu]
    omega
  · have hsub : a.sysTick.timeouts.Sublist a.timeouts := by
      rw [tk.timeouts]
      exact List.filter_sublist
    refine (h.sorted.sublist hsub).imp_of_mem fun {u v} hu hv hle => ?_
    rw [hleft u hu, hleft v hv]
    omega

theorem block_timeouts {q : QueueRef} (hc : a.gCurrent = some cur) (hd : d ≠ osWaitForever) (o : Bool) :
    (a.block q d o).timeouts = insertWhile (fun i =>
      !osTickReached ((a.block q d o).tcb i).wakeTick ((a.block q d o).tcb cur).wakeTick) cur
      a.timeouts := by
  rw [block_eq hc, reschedule_timeouts, reschedule_tcb, sleepUntil, if_pos hd]
  simp only [timeoutInsert_tcb]
  rw [timeoutInsert]
  simp only [setTcb_timeouts, enqueue_timeouts]

theorem block_timeouts_forever {q : QueueRef} (hc : a.gCurrent = some cur) (o : Bool) :
    (a.block q osWaitForever o).timeouts = a.timeouts := by
  rw [block_eq hc, reschedule_timeouts, sleepUntil, if_neg (by simp), enqueue_timeouts]

theorem Inv.cur_not_timed (h : Inv a) (hp : a.pendsv = false) (hc : a.gCurrent = some cur) :
    cur ∉ a.timeouts := by
  intro hm
  have := ((h.wf.ok cur (h.cur_mem hc) (by simp)).sleeping hm).1
  rw [h.running hp cur hc] at this
  cases this

/-- The caller of a delay sleeps, with all of its ticks left. -/
structure Delayed (a b : Model) (cur : TaskId) (d : Word) : Prop where
  gTick : b.gTick = a.gTick
  timeouts : b.timeouts = insertWhile (fun i =>
    !osTickReached (b.tcb i).wakeTick (b.tcb cur).wakeTick) cur a.timeouts
  wakeTick : (b.tcb cur).wakeTick = a.gTick + d
  others : ∀ u ∈ a.timeouts, (b.tcb u).wakeTick = (a.tcb u).wakeTick

theorem delayed (hc : a.gCurrent = some cur) (hnot : cur ∉ a.timeouts) (hd : d ≠ osWaitForever)
    (q : QueueRef) (o : Bool) : Delayed a (a.block q d o) cur d := by
  refine ⟨by simp, block_timeouts hc hd o, ?_, fun u hu => ?_⟩
  · rw [block_tcb hc, if_pos rfl, if_neg hd]
    rfl
  · have hne : u ≠ cur := fun hx => hnot (hx ▸ hu)
    rw [block_tcb hc, if_neg hne]

theorem Inv.delayed (h : Inv a) (hp : a.pendsv = false) (hc : a.gCurrent = some cur)
    (hd : d ≠ osWaitForever) : Delayed a (a.block .sleep d false) cur d :=
  Model.delayed hc (h.cur_not_timed hp hc) hd .sleep false

theorem OnTime.delay (h : OnTime a) (dl : Delayed a a' cur d) (h1 : 1 ≤ d.toNat)
    (h2 : d.toNat ≤ 2 ^ 31) : OnTime a' := by
  have hcur : a'.left cur = d.toNat := by
    rw [Model.left, dl.wakeTick, dl.gTick]
    congr 1
    bv_omega
  have hold : ∀ u ∈ a.timeouts, a'.left u = a.left u := fun u hu => by
    rw [Model.left, Model.left, dl.gTick, dl.others u hu]
  have hbound : ∀ u ∈ a.timeouts, 1 ≤ a'.left u ∧ a'.left u ≤ 2 ^ 31 := fun u hu => by
    rw [hold u hu]
    exact h.bound u hu
  have hcb : 1 ≤ a'.left cur ∧ a'.left cur ≤ 2 ^ 31 := by
    rw [hcur]
    exact ⟨h1, h2⟩
  constructor
  · intro u hu
    rw [dl.timeouts, mem_insertWhile] at hu
    rcases hu with rfl | hu
    · exact hcb
    · exact hbound u hu
  · rw [dl.timeouts]
    refine pairwise_insertWhile (fun y hy hp => ?_) (fun y hy hp => ?_) ?_
    · have hn := (tickReached_iff (g := a'.gTick) (hbound y hy) hcb).not.1 (by simpa using hp)
      exact (not_le.1 hn).le
    · exact (tickReached_iff (g := a'.gTick) (hbound y hy) hcb).1 (by simpa using hp)
    · refine h.sorted.imp_of_mem fun {u v} hu hv hle => ?_
      rwa [hold u hu, hold v hv]

theorem Inv.wait_not_timed (h : Inv a) {q : QueueRef} (hq : q.isWait = true) (hs : q ≠ .sleep)
    (ht : t ∈ a.list q) : t ∉ a.timeouts := by
  intro hm
  have h1 := ((h.wf.ok t (h.wf.mem_tasks ht) (by simp)).sleeping hm).2
  rw [(h.wf.of_wait hq ht).2] at h1
  exact hs (Option.some.inj h1)

theorem Inv.wake_timeFrame (h : Inv a) {q : QueueRef} (hq : q.isWait = true) (hs : q ≠ .sleep)
    (ht : t ∈ a.list q) : TimeFrame a (a.wake q t) := by
  have hnot := h.wait_not_timed hq hs ht
  refine ⟨wake_timeouts hnot, by simp, fun u hu => ?_⟩
  rw [wake_tcb, if_neg fun hx : u = t => hnot (hx ▸ hu)]

theorem TimeFrame.trans {c : Model} (h1 : TimeFrame a a') (h2 : TimeFrame a' c) : TimeFrame a c :=
  ⟨h2.timeouts.trans h1.timeouts, h2.gTick.trans h1.gTick, fun u hu =>
    (h2.wakeTick u (by rwa [h1.timeouts])).trans (h1.wakeTick u hu)⟩

theorem TimeFrame.of_eq (h1 : a'.timeouts = a.timeouts) (h2 : a'.gTick = a.gTick)
    (h3 : ∀ u, (a'.tcb u).wakeTick = (a.tcb u).wakeTick) : TimeFrame a a' :=
  ⟨h1, h2, fun u _ => h3 u⟩

theorem reschedule_timeFrame : TimeFrame a a.reschedule := .of_eq (by simp) (by simp) (by simp)

theorem setPriority_timeFrame {p : Priority} : TimeFrame a (a.setPriority t p) := by
  refine .of_eq (by simp) (by simp) fun u => ?_
  rw [setPriority_tcb]
  split_ifs with hu
  · rw [hu]
  · rfl

theorem block_timeFrame (hc : a.gCurrent = some cur) (hnot : cur ∉ a.timeouts) (q : QueueRef)
    (o : Bool) : TimeFrame a (a.block q osWaitForever o) := by
  refine ⟨block_timeouts_forever hc o, by simp, fun u hu => ?_⟩
  have hne : u ≠ cur := fun hx => hnot (hx ▸ hu)
  rw [block_tcb hc, if_neg hne]

theorem Inv.block_timeFrame (h : Inv a) (hp : a.pendsv = false) (hc : a.gCurrent = some cur)
    (q : QueueRef) (o : Bool) : TimeFrame a (a.block q osWaitForever o) :=
  Model.block_timeFrame hc (h.cur_not_timed hp hc) q o

theorem dropOwned_timeFrame {m : MutexId} (found : Option (Option MutexId)) :
    TimeFrame a (a.dropOwned t m found) := by
  obtain ⟨w, htcb⟩ := dropOwned_tcb (a := a) (t := t) (m := m) found
  refine .of_eq ?_ ?_ fun u => ?_
  · unfold dropOwned; split
    · rfl
    · split <;> rfl
  · unfold dropOwned; split
    · rfl
    · split <;> rfl
  · rw [htcb]
    by_cases hu : u = t
    · rw [hu, Function.update_self]
    · rw [Function.update_of_ne hu]

theorem Inv.handOff_timeFrame (h : Inv a) {m : MutexId} : TimeFrame a (a.handOff m) := by
  unfold Model.handOff
  split
  · rename_i x l hl
    have h1 := h.wake_timeFrame (q := .mutex m) (t := x) rfl (by simp) (by simp [hl])
    have h2 : TimeFrame a ((a.wake (.mutex m) x).setMutex m fun c => { c with owner := some x }) :=
      h1.trans (.of_eq rfl rfl fun _ => rfl)
    exact h2.trans reschedule_timeFrame
  · exact .of_eq rfl rfl fun _ => rfl

/-- Only a tick and a delay concern the sleepers. -/
theorem Outcome.time_cases (h : Inv a) (hc : a.gCurrent = some cur) {e : Entry} {r : ℤ}
    (he : a.Enabled e) (ho : Outcome a cur e r a') :
    (e ≠ .sysTick ∧ TimeFrame a a' ∧ ∀ d, e = .svc (.delayTicks d) → d = 0) ∨
    (e = .sysTick ∧ a' = a.sysTick) ∨
    (∃ d, e = .svc (.delayTicks d) ∧ d ≠ 0 ∧ a' = a.block .sleep d false) := by
  have hrot : TimeFrame a a.yieldCpu := by
    refine .of_eq ?_ ?_ fun u => ?_
    · change (a.rotate a.gCurrent).timeouts = _
      simp
    · change (a.rotate a.gCurrent).gTick = _
      simp
    · change ((a.rotate a.gCurrent).tcb u).wakeTick = _
      simp
  have hrefl : TimeFrame a a := .of_eq rfl rfl fun _ => rfl
  cases ho with
  | tick => exact .inr (.inl ⟨rfl, rfl⟩)
  | delay hd => exact .inr (.inr ⟨_, rfl, hd, rfl⟩)
  | pendSV =>
    obtain ⟨n, -, hn, -⟩ := h.next
    rw [commit_eq (a := { a with pendsv := false }) hn]
    exact .inl ⟨by simp, .of_eq rfl rfl fun _ => rfl, by simp⟩
  | yield => exact .inl ⟨by simp, hrot, by simp⟩
  | delayZero => exact .inl ⟨by simp, hrot, by simp⟩
  | take _ => exact .inl ⟨by simp, .of_eq rfl rfl fun _ => rfl, by simp⟩
  | give _ => exact .inl ⟨by simp, .of_eq rfl rfl fun _ => rfl, by simp⟩
  | takeBlock _ => exact .inl ⟨by simp, h.block_timeFrame he.1 hc _ _, by simp⟩
  | @giveWake s t l hl =>
    have h1 := h.wake_timeFrame (q := .sem s) (t := t) rfl (by simp) (by simp [hl])
    exact .inl ⟨by simp, h1.trans reschedule_timeFrame, by simp⟩
  | lockFree _ =>
    refine .inl ⟨by simp, .of_eq rfl rfl fun u => ?_, by simp⟩
    exact addToOwned_keeps TcbData.wakeTick (fun _ _ => rfl) u
  | @lockBlock m o hm hoc =>
    have hb := h.boost cur (h.owner m o hm)
    have hbc : (a.boost cur o).gCurrent = some cur := by rw [boost_toGlobals, hc]
    have hbp : (a.boost cur o).pendsv = false := by rw [boost_toGlobals]; exact he.1
    have h1 : TimeFrame a (a.boost cur o) := .of_eq (by simp) (by simp)
      (boost_keeps TcbData.wakeTick fun _ _ => rfl)
    have h2 := hb.block_timeFrame hbp hbc (.mutex m) true
    refine .inl ⟨by simp, (h1.trans h2).trans (.of_eq rfl rfl fun u => ?_), by simp⟩
    exact addToOwned_keeps TcbData.wakeTick (fun _ _ => rfl) u
  | @unlock m found p hm _ _ =>
    have hd := h.dropOwned cur m found
    have hcur : cur ∈ (a.dropOwned cur m found).tasks := by simpa using h.cur_mem hc
    refine .inl ⟨by simp, ?_, by simp⟩
    exact ((dropOwned_timeFrame found).trans setPriority_timeFrame).trans
      (hd.setPriority hcur p).handOff_timeFrame
  | createFailed hf =>
    obtain ⟨⟨pool, mem, rfl⟩, -, -⟩ := hf
    exact .inl ⟨by simp, .of_eq rfl rfl fun _ => rfl, by simp⟩
  | created hf =>
    have fr := hf.frame
    refine .inl ⟨by simp, ⟨fr.timeouts, fr.gTick, fun u hu => ?_⟩, by simp⟩
    rw [fr.tcb u fun hx => hf.new (hx ▸ h.wf.timeouts_tasks u hu)]
  | takeNull => exact .inl ⟨by simp, hrefl, by simp⟩
  | giveNull => exact .inl ⟨by simp, hrefl, by simp⟩
  | lockNull => exact .inl ⟨by simp, hrefl, by simp⟩
  | lockOwn _ => exact .inl ⟨by simp, hrefl, by simp⟩
  | unlockNull => exact .inl ⟨by simp, hrefl, by simp⟩
  | unlockOther _ => exact .inl ⟨by simp, hrefl, by simp⟩
  | unrecognized => exact .inl ⟨by simp, hrefl, by simp⟩

end Model

theorem short_ne_forever (h : d.toNat ≤ 2 ^ 31) : d ≠ osWaitForever := by
  rintro rfl
  exact absurd h (by decide)

theorem left_of_delay {g d : Word} {n : ℕ} (h : n < d.toNat) :
    (g + d - (g + BitVec.ofNat 32 n)).toNat = d.toNat - n := by
  have hn : n < 2 ^ 32 := h.trans d.isLt
  have he : g + d - (g + BitVec.ofNat 32 n) = d - BitVec.ofNat 32 n := by bv_omega
  rw [he, BitVec.toNat_sub, BitVec.toNat_ofNat, Nat.mod_eq_of_lt hn]
  have := d.isLt
  omega

/-- Where the call `o` of a delay of `d` ticks by `t` stands after the entries `os`. -/
structure DelayOk (o : Obs) (d : Word) (t : TaskId) (os : List Obs) (a : Model) : Prop where
  gTick : a.gTick = o.pre.gTick + BitVec.ofNat 32 (ticks os)
  sleeps : ticks os < d.toNat → t ∈ a.timeouts ∧ (a.tcb t).wakeTick = o.pre.gTick + d
  wakes : ∀ os₁ o', os = os₁ ++ [o'] → o'.entry = .sysTick → ticks os = d.toNat →
    (a.tcb t).state = .ready

theorem DelayOk.frame {o' : Obs} (h : DelayOk o d t os a) (he : o'.entry ≠ .sysTick)
    (hg : a'.gTick = a.gTick) (ht : t ∈ a.timeouts → t ∈ a'.timeouts ∧
      (a'.tcb t).wakeTick = (a.tcb t).wakeTick) : DelayOk o d t (os ++ [o']) a' := by
  have hn : ticks (os ++ [o']) = ticks os := by rw [ticks_snoc, if_neg he, Nat.add_zero]
  refine ⟨by rw [hn, hg, h.gTick], fun hlt => ?_, fun os₁ x hx hxe => ?_⟩
  · obtain ⟨h1, h2⟩ := h.sleeps (hn ▸ hlt)
    exact ⟨(ht h1).1, (ht h1).2.trans h2⟩
  · obtain rfl : o' = x := by simpa using (List.append_inj' hx rfl).2
    exact absurd hxe he

theorem DelayOk.tick {o' : Obs} (h : DelayOk o d t os a) (he : o'.entry = .sysTick)
    (tk : Model.Ticked a a') : DelayOk o d t (os ++ [o']) a' := by
  have hn : ticks (os ++ [o']) = ticks os + 1 := by rw [ticks_snoc, if_pos he]
  have hleft : ticks os < d.toNat → a.left t = d.toNat - ticks os := fun hlt => by
    rw [Model.left, (h.sleeps hlt).2, h.gTick, left_of_delay hlt]
  refine ⟨?_, fun hlt => ?_, fun _ _ _ _ hd => ?_⟩
  · rw [hn, tk.gTick, h.gTick]
    bv_omega
  · have hlt' : ticks os < d.toNat := by omega
    obtain ⟨h1, h2⟩ := h.sleeps hlt'
    have hne : a.left t ≠ 1 := by rw [hleft hlt']; omega
    rw [tk.timeouts, List.mem_filter, tk.stay t h1 hne]
    exact ⟨⟨h1, by simpa using hne⟩, h2⟩
  · have hlt' : ticks os < d.toNat := by omega
    refine tk.wake t (h.sleeps hlt').1 ?_
    rw [hleft hlt']
    omega

/-- The sleepers are on time, and every call of a delay is where it should be. -/
structure Timely (os : List Obs) (a : Model) : Prop where
  onTime : Model.OnTime a
  calls : ∀ os₁ o os₂ d t, os = os₁ ++ o :: os₂ → o.entry = .svc (.delayTicks d) → d ≠ 0 →
    o.pre.gCurrent = some t → DelayOk o d t os₂ a

theorem Timely.step {e : Entry} {r : ℤ} (hp : Timely os a) (hs : Sim k a) (hi : Inv a)
    (hc : a.gCurrent = some cur) (he : a.Enabled e) (ho : Outcome a cur e r a')
    (hsd : (⟨k, e, r, k'⟩ : Obs).ShortDelay) : Timely (os ++ [⟨k, e, r, k'⟩]) a' := by
  obtain ⟨hon, hcalls⟩ := hp
  have hcur : k.gCurrent = some cur := hs.gCurrent.trans hc
  rcases ho.time_cases hi hc he with ⟨hne, fr, hd0⟩ | ⟨rfl, rfl⟩ | ⟨d, rfl, hd, rfl⟩
  · refine ⟨hon.frame fr, fun os₁ o os₂ d t hos hoe hd hot => ?_⟩
    rcases snoc_split hos with ⟨-, rfl, -⟩ | ⟨os₃, rfl, hos'⟩
    · exact absurd (hd0 d hoe) hd
    · exact (hcalls _ _ _ _ _ hos' hoe hd hot).frame hne fr.gTick fun ht =>
        ⟨by rwa [fr.timeouts], fr.wakeTick t ht⟩
  · refine ⟨hon.tick hi.wf.timeouts_nodup, fun os₁ o os₂ d t hos hoe hd hot => ?_⟩
    rcases snoc_split hos with ⟨-, rfl, -⟩ | ⟨os₃, rfl, hos'⟩
    · cases hoe
    · exact (hcalls _ _ _ _ _ hos' hoe hd hot).tick rfl (hon.ticked hi.wf.timeouts_nodup)
  · have hle : d.toNat ≤ 2 ^ 31 := hsd d rfl
    have hpos : 1 ≤ d.toNat := by bv_omega
    have dl := hi.delayed he.1 hc (short_ne_forever hle)
    refine ⟨hon.delay dl hpos hle, fun os₁ o os₂ d' t hos hoe hd' hot => ?_⟩
    rcases snoc_split hos with ⟨-, rfl, rfl⟩ | ⟨os₃, rfl, hos'⟩
    · -- the call itself
      obtain rfl : d = d' := by simpa using hoe
      obtain rfl : cur = t := Option.some.inj (hcur.symm.trans hot)
      refine ⟨?_, fun _ => ⟨?_, ?_⟩, by simp⟩
      · rw [dl.gTick]
        change _ = k.gTick + _
        rw [hs.gTick]
        simp [ticks]
      · rw [dl.timeouts, mem_insertWhile]
        exact .inl rfl
      · rw [dl.wakeTick]
        change _ = k.gTick + _
        rw [hs.gTick]
    · refine (hcalls _ _ _ _ _ hos' hoe hd' hot).frame (by simp) dl.gTick fun ht => ⟨?_, dl.others t ht⟩
      rw [dl.timeouts, mem_insertWhile]
      exact .inr ht

theorem Timely.start (hst : Started b a) : Timely [] a := by
  refine ⟨⟨?_, ?_⟩, by simp⟩
  · rw [hst.timeouts]
    nofun
  · rw [hst.timeouts]
    exact List.Pairwise.nil

theorem run_timely (h : Run b os k) :
    ∃ a, Sim k a ∧ Inv a ∧ ((∀ o ∈ os, o.ShortDelay) → Timely os a) := by
  refine run_induct (P := fun os _ a => (∀ o ∈ os, o.ShortDelay) → Timely os a)
    (fun _ hst _ => .start hst) ?_ h
  intro os k a k' a' cur e r hs hi hc he ho _ _ hp hsd
  exact (hp fun o ho' => hsd o (by simp [ho'])).step hs hi hc he ho (hsd _ (by simp))

/-- A sleeper stays blocked for as many ticks as it asked for, and the last of them wakes
it, whatever the counter did in between. -/
theorem delay_exact (h : Run b os k) (hsd : ∀ o ∈ os, o.ShortDelay) (hos : os = os₁ ++ o :: os₂)
    (he : o.entry = .svc (.delayTicks d)) (hd : d ≠ 0) (ht : o.pre.gCurrent = some t) :
    k.gTick = o.pre.gTick + BitVec.ofNat 32 (ticks os₂) ∧
    (ticks os₂ < d.toNat → (k.tcb t).state = .blocked) ∧
    ∀ os₃ o', os₂ = os₃ ++ [o'] → o'.entry = .sysTick → ticks os₂ = d.toNat →
      (o'.pre.tcb t).state = .blocked ∧ (k.tcb t).state = .ready ∧ k.gTick = o.pre.gTick + d := by
  have hblocked : ∀ {k os₂}, Run b (os₁ ++ o :: os₂) k → (∀ x ∈ os₁ ++ o :: os₂, x.ShortDelay) →
      ticks os₂ < d.toNat → (k.tcb t).state = .blocked := by
    intro k os₂ h hsd hlt
    obtain ⟨a, hs, hi, hp⟩ := run_timely h
    have hm := (((hp hsd).calls _ _ _ _ _ rfl he hd ht).sleeps hlt).1
    rw [hs.data]
    exact ((hi.wf.ok t (hi.wf.timeouts_tasks t hm) (by simp)).sleeping hm).1
  subst hos
  obtain ⟨a, hs, hi, hp⟩ := run_timely h
  have hok := (hp hsd).calls _ _ _ _ _ rfl he hd ht
  have hg : k.gTick = o.pre.gTick + BitVec.ofNat 32 (ticks os₂) := by
    rw [← hok.gTick]
    exact hs.gTick
  refine ⟨hg, hblocked h hsd, fun os₃ o' hos₂ he' hn => ⟨?_, ?_, ?_⟩⟩
  · subst hos₂
    have hsplit := h.split (show _ = (os₁ ++ o :: os₃) ++ o' :: [] by simp)
    refine hblocked hsplit.1 (fun x hx => hsd x ?_) ?_
    · simp only [List.mem_append, List.mem_cons] at hx ⊢
      tauto
    · rw [ticks_snoc, if_pos he'] at hn
      omega
  · rw [hs.data]
    exact hok.wakes os₃ o' hos₂ he' hn
  · rw [hg, hn]
    simp

/-- A delay of two ticks across the wrap of the counter, in front of a longer one. -/
theorem delay_exact_wrap :
    ∃ os k, Run (Boot.small [1, 2, 3] 0xffffffff 0 (by decide)) os k ∧ (k.tcb 192).state = .ready ∧
      k.gTick = 0xffffffff + 2 := by
  obtain ⟨os, k, hr, he, hc⟩ := Boot.play_exists
    (Boot.small [1, 2, 3] 0xffffffff 0 (by decide)) 10
    [.pendSV, .svc (.delayTicks 2), .pendSV, .svc (.delayTicks 7), .sysTick, .sysTick]
    (fun os _ => os.map Obs.entry = [.pendSV, .svc (.delayTicks 2), .pendSV,
      .svc (.delayTicks 7), .sysTick, .sysTick] ∧ (os[1]?.map fun o => (o.pre.gCurrent, o.pre.gTick)) =
        some (some 192, 0xffffffff)) (by decide +kernel)
  have hsd : ∀ o ∈ os, o.ShortDelay := by
    intro o ho d hd
    have hm : o.entry ∈ os.map Obs.entry := List.mem_map_of_mem ho
    rw [he, hd] at hm
    have hd' : d = 2 ∨ d = 7 := by simpa using hm
    rcases hd' with rfl | rfl <;> decide
  simp only [List.map_eq_cons_iff, List.map_eq_nil_iff] at he
  obtain ⟨o₀, _, rfl, h0, o₁, _, rfl, h1, o₂, _, rfl, h2, o₃, _, rfl, h3, o₄, _, rfl, h4, o₅, _, rfl,
    h5, rfl⟩ := he
  have hn : ticks [o₂, o₃, o₄, o₅] = 2 := by simp [ticks, h2, h3, h4, h5]
  obtain ⟨hc1, hc2⟩ : o₁.pre.gCurrent = some 192 ∧ o₁.pre.gTick = 0xffffffff := by simpa using hc
  obtain ⟨-, -, hw⟩ := delay_exact hr hsd (show _ = [o₀] ++ o₁ :: [o₂, o₃, o₄, o₅] from rfl) h1
    (by decide) hc1
  obtain ⟨-, h6, h7⟩ := hw [o₂, o₃, o₄] o₅ rfl h5 hn
  exact ⟨_, k, hr, h6, by rw [h7, hc2]⟩

end Rtos
