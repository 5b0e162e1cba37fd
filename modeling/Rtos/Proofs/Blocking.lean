import Rtos.Proofs.Delay

/-! How a block ends. A wake and a timeout race for the same task, and whichever comes first takes
it off its wait queue and off the timeout list. The wake looks at `wake_tick` to see whether there
is a timeout to cancel, and a timeout that falls on `UINT32_MAX` looks like none. -/

namespace Rtos

open Lib

open Model (WF Inv Clocked OnTime)

variable {b : Boot} {os os₁ os₂ l₁ l₂ : List Step} {o x : Step} {k k' : Kernel} {a a' : Model}
  {t u cur : TaskId} {d : Word} {c : Call} {q : QueueRef} {o' : Bool}

theorem Sim.expire_clocked (hs : Sim k a) (h : Clocked a) (ht : t ∈ a.timeouts) :
    Sim (timeoutExpire t k) (a.expire t) ∧ Clocked (a.expire t) := by
  obtain ⟨hm, hb⟩ := h.blocked t ht
  obtain ⟨q, hq, -, hl⟩ := h.waiting hm hb
  exact ⟨hs.expireFrom ht hq hl (h.off hl), h.expire ht⟩

/-- Every call returns, and does what it does on the model. -/
theorem call_sim (hs : Sim k a) (h : Clocked a) (hc : a.Allows c) :
    ∃ k', (call k c).Returns k' ∧ Sim k' (a.call c) := by
  cases c with
  | block q ticks o =>
    obtain ⟨cur, hcur⟩ := h.current
    obtain ⟨-, -, hnot, hmem⟩ := h.running hc.1.1 hcur
    exact hs.blockFrom hcur hmem (h.off hmem) hnot q ticks o
  | wakeOne q =>
    cases hl : a.list q with
    | nil =>
      refine ⟨k, Comp.returns_pure.2 ?_, ?_⟩
      · rw [hs.wakeNone hl]
      · simpa only [Model.call, hl] using hs
    | cons t l =>
      have hmem : t ∈ a.list q := by simp [hl]
      obtain ⟨hm, hb, -⟩ := h.of_wait hc hmem
      obtain ⟨k', hk', hs'⟩ := hs.wakeFrom hl (h.timed t hm hb) (h.off hmem)
      refine ⟨k', Comp.returns_pure.2 ?_, ?_⟩
      · rw [hk']
      · simpa only [Model.call, hl] using hs'
  | schedule => exact ⟨_, Comp.returns_pure.2 rfl, hs.reschedule⟩
  | sysTick =>
    exact hs.sysTick_keeping (J := Clocked) (fun hs h ht => hs.expire_clocked h ht)
      (h.gTick (a.gTick + 1))
  | pendSV =>
    have hs' := hs.mapGlobals fun g => { g with pendsv := false }
    exact ⟨_, Comp.returns_pure.2 rfl, hs'.commit⟩

namespace Model

/-- Fewer sleepers, none of them rescheduled. -/
theorem OnTime.sublist (h : OnTime a) (hsub : a'.timeouts.Sublist a.timeouts)
    (hg : a'.gTick = a.gTick)
    (hw : ∀ u ∈ a'.timeouts, (a'.tcb u).wakeTick = (a.tcb u).wakeTick) : OnTime a' := by
  have hleft : ∀ u ∈ a'.timeouts, a'.left u = a.left u := fun u hu => by
    rw [left, left, hg, hw u hu]
  constructor
  · intro u hu
    rw [hleft u hu]
    exact h.bound u (hsub.subset hu)
  · refine (h.sorted.sublist hsub).imp_of_mem fun {u v} hu hv hle => ?_
    rwa [hleft u hu, hleft v hv]

theorem pendSV_timeFrame (h : Clocked a) : TimeFrame a (commit { a with pendsv := false }) := by
  obtain ⟨n, -, hn, -⟩ := h.inv.next
  rw [commit_eq (a := { a with pendsv := false }) hn]
  exact .of_eq rfl rfl fun _ => rfl

theorem OnTime.call (ho : OnTime a) (h : Clocked a) (hc : a.Allows c) (hs : ¬ a.Stale c) :
    OnTime (a.call c) := by
  cases c with
  | block q ticks o =>
    obtain ⟨cur, hcur⟩ := h.current
    obtain ⟨-, -, hnot, -⟩ := h.running hc.1.1 hcur
    by_cases hf : ticks = osWaitForever
    · subst hf
      exact ho.frame (block_timeFrame hcur hnot q o)
    · obtain ⟨h1, h2⟩ := hc.2.2.resolve_right hf
      exact ho.delay (delayed hcur hnot hf q o) h1 h2
  | wakeOne q =>
    cases hl : a.list q with
    | nil => simpa only [Model.call, hl] using ho
    | cons t l =>
      rw [call_wakeOne hs hl]
      refine ho.sublist List.erase_sublist rfl fun u hu => ?_
      have hne : u ≠ t := fun hx => h.nodup.not_mem_erase (hx ▸ hu)
      rw [release_tcb, if_neg hne]
  | schedule => exact ho.frame reschedule_timeFrame
  | sysTick => exact ho.tick h.nodup
  | pendSV => exact ho.frame (pendSV_timeFrame h)

/-- The call leaves `t` waiting, or not waiting, as it was. -/
structure Kept (a b : Model) (c : Call) (t : TaskId) : Prop where
  state : (b.tcb t).state = .blocked ↔ (a.tcb t).state = .blocked
  waitResult : (b.tcb t).waitResult = (a.tcb t).waitResult
  timeouts : t ∈ b.timeouts ↔ t ∈ a.timeouts
  left : t ∈ a.timeouts → b.left t + (if c = .sysTick then 1 else 0) = a.left t

theorem Kept.of_frame (fr : TimeFrame a a') (hne : c ≠ .sysTick)
    (hst : (a'.tcb t).state = .blocked ↔ (a.tcb t).state = .blocked)
    (hr : (a'.tcb t).waitResult = (a.tcb t).waitResult) : Kept a a' c t := by
  refine ⟨hst, hr, by rw [fr.timeouts], fun ht => ?_⟩
  rw [if_neg hne, fr.left ht, Nat.add_zero]

/-- What one call may do to a task: it blocks, it stays as it is, it is woken, or it times out. -/
inductive Effect (a : Model) (t : TaskId) (b : Model) : Call → Prop
  | blocks {q : QueueRef} {ticks : Word} {o : Bool} : a.gCurrent = some t →
      Effect a t b (.block q ticks o)
  | kept {c : Call} : Kept a b c t → Effect a t b c
  | woken {q : QueueRef} {l : List TaskId} : a.list q = t :: l →
      b.tcb t = woken (a.tcb t) 0 → Effect a t b (.wakeOne q)
  | timedOut : t ∈ a.timeouts → a.left t = 1 → b.tcb t = woken (a.tcb t) (-1) →
      Effect a t b .sysTick

theorem sysTick_effect (ho : OnTime a) (hnd : a.timeouts.Nodup) (t : TaskId) :
    Effect a t a.sysTick .sysTick := by
  by_cases ht : t ∈ a.timeouts
  · obtain ⟨hl, htcb⟩ := ho.sysTick_eq hnd
    have hb := ho.bound t ht
    by_cases h1 : a.left t = 1
    · refine .timedOut ht h1 ?_
      rw [htcb t ht, if_pos h1]
    · have he : a.sysTick.tcb t = a.tcb t := by rw [htcb t ht, if_neg h1]
      refine .kept ⟨by rw [he], by rw [he], ?_, fun _ => ?_⟩
      · rw [hl, List.mem_filter]
        simp [h1]
      · have hleft : a.sysTick.left t = a.left t - 1 := by
          rw [left, he, sysTick_gTick]
          exact left_succ hb.1
        rw [hleft, if_pos rfl]
        omega
  · have he := sysTick_tcb_other ht
    refine .kept ⟨by rw [he], by rw [he], ?_, fun hin => absurd hin ht⟩
    rw [(ho.sysTick_eq hnd).1, List.mem_filter]
    simp [ht]

theorem call_effect (ho : OnTime a) (h : Clocked a) (hc : a.Allows c) (hs : ¬ a.Stale c)
    (t : TaskId) : Effect a t (a.call c) c := by
  cases c with
  | block q ticks o =>
    obtain ⟨cur, hcur⟩ := h.current
    obtain ⟨-, -, hnot, -⟩ := h.running hc.1.1 hcur
    by_cases htc : t = cur
    · exact .blocks (htc ▸ hcur)
    · have he : (a.block q ticks o).tcb t = a.tcb t := by rw [block_tcb hcur, if_neg htc]
      refine .kept ⟨?_, ?_, ?_, fun _ => ?_⟩
      · rw [call, he]
      · rw [call, he]
      · rw [call, block_eq hcur, reschedule_timeouts, mem_sleepUntil_timeouts, enqueue_timeouts]
        simp [htc]
      · rw [if_neg (by simp), left, left, call, he, block_gTick, Nat.add_zero]
  | wakeOne q =>
    cases hl : a.list q with
    | nil =>
      have he : a.call (.wakeOne q) = a := by simp only [call, hl]
      rw [he]
      exact .kept (.of_frame (.of_eq rfl rfl fun _ => rfl) (by simp) Iff.rfl rfl)
    | cons u l =>
      rw [call_wakeOne hs hl]
      by_cases htu : t = u
      · subst htu
        refine .woken hl ?_
        rw [release_tcb, if_pos rfl]
      · have he : (a.release q u 0).tcb t = a.tcb t := by rw [release_tcb, if_neg htu]
        refine .kept ⟨by rw [he], by rw [he], ?_, fun _ => ?_⟩
        · rw [release_timeouts]
          exact List.mem_erase_of_ne htu
        · rw [if_neg (by simp), left, left, he, release_toGlobals, Nat.add_zero]
  | schedule => exact .kept (.of_frame reschedule_timeFrame (by simp) (by simp [call]) (by simp [call]))
  | sysTick => exact sysTick_effect ho h.nodup t
  | pendSV =>
    obtain ⟨n, -, hn, hnb⟩ := h.inv.next
    have fr := pendSV_timeFrame h
    rw [call]
    rw [commit_eq (a := { a with pendsv := false }) hn] at fr ⊢
    refine .kept (.of_frame fr (by simp) (commitState_blocked ?_) rfl)
    rintro rfl
    exact hnb

end Model

/-! What the steps of a sequence of calls show of a task. -/

def Step.Blocks (o : Step) (t : TaskId) (d : Word) : Prop :=
  ∃ q ordered, o.call = .block q d ordered ∧ o.pre.gCurrent = some t

/-- `t` is the head of the queue that is woken, and is told so. -/
def Step.Wakes (o : Step) (t : TaskId) : Prop :=
  (∃ q, o.call = .wakeOne q ∧ (o.pre.queue q).head = some t) ∧ (o.post.tcb t).state = .ready ∧
    (o.post.tcb t).waitResult = 0

def Step.TimesOut (o : Step) (t : TaskId) : Prop :=
  o.call = .sysTick ∧ (o.post.tcb t).state = .ready ∧ (o.post.tcb t).waitResult = -1

/-- The task that is woken is in the timeout list, and its `wake_tick` says that it is not. -/
def Step.Stale (o : Step) : Prop :=
  ∃ q t l, o.call = .wakeOne q ∧ (o.pre.queue q).head = some t ∧
    Dll.Repr o.pre.timeoutLinks o.pre.gTimeoutQueue l ∧ t ∈ l ∧ (o.pre.tcb t).wakeTick = osWaitForever

def sysTicks (os : List Step) : ℕ := os.countP fun o => o.call = .sysTick

theorem sysTicks_snoc : sysTicks (os ++ [o]) = sysTicks os + if o.call = .sysTick then 1 else 0 := by
  simp [sysTicks, List.countP_append, List.countP_singleton]

/-- `t` waits through all of `os`, and its timeout has not come. -/
structure Waiting (t : TaskId) (d : Word) (os : List Step) : Prop where
  blocked : ∀ x ∈ os, (x.post.tcb t).state = .blocked
  time : d ≠ osWaitForever → sysTicks os < d.toNat

/-- `t` waits through `os₁`, then `x` ends its wait, by a wake or on the last tick of its timeout,
and through `os₂` it does not wait and keeps the result. -/
structure EndedBy (t : TaskId) (d : Word) (os₁ : List Step) (x : Step) (os₂ : List Step) : Prop where
  before : Waiting t d os₁
  how : x.Wakes t ∨ x.TimesOut t ∧ d ≠ osWaitForever ∧ sysTicks (os₁ ++ [x]) = d.toNat
  after : ∀ y ∈ os₂, (y.post.tcb t).state ≠ .blocked ∧
    (y.post.tcb t).waitResult = (x.post.tcb t).waitResult

/-- Until it blocks again, a task that has blocked waits, or its wait has ended once. -/
def EndedOnce (os : List Step) : Prop :=
  ∀ os₁ o os₂ os₃ t d, os = os₁ ++ o :: (os₂ ++ os₃) → o.Blocks t d →
    (∀ x ∈ os₂, ∀ d', ¬ x.Blocks t d') → (o.post.tcb t).state = .blocked ∧
      (Waiting t d os₂ ∨ ∃ l₁ x l₂, os₂ = l₁ ++ x :: l₂ ∧ EndedBy t d l₁ x l₂)

/-- Every list is intact, a waiting task is once in one wait queue, any other one is once in its
ready queue, and only waiting tasks are in the timeout list. -/
structure Intact (k : Kernel) (l : QueueRef → List TaskId) (timeouts : List TaskId) : Prop where
  queues : ∀ q, Dll.Repr k.links (k.queue q) (l q)
  tasks : ∀ t ∈ k.tasks, TaskQueued k l t
  only : ∀ q, ∀ t ∈ l q, t ∈ k.tasks
  timeoutList : Dll.Repr k.timeoutLinks k.gTimeoutQueue timeouts
  timed : ∀ t ∈ timeouts, t ∈ k.tasks ∧ (k.tcb t).state = .blocked

theorem Sim.intact (hs : Sim k a) (h : Clocked a) : Intact k a.list a.timeouts := by
  refine ⟨hs.repr, fun t ht => hs.taskQueued h.inv.wf (hs.tasks ▸ ht), fun q t ht => ?_, hs.timeouts,
    fun t ht => ?_⟩
  · rw [hs.tasks]
    exact h.inv.wf.mem_tasks (a := a.untimed) ht
  · rw [hs.tasks, hs.data]
    exact h.blocked t ht

theorem Sim.stale_iff (hs : Sim k a) : (⟨k, c, k'⟩ : Step).Stale ↔ a.Stale c := by
  constructor
  · rintro ⟨q, t, l, rfl, hq, hl, ht, hf⟩
    change (k.queue q).head = some t at hq
    rw [(hs.repr q).head, List.head?_eq_some_iff] at hq
    obtain ⟨l', hl'⟩ := hq
    obtain rfl := Dll.Repr.unique hs.timeouts hl
    exact ⟨q, t, l', rfl, hl', ht, by rw [← hs.data]; exact hf⟩
  · rintro ⟨q, t, l, rfl, hl, ht, hf⟩
    refine ⟨q, t, a.timeouts, rfl, ?_, hs.timeouts, ht, ?_⟩
    · change (k.queue q).head = some t
      rw [(hs.repr q).head, hl]
      rfl
    · change (k.tcb t).wakeTick = osWaitForever
      rw [hs.data]
      exact hf

/-- Where a task that blocked with the timeout `d` stands after the calls `os`. -/
inductive Track (t : TaskId) (d : Word) (os : List Step) (a : Model) : Prop
  | waits : Waiting t d os → (a.tcb t).state = .blocked →
      (d ≠ osWaitForever → t ∈ a.timeouts ∧ a.left t + sysTicks os = d.toNat) →
      (d = osWaitForever → t ∉ a.timeouts) → Track t d os a
  | ended {l₁ : List Step} {x : Step} {l₂ : List Step} : os = l₁ ++ x :: l₂ → EndedBy t d l₁ x l₂ →
      (a.tcb t).state ≠ .blocked → (a.tcb t).waitResult = (x.post.tcb t).waitResult → Track t d os a

theorem Waiting.snoc (h : Waiting t d os) (hb : (x.post.tcb t).state = .blocked)
    (ht : d ≠ osWaitForever → sysTicks (os ++ [x]) < d.toNat) : Waiting t d (os ++ [x]) := by
  refine ⟨fun y hy => ?_, ht⟩
  rcases List.mem_append.1 hy with hy | hy
  · exact h.blocked y hy
  · rw [List.mem_singleton.1 hy]
    exact hb

theorem EndedBy.snoc (h : EndedBy t d l₁ x l₂) (hb : (o.post.tcb t).state ≠ .blocked)
    (hr : (o.post.tcb t).waitResult = (x.post.tcb t).waitResult) : EndedBy t d l₁ x (l₂ ++ [o]) := by
  refine ⟨h.before, h.how, fun y hy => ?_⟩
  rcases List.mem_append.1 hy with hy | hy
  · exact h.after y hy
  · rw [List.mem_singleton.1 hy]
    exact ⟨hb, hr⟩

theorem Track.kept (h : Track t d os a) (hk : Model.Kept a a' c t) (ho' : OnTime a')
    (hs' : Sim k' a') : Track t d (os ++ [⟨k, c, k'⟩]) a' := by
  have hst : ((⟨k, c, k'⟩ : Step).post.tcb t).state = (a'.tcb t).state := by
    change (k'.tcb t).state = _
    rw [hs'.data]
  have hres : ((⟨k, c, k'⟩ : Step).post.tcb t).waitResult = (a'.tcb t).waitResult := by
    change (k'.tcb t).waitResult = _
    rw [hs'.data]
  cases h with
  | waits hw hb htimed hforever =>
    have hb' := hk.state.2 hb
    have htimed' : d ≠ osWaitForever →
        t ∈ a'.timeouts ∧ a'.left t + sysTicks (os ++ [⟨k, c, k'⟩]) = d.toNat := fun hd => by
      obtain ⟨hin, hleft⟩ := htimed hd
      have hl := hk.left hin
      refine ⟨hk.timeouts.2 hin, ?_⟩
      rw [sysTicks_snoc]
      change a'.left t + (sysTicks os + if c = .sysTick then 1 else 0) = _
      omega
    refine .waits (hw.snoc (hst.trans hb') fun hd => ?_) hb' htimed' fun hd hin => ?_
    · obtain ⟨hin, hleft⟩ := htimed' hd
      have := ho'.bound t hin
      omega
    · exact hforever hd (hk.timeouts.1 hin)
  | @ended l₁ x l₂ hos he hb hr =>
    have hb' : (a'.tcb t).state ≠ .blocked := fun hc => hb (hk.state.1 hc)
    have hr' := hk.waitResult.trans hr
    have hos' : os ++ [⟨k, c, k'⟩] = l₁ ++ x :: (l₂ ++ [⟨k, c, k'⟩]) := by
      rw [hos]
      simp
    refine .ended hos' (he.snoc ?_ ?_) hb' hr'
    · rw [hst]
      exact hb'
    · rw [hres, hr']

theorem Track.ends {r : ℤ} (h : Track t d os a) (hb : (a.tcb t).state = .blocked)
    (ht : a'.tcb t = Model.woken (a.tcb t) r)
    (hx : Waiting t d os → x.Wakes t ∨ x.TimesOut t ∧ d ≠ osWaitForever ∧
      sysTicks (os ++ [x]) = d.toNat) (hs' : Sim x.post a') : Track t d (os ++ [x]) a' := by
  cases h with
  | waits hw _ _ _ =>
    refine .ended rfl ⟨hw, hx hw, by simp⟩ ?_ ?_
    · rw [ht]
      simp [Model.woken]
    · rw [hs'.data]
  | ended _ _ hnb _ => exact absurd hb hnb

theorem Track.step (h : Track t d os a) (hs : Sim k a) (hcl : Clocked a) (hc : a.Allows c)
    (he : Model.Effect a t a' c) (ho' : OnTime a') (hs' : Sim k' a')
    (hnb : ∀ d', ¬ (⟨k, c, k'⟩ : Step).Blocks t d') : Track t d (os ++ [⟨k, c, k'⟩]) a' := by
  have hready : ∀ {r}, a'.tcb t = Model.woken (a.tcb t) r →
      (k'.tcb t).state = .ready ∧ (k'.tcb t).waitResult = r := fun ht => by
    rw [hs'.data, ht]
    exact ⟨rfl, rfl⟩
  cases he with
  | @blocks q ticks o hcur => exact absurd ⟨q, o, rfl, hs.gCurrent.trans hcur⟩ (hnb ticks)
  | kept hk => exact h.kept hk ho' hs'
  | @woken q l hl ht =>
    have hb := (hcl.of_wait hc (t := t) (by simp [hl])).2.1
    refine h.ends hb ht (fun _ => .inl ⟨⟨q, rfl, ?_⟩, hready ht⟩) hs'
    change (k.queue q).head = some t
    rw [(hs.repr q).head, hl]
    rfl
  | timedOut hin hleft ht =>
    have hb := (hcl.blocked t hin).2
    have hlast : d ≠ osWaitForever ∧ sysTicks (os ++ [⟨k, .sysTick, k'⟩]) = d.toNat := by
      cases h with
      | waits _ _ htimed hforever =>
        have hd : d ≠ osWaitForever := fun hd => hforever hd hin
        obtain ⟨-, hl⟩ := htimed hd
        refine ⟨hd, ?_⟩
        rw [sysTicks_snoc, if_pos rfl]
        omega
      | ended _ _ hnb' _ => exact absurd hb hnb'
    exact h.ends hb ht (fun _ => .inr ⟨⟨rfl, hready ht⟩, hlast⟩) hs'

theorem Track.start (hcl : Clocked a) (hc : a.Allows (.block q d o')) (hcur : a.gCurrent = some t) :
    Track t d [] (a.block q d o') := by
  obtain ⟨-, -, hnot, -⟩ := hcl.running hc.1.1 hcur
  refine .waits ⟨by simp, fun hd => ?_⟩ ?_ (fun hd => ?_) fun hd => ?_
  · have := hc.2.2.resolve_right hd
    simp only [sysTicks, List.countP_nil]
    omega
  · rw [Model.block_tcb hcur, if_pos rfl]
    rfl
  · have dl := Model.delayed hcur hnot hd q o'
    refine ⟨?_, ?_⟩
    · rw [dl.timeouts, mem_insertWhile]
      exact .inl rfl
    · rw [Model.left, dl.wakeTick, dl.gTick]
      simp only [sysTicks, List.countP_nil, Nat.add_zero]
      congr 1
      bv_omega
  · rw [hd, Model.block_timeouts_forever hcur]
    exact hnot

/-- What holds after a sequence of calls none of which misses a timeout. -/
structure Tracked (os : List Step) (a : Model) : Prop where
  clocked : Clocked a
  onTime : OnTime a
  blocks : ∀ os₁ o os₂ t d, os = os₁ ++ o :: os₂ → o.Blocks t d →
    (∀ x ∈ os₂, ∀ d', ¬ x.Blocks t d') → (o.post.tcb t).state = .blocked ∧ Track t d os₂ a

theorem Tracked.step (h : Tracked os a) (hs : Sim k a) (hc : a.Allows c) (hst : ¬ a.Stale c)
    (hs' : Sim k' (a.call c)) : Tracked (os ++ [⟨k, c, k'⟩]) (a.call c) := by
  have hcl' := h.clocked.call hc hst
  have ho' := h.onTime.call h.clocked hc hst
  refine ⟨hcl', ho', fun os₁ o os₂ t d hos hb hnb => ?_⟩
  rcases snoc_split hos with ⟨-, rfl, rfl⟩ | ⟨os₃, rfl, hos'⟩
  · obtain ⟨q, ordered, rfl, hcur⟩ := hb
    have hcur' : a.gCurrent = some t := hs.gCurrent.symm.trans hcur
    refine ⟨?_, .start h.clocked hc hcur'⟩
    change (k'.tcb t).state = .blocked
    rw [hs'.data, Model.call, Model.block_tcb hcur', if_pos rfl]
    rfl
  · obtain ⟨hpost, htr⟩ := h.blocks os₁ o os₃ t d hos' hb fun x hx => hnb x (by simp [hx])
    refine ⟨hpost, htr.step hs h.clocked hc ?_ ho' hs' (hnb _ (by simp))⟩
    exact Model.call_effect h.onTime h.clocked hc hst t

theorem Calls.tracked (h : Calls b os k) (hn : ∀ o ∈ os, ¬ o.Stale) :
    ∃ a, Sim k a ∧ Tracked os a := by
  induction h with
  | boot h =>
    obtain ⟨a, hs, hst⟩ := start_sim h
    refine ⟨a, hs, hst.inv.clocked, ⟨?_, ?_⟩, fun os₁ o os₂ t d hos => by simp at hos⟩
    · rw [hst.timeouts]
      nofun
    · rw [hst.timeouts]
      exact List.Pairwise.nil
  | @snoc os k k' c _ hc hr ih =>
    obtain ⟨a, hs, ht⟩ := ih fun o ho => hn o (by simp [ho])
    have hc' : a.Allows c := hs.globals ▸ hc
    obtain ⟨k₁, hk₁, hs₁⟩ := call_sim hs ht.clocked hc'
    obtain rfl := hr.unique hk₁
    exact ⟨_, hs₁, ht.step hs hc' (hs.stale_iff.not.1 (hn ⟨k, c, k'⟩ (by simp))) hs₁⟩

theorem Calls.split (h : Calls b os k) (hos : os = os₁ ++ o :: os₂) :
    Calls b os₁ o.pre ∧ Calls b (os₁ ++ [o]) o.post := by
  induction h generalizing os₂ with
  | boot => simp at hos
  | snoc h hc hr ih =>
    rcases snoc_split hos with ⟨rfl, rfl, -⟩ | ⟨os₃, -, hos⟩
    · exact ⟨h, h.snoc hc hr⟩
    · exact ih hos

theorem Calls.endedOnce (h : Calls b os k) (hn : ∀ o ∈ os, ¬ o.Stale) : EndedOnce os := by
  intro os₁ o os₂ os₃ t d hos hb hnb
  obtain ⟨k', hk'⟩ : ∃ k', Calls b (os₁ ++ o :: os₂) k' := by
    cases os₃ with
    | nil => exact ⟨k, by simpa [hos] using h⟩
    | cons y l =>
      have hos' : os = (os₁ ++ o :: os₂) ++ y :: l := by simp [hos]
      exact ⟨y.pre, (h.split hos').1⟩
  obtain ⟨a, -, ha⟩ := hk'.tracked fun x hx => hn x (by
    rw [hos, ← List.cons_append, ← List.append_assoc]
    exact List.mem_append_left _ hx)
  obtain ⟨hpost, htr⟩ := ha.blocks os₁ o os₂ t d rfl hb hnb
  refine ⟨hpost, ?_⟩
  cases htr with
  | waits hw _ _ _ => exact .inl hw
  | ended hos' he _ _ => exact .inr ⟨_, _, _, hos', he⟩

theorem Calls.intact (h : Calls b os k) (hn : ∀ o ∈ os, ¬ o.Stale) (ho : o ∈ os) :
    ∃ l timeouts, Intact o.post l timeouts := by
  obtain ⟨os₁, os₂, hos⟩ := List.append_of_mem ho
  have hsub : ∀ x ∈ os₁ ++ [o], x ∈ os := fun x hx => by
    rw [hos]
    simp only [List.mem_append, List.mem_cons] at hx ⊢
    tauto
  obtain ⟨a, hs, ha⟩ := (h.split hos).2.tracked fun x hx => hn x (hsub x hx)
  exact ⟨a.list, a.timeouts, hs.intact ha.clocked⟩

/-- The wake leaves the task in the timeout list. -/
theorem Model.Stale.left_behind (h : a.Stale c) :
    ∃ t, t ∈ (a.call c).timeouts ∧ ((a.call c).tcb t).state = .ready := by
  obtain ⟨q, t, l, rfl, hl, ht, hf⟩ := h
  have he : a.call (.wakeOne q) = a.wake q t := by simp only [Model.call, hl]
  refine ⟨t, ?_, ?_⟩
  · rw [he]
    simp only [Model.wake, Model.remove_tcb, hf, ne_eq, not_true_eq_false, if_false]
    exact ht
  · rw [he, Model.wake_tcb, if_pos rfl]
    rfl

theorem Calls.not_stale (h : Calls b os k) (hi : ∀ o ∈ os, ∃ l timeouts, Intact o.post l timeouts) :
    ∀ o ∈ os, ¬ o.Stale := by
  induction h with
  | boot => simp
  | @snoc os k k' c h hc hr ih =>
    have hn := ih fun o ho => hi o (by simp [ho])
    obtain ⟨a, hs, ha⟩ := h.tracked hn
    intro o ho
    rcases List.mem_append.1 ho with ho | ho
    · exact hn o ho
    · obtain rfl := List.mem_singleton.1 ho
      intro hst
      have hc' : a.Allows c := hs.globals ▸ hc
      obtain ⟨k₁, hk₁, hs₁⟩ := call_sim hs ha.clocked hc'
      obtain rfl := hr.unique hk₁
      obtain ⟨t, hin, hready⟩ := (hs.stale_iff.1 hst).left_behind
      obtain ⟨l, timeouts, hint⟩ := hi ⟨k, c, k'⟩ (by simp)
      obtain rfl := Dll.Repr.unique hs₁.timeouts hint.timeoutList
      have hb := (hint.timed t hin).2
      change (k'.tcb t).state = .blocked at hb
      rw [hs₁.data, hready] at hb
      cases hb

/-- In every sequence of calls, each block is ended once and the lists stay intact, exactly if no
wake takes a task out of a timeout that falls on `UINT32_MAX`. -/
theorem block_ended_once (h : Calls b os k) :
    ((∀ o ∈ os, ∃ l timeouts, Intact o.post l timeouts) ∧ EndedOnce os) ↔ ∀ o ∈ os, ¬ o.Stale :=
  ⟨fun hp => h.not_stale hp.1, fun hn => ⟨fun _ ho => h.intact hn ho, h.endedOnce hn⟩⟩

theorem not_stale_of_head (h : ∀ q, o.call = .wakeOne q → ∀ t, (o.pre.queue q).head = some t →
    (o.pre.tcb t).wakeTick ≠ osWaitForever) : ¬ o.Stale :=
  fun ⟨q, t, _, hc, hq, _, _, hf⟩ => h q hc t hq hf

/-- One task is woken before its timeout, and then times out of another queue. -/
theorem block_ended_once_small : ∃ os k, Calls (Boot.small [1, 2] 0xfffffff0 0 (by decide)) os k ∧
    os.map Step.call = [.pendSV, .block (.sem 0) 5 false, .pendSV, .wakeOne (.sem 0), .schedule,
      .pendSV, .block (.mutex 0) 1 true, .sysTick] ∧ (k.tcb 192).waitResult = -1 ∧
    (∀ o ∈ os, ∃ l timeouts, Intact o.post l timeouts) ∧ EndedOnce os := by
  obtain ⟨os, k, hr, hcalls, hres, hwake⟩ := Boot.playCalls_exists
    (Boot.small [1, 2] 0xfffffff0 0 (by decide)) 10
    [.pendSV, .block (.sem 0) 5 false, .pendSV, .wakeOne (.sem 0), .schedule, .pendSV,
      .block (.mutex 0) 1 true, .sysTick]
    (fun os k => os.map Step.call = [.pendSV, .block (.sem 0) 5 false, .pendSV, .wakeOne (.sem 0),
      .schedule, .pendSV, .block (.mutex 0) 1 true, .sysTick] ∧ (k.tcb 192).waitResult = -1 ∧
      ∀ o ∈ os, o.call = .wakeOne (.sem 0) → (o.pre.queue (.sem 0)).head = some 192 ∧
        (o.pre.tcb 192).wakeTick ≠ osWaitForever) (by decide +kernel)
  refine ⟨os, k, hr, hcalls, hres, (block_ended_once hr).2 fun o ho => not_stale_of_head ?_⟩
  intro q hq t ht
  have hm : o.call ∈ os.map Step.call := List.mem_map_of_mem ho
  rw [hcalls, hq] at hm
  obtain rfl : q = .sem 0 := by simpa using hm
  obtain ⟨hhead, hne⟩ := hwake o ho hq
  obtain rfl : t = 192 := Option.some.inj (ht.symm.trans hhead)
  exact hne

/-- A timeout of two ticks that falls on `UINT32_MAX`: the wake leaves the task in the timeout list,
and two ticks later the task is queued behind itself. -/
theorem block_ended_twice : ∃ os k, Calls (Boot.small [1] 0xfffffffd 0 (by decide)) os k ∧
    os.map Step.call = [.pendSV, .block (.sem 0) 2 false, .wakeOne (.sem 0), .schedule, .pendSV,
      .sysTick, .sysTick] ∧
    ¬ ((∀ o ∈ os, ∃ l timeouts, Intact o.post l timeouts) ∧ EndedOnce os) ∧
    (k.queue (.ready 1)).head = some 192 ∧ (k.tcb 192).next = some 192 := by
  obtain ⟨os, k, hr, hcalls, hwoken, hhead, hnext⟩ := Boot.playCalls_exists
    (Boot.small [1] 0xfffffffd 0 (by decide)) 10
    [.pendSV, .block (.sem 0) 2 false, .wakeOne (.sem 0), .schedule, .pendSV, .sysTick, .sysTick]
    (fun os k => os.map Step.call = [.pendSV, .block (.sem 0) 2 false, .wakeOne (.sem 0), .schedule,
      .pendSV, .sysTick, .sysTick] ∧
      (∃ o ∈ os, (o.post.tcb 192).state = .ready ∧ o.post.gTimeoutQueue.head = some 192) ∧
      (k.queue (.ready 1)).head = some 192 ∧ (k.tcb 192).next = some 192) (by decide +kernel)
  refine ⟨os, k, hr, hcalls, fun hp => ?_, hhead, hnext⟩
  obtain ⟨o, ho, hready, htl⟩ := hwoken
  obtain ⟨l, timeouts, hint⟩ := hp.1 o ho
  rw [hint.timeoutList.head] at htl
  have hb := (hint.timed 192 (List.mem_of_mem_head? htl)).2
  rw [hready] at hb
  cases hb

end Rtos
