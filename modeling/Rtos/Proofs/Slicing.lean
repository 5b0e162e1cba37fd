import Rtos.Proofs.Creation
import Rtos.Proofs.Restore

/-! Who runs after a call that does not block its caller. A call that makes a task ready
schedules anew, and then a task of the caller's own priority takes over if it stands in
front of it. An unlock always puts the caller behind the others of its priority. -/

namespace Rtos

open Lib

open Model (WF Inv Outcome)

variable {b : Boot} {os : List Obs} {k k' : Kernel} {a a' c : Model} {t u w cur : TaskId}
  {m : MutexId} {p : Priority} {r : ℤ}

/-- The state once the PendSV that a call has pended is done. -/
def Kernel.resumed (k : Kernel) : Kernel := if k.pendsv then pendSVHandler k else k

/-- A call of `t` that makes a task of this priority ready. -/
inductive Wakes (k : Kernel) (t : TaskId) : Syscall → Priority → Prop
  | give {s : SemId} {w : TaskId} : (k.queue (.sem s)).head = some w →
      Wakes k t (.semGive (some s)) (k.tcb w).priority
  | unlock {m : MutexId} {w : TaskId} : (k.mutex m).owner = some t →
      (k.queue (.mutex m)).head = some w → Wakes k t (.mutexUnlock (some m)) (k.tcb w).priority
  | create {args : TaskCreateArgs} (h : Accepts k args) :
      Wakes k t (.taskCreate (some args)) ⟨args.priority, h.priority⟩

/-- The priority `p` the call leaves its caller with, and whether another task of that
priority is in front of the caller then. -/
inductive Behind (k : Kernel) (t : TaskId) : Syscall → Priority → Prop
  | unlock {m : MutexId} {p : Priority} {u : TaskId} :
      IsLeast (insert (k.tcb t).basePriority (k.waiting (k.Lists t m))) p →
      u ∈ k.tasks → u ≠ t → (k.tcb u).state ≠ .blocked → (k.tcb u).priority = p →
      Behind k t (.mutexUnlock (some m)) p
  | other {c : Syscall} : (∀ m, c ≠ .mutexUnlock (some m)) →
      (k.queue (.ready (k.tcb t).priority)).head ≠ some t → Behind k t c (k.tcb t).priority

/-- The caller is behind another task of its priority, and no task that is ready or that
the call makes ready is more urgent. -/
def Overtaken (k : Kernel) (t : TaskId) (c : Syscall) : Prop :=
  ∃ p q, Behind k t c p ∧ Wakes k t c q ∧ p ≤ q ∧
    ∀ u ∈ k.tasks, u ≠ t → (k.tcb u).state ≠ .blocked → p ≤ (k.tcb u).priority

/-- `w` becomes ready and the scheduler runs. -/
structure Joined (c a : Model) (w : TaskId) : Prop where
  fresh : w ∈ c.tasks → (c.tcb w).state = .blocked
  ready : ∀ u, u ∈ a.tasks ∧ (a.tcb u).state ≠ .blocked ↔
    u ∈ c.tasks ∧ (c.tcb u).state ≠ .blocked ∨ u = w
  priority : ∀ u, u ≠ w → (a.tcb u).priority = (c.tcb u).priority
  list : ∀ p, a.list (.ready p) =
    if p = (a.tcb w).priority then c.list (.ready p) ++ [w] else c.list (.ready p)
  gNext : a.gNext = a.firstReady
  gCurrent : a.gCurrent = c.gCurrent
  pendsv : c.pendsv = false → (a.pendsv = true ↔ a.firstReady ≠ a.gCurrent)

theorem head?_append_of_mem {l l' : List TaskId} (h : t ∈ l) : (l ++ l').head? = l.head? := by
  cases l with
  | nil => cases h
  | cons x l => rfl

theorem Joined.overtaken_iff (h : Joined c a w) (hw : WF c) (hw' : WF a) (ht : t ∈ c.tasks)
    (hs : (c.tcb t).state ≠ .blocked) :
    (∀ u, a.firstReady = some u → u ≠ t → (a.tcb u).priority < (a.tcb t).priority) ↔
      ¬ ((c.list (.ready (c.tcb t).priority)).head? ≠ some t ∧
        (c.tcb t).priority ≤ (a.tcb w).priority ∧
        ∀ u ∈ c.tasks, u ≠ t → (c.tcb u).state ≠ .blocked →
          (c.tcb t).priority ≤ (c.tcb u).priority) := by
  obtain ⟨hta, hsa⟩ := (h.ready t).2 (.inl ⟨ht, hs⟩)
  have htw : t ≠ w := by
    rintro rfl
    exact hs (h.fresh ht)
  have hpt := h.priority t htw
  have hhead : (a.list (.ready (a.tcb t).priority)).head? =
      (c.list (.ready (c.tcb t).priority)).head? := by
    rw [hpt, h.list]
    split_ifs
    · exact head?_append_of_mem (hw.ready_mem ht hs)
    · rfl
  obtain ⟨n, hn⟩ := Model.firstReady_isSome hw' hta hsa
  obtain ⟨hn1, hn2, hn3, hn4⟩ := Model.firstReady_some hw' hn
  rw [hn]
  constructor
  · rintro hall ⟨hbehind, hwp, hrest⟩
    have hge : (c.tcb t).priority ≤ (a.tcb n).priority := by
      by_cases hnw : n = w
      · rw [hnw]
        exact hwp
      · rw [h.priority n hnw]
        have hold := ((h.ready n).1 ⟨hn1, hn2⟩).resolve_right hnw
        by_cases hnt : n = t
        · rw [hnt]
        · exact hrest n hold.1 hnt hold.2
    have heq : (a.tcb n).priority = (a.tcb t).priority :=
      le_antisymm (hn4 t hta hsa) (hpt ▸ hge)
    have hnt : n ≠ t := by
      rintro rfl
      rw [hhead] at hn3
      exact hbehind hn3
    exact absurd (hall n rfl hnt) (by rw [heq]; exact lt_irrefl _)
  · intro hnot u hu hut
    obtain rfl := Option.some.inj hu
    by_contra hlt
    have heq : (a.tcb n).priority = (a.tcb t).priority :=
      le_antisymm (hn4 t hta hsa) (not_lt.1 hlt)
    have hmin : ∀ v, v ∈ a.tasks ∧ (a.tcb v).state ≠ .blocked →
        (c.tcb t).priority ≤ (a.tcb v).priority := by
      rintro v ⟨hv1, hv2⟩
      rw [← hpt, ← heq]
      exact hn4 v hv1 hv2
    refine hnot ⟨?_, hmin w ((h.ready w).2 (.inr rfl)), fun v hv _ hvs => ?_⟩
    · rw [← hhead, ← heq, hn3]
      exact fun hx => hut (Option.some.inj hx)
    · have hvw : v ≠ w := by
        rintro rfl
        exact hvs (h.fresh hv)
      rw [← h.priority v hvw]
      exact hmin v ((h.ready v).2 (.inl ⟨hv, hvs⟩))

theorem joined_wake {q : QueueRef} (hw : WF c) (hq : q.isWait = true) (hmem : w ∈ c.list q)
    (ht : a.tcb = (c.wake q w).tcb) (hl : a.list = (c.wake q w).list) (htasks : a.tasks = c.tasks)
    (hcur : a.gCurrent = c.gCurrent) (hp : a.pendsv = c.pendsv) : Joined c a.reschedule w := by
  have htcb : ∀ u, a.reschedule.tcb u = if u = w then Model.woken (c.tcb w) 0 else c.tcb u := by
    intro u
    rw [Model.reschedule_tcb, ht, Model.wake_tcb]
  have hprio : ∀ u, (a.reschedule.tcb u).priority = (c.tcb u).priority := by
    intro u
    rw [htcb]
    split_ifs with hu
    · rw [hu]
      rfl
    · rfl
  refine ⟨fun _ => (hw.of_wait hq hmem).1, fun u => ?_, fun u _ => hprio u, fun p => ?_, ?_, ?_,
    fun h0 => ?_⟩
  · rw [Model.reschedule_tasks, htasks, htcb]
    split_ifs with hu
    · subst hu
      exact ⟨fun _ => .inr rfl, fun _ => ⟨hw.mem_tasks hmem, by simp [Model.woken]⟩⟩
    · exact ⟨fun h => .inl h, fun h => h.resolve_right hu⟩
  · rw [Model.reschedule_list, hl, Model.wake_list hq, if_neg (Model.isWait_ne_ready hq).symm, hprio]
    by_cases hpw : p = (c.tcb w).priority
    · rw [if_pos hpw, if_pos (by rw [hpw])]
    · rw [if_neg hpw, if_neg fun hx => hpw (QueueRef.ready.inj hx)]
  · rw [Model.reschedule_gNext]
    exact (Model.firstReady_congr (by simp)).symm
  · rw [Model.reschedule_gCurrent, hcur]
  · have hf : a.reschedule.firstReady = a.firstReady := Model.firstReady_congr (by simp)
    rw [hf, Model.reschedule_gCurrent, ← Bool.not_eq_false, Model.reschedule_pendsv, hp, h0]
    simp

theorem joined_created (hf : Model.Created a a' w) (hc : a.gCurrent ≠ none) : Joined a a' w := by
  have fr := hf.frame
  obtain ⟨sp, p, hnew⟩ := fr.new
  have hne : ∀ u, u ∈ a.tasks → u ≠ w := fun u hu hx => hf.new (hx ▸ hu)
  refine ⟨fun hx => absurd hx hf.new, fun u => ?_, fun u hu => by rw [fr.tcb u hu], fun p => ?_,
    fr.gNext, fr.gCurrent, fun h0 => ?_⟩
  · rw [fr.tasks, List.mem_append, List.mem_singleton]
    by_cases hu : u = w
    · subst hu
      refine ⟨fun _ => .inr rfl, fun _ => ⟨.inr rfl, ?_⟩⟩
      rw [hnew]
      simp [newTcbData]
    · rw [fr.tcb u hu]
      simp [hu]
  · rw [fr.list]
    by_cases hpw : p = (a'.tcb w).priority
    · rw [if_pos hpw, if_pos (by rw [hpw])]
    · rw [if_neg hpw, if_neg fun hx => hpw (QueueRef.ready.inj hx)]
  · rw [fr.pendsv, h0, fr.gCurrent]
    simp [hc]

theorem settled_state (cur u : TaskId) (found : Option (Option MutexId)) :
    (((a.dropOwned cur m found).setPriority cur p).tcb u).state = (a.tcb u).state := by
  obtain ⟨v, htcb⟩ := Model.dropOwned_tcb (a := a) (t := cur) (m := m) found
  rw [Model.setPriority_tcb, htcb]
  by_cases hu : u = cur
  · subst hu
    rw [if_pos rfl, Function.update_self]
  · rw [if_neg hu, Function.update_of_ne hu]

theorem settled_globals (cur : TaskId) (found : Option (Option MutexId)) :
    ((a.dropOwned cur m found).setPriority cur p).pendsv = a.pendsv ∧
      ((a.dropOwned cur m found).setPriority cur p).gCurrent = a.gCurrent := by
  rw [Model.setPriority_toGlobals]
  exact ⟨Model.dropOwned_pendsv found, Model.dropOwned_gCurrent found⟩

/-- The running task is behind all others of its new priority after an unlock. -/
theorem settled_head (m : MutexId) (p : Priority) (found : Option (Option MutexId)) (h : Inv a)
    (hp : a.pendsv = false) (hc : a.gCurrent = some cur) :
    (((a.dropOwned cur m found).setPriority cur p).list (.ready p)).head? ≠ some cur ↔
      ∃ u ∈ a.tasks, u ≠ cur ∧ (a.tcb u).state ≠ .blocked ∧ (a.tcb u).priority = p := by
  have hd := h.dropOwned cur m found
  have hcur : cur ∈ (a.dropOwned cur m found).tasks := by simpa using h.cur_mem hc
  obtain ⟨v, htcb⟩ := Model.dropOwned_tcb (a := a) (t := cur) (m := m) found
  have hst : ((a.dropOwned cur m found).tcb cur).state ≠ .blocked := by
    rw [htcb, Function.update_self]
    change (a.tcb cur).state ≠ .blocked
    rw [h.running hp cur hc]
    simp
  have hw := hd.wf.setPriority hcur p
  have st := h.settled (m := m) (p := p) hp hc found
  obtain ⟨l, hl⟩ : ∃ l, ((a.dropOwned cur m found).setPriority cur p).list (.ready p) = l ++ [cur] := by
    rw [Model.setPriority_eq_ready hst, Model.readyAdd, Model.add, Model.setTcb_tcb_self,
      Model.setList_list_self]
    exact ⟨_, rfl⟩
  have hnd := hw.nodup (.ready p)
  have hmem : ∀ u, u ≠ cur → (u ∈ l ↔ u ∈ a.tasks ∧ (a.tcb u).state ≠ .blocked ∧
      (a.tcb u).priority = p) := by
    intro u hu
    have hin : u ∈ l ↔ u ∈ ((a.dropOwned cur m found).setPriority cur p).list (.ready p) := by
      rw [hl]
      simp [hu]
    have hpu := st.priority u
    rw [if_neg hu] at hpu
    rw [hin, ← settled_state cur u found, ← hpu, ← st.tasks]
    constructor
    · intro hx
      obtain ⟨h1, h2⟩ := hw.of_ready hx
      exact ⟨hw.mem_tasks hx, h1, h2⟩
    · rintro ⟨h1, h2, h3⟩
      have := hw.ready_mem h1 h2
      rwa [h3] at this
  rw [hl] at hnd ⊢
  have hcl : cur ∉ l := fun hx => (List.nodup_append.1 hnd).2.2 cur hx cur (by simp) rfl
  constructor
  · intro hne
    cases l with
    | nil => exact absurd rfl hne
    | cons u l =>
      have hu : u ≠ cur := fun hx => hcl (by simp [hx])
      exact ⟨u, ((hmem u hu).1 (by simp)).1, hu, ((hmem u hu).1 (by simp)).2⟩
  · rintro ⟨u, hu1, hu2, hu3⟩ hx
    have hul := (hmem u hu2).2 ⟨hu1, hu3⟩
    rw [head?_append_of_mem hul] at hx
    exact hcl (List.mem_of_mem_head? hx)

theorem Sim.resumed (hs : Sim k a) (hi : Inv a) :
    k.resumed.gCurrent = (if a.pendsv then a.gNext else a.gCurrent) ∧
      ∀ u, (k.resumed.tcb u).priority = (a.tcb u).priority := by
  rw [Kernel.resumed, hs.pendsv]
  split_ifs with h
  · obtain ⟨n, -, hn, -⟩ := hi.next
    have hs' := (hs.mapGlobals fun g => { g with pendsv := false }).commit
    rw [Model.commit_eq (a := { a with pendsv := false }) hn] at hs'
    rw [hn]
    exact ⟨hs'.gCurrent, fun u => by rw [pendSVHandler, hs'.data]⟩
  · exact ⟨hs.gCurrent, fun u => by rw [hs.data]⟩

/-- The caller goes on to run, or the task that the scheduler has found. -/
theorem Joined.resumed (h : Joined c a w) (hs : Sim k a) (hi : Inv a) (hp : c.pendsv = false) :
    k.resumed.gCurrent = a.firstReady := by
  rw [(hs.resumed hi).1]
  split_ifs with hpend
  · exact h.gNext
  · by_contra hne
    exact hpend ((h.pendsv hp).2 (Ne.symm hne))

def Undisplaced (k : Kernel) (t : TaskId) : Prop :=
  ∀ u, k.resumed.gCurrent = some u → u ≠ t →
    (k.resumed.tcb u).priority < (k.resumed.tcb t).priority

theorem Joined.undisplaced_iff (h : Joined c a' w) (hs' : Sim k' a') (hi' : Inv a') (hw : WF c)
    (hp : c.pendsv = false) (ht : t ∈ c.tasks) (hst : (c.tcb t).state ≠ .blocked) :
    Undisplaced k' t ↔ ¬ ((c.list (.ready (c.tcb t).priority)).head? ≠ some t ∧
        (c.tcb t).priority ≤ (a'.tcb w).priority ∧
        ∀ u ∈ c.tasks, u ≠ t → (c.tcb u).state ≠ .blocked →
          (c.tcb t).priority ≤ (c.tcb u).priority) := by
  rw [← h.overtaken_iff hw hi'.wf ht hst, Undisplaced, h.resumed hs' hi' hp]
  simp only [(hs'.resumed hi').2]

theorem undisplaced_of_quiet (hs' : Sim k' a') (hi' : Inv a') (hp : a'.pendsv = false)
    (hc : a'.gCurrent = some t) : Undisplaced k' t := by
  intro u hu hut
  rw [(hs'.resumed hi').1, hp, if_neg Bool.false_ne_true, hc] at hu
  exact absurd (Option.some.inj hu).symm hut

theorem not_overtaken {c : Syscall} (h : ∀ q, ¬ Wakes k t c q) : ¬ Overtaken k t c := by
  rintro ⟨p, q, -, hw, -⟩
  exact h q hw

/-- A call other than an unlock that makes `w` ready. -/
theorem overtaken_iff {d : Syscall} {q : Priority} (hs : Sim k a) (hd : ∀ m, d ≠ .mutexUnlock (some m))
    (hw : Wakes k t d q) (hq : ∀ q', Wakes k t d q' → q' = q) :
    Overtaken k t d ↔ (a.list (.ready (a.tcb t).priority)).head? ≠ some t ∧
      (a.tcb t).priority ≤ q ∧ ∀ u ∈ a.tasks, u ≠ t → (a.tcb u).state ≠ .blocked →
        (a.tcb t).priority ≤ (a.tcb u).priority := by
  have hhead : (k.queue (.ready (a.tcb t).priority)).head =
      (a.list (.ready (a.tcb t).priority)).head? := (hs.repr _).head
  constructor
  · rintro ⟨p, q', hb, hw', hle, hall⟩
    obtain rfl := hq q' hw'
    cases hb with
    | unlock => exact absurd rfl (hd _)
    | other _ hb =>
      simp only [hs.data, hs.tasks, hhead] at hb hle hall
      exact ⟨hb, hle, hall⟩
  · rintro ⟨hb, hle, hall⟩
    refine ⟨(k.tcb t).priority, q, .other hd ?_, hw, ?_, ?_⟩
    · rw [hs.data, hhead]
      exact hb
    · rwa [hs.data]
    · simpa only [hs.data, hs.tasks] using hall

theorem undisplaced_unlock {found : Option (Option MutexId)} {l : List TaskId} (hs : Sim k a)
    (hi : Inv a) (hsort : WaitersSorted os a) (hpend : a.pendsv = false) (hc : a.gCurrent = some t)
    (hm : (a.mutex m).owner = some t) (hl : a.list (.mutex m) = w :: l)
    (hf : (ownedFind a.nextMutex m (none, (a.tcb t).ownedMutexes)).Returns found)
    (hp : ((a.dropOwned t m found).recomputePriority t).Returns p)
    (hs' : Sim k' (((a.dropOwned t m found).setPriority t p).handOff m))
    (hi' : Inv (((a.dropOwned t m found).setPriority t p).handOff m)) :
    Undisplaced k' t ↔ ¬ Overtaken k t (.mutexUnlock (some m)) := by
  have st := hi.settled (m := m) (p := p) hpend hc found
  have ht : t ∈ (a.dropOwned t m found).tasks := by simpa using hi.cur_mem hc
  have hwf := (hi.dropOwned t m found).wf.setPriority ht p
  have hhead := settled_head m p found hi hpend hc
  have htcb := fun u => settled_state (a := a) (m := m) (p := p) t u found
  have hlc := st.waiters m
  rw [hl] at hlc
  have hwm : w ∈ a.list (.mutex m) := by simp [hl]
  have hwt : w ≠ t := fun hx => hi.running_not_waiting hpend hc rfl (hx ▸ hwm)
  have hwp := (Model.handOff_frame (a := (a.dropOwned t m found).setPriority t p) (m := m)).tcb w
  have hj : Joined ((a.dropOwned t m found).setPriority t p)
      (((a.dropOwned t m found).setPriority t p).handOff m) w := by
    have he : ((a.dropOwned t m found).setPriority t p).handOff m =
        ((((a.dropOwned t m found).setPriority t p).wake (.mutex m) w).setMutex m fun x =>
          { x with owner := some w }).reschedule := by
      simp only [Model.handOff, hlc]
    rw [he]
    refine joined_wake hwf rfl (by simp [hlc]) rfl rfl ?_ ?_ ?_
    · rw [Model.setMutex_tasks, Model.wake_toGlobals]
    · rw [Model.setMutex_gCurrent, Model.wake_toGlobals]
    · rw [Model.setMutex_pendsv, Model.wake_toGlobals]
  have hrun : (a.tcb t).state ≠ .blocked := by
    rw [hi.running hpend t hc]
    simp
  rw [hj.undisplaced_iff hs' hi' hwf ((settled_globals t found).1.trans hpend)
    (by rw [st.tasks]; exact hi.cur_mem hc)
    (by rw [htcb]; exact hrun)]
  simp only [st.priority, if_true, hwp.1, if_neg hwt, st.tasks, htcb, hhead]
  have hq : ∀ q, Wakes k t (.mutexUnlock (some m)) q ↔ q = (a.tcb w).priority := by
    have hkh : (k.queue (.mutex m)).head = some w := by rw [(hs.repr _).head, hl]; rfl
    intro q
    constructor
    · intro hw
      cases hw with
      | unlock _ hh =>
        obtain rfl := Option.some.inj (hh.symm.trans hkh)
        rw [hs.data]
    · rintro rfl
      have := Wakes.unlock (k := k) (t := t) (by rw [hs.mutex]; exact hm) hkh
      rwa [hs.data] at this
  have hleast := hs.unlock_least hsort hf hp
  rw [not_iff_not]
  constructor
  · rintro ⟨⟨u, hu1, hu2, hu3, hu4⟩, hle, hall⟩
    refine ⟨p, (a.tcb w).priority, .unlock hleast (hs.tasks ▸ hu1) hu2 ?_ ?_, (hq _).2 rfl, hle,
      fun v hv hvt hvs => ?_⟩
    · rwa [hs.data]
    · rwa [hs.data]
    · rw [hs.tasks] at hv
      rw [hs.data] at hvs ⊢
      have := hall v hv hvt hvs
      rwa [if_neg hvt] at this
  · rintro ⟨p', q, hb, hw, hle, hall⟩
    rw [(hq q).1 hw] at hle
    cases hb with
    | other hno _ => exact absurd rfl (hno m)
    | unlock hl' hu1 hu2 hu3 hu4 =>
      obtain rfl := hl'.unique hleast
      simp only [hs.data, hs.tasks] at hu1 hu3 hu4 hall
      refine ⟨⟨_, hu1, hu2, hu3, hu4⟩, hle, fun v hv hvt hvs => ?_⟩
      rw [if_neg hvt]
      exact hall v hv hvt hvs

theorem create_priority {args : TaskCreateArgs} (h : Accepts k args) (hs : Sim k a) (hi : Inv a)
    (hr : (exec k (.svc (.taskCreate (some args)))).Returns (r, k')) (hs' : Sim k' a')
    (hf : Model.Created a a' w) : (a'.tcb w).priority = ⟨args.priority, h.priority⟩ := by
  have hk := Comp.returns_pure.1 hr
  rw [create_accepted h] at hk
  obtain ⟨-, rfl⟩ := Prod.mk.inj hk
  have htasks : k.tasks ++ [k.gKernelObjectPool.freeList] = a.tasks ++ [w] :=
    (enrollTask_tasks _ (k.setUp args ⟨args.priority, h.priority⟩)).symm.trans
      (hs'.tasks.trans hf.frame.tasks)
  rw [hs.tasks, List.append_cancel_left_eq, List.cons.injEq] at htasks
  obtain rfl := htasks.1
  rw [← hs'.priority, enrollTask_tcb, if_pos rfl]
  · exact congrArg (fun x : Tcb => x.priority) (setUp_self k args _)
  · rw [setUp_self]
    change (k.queue (.ready ⟨args.priority, h.priority⟩)).tail ≠ _
    rw [(hs.repr _).tail]
    exact fun hx => hf.new (hi.wf.mem_tasks (List.mem_of_getLast? hx))

theorem undisplaced_give {s : SemId} {l : List TaskId} (hs : Sim k a) (hi : Inv a)
    (hp : a.pendsv = false) (ht : t ∈ a.tasks) (hrun : (a.tcb t).state ≠ .blocked)
    (hl : a.list (.sem s) = w :: l) (hs' : Sim k' (a.wake (.sem s) w).reschedule)
    (hi' : Inv (a.wake (.sem s) w).reschedule) :
    Undisplaced k' t ↔ ¬ Overtaken k t (.semGive (some s)) := by
  have hmem : w ∈ a.list (.sem s) := by simp [hl]
  have hj := joined_wake (a := a.wake (.sem s) w) hi.wf rfl hmem rfl rfl (by simp) (by simp) (by simp)
  have hkh : (k.queue (.sem s)).head = some w := by rw [(hs.repr _).head, hl]; rfl
  have hq : ∀ q, Wakes k t (.semGive (some s)) q → q = (k.tcb w).priority := by
    intro q hw
    cases hw with
    | give hh => rw [Option.some.inj (hh.symm.trans hkh)]
  have hpw : ((a.wake (.sem s) w).reschedule.tcb w).priority = (k.tcb w).priority := by
    rw [Model.reschedule_tcb, Model.wake_tcb, if_pos rfl, hs.data]
    rfl
  rw [hj.undisplaced_iff hs' hi' hi.wf hp ht hrun, overtaken_iff hs (by simp) (.give hkh) hq, hpw]

theorem undisplaced_created {args : TaskCreateArgs} (hs : Sim k a) (hi : Inv a) (hp : a.pendsv = false)
    (hc : a.gCurrent = some t) (hrun : (a.tcb t).state ≠ .blocked) (hf : Model.Created a a' w)
    (hr : (exec k (.svc (.taskCreate (some args)))).Returns (0, k')) (hs' : Sim k' a') (hi' : Inv a') :
    Undisplaced k' t ↔ ¬ Overtaken k t (.taskCreate (some args)) := by
  have hj := joined_created hf (by rw [hc]; simp)
  have hacc : Accepts k args := create_accepts (congrArg Prod.fst (Comp.returns_pure.1 hr))
  have hq : ∀ q, Wakes k t (.taskCreate (some args)) q → q = ⟨args.priority, hacc.priority⟩ := by
    intro q hw
    cases hw with
    | create _ => rfl
  rw [hj.undisplaced_iff hs' hi' hi.wf hp (hi.cur_mem hc) hrun,
    overtaken_iff hs (by simp) (.create hacc) hq, create_priority hacc hs hi hr hs' hf]

/-! Calls that make nobody ready. -/

theorem not_wakes_give {s : SemId} (hs : Sim k a) (hl : a.list (.sem s) = []) (q : Priority) :
    ¬ Wakes k t (.semGive (some s)) q := by
  intro hw
  cases hw with
  | give hh =>
    rw [(hs.repr _).head, hl] at hh
    cases hh

theorem not_wakes_unlock (hs : Sim k a) (hl : a.list (.mutex m) = []) (q : Priority) :
    ¬ Wakes k t (.mutexUnlock (some m)) q := by
  intro hw
  cases hw with
  | unlock _ hh =>
    rw [(hs.repr _).head, hl] at hh
    cases hh

theorem not_wakes_refused (hs : Sim k a) (hm : (a.mutex m).owner ≠ some t) (q : Priority) :
    ¬ Wakes k t (.mutexUnlock (some m)) q := by
  intro hw
  cases hw with
  | unlock ho _ =>
    rw [hs.mutex] at ho
    exact hm ho

theorem not_wakes_create {args : Option TaskCreateArgs}
    (hr : (exec k (.svc (.taskCreate args))).Returns (-1, k')) (q : Priority) :
    ¬ Wakes k t (.taskCreate args) q := by
  intro hw
  cases hw with
  | create hacc =>
    have := Comp.returns_pure.1 hr
    rw [create_accepted hacc] at this
    cases congrArg Prod.fst this

/-- An unlock without waiters goes on as the same task, with nothing pending. -/
theorem unlock_quiet (p : Priority) (found : Option (Option MutexId)) (hi : Inv a)
    (hp : a.pendsv = false) (hc : a.gCurrent = some t) (hl : a.list (.mutex m) = []) :
    (((a.dropOwned t m found).setPriority t p).handOff m).pendsv = false ∧
      (((a.dropOwned t m found).setPriority t p).handOff m).gCurrent = some t := by
  have st := hi.settled (m := m) (p := p) hp hc found
  have he : ((a.dropOwned t m found).setPriority t p).handOff m =
      ((a.dropOwned t m found).setPriority t p).setMutex m fun x => { x with owner := none } := by
    simp only [Model.handOff, st.waiters, hl]
  rw [he, Model.setMutex_pendsv, Model.setMutex_gCurrent, (settled_globals t found).1,
    (settled_globals t found).2]
  exact ⟨hp, hc⟩

theorem lockBlock_blocked {o : TaskId} (hc : a.gCurrent = some t) :
    ((((a.boost t o).block (.mutex m) osWaitForever true).addToOwned t m).tcb t).state = .blocked := by
  have hbc : (a.boost t o).gCurrent = some t := by
    rw [Model.boost_toGlobals]
    exact hc
  rw [Model.addToOwned_keeps TcbData.state (fun _ _ => rfl), Model.block_tcb hbc, if_pos rfl]
  rfl

/-- After a call that does not block its caller another task runs only if it is more
urgent, exactly unless the caller is overtaken by one of its own priority. -/
theorem equal_priority_kept {d : Syscall} (h : Run b os k) (he : k.Enabled (.svc d))
    (hc : k.gCurrent = some t) (h1 : d ≠ .yield) (h2 : ∀ n, d ≠ .delayTicks n)
    (hr : (exec k (.svc d)).Returns (r, k')) (hb : (k'.tcb t).state ≠ .blocked) :
    (∀ u, k'.resumed.gCurrent = some u → u ≠ t →
      (k'.resumed.tcb u).priority < (k'.resumed.tcb t).priority) ↔ ¬ Overtaken k t d := by
  change Undisplaced k' t ↔ _
  obtain ⟨a, hs, hi, -, hsort⟩ := run_waiters h
  rw [hs.gCurrent] at hc
  obtain ⟨a', hs', hi', ho⟩ := exec_sim hs hi hc he hr
  have hp : a.pendsv = false := by
    rw [← hs.globals]
    exact he.1
  have ht := hi.cur_mem hc
  have hrun : (a.tcb t).state ≠ .blocked := by
    rw [hi.running hp t hc]
    simp
  rw [hs'.data] at hb
  have hquiet : a'.pendsv = false → a'.gCurrent = some t → (∀ q, ¬ Wakes k t d q) →
      (Undisplaced k' t ↔ ¬ Overtaken k t d) := fun hp' hc' hno =>
    iff_of_true (undisplaced_of_quiet hs' hi' hp' hc') (not_overtaken hno)
  cases ho with
  | yield => exact absurd rfl h1
  | delayZero => exact absurd rfl (h2 _)
  | delay _ => exact absurd rfl (h2 _)
  | takeNull => exact hquiet hp hc fun _ hw => by cases hw
  | take _ => exact hquiet hp hc fun _ hw => by cases hw
  | takeBlock _ =>
    rw [Model.block_tcb hc, if_pos rfl] at hb
    exact absurd rfl hb
  | giveNull => exact hquiet hp hc fun _ hw => by cases hw
  | give hl => exact hquiet hp hc (not_wakes_give hs hl)
  | giveWake hl => exact undisplaced_give hs hi hp ht hrun hl hs' hi'
  | lockNull => exact hquiet hp hc fun _ hw => by cases hw
  | lockFree _ => exact hquiet hp hc fun _ hw => by cases hw
  | lockOwn _ => exact hquiet hp hc fun _ hw => by cases hw
  | lockBlock _ _ => exact absurd (lockBlock_blocked hc) hb
  | unlockNull => exact hquiet hp hc fun _ hw => by cases hw
  | unlockOther hm => exact hquiet hp hc (not_wakes_refused hs hm)
  | @unlock m found p hm hf hpr =>
    cases hl : a.list (.mutex m) with
    | nil =>
      obtain ⟨hp', hc'⟩ := unlock_quiet p found hi hp hc hl
      exact hquiet hp' hc' (not_wakes_unlock hs hl)
    | cons w l => exact undisplaced_unlock hs hi hsort hp hc hm hl hf hpr hs' hi'
  | createFailed hf =>
    obtain ⟨⟨pool, mem, rfl⟩, -, -⟩ := hf
    exact hquiet hp hc (not_wakes_create hr)
  | @created args _ w hf =>
    cases args with
    | none => cases congrArg Prod.fst (Comp.returns_pure.1 hr)
    | some args => exact undisplaced_created hs hi hp hc hrun hf hr hs' hi'
  | unrecognized => exact hquiet hp hc fun _ hw => by cases hw

/-- A give makes a task of the caller's priority ready, and the caller goes on. -/
theorem equal_priority_kept_small : ∃ os k k', Run (Boot.small [2, 2] 0 0 (by decide)) os k ∧
    k.gCurrent = some 128 ∧ (exec k (.svc (.semGive (some 0)))).Returns (0, k') ∧
    (k'.tcb 192).state = .ready ∧ ∀ u, k'.resumed.gCurrent = some u → u ≠ 128 →
      (k'.resumed.tcb u).priority < (k'.resumed.tcb 128).priority := by
  obtain ⟨os, k, hr, o, ho, he, h0, hc, hrd, hst, hhead⟩ := Boot.play_exists
    (Boot.small [2, 2] 0 0 (by decide)) 10
    [.pendSV, .svc (.semTake (some 0)), .pendSV, .svc (.semGive (some 0))]
    (fun os _ => ∃ o ∈ os, o.entry = .svc (.semGive (some 0)) ∧ o.ret = 0 ∧
      o.pre.gCurrent = some 128 ∧ (o.post.tcb 192).state = .ready ∧
      (o.post.tcb 128).state ≠ .blocked ∧
      (o.pre.queue (.ready (o.pre.tcb 128).priority)).head = some 128) (by decide +kernel)
  obtain ⟨os₁, os₂, rfl⟩ := List.append_of_mem ho
  obtain ⟨hpre, hen, hret⟩ := hr.split rfl
  rw [he] at hen hret
  rw [h0] at hret
  refine ⟨os₁, o.pre, o.post, hpre, hc, hret, hrd, ?_⟩
  refine (equal_priority_kept hpre hen hc (by simp) (by simp) hret hst).2 ?_
  rintro ⟨p, q, hb, -⟩
  cases hb with
  | other _ hne => exact hne hhead

/-- An unlock that passes the mutex on hands the processor to a third task of the same priority. -/
theorem equal_priority_kept_fails : ∃ os k k', Run (Boot.small [2, 2, 2] 0 0 (by decide)) os k ∧
    k.Enabled (.svc (.mutexUnlock (some 0))) ∧ k.gCurrent = some 192 ∧
    (exec k (.svc (.mutexUnlock (some 0)))).Returns (0, k') ∧ (k'.tcb 192).state ≠ .blocked ∧
    k'.resumed.gCurrent = some 64 ∧
    ¬ (k'.resumed.tcb 64).priority < (k'.resumed.tcb 192).priority := by
  obtain ⟨os, k, hr, o, ho, he, h0, hc, hst, hnext, hlt⟩ := Boot.play_exists
    (Boot.small [2, 2, 2] 0 0 (by decide)) 10
    [.pendSV, .svc (.mutexLock (some 0)), .svc .yield, .pendSV, .svc (.mutexLock (some 0)), .pendSV,
      .svc .yield, .pendSV, .svc (.mutexUnlock (some 0))]
    (fun os _ => ∃ o ∈ os, o.entry = .svc (.mutexUnlock (some 0)) ∧ o.ret = 0 ∧
      o.pre.gCurrent = some 192 ∧ (o.post.tcb 192).state ≠ .blocked ∧
      o.post.resumed.gCurrent = some 64 ∧
      ¬ (o.post.resumed.tcb 64).priority < (o.post.resumed.tcb 192).priority) (by decide +kernel)
  obtain ⟨os₁, os₂, rfl⟩ := List.append_of_mem ho
  obtain ⟨hpre, hen, hret⟩ := hr.split rfl
  rw [he] at hen hret
  rw [h0] at hret
  exact ⟨os₁, o.pre, o.post, hpre, hen, hc, hret, hst, hnext, hlt⟩

end Rtos
