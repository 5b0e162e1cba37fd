import Rtos.Refine.Queues

/-! The timeout list: the second pair of links, with its own ends. -/

namespace Rtos

open Lib

variable {k k' : Kernel} {a : Model} {t u : TaskId} {l : List TaskId}

/-- Everything but the links and ends of the timeout list is as before. -/
structure Retimed (k k' : Kernel) : Prop where
  globals : k'.toGlobals = k.toGlobals
  data : ∀ t, (k'.tcb t).toTcbData = (k.tcb t).toTcbData
  links : k'.links = k.links
  queue : k'.queue = k.queue

theorem Sim.retime (hs : Sim k a) (hk : Retimed k k')
    (hr : Dll.Repr k'.timeoutLinks k'.gTimeoutQueue l) : Sim k' { a with timeouts := l } := by
  refine ⟨hk.globals.trans hs.globals, fun t => (hk.data t).trans (hs.data t), fun q => ?_,
    hs.disjoint, hr⟩
  rw [hk.links, hk.queue]
  exact hs.repr q

theorem Retimed.trans {k₁ k₂ k₃ : Kernel} (h1 : Retimed k₁ k₂) (h2 : Retimed k₂ k₃) :
    Retimed k₁ k₃ :=
  ⟨h2.globals.trans h1.globals, fun t => (h2.data t).trans (h1.data t),
    h2.links.trans h1.links, h2.queue.trans h1.queue⟩

theorem retimed_setTcb (k : Kernel) (t : TaskId) {f : Tcb → Tcb}
    (hf : ∀ c, (f c).toTcbData = c.toTcbData ∧ (f c).next = c.next ∧ (f c).prev = c.prev) :
    Retimed k (k.setTcb t f) := by
  have h : ∀ u, ((k.setTcb t f).tcb u).toTcbData = (k.tcb u).toTcbData ∧
      ((k.setTcb t f).tcb u).next = (k.tcb u).next ∧
      ((k.setTcb t f).tcb u).prev = (k.tcb u).prev := fun u => by
    rw [Kernel.setTcb_tcb]
    split_ifs with hu
    · rw [hu]; exact hf _
    · exact ⟨rfl, rfl, rfl⟩
  refine ⟨rfl, fun u => (h u).1, ?_, rfl⟩
  ext y : 2
  · exact (h y).2.1
  · exact (h y).2.2

theorem retimed_ends (k : Kernel) (e : TaskQueue) : Retimed k { k with gTimeoutQueue := e } :=
  ⟨rfl, fun _ => rfl, rfl, rfl⟩

/-- The first write of a removal from the timeout list. -/
def timeoutUnlinkNext (t : TaskId) (k : Kernel) : Kernel :=
  match (k.tcb t).timeoutPrev with
  | some p => k.setTcb p fun c => { c with timeoutNext := (k.tcb t).timeoutNext }
  | none =>
    if k.gTimeoutQueue.head = some t then
      { k with gTimeoutQueue := { k.gTimeoutQueue with head := (k.tcb t).timeoutNext } }
    else k

def timeoutUnlinkPrev (t : TaskId) (k : Kernel) : Kernel :=
  match (k.tcb t).timeoutNext with
  | some n => k.setTcb n fun c => { c with timeoutPrev := (k.tcb t).timeoutPrev }
  | none =>
    if k.gTimeoutQueue.tail = some t then
      { k with gTimeoutQueue := { k.gTimeoutQueue with tail := (k.tcb t).timeoutPrev } }
    else k

theorem timeoutRemove_eq (t : TaskId) (k : Kernel) : osTimeoutQueueRemove t k =
    (timeoutUnlinkPrev t (timeoutUnlinkNext t k)).setTcb t fun c =>
      { c with timeoutNext := none, timeoutPrev := none } := rfl

theorem timeoutUnlinkNext_tcb (t u : TaskId) (k : Kernel) : (timeoutUnlinkNext t k).tcb u =
    { k.tcb u with timeoutNext :=
        if (k.tcb t).timeoutPrev = some u then (k.tcb t).timeoutNext else (k.tcb u).timeoutNext } := by
  unfold timeoutUnlinkNext
  split
  · rename_i p hp
    rw [Kernel.setTcb_tcb, hp]
    by_cases hu : u = p
    · simp [hu]
    · simp [hu, Ne.symm hu]
  · rename_i hp
    split_ifs <;> simp_all

theorem timeoutUnlinkPrev_tcb (t u : TaskId) (k : Kernel) : (timeoutUnlinkPrev t k).tcb u =
    { k.tcb u with timeoutPrev :=
        if (k.tcb t).timeoutNext = some u then (k.tcb t).timeoutPrev else (k.tcb u).timeoutPrev } := by
  unfold timeoutUnlinkPrev
  split
  · rename_i p hp
    rw [Kernel.setTcb_tcb, hp]
    by_cases hu : u = p
    · simp [hu]
    · simp [hu, Ne.symm hu]
  · rename_i hp
    split_ifs <;> simp_all

theorem timeoutUnlinkNext_self (t : TaskId) (k : Kernel) :
    ((timeoutUnlinkNext t k).tcb t).timeoutNext = (k.tcb t).timeoutNext := by
  rw [timeoutUnlinkNext_tcb]
  simp

theorem timeoutRemove_links (t : TaskId) (k : Kernel) :
    (osTimeoutQueueRemove t k).timeoutLinks = Dll.unlink k.timeoutLinks t := by
  rw [timeoutRemove_eq]
  ext y : 2
  · by_cases hy : y = t
    · simp [Kernel.timeoutLinks, Dll.unlink, Kernel.setTcb_tcb, hy]
    · simp only [Kernel.timeoutLinks, Dll.unlink, Kernel.setTcb_tcb, timeoutUnlinkPrev_tcb,
        timeoutUnlinkNext_tcb, hy, if_false]
      congr
  · by_cases hy : y = t
    · simp [Kernel.timeoutLinks, Dll.unlink, Kernel.setTcb_tcb, hy]
    · simp only [Kernel.timeoutLinks, Dll.unlink, Kernel.setTcb_tcb, timeoutUnlinkPrev_tcb,
        timeoutUnlinkNext_self, hy, if_false]
      simp only [timeoutUnlinkNext_tcb]
      congr

theorem timeoutUnlinkNext_ends (h : (k.tcb t).timeoutPrev = none → k.gTimeoutQueue.head = some t) :
    (timeoutUnlinkNext t k).gTimeoutQueue = { k.gTimeoutQueue with
      head := if (k.tcb t).timeoutPrev = none then (k.tcb t).timeoutNext
        else k.gTimeoutQueue.head } := by
  unfold timeoutUnlinkNext
  split
  · simp_all
  · simp_all

theorem timeoutUnlinkPrev_ends (h : (k.tcb t).timeoutNext = none → k.gTimeoutQueue.tail = some t) :
    (timeoutUnlinkPrev t k).gTimeoutQueue = { k.gTimeoutQueue with
      tail := if (k.tcb t).timeoutNext = none then (k.tcb t).timeoutPrev
        else k.gTimeoutQueue.tail } := by
  unfold timeoutUnlinkPrev
  split
  · simp_all
  · simp_all

theorem timeoutRemove_ends (h1 : (k.tcb t).timeoutPrev = none → k.gTimeoutQueue.head = some t)
    (h2 : (k.tcb t).timeoutNext = none → k.gTimeoutQueue.tail = some t) :
    (osTimeoutQueueRemove t k).gTimeoutQueue =
      Dll.unlinkEnds k.timeoutLinks k.gTimeoutQueue t := by
  rw [timeoutRemove_eq, Kernel.setTcb_gTimeoutQueue, timeoutUnlinkPrev_ends]
  · rw [timeoutUnlinkNext_self, timeoutUnlinkNext_ends h1, timeoutUnlinkNext_tcb]
    rfl
  · rw [timeoutUnlinkNext_self, timeoutUnlinkNext_ends h1]
    exact h2

theorem timeoutRemove_retimed (t : TaskId) (k : Kernel) : Retimed k (osTimeoutQueueRemove t k) := by
  have h1 : Retimed k (timeoutUnlinkNext t k) := by
    unfold timeoutUnlinkNext
    split
    · exact retimed_setTcb _ _ fun _ => ⟨rfl, rfl, rfl⟩
    · split_ifs
      · exact retimed_ends _ _
      · exact ⟨rfl, fun _ => rfl, rfl, rfl⟩
  have h2 : Retimed (timeoutUnlinkNext t k) (timeoutUnlinkPrev t (timeoutUnlinkNext t k)) := by
    generalize timeoutUnlinkNext t k = k₁
    unfold timeoutUnlinkPrev
    split
    · exact retimed_setTcb _ _ fun _ => ⟨rfl, rfl, rfl⟩
    · split_ifs
      · exact retimed_ends _ _
      · exact ⟨rfl, fun _ => rfl, rfl, rfl⟩
  rw [timeoutRemove_eq]
  exact (h1.trans h2).trans (retimed_setTcb _ _ fun _ => ⟨rfl, rfl, rfl⟩)

theorem Sim.timeoutRemove (hs : Sim k a) (ht : t ∈ a.timeouts) :
    Sim (osTimeoutQueueRemove t k) (a.timeoutRemove t) := by
  obtain ⟨l₁, l₂, hl⟩ := List.append_of_mem ht
  have hr := hs.timeouts
  rw [hl] at hr
  have hnd := hr.nodup
  have he : a.timeouts.erase t = l₁ ++ l₂ := by
    rw [hl, List.erase_append_right _ fun h => ?_, List.erase_cons_head]
    rw [List.nodup_append] at hnd
    exact hnd.2.2 t h t (by simp) rfl
  obtain ⟨hp, hn⟩ := hr.member
  refine hs.retime (timeoutRemove_retimed t k) ?_
  rw [timeoutRemove_links, timeoutRemove_ends (fun h => ?_) (fun h => ?_), he]
  · exact hr.unlink
  · have : l₁ = [] := List.getLast?_eq_none_iff.1 (hp.symm.trans h)
    rw [hr.head, this]
    rfl
  · have : l₂ = [] := List.head?_eq_none_iff.1 (hn.symm.trans h)
    rw [hr.tail, this]
    simp

/-- `k'` is `k` with `t` linked into the timeout list between two neighbours. -/
structure Timed (t : TaskId) (p n : Option TaskId) (k k' : Kernel) : Prop where
  retimed : Retimed k k'
  links : k'.timeoutLinks = Dll.link k.timeoutLinks p n t
  ends : k'.gTimeoutQueue = Dll.linkEnds k.gTimeoutQueue p n t

def freshTimeout (t : TaskId) (k : Kernel) : Kernel :=
  k.setTcb t fun c => { c with timeoutNext := none, timeoutPrev := none }

theorem freshTimeout_retimed (t : TaskId) (k : Kernel) : Retimed k (freshTimeout t k) :=
  retimed_setTcb _ _ fun _ => ⟨rfl, rfl, rfl⟩

theorem timed_empty (t : TaskId) (k : Kernel) :
    Timed t none none k { freshTimeout t k with gTimeoutQueue := ⟨some t, some t⟩ } := by
  refine ⟨(freshTimeout_retimed t k).trans (retimed_ends _ _), ?_, ?_⟩
  · ext y : 2 <;> simp only [freshTimeout, Kernel.timeoutLinks, Dll.link, Kernel.setTcb_tcb] <;>
      split_ifs <;> simp_all
  · simp [Dll.linkEnds]

theorem timed_tail (last : TaskId) (k : Kernel) (hl : last ≠ t) :
    let k₁ := ((freshTimeout t k).setTcb t fun c => { c with timeoutPrev := some last }).setTcb last
      fun c => { c with timeoutNext := some t }
    Timed t (some last) none k
      { k₁ with gTimeoutQueue := { k₁.gTimeoutQueue with tail := some t } } := by
  intro k₁
  have h₁ : Retimed k k₁ := by
    refine ((freshTimeout_retimed t k).trans (retimed_setTcb _ t ?_)).trans
      (retimed_setTcb _ last ?_)
    all_goals exact fun _ => ⟨rfl, rfl, rfl⟩
  refine ⟨h₁.trans (retimed_ends _ _), ?_, ?_⟩
  · ext y : 2 <;> simp only [k₁, freshTimeout, Kernel.timeoutLinks, Dll.link,
      Kernel.setTcb_tcb] <;> split_ifs <;> simp_all
  · simp [k₁, freshTimeout, Dll.linkEnds]

/-- The link that leads to `t`: its predecessor's, or the head. -/
def timeoutLinkNext (t : TaskId) (p : Option TaskId) (k : Kernel) : Kernel :=
  match p with
  | some p => k.setTcb p fun c => { c with timeoutNext := some t }
  | none => { k with gTimeoutQueue := { k.gTimeoutQueue with head := some t } }

theorem timed_before {i : TaskId} (p : Option TaskId) (k : Kernel) (hi : i ≠ t)
    (hp : p ≠ some t) (hpi : p ≠ some i) :
    Timed t p (some i) k
      ((timeoutLinkNext t p ((freshTimeout t k).setTcb t fun c =>
        { c with timeoutNext := some i, timeoutPrev := p })).setTcb i fun c =>
          { c with timeoutPrev := some t }) := by
  set k₁ := (freshTimeout t k).setTcb t fun c => { c with timeoutNext := some i, timeoutPrev := p }
    with hk₁
  unfold timeoutLinkNext
  have h₁ : Retimed k k₁ :=
    (freshTimeout_retimed t k).trans (retimed_setTcb _ t fun _ => ⟨rfl, rfl, rfl⟩)
  refine ⟨?_, ?_, ?_⟩
  · refine (h₁.trans ?_).trans (retimed_setTcb _ i fun _ => ⟨rfl, rfl, rfl⟩)
    cases p with
    | none => exact retimed_ends _ _
    | some p => exact retimed_setTcb _ p fun _ => ⟨rfl, rfl, rfl⟩
  · cases p <;> ext y : 2 <;> simp only [hk₁, freshTimeout, Kernel.timeoutLinks, Dll.link,
      Kernel.setTcb_tcb] <;> split_ifs <;> simp_all
  · cases p <;> simp [hk₁, freshTimeout, Dll.linkEnds]

/-- The sorted insertion ends, behind the tasks whose tick comes before. -/
theorem timeoutInsert_returns (hr : Dll.Repr k.timeoutLinks k.gTimeoutQueue l) (ht : t ∉ l) :
    ∃ k', (osTimeoutQueueInsertSorted t k).Returns k' ∧
      Timed t
        (l.takeWhile fun i => !osTickReached (k.tcb i).wakeTick (k.tcb t).wakeTick).getLast?
        (l.dropWhile fun i => !osTickReached (k.tcb i).wakeTick (k.tcb t).wakeTick).head? k k' := by
  set test : TaskId → Bool := fun i => !osTickReached (k.tcb i).wakeTick (k.tcb t).wakeTick
  have h0 : ∀ u, u ≠ t → (freshTimeout t k).tcb u = k.tcb u := fun u hu => by
    rw [freshTimeout, Kernel.setTcb_tcb, if_neg hu]
  have hseg : Dll.Seg (freshTimeout t k).timeoutLinks none l none := by
    refine hr.seg.congr (fun u hu => ?_) (fun u hu => ?_)
    · exact congrArg Tcb.timeoutNext (h0 u fun hc => ht (hc ▸ hu))
    · exact congrArg Tcb.timeoutPrev (h0 u fun hc => ht (hc ▸ hu))
  have htick : ∀ u, ((freshTimeout t k).tcb u).wakeTick = (k.tcb u).wakeTick := fun u =>
    congrArg TcbData.wakeTick ((freshTimeout_retimed t k).data u)
  have hwalk : (timeoutWalk (freshTimeout t k) ((freshTimeout t k).tcb t).wakeTick l.head?).Returns
      (l.dropWhile test).head? := by
    have := Dll.walkWhile_returns test hseg
    simp only [timeoutWalk, htick]
    exact this
  have happ := List.takeWhile_append_dropWhile (p := test) (l := l)
  have hhead : (freshTimeout t k).gTimeoutQueue.head = l.head? := hr.head
  have htail : (freshTimeout t k).gTimeoutQueue.tail = l.getLast? := hr.tail
  unfold osTimeoutQueueInsertSorted
  rw [show (k.setTcb t fun c => { c with timeoutNext := none, timeoutPrev := none }) =
    freshTimeout t k from rfl]
  simp only
  cases hl : l with
  | nil =>
    rw [hhead, hl]
    exact ⟨_, Comp.returns_pure.2 rfl, timed_empty t k⟩
  | cons x l' =>
    rw [hhead, hl, List.head?_cons]
    rw [← hl]
    rw [hl, List.head?_cons, ← hl] at hwalk
    cases hd : l.dropWhile test with
    | nil =>
      rw [hd, List.head?_nil] at hwalk
      rw [hd, List.append_nil] at happ
      obtain ⟨last, hlast⟩ : ∃ last, l.getLast? = some last := by rw [hl]; simp [List.getLast?_cons]
      have hk := timed_tail (t := t) last k fun hc =>
        ht (hc ▸ List.mem_of_getLast? hlast)
      rw [happ, hlast]
      refine ⟨_, Comp.returns_bind.2 ⟨none, hwalk, Comp.returns_bind.2 ⟨last, ?_, ?_⟩⟩, hk⟩
      · rw [Comp.returns_ofOption, htail, hlast]
      · exact Comp.returns_pure.2 rfl
    | cons i l₂ =>
      rw [hd, List.head?_cons] at hwalk
      rw [hd] at happ
      have hi : i ∈ l := by rw [← happ]; simp
      have hne : i ≠ t := fun hc => ht (hc ▸ hi)
      rw [← happ] at hr
      have hprev : ((freshTimeout t k).tcb i).timeoutPrev = (l.takeWhile test).getLast? := by
        rw [h0 i hne]
        exact hr.member.1
      have hmem : ∀ y, (l.takeWhile test).getLast? = some y → y ∈ l.takeWhile test := fun y hy =>
        List.mem_of_getLast? hy
      have hpt : (l.takeWhile test).getLast? ≠ some t := fun hc => ht (by
        rw [← happ]
        exact List.mem_append_left _ (hmem t hc))
      have hpi : (l.takeWhile test).getLast? ≠ some i := fun hc =>
        (List.nodup_append.1 hr.nodup).2.2 i (hmem i hc) i (by simp) rfl
      refine ⟨_, Comp.returns_bind.2 ⟨_, hwalk, Comp.returns_pure.2 rfl⟩, ?_⟩
      rw [List.head?_cons, hprev]
      exact timed_before (l.takeWhile test).getLast? k hne hpt hpi

theorem Sim.timeoutInsert (hs : Sim k a) (ht : t ∉ a.timeouts) :
    ∃ k', (osTimeoutQueueInsertSorted t k).Returns k' ∧ Sim k' (a.timeoutInsert t) := by
  obtain ⟨k', hk', hl⟩ := timeoutInsert_returns hs.timeouts ht
  refine ⟨k', hk', hs.retime hl.retimed ?_⟩
  have hp : ∀ u, (k.tcb u).wakeTick = (a.tcb u).wakeTick := fun u =>
    congrArg TcbData.wakeTick (hs.data u)
  simp only [hp] at hl
  rw [hl.links, hl.ends]
  have hr := hs.timeouts
  rw [← List.takeWhile_append_dropWhile
    (p := fun i => !osTickReached (a.tcb i).wakeTick (a.tcb t).wakeTick) (l := a.timeouts)] at hr
  exact hr.link (by rwa [List.takeWhile_append_dropWhile])

end Rtos
