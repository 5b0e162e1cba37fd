import Rtos.Model.Step

/-! The pointer operations on queues do to the linked lists what the model does to
its lists. `Sim` relates a kernel state to the model state it stands for. -/

namespace Rtos

open Lib

section fields
variable (k : Kernel) (t u : TaskId) (q q' : QueueRef) (f : Tcb → Tcb) (g : TaskQueue → TaskQueue)

@[simp] theorem Kernel.setTcb_toGlobals : (k.setTcb t f).toGlobals = k.toGlobals := rfl
@[simp] theorem Kernel.setTcb_queue : (k.setTcb t f).queue = k.queue := rfl
@[simp] theorem Kernel.setTcb_gTimeoutQueue : (k.setTcb t f).gTimeoutQueue = k.gTimeoutQueue := rfl
@[simp] theorem Kernel.setQueue_toGlobals : (k.setQueue q g).toGlobals = k.toGlobals := rfl
@[simp] theorem Kernel.setQueue_tcb : (k.setQueue q g).tcb = k.tcb := rfl
@[simp] theorem Kernel.setQueue_gTimeoutQueue :
    (k.setQueue q g).gTimeoutQueue = k.gTimeoutQueue := rfl

theorem Kernel.setTcb_tcb : (k.setTcb t f).tcb u = if u = t then f (k.tcb t) else k.tcb u := by
  simp only [Kernel.setTcb, Function.update_apply]

theorem Kernel.setQueue_queue :
    (k.setQueue q g).queue q' = if q' = q then g (k.queue q) else k.queue q' := by
  simp only [Kernel.setQueue, Function.update_apply]

end fields

structure Sim (k : Kernel) (a : Model) : Prop where
  globals : k.toGlobals = a.toGlobals
  data : ∀ t, (k.tcb t).toTcbData = a.tcb t
  repr : ∀ q, Dll.Repr k.links (k.queue q) (a.list q)
  disjoint : ∀ q q' t, t ∈ a.list q → t ∈ a.list q' → q = q'
  timeouts : Dll.Repr k.timeoutLinks k.gTimeoutQueue a.timeouts

variable {k k' : Kernel} {a : Model} {t u : TaskId} {q q' : QueueRef}

namespace Sim

variable (hs : Sim k a)
include hs

theorem tasks : k.tasks = a.tasks := congrArg Globals.tasks hs.globals

theorem gCurrent : k.gCurrent = a.gCurrent := congrArg Globals.gCurrent hs.globals

theorem gNext : k.gNext = a.gNext := congrArg Globals.gNext hs.globals

theorem gTick : k.gTick = a.gTick := congrArg Globals.gTick hs.globals

theorem pendsv : k.pendsv = a.pendsv := congrArg Globals.pendsv hs.globals

theorem semCount : k.semCount = a.semCount := congrArg Globals.semCount hs.globals

theorem mutex : k.mutex = a.mutex := congrArg Globals.mutex hs.globals

theorem sp (t : TaskId) : (k.tcb t).sp = (a.tcb t).sp := congrArg TcbData.sp (hs.data t)

theorem state (t : TaskId) : (k.tcb t).state = (a.tcb t).state := congrArg TcbData.state (hs.data t)

theorem priority (t : TaskId) : (k.tcb t).priority = (a.tcb t).priority :=
  congrArg TcbData.priority (hs.data t)

end Sim

/-- Everything but the links and ends of the ready and wait queues is as before. -/
structure Relinked (k k' : Kernel) : Prop where
  globals : k'.toGlobals = k.toGlobals
  data : ∀ t, (k'.tcb t).toTcbData = (k.tcb t).toTcbData
  timeoutLinks : k'.timeoutLinks = k.timeoutLinks
  gTimeoutQueue : k'.gTimeoutQueue = k.gTimeoutQueue

/-- The queues of `S` are well linked, share no task, and stand for the lists `L`. -/
structure Queues (S : Set QueueRef) (L : QueueRef → List TaskId) (k : Kernel) : Prop where
  repr : ∀ q ∈ S, Dll.Repr k.links (k.queue q) (L q)
  disjoint : ∀ q ∈ S, ∀ q' ∈ S, ∀ t, t ∈ L q → t ∈ L q' → q = q'

/-- The queue `q` now stands for `l`, and the others and all other data are as before. -/
structure Moved (S : Set QueueRef) (L : QueueRef → List TaskId) (q : QueueRef) (l : List TaskId)
    (k k' : Kernel) : Prop where
  relinked : Relinked k k'
  queues : Queues S (Function.update L q l) k'
  queue_ne : ∀ q', q' ≠ q → k'.queue q' = k.queue q'
  links_ne : ∀ q' ∈ S, q' ≠ q → ∀ y ∈ L q',
    k'.links.next y = k.links.next y ∧ k'.links.prev y = k.links.prev y

variable {S : Set QueueRef} {L : QueueRef → List TaskId}

theorem Sim.queues (hs : Sim k a) : Queues Set.univ a.list k :=
  ⟨fun q _ => hs.repr q, fun q _ q' _ t => hs.disjoint q q' t⟩

/-- A queue operation on the kernel is the list operation on the model. -/
theorem Sim.moved (hs : Sim k a) {g : List TaskId → List TaskId}
    (hm : Moved Set.univ a.list q (g (a.list q)) k k') : Sim k' (a.setList q g) := by
  refine ⟨hm.relinked.globals.trans hs.globals, fun t => (hm.relinked.data t).trans (hs.data t),
    fun q' => hm.queues.repr q' trivial, fun q' q'' => hm.queues.disjoint q' trivial q'' trivial, ?_⟩
  rw [hm.relinked.timeoutLinks, hm.relinked.gTimeoutQueue]
  exact hs.timeouts

/-- The links of the tasks in the queues are all that matters of the tasks. -/
theorem Queues.congr (hs : Queues S L k) (hq : k'.queue = k.queue)
    (hl : ∀ q ∈ S, ∀ t ∈ L q, (k'.tcb t).next = (k.tcb t).next ∧ (k'.tcb t).prev = (k.tcb t).prev) :
    Queues S L k' := by
  refine ⟨fun q hS => ?_, hs.disjoint⟩
  rw [hq]
  exact (hs.repr q hS).congr (fun y hy => (hl q hS y hy).1) fun y hy => (hl q hS y hy).2

/-- One queue is relinked, with nodes of its own or of no queue. -/
theorem Queues.relink (hs : Queues S L k) (hqS : q ∈ S) (hk : Relinked k k') {l : List TaskId}
    (hr : Dll.Repr k'.links (k'.queue q) l)
    (hq : ∀ q', q' ≠ q → k'.queue q' = k.queue q')
    (hfr : ∀ q' ∈ S, q' ≠ q → ∀ y ∈ L q',
      k'.links.next y = k.links.next y ∧ k'.links.prev y = k.links.prev y)
    (hg : ∀ y ∈ l, y ∈ L q ∨ ∀ q' ∈ S, y ∉ L q') : Moved S L q l k k' := by
  have hd : ∀ q' ∈ S, q' ≠ q → ∀ y ∈ l, y ∉ L q' := by
    intro q' hS hne y hy hy'
    rcases hg y hy with h | h
    · exact hne (hs.disjoint q' hS q hqS y hy' h)
    · exact h q' hS hy'
  refine ⟨hk, ⟨fun q' hS => ?_, ?_⟩, hq, hfr⟩
  · by_cases hne : q' = q
    · subst hne
      rw [Function.update_self]
      exact hr
    · rw [Function.update_of_ne hne, hq q' hne]
      exact (hs.repr q' hS).congr (fun y hy => (hfr q' hS hne y hy).1)
        fun y hy => (hfr q' hS hne y hy).2
  · intro q₁ hS₁ q₂ hS₂ t h1 h2
    rw [Function.update_apply] at h1 h2
    split_ifs at h1 h2 with e1 e2 e2
    · rw [e1, e2]
    · exact absurd h2 (hd q₂ hS₂ e2 t h1)
    · exact absurd h1 (hd q₁ hS₁ e1 t h2)
    · exact hs.disjoint q₁ hS₁ q₂ hS₂ t h1 h2

/-- The first write of a removal: past the node, from behind or from the head. -/
def unlinkNext (q : QueueRef) (t : TaskId) (k : Kernel) : Kernel :=
  match (k.tcb t).prev with
  | some p => k.setTcb p fun c => { c with next := (k.tcb t).next }
  | none => k.setQueue q fun e => { e with head := (k.tcb t).next }

def unlinkPrev (q : QueueRef) (t : TaskId) (k : Kernel) : Kernel :=
  match (k.tcb t).next with
  | some n => k.setTcb n fun c => { c with prev := (k.tcb t).prev }
  | none => k.setQueue q fun e => { e with tail := (k.tcb t).prev }

theorem remove_eq (q : QueueRef) (t : TaskId) (k : Kernel) : osTaskQueueRemove q t k =
    (unlinkPrev q t (unlinkNext q t k)).setTcb t fun c => { c with next := none, prev := none } := rfl

theorem unlinkNext_tcb (q : QueueRef) (t u : TaskId) (k : Kernel) : (unlinkNext q t k).tcb u =
    { k.tcb u with next := if (k.tcb t).prev = some u then (k.tcb t).next else (k.tcb u).next } := by
  unfold unlinkNext
  split
  · rename_i p hp
    rw [Kernel.setTcb_tcb, hp]
    by_cases hu : u = p
    · simp [hu]
    · simp [hu, Ne.symm hu]
  · rename_i hp
    simp [hp]

theorem unlinkPrev_tcb (q : QueueRef) (t u : TaskId) (k : Kernel) : (unlinkPrev q t k).tcb u =
    { k.tcb u with prev := if (k.tcb t).next = some u then (k.tcb t).prev else (k.tcb u).prev } := by
  unfold unlinkPrev
  split
  · rename_i p hp
    rw [Kernel.setTcb_tcb, hp]
    by_cases hu : u = p
    · simp [hu]
    · simp [hu, Ne.symm hu]
  · rename_i hp
    simp [hp]

theorem unlinkNext_self (q : QueueRef) (t : TaskId) (k : Kernel) :
    ((unlinkNext q t k).tcb t).next = (k.tcb t).next := by
  rw [unlinkNext_tcb]
  simp

theorem unlinkNext_queue (q q' : QueueRef) (t : TaskId) (k : Kernel) : (unlinkNext q t k).queue q' =
    if q' = q ∧ (k.tcb t).prev = none then { k.queue q with head := (k.tcb t).next }
    else k.queue q' := by
  unfold unlinkNext
  split
  · simp_all
  · simp_all [Kernel.setQueue_queue]

theorem unlinkPrev_queue (q q' : QueueRef) (t : TaskId) (k : Kernel) : (unlinkPrev q t k).queue q' =
    if q' = q ∧ (k.tcb t).next = none then { k.queue q with tail := (k.tcb t).prev }
    else k.queue q' := by
  unfold unlinkPrev
  split
  · simp_all
  · simp_all [Kernel.setQueue_queue]

theorem remove_links (q : QueueRef) (t : TaskId) (k : Kernel) :
    (osTaskQueueRemove q t k).links = Dll.unlink k.links t := by
  rw [remove_eq]
  ext y : 2
  · by_cases hy : y = t
    · simp [Kernel.links, Dll.unlink, Kernel.setTcb_tcb, hy]
    · simp only [Kernel.links, Dll.unlink, Kernel.setTcb_tcb, unlinkPrev_tcb, unlinkNext_tcb, hy,
        if_false]
      congr
  · by_cases hy : y = t
    · simp [Kernel.links, Dll.unlink, Kernel.setTcb_tcb, hy]
    · simp only [Kernel.links, Dll.unlink, Kernel.setTcb_tcb, unlinkPrev_tcb, unlinkNext_self, hy,
        if_false]
      simp only [unlinkNext_tcb]
      congr

theorem remove_ends (q : QueueRef) (t : TaskId) (k : Kernel) :
    (osTaskQueueRemove q t k).queue q = Dll.unlinkEnds k.links (k.queue q) t := by
  rw [remove_eq, Kernel.setTcb_queue, unlinkPrev_queue, unlinkNext_self, unlinkNext_queue]
  cases hp : (k.tcb t).prev <;> cases hn : (k.tcb t).next <;>
    simp [unlinkNext_tcb, Dll.unlinkEnds, Kernel.links, hp, hn]

theorem remove_queue_ne (t : TaskId) (k : Kernel) (h : q' ≠ q) :
    (osTaskQueueRemove q t k).queue q' = k.queue q' := by
  rw [remove_eq, Kernel.setTcb_queue, unlinkPrev_queue, if_neg fun hc => h hc.1, unlinkNext_queue,
    if_neg fun hc => h hc.1]

theorem remove_relinked (q : QueueRef) (t : TaskId) (k : Kernel) :
    Relinked k (osTaskQueueRemove q t k) := by
  have ht : ∀ u, ((osTaskQueueRemove q t k).tcb u).toTcbData = (k.tcb u).toTcbData ∧
      ((osTaskQueueRemove q t k).tcb u).timeoutNext = (k.tcb u).timeoutNext ∧
      ((osTaskQueueRemove q t k).tcb u).timeoutPrev = (k.tcb u).timeoutPrev := fun u => by
    rw [remove_eq, Kernel.setTcb_tcb]
    split_ifs with h
    · subst h; simp [unlinkPrev_tcb, unlinkNext_tcb]
    · simp [unlinkPrev_tcb, unlinkNext_tcb]
  refine ⟨?_, fun u => (ht u).1, ?_, ?_⟩
  · rw [remove_eq, Kernel.setTcb_toGlobals]
    unfold unlinkPrev unlinkNext
    split <;> split <;> rfl
  · ext y : 2
    · exact (ht y).2.1
    · exact (ht y).2.2
  · rw [remove_eq, Kernel.setTcb_gTimeoutQueue]
    unfold unlinkPrev unlinkNext
    split <;> split <;> rfl

theorem Queues.remove (hs : Queues S L k) (hqS : q ∈ S) (ht : t ∈ L q) :
    Moved S L q ((L q).erase t) k (osTaskQueueRemove q t k) := by
  obtain ⟨l₁, l₂, hl⟩ := List.append_of_mem ht
  have hr := hs.repr q hqS
  rw [hl] at hr
  have hnd := hr.nodup
  have he : (L q).erase t = l₁ ++ l₂ := by
    rw [hl, List.erase_append_right _ fun h => ?_, List.erase_cons_head]
    rw [List.nodup_append] at hnd
    exact hnd.2.2 t h t (by simp) rfl
  refine hs.relink hqS (remove_relinked q t k) ?_ (fun q' hne => remove_queue_ne t k hne) ?_ ?_
  · rw [remove_links, remove_ends, he]
    exact hr.unlink
  · intro q' hS hne y hy
    rw [remove_links]
    refine Dll.unlink_frame hr fun hc => hne ?_
    rw [← hl] at hc
    exact hs.disjoint q' hS q hqS y hy hc
  · exact fun y hy => .inl (List.mem_of_mem_erase hy)

/-- A task that has left its queue is in none. -/
theorem Queues.not_mem_erase (hs : Queues S L k) (hqS : q ∈ S) (ht : t ∈ L q) :
    ∀ q' ∈ S, t ∉ Function.update L q ((L q).erase t) q' := by
  intro q' hS hc
  rw [Function.update_apply] at hc
  split_ifs at hc with hq
  · exact (hs.repr q hqS).nodup.not_mem_erase hc
  · exact hq (hs.disjoint q' hS q hqS t hc ht)

theorem Sim.remove (hs : Sim k a) (ht : t ∈ a.list q) :
    Sim (osTaskQueueRemove q t k) (a.remove q t) :=
  hs.moved (hs.queues.remove trivial ht)

theorem relinked_setTcb (k : Kernel) (t : TaskId) {f : Tcb → Tcb}
    (hf : ∀ c, (f c).toTcbData = c.toTcbData ∧ (f c).timeoutNext = c.timeoutNext ∧
      (f c).timeoutPrev = c.timeoutPrev) : Relinked k (k.setTcb t f) := by
  have h : ∀ u, ((k.setTcb t f).tcb u).toTcbData = (k.tcb u).toTcbData ∧
      ((k.setTcb t f).tcb u).timeoutNext = (k.tcb u).timeoutNext ∧
      ((k.setTcb t f).tcb u).timeoutPrev = (k.tcb u).timeoutPrev := fun u => by
    rw [Kernel.setTcb_tcb]
    split_ifs with hu
    · rw [hu]; exact hf _
    · exact ⟨rfl, rfl, rfl⟩
  refine ⟨rfl, fun u => (h u).1, ?_, rfl⟩
  ext y : 2
  · exact (h y).2.1
  · exact (h y).2.2

theorem relinked_setQueue (k : Kernel) (q : QueueRef) (g : TaskQueue → TaskQueue) :
    Relinked k (k.setQueue q g) := ⟨rfl, fun _ => rfl, rfl, rfl⟩

theorem Relinked.trans {k₁ k₂ k₃ : Kernel} (h1 : Relinked k₁ k₂) (h2 : Relinked k₂ k₃) :
    Relinked k₁ k₃ :=
  ⟨h2.globals.trans h1.globals, fun t => (h2.data t).trans (h1.data t),
    h2.timeoutLinks.trans h1.timeoutLinks, h2.gTimeoutQueue.trans h1.gTimeoutQueue⟩

theorem add_links (q : QueueRef) (t : TaskId) (k : Kernel) (ht : (k.queue q).tail ≠ some t) :
    (osTaskQueueAdd q t k).links = Dll.link k.links (k.queue q).tail none t := by
  unfold osTaskQueueAdd
  cases hl : (k.queue q).tail with
  | none =>
    ext y : 2 <;> simp only [Kernel.links, Dll.link, Kernel.setQueue_tcb, Kernel.setTcb_tcb] <;>
      split_ifs <;> simp_all
  | some l =>
    have hne : t ≠ l := fun hc => ht (by rw [hl, hc])
    ext y : 2 <;> simp only [Kernel.links, Dll.link, Kernel.setQueue_tcb, Kernel.setTcb_tcb] <;>
      split_ifs <;> simp_all

theorem add_ends (q : QueueRef) (t : TaskId) (k : Kernel) :
    (osTaskQueueAdd q t k).queue q = Dll.linkEnds (k.queue q) (k.queue q).tail none t := by
  unfold osTaskQueueAdd
  cases hl : (k.queue q).tail <;> simp [Dll.linkEnds, Kernel.setQueue_queue]

theorem add_queue_ne (t : TaskId) (k : Kernel) (h : q' ≠ q) :
    (osTaskQueueAdd q t k).queue q' = k.queue q' := by
  unfold osTaskQueueAdd
  cases hl : (k.queue q).tail <;> simp [Kernel.setQueue_queue, h]

theorem add_relinked (q : QueueRef) (t : TaskId) (k : Kernel) :
    Relinked k (osTaskQueueAdd q t k) := by
  have h := relinked_setTcb k t (f := fun c => { c with next := none, prev := (k.queue q).tail })
    fun _ => ⟨rfl, rfl, rfl⟩
  unfold osTaskQueueAdd
  cases hl : (k.queue q).tail with
  | none =>
    rw [hl] at h
    exact (h.trans (relinked_setQueue _ _ _)).trans (relinked_setQueue _ _ _)
  | some l =>
    rw [hl] at h
    refine (h.trans (relinked_setTcb _ l ?_)).trans (relinked_setQueue _ _ _)
    exact fun _ => ⟨rfl, rfl, rfl⟩

/-- `k'` is `k` with `t` linked into `q` between two neighbours. -/
structure Linked (q : QueueRef) (t : TaskId) (p n : Option TaskId) (k k' : Kernel) : Prop where
  relinked : Relinked k k'
  links : k'.links = Dll.link k.links p n t
  ends : k'.queue q = Dll.linkEnds (k.queue q) p n t
  queue_ne : ∀ q', q' ≠ q → k'.queue q' = k.queue q'

/-- A node of no queue is put between two neighbours of one. -/
theorem Queues.link (hs : Queues S L k) (hqS : q ∈ S) {l₁ l₂ : List TaskId} (hl : L q = l₁ ++ l₂)
    (ht : ∀ q' ∈ S, t ∉ L q') (hk : Linked q t l₁.getLast? l₂.head? k k') :
    Moved S L q (l₁ ++ t :: l₂) k k' := by
  have hr := hs.repr q hqS
  rw [hl] at hr
  refine hs.relink hqS hk.relinked ?_ hk.queue_ne ?_ ?_
  · rw [hk.links, hk.ends]
    exact hr.link (by rw [← hl]; exact ht q hqS)
  · intro q' hS hne y hy
    rw [hk.links]
    refine Dll.link_frame fun hc => hne ?_
    have hyt : y ≠ t := fun he => ht q' hS (he ▸ hy)
    have hy' : y ∈ L q := by
      rw [hl]
      simpa [hyt] using hc
    exact hs.disjoint q' hS q hqS y hy hy'
  · intro y hy
    by_cases hyt : y = t
    · exact .inr fun q' hS => hyt ▸ ht q' hS
    · left
      rw [hl]
      simpa [hyt] using hy

theorem add_linked (hs : Queues S L k) (hqS : q ∈ S) (ht : t ∉ L q) :
    Linked q t (L q).getLast? none k (osTaskQueueAdd q t k) := by
  have htail := (hs.repr q hqS).tail
  refine ⟨add_relinked q t k, ?_, ?_, fun q' hq => add_queue_ne t k hq⟩
  · rw [← htail]
    refine add_links q t k fun hc => ht ?_
    rw [htail] at hc
    exact List.mem_of_getLast? hc
  · rw [← htail]
    exact add_ends q t k

theorem Queues.add (hs : Queues S L k) (hqS : q ∈ S) (ht : ∀ q' ∈ S, t ∉ L q') :
    Moved S L q (L q ++ [t]) k (osTaskQueueAdd q t k) :=
  hs.link hqS (List.append_nil _).symm ht (add_linked hs hqS (ht q hqS))

theorem Sim.add (hs : Sim k a) (ht : ∀ q', t ∉ a.list q') :
    Sim (osTaskQueueAdd q t k) (a.add q t) :=
  hs.moved (g := (· ++ [t])) (hs.queues.add trivial fun q' _ => ht q')

/-- The first write of an insertion. -/
def freshLinks (t : TaskId) (k : Kernel) : Kernel :=
  k.setTcb t fun c => { c with next := none, prev := none }

theorem freshLinks_relinked (t : TaskId) (k : Kernel) : Relinked k (freshLinks t k) :=
  relinked_setTcb _ _ fun _ => ⟨rfl, rfl, rfl⟩

theorem linked_empty (q : QueueRef) (t : TaskId) (k : Kernel) :
    Linked q t none none k ((freshLinks t k).setQueue q fun _ => ⟨some t, some t⟩) := by
  refine ⟨(freshLinks_relinked t k).trans (relinked_setQueue _ _ _), ?_, ?_, fun q' hq => ?_⟩
  · ext y : 2 <;> simp only [freshLinks, Kernel.links, Dll.link, Kernel.setQueue_tcb,
      Kernel.setTcb_tcb] <;> split_ifs <;> simp_all
  · simp [Kernel.setQueue_queue, Dll.linkEnds]
  · simp [freshLinks, Kernel.setQueue_queue, hq]

theorem linked_tail (last : TaskId) (q : QueueRef) (k : Kernel) (hl : last ≠ t) :
    Linked q t (some last) none k
      ((((freshLinks t k).setTcb t fun c => { c with prev := some last }).setTcb last fun c =>
        { c with next := some t }).setQueue q fun e => { e with tail := some t }) := by
  refine ⟨?_, ?_, ?_, fun q' hq => ?_⟩
  · refine (((freshLinks_relinked t k).trans (relinked_setTcb _ t ?_)).trans
      (relinked_setTcb _ last ?_)).trans (relinked_setQueue _ _ _)
    all_goals exact fun _ => ⟨rfl, rfl, rfl⟩
  · ext y : 2 <;> simp only [freshLinks, Kernel.links, Dll.link, Kernel.setQueue_tcb,
      Kernel.setTcb_tcb] <;> split_ifs <;> simp_all
  · simp [freshLinks, Kernel.setQueue_queue, Dll.linkEnds]
  · simp [freshLinks, Kernel.setQueue_queue, hq]

theorem linked_before {i : TaskId} (q : QueueRef) (p : Option TaskId) (k : Kernel) (hi : i ≠ t)
    (hp : p ≠ some t) (hpi : p ≠ some i) :
    let k₁ := (freshLinks t k).setTcb t fun c => { c with next := some i, prev := p }
    Linked q t p (some i) k
      ((match p with
        | some p => k₁.setTcb p fun c => { c with next := some t }
        | none => k₁.setQueue q fun e => { e with head := some t }).setTcb i fun c =>
          { c with prev := some t }) := by
  intro k₁
  have h₁ : Relinked k k₁ :=
    (freshLinks_relinked t k).trans (relinked_setTcb _ t fun _ => ⟨rfl, rfl, rfl⟩)
  refine ⟨?_, ?_, ?_, fun q' hq => ?_⟩
  · refine (h₁.trans ?_).trans (relinked_setTcb _ i fun _ => ⟨rfl, rfl, rfl⟩)
    cases p with
    | none => exact relinked_setQueue _ _ _
    | some p => exact relinked_setTcb _ p fun _ => ⟨rfl, rfl, rfl⟩
  · cases p <;> ext y : 2 <;> simp only [k₁, freshLinks, Kernel.links, Dll.link,
      Kernel.setQueue_tcb, Kernel.setTcb_tcb] <;> split_ifs <;> simp_all
  · cases p <;> simp [k₁, freshLinks, Kernel.setQueue_queue, Dll.linkEnds]
  · cases p <;> simp [k₁, freshLinks, Kernel.setQueue_queue, hq]

/-- The insertion walk ends, and the task goes in front of the first less urgent one. -/
theorem insert_returns {l : List TaskId} (hr : Dll.Repr k.links (k.queue q) l) (ht : t ∉ l) :
    ∃ k', (osTaskQueueInsertByPriority q t k).Returns k' ∧
      Linked q t (l.takeWhile fun i => (k.tcb i).priority ≤ (k.tcb t).priority).getLast?
        (l.dropWhile fun i => (k.tcb i).priority ≤ (k.tcb t).priority).head? k k' := by
  set test : TaskId → Bool := fun i => (k.tcb i).priority ≤ (k.tcb t).priority with htest
  have h0 : ∀ u, u ≠ t → (freshLinks t k).tcb u = k.tcb u := fun u hu => by
    rw [freshLinks, Kernel.setTcb_tcb, if_neg hu]
  have hseg : Dll.Seg (freshLinks t k).links none l none := by
    refine hr.seg.congr (fun u hu => ?_) (fun u hu => ?_)
    · exact congrArg Tcb.next (h0 u fun hc => ht (hc ▸ hu))
    · exact congrArg Tcb.prev (h0 u fun hc => ht (hc ▸ hu))
  have hpri : ∀ u, ((freshLinks t k).tcb u).priority = (k.tcb u).priority := fun u =>
    congrArg TcbData.priority ((freshLinks_relinked t k).data u)
  have hwalk : (insertWalk (freshLinks t k) ((freshLinks t k).tcb t).priority l.head?).Returns
      (l.dropWhile test).head? := by
    have := Dll.walkWhile_returns test hseg
    simp only [insertWalk, hpri]
    exact this
  have happ := List.takeWhile_append_dropWhile (p := test) (l := l)
  have hhead : ((freshLinks t k).queue q).head = l.head? := hr.head
  have htail : ((freshLinks t k).queue q).tail = l.getLast? := hr.tail
  unfold osTaskQueueInsertByPriority
  rw [show (k.setTcb t fun c => { c with next := none, prev := none }) = freshLinks t k from rfl]
  simp only
  cases hl : l with
  | nil =>
    rw [hhead, hl]
    exact ⟨_, Comp.returns_pure.2 rfl, linked_empty q t k⟩
  | cons x l' =>
    rw [hhead, hl, List.head?_cons]
    rw [← hl]
    rw [hl, List.head?_cons, ← hl] at hwalk
    cases hd : l.dropWhile test with
    | nil =>
      rw [hd, List.head?_nil] at hwalk
      rw [hd, List.append_nil] at happ
      obtain ⟨last, hlast⟩ : ∃ last, l.getLast? = some last := by rw [hl]; simp [List.getLast?_cons]
      have hk := linked_tail (t := t) last q k fun hc =>
        ht (hc ▸ List.mem_of_getLast? hlast)
      rw [happ, hlast]
      refine ⟨_, Comp.returns_bind.2 ⟨none, hwalk, Comp.returns_bind.2 ⟨last, ?_, ?_⟩⟩, hk⟩
      · rw [Comp.returns_ofOption, htail, hlast]
      · exact Comp.returns_pure.2 rfl
    | cons i l₂ =>
      rw [hd, List.head?_cons] at hwalk
      rw [hd] at happ
      have hi : i ∈ l := by rw [← happ]; simp
      have hne : i ≠ t := fun hc => ht (hc ▸ hi)
      rw [← happ] at hr
      have hprev : ((freshLinks t k).tcb i).prev = (l.takeWhile test).getLast? := by
        rw [h0 i hne]
        exact hr.member.1
      have hmem : ∀ y, (l.takeWhile test).getLast? = some y → y ∈ l.takeWhile test := fun y hy =>
        List.mem_of_getLast? hy
      have hpt : (l.takeWhile test).getLast? ≠ some t := fun hc => ht (by
        rw [← happ]
        exact List.mem_append_left _ (hmem t hc))
      have hpi : (l.takeWhile test).getLast? ≠ some i := fun hc =>
        (List.nodup_append.1 hr.nodup).2.2 i (hmem i hc) i (by simp) rfl
      refine ⟨_, Comp.returns_bind.2 ⟨_, hwalk, Comp.returns_pure.2 rfl⟩, ?_⟩
      rw [List.head?_cons, hprev]
      exact linked_before q (l.takeWhile test).getLast? k hne hpt hpi

theorem Queues.insertByPriority (hs : Queues S L k) (hqS : q ∈ S) (ht : ∀ q' ∈ S, t ∉ L q') :
    ∃ k', (osTaskQueueInsertByPriority q t k).Returns k' ∧ Moved S L q
      (insertWhile (fun i => (k.tcb i).priority ≤ (k.tcb t).priority) t (L q)) k k' := by
  obtain ⟨k', hk', hl⟩ := insert_returns (hs.repr q hqS) (ht q hqS)
  exact ⟨k', hk', hs.link hqS List.takeWhile_append_dropWhile.symm ht hl⟩

theorem Sim.insertByPriority (hs : Sim k a) (ht : ∀ q', t ∉ a.list q') :
    ∃ k', (osTaskQueueInsertByPriority q t k).Returns k' ∧ Sim k' (a.insertByPriority q t) := by
  obtain ⟨k', hk', hm⟩ := hs.queues.insertByPriority (q := q) trivial fun q' _ => ht q'
  simp only [hs.priority] at hm
  exact ⟨k', hk', hs.moved hm⟩

/-- The writes of a rotation that happens: the head goes behind the last task. -/
def rotateLinks (q : QueueRef) (t second last : TaskId) (k : Kernel) : Kernel :=
  ((((k.setQueue q fun e => { e with head := some second }).setTcb second fun c =>
    { c with prev := none }).setTcb t fun c => { c with next := none, prev := some last }).setTcb
      last fun c => { c with next := some t }).setQueue q fun e => { e with tail := some t }

theorem rotateLinks_relinked (q : QueueRef) (t second last : TaskId) (k : Kernel) :
    Relinked k (rotateLinks q t second last k) := by
  refine ((((relinked_setQueue _ _ _).trans (relinked_setTcb _ second ?_)).trans
    (relinked_setTcb _ t ?_)).trans (relinked_setTcb _ last ?_)).trans (relinked_setQueue _ _ _)
  all_goals exact fun _ => ⟨rfl, rfl, rfl⟩

/-- A rotation is a removal and an insertion at the end. -/
theorem rotateLinks_links {second last : TaskId} (q : QueueRef) (hp : (k.tcb t).prev = none)
    (hn : (k.tcb t).next = some second) (h1 : second ≠ t) (h2 : last ≠ t) :
    (rotateLinks q t second last k).links =
      Dll.link (Dll.unlink k.links t) (some last) none t := by
  ext y : 2 <;> simp only [rotateLinks, Kernel.links, Dll.link, Dll.unlink, Kernel.setQueue_tcb,
    Kernel.setTcb_tcb, hp, hn] <;> split_ifs <;> simp_all

theorem rotateLinks_ends {second : TaskId} (q : QueueRef) (last : TaskId)
    (hp : (k.tcb t).prev = none) (hn : (k.tcb t).next = some second) :
    (rotateLinks q t second last k).queue q =
      Dll.linkEnds (Dll.unlinkEnds k.links (k.queue q) t) (some last) none t := by
  ext : 1
  · simp [rotateLinks, Kernel.setQueue_queue, Dll.linkEnds, Dll.unlinkEnds, Kernel.links, hp, hn]
  · simp [rotateLinks, Kernel.setQueue_queue, Dll.linkEnds]

theorem Queues.rotateLinks {second last : TaskId} {l : List TaskId} (hs : Queues S L k) (hqS : q ∈ S)
    (hl : L q = t :: (l ++ [last])) (hsec : (l ++ [last]).head? = some second) :
    Moved S L q ((L q).tail ++ [t]) k (rotateLinks q t second last k) := by
  have hr := hs.repr q hqS
  rw [hl] at hr
  obtain ⟨hp, hn⟩ := Dll.Repr.member (a := []) hr
  rw [hsec] at hn
  have hnd := List.nodup_cons.1 hr.nodup
  have h1 : second ≠ t := fun hc => hnd.1 (hc ▸ List.mem_of_mem_head? hsec)
  have h2 : last ≠ t := fun hc => hnd.1 (by simp [hc])
  have hlinks := rotateLinks_links (k := k) q hp hn h1 h2
  have hlast : (l ++ [last]).getLast? = some last := by simp
  have hg : (L q).tail ++ [t] = l ++ [last] ++ [t] := by rw [hl]; rfl
  refine hs.relink hqS (rotateLinks_relinked q t second last k) ?_ (fun q' hne => ?_) ?_ ?_
  · have hu : Dll.Repr _ _ (l ++ [last]) := Dll.Repr.unlink (a := []) hr
    have hlk := Dll.Repr.link (a := l ++ [last]) (b := []) (x := t)
      (by simpa only [List.append_nil] using hu) (by simpa only [List.append_nil] using hnd.1)
    rw [hlast] at hlk
    rw [hlinks, rotateLinks_ends q last hp hn, hg]
    exact hlk
  · simp [Rtos.rotateLinks, Kernel.setQueue_queue, hne]
  · intro q' hS hne y hy
    have hy' : y ∉ t :: (l ++ [last]) := fun hc => hne (hs.disjoint q' hS q hqS y hy (by rwa [hl]))
    have f1 := Dll.unlink_frame (a := []) hr hy'
    have f2 := Dll.link_frame (h := Dll.unlink k.links t) (a := l ++ [last]) (b := [])
      (x := t) (y := y) (by simpa [or_comm, or_assoc] using hy')
    rw [hlast] at f2
    rw [hlinks]
    exact ⟨f2.1.trans f1.1, f2.2.trans f1.2⟩
  · intro y hy
    left
    rw [hg] at hy
    rw [hl]
    simpa [or_comm, or_assoc] using hy

theorem Queues.refl (hs : Queues S L k) (q : QueueRef) : Moved S L q (L q) k k :=
  ⟨⟨rfl, fun _ => rfl, rfl, rfl⟩, by rwa [Function.update_eq_self], fun _ _ => rfl,
    fun _ _ _ _ _ => ⟨rfl, rfl⟩⟩

/-- The head of its ready queue goes to the end; for any other task nothing happens. -/
theorem Queues.rotate (hs : Queues S L k) (t : TaskId)
    (hqS : QueueRef.ready (k.tcb t).priority ∈ S) :
    ((L (.ready (k.tcb t).priority)).head? ≠ some t → (osReadyQueueRotate (some t) k).Returns k) ∧
    ((L (.ready (k.tcb t).priority)).head? = some t →
      ∃ k', (osReadyQueueRotate (some t) k).Returns k' ∧ Moved S L (.ready (k.tcb t).priority)
        ((L (.ready (k.tcb t).priority)).tail ++ [t]) k k') := by
  set q := QueueRef.ready (k.tcb t).priority with hq
  have hr := hs.repr q hqS
  refine ⟨fun hx => ?_, fun hx => ?_⟩
  · have hstay : (k.queue q).head ≠ some t ∨ (k.tcb t).next = none := .inl (by rwa [hr.head])
    simp only [osReadyQueueRotate, ← hq]
    rw [if_pos hstay, Comp.returns_pure]
  · obtain ⟨l, hl⟩ := List.head?_eq_some_iff.1 hx
    have hr' := hr
    rw [hl] at hr'
    have hn : (k.tcb t).next = l.head? := (Dll.Repr.member (a := []) hr').2
    rcases List.eq_nil_or_concat' l with rfl | ⟨l', last, rfl⟩
    · -- alone in its queue
      refine ⟨k, ?_, ?_⟩
      · simp only [osReadyQueueRotate, ← hq]
        rw [if_pos (.inr hn), Comp.returns_pure]
      · have hg : (L q).tail ++ [t] = L q := by rw [hl]; rfl
        rw [hg]
        exact hs.refl q
    · obtain ⟨second, hsec⟩ : ∃ s, (l' ++ [last]).head? = some s := by
        cases l' <;> simp
      have hnext : (k.tcb t).next = some second := hn.trans hsec
      refine ⟨Rtos.rotateLinks q t second last k, ?_, hs.rotateLinks hqS hl hsec⟩
      simp only [osReadyQueueRotate, ← hq]
      rw [if_neg (by rw [hr.head, hx, hnext]; simp), hnext]
      refine Comp.returns_bind.2 ⟨last, ?_, Comp.returns_pure.2 rfl⟩
      rw [Comp.returns_ofOption, hr.tail, hl]
      simp [List.getLast?_cons]

theorem Sim.rotate (hs : Sim k a) (tcb : Option TaskId) :
    ∃ k', (osReadyQueueRotate tcb k).Returns k' ∧ Sim k' (a.rotate tcb) := by
  cases tcb with
  | none => exact ⟨k, Comp.returns_pure.2 rfl, hs⟩
  | some t =>
    obtain ⟨hstay, hgo⟩ := hs.queues.rotate t trivial
    rw [hs.priority] at hstay hgo
    simp only [Model.rotate]
    split_ifs with hx
    · obtain ⟨k', hk', hm⟩ := hgo hx
      exact ⟨k', hk', hs.moved (g := fun l => l.tail ++ [t]) hm⟩
    · exact ⟨k, hstay hx, hs⟩

end Rtos
