import Rtos.Kernel.Writers

/-! Concurrent calls of `os_rtt_write`. The bracket around the loop masks nothing in a task, so
a switch may come between any two accesses. When no call stores while another one is under way,
the calls have the effect of some serial order: a call that has stored is owed the rest of its
effect, and one that finds the ring full has none. -/

namespace Rtos

open Lib

variable {ch ch' ch₀ : OsRttChannel} {c c' : Caller} {d : List Byte}

namespace OsRttChannel

def Full (ch : OsRttChannel) : Prop := ch.next ch.wrOff = ch.rdOff

end OsRttChannel

theorem osRttWrite_skip (h : d = [] ∨ ch.Full) : osRttWrite d ch = ch := by
  cases d with
  | nil => rfl
  | cons b d =>
    rcases h with h | h
    · cases h
    · exact if_pos h

theorem serialWrites_snoc (order : List (List Byte)) :
    serialWrites ch (order ++ [d]) = osRttWrite d (serialWrites ch order) := by
  simp [serialWrites]

theorem serialWrites_skip {order : List (List Byte)} (h : ∀ d ∈ order, d = [] ∨ ch.Full) :
    serialWrites ch order = ch := by
  induction order with
  | nil => rfl
  | cons d order ih =>
    rw [serialWrites, List.foldl_cons, osRttWrite_skip (h d (by simp))]
    exact ih fun x hx => h x (by simp [hx])

namespace Caller

def data : Caller → List Byte
  | .save d => d
  | .loop d _ _ => d
  | _ => []

/-- Between its first read of `wr_off` and the test that ends its loop. -/
def Busy : Caller → Prop
  | .loop d _ (.test i) => 0 < i ∧ i < d.length
  | .loop _ _ (.done _) => False
  | .loop _ _ _ => True
  | _ => False

/-- About to store a byte or `wr_off`. -/
def Stores : Caller → Prop
  | .loop _ _ (.store _ _ _) => True
  | .loop _ _ (.publish _ _) => True
  | _ => False

/-- The call may still have an effect. -/
def Pending : Caller → Prop
  | .save _ => True
  | .loop d _ (.test i) => i = 0 ∨ i < d.length
  | .loop _ _ (.done _) => False
  | .loop _ _ _ => True
  | _ => False

/-- It has had some of it. -/
def Active : Caller → Prop
  | .loop d _ (.test i) => 0 < i ∧ i < d.length
  | .loop _ _ (.full i _) => 0 < i
  | .loop _ _ (.index i _) => 0 < i
  | .loop _ _ (.store i _ _) => 0 < i
  | .loop _ _ (.publish _ _) => True
  | _ => False

/-- What the call knows of the channel. -/
def Ok (ch : OsRttChannel) : Caller → Prop
  | .loop d _ (.test i) => i ≤ d.length
  | .loop d _ (.full i next) => i < d.length ∧ next = ch.next ch.wrOff
  | .loop d _ (.index i next) => i < d.length ∧ next = ch.next ch.wrOff ∧ next ≠ ch.rdOff
  | .loop d _ (.store i next idx) =>
      i < d.length ∧ next = ch.next ch.wrOff ∧ next ≠ ch.rdOff ∧ idx = ch.wrOff
  | .loop d _ (.publish i next) => i < d.length ∧ next = ch.next ch.wrOff ∧ next ≠ ch.rdOff
  | .loop _ _ (.done _) => False
  | _ => True

/-- The channel once the call has returned, if nothing comes in between. -/
def rest (ch : OsRttChannel) : Caller → OsRttChannel
  | .save d => osRttWrite d ch
  | .loop d _ (.test i) => osRttWrite (d.drop i) ch
  | .loop d _ (.full i _) => osRttWrite (d.drop i) ch
  | .loop d _ (.index i _) => osRttWrite (d.drop i) ch
  | .loop d _ (.store i _ _) => osRttWrite (d.drop i) ch
  | .loop d _ (.publish i next) => osRttWrite (d.drop (i + 1)) { ch with wrOff := next }
  | _ => ch

/-- Everything one step of a call can do. -/
inductive Moved (ch : OsRttChannel) : Caller → OsRttChannel → Caller → Prop
  | save {d : List Byte} {m : Bool} : Moved ch (.save d) ch (.loop d m (.test 0))
  | more {d : List Byte} {m : Bool} {i : ℕ} : i < d.length →
      Moved ch (.loop d m (.test i)) ch (.loop d m (.full i (ch.next ch.wrOff)))
  | last {d : List Byte} {m : Bool} {i : ℕ} : ¬ i < d.length →
      Moved ch (.loop d m (.test i)) ch (.restore m)
  | refused {d : List Byte} {m : Bool} {i : ℕ} {next : Word} : next = ch.rdOff →
      Moved ch (.loop d m (.full i next)) ch (.restore m)
  | room {d : List Byte} {m : Bool} {i : ℕ} {next : Word} : next ≠ ch.rdOff →
      Moved ch (.loop d m (.full i next)) ch (.loop d m (.index i next))
  | index {d : List Byte} {m : Bool} {i : ℕ} {next : Word} :
      Moved ch (.loop d m (.index i next)) ch (.loop d m (.store i next ch.wrOff))
  | store {d : List Byte} {m : Bool} {i : ℕ} {next idx : Word} :
      Moved ch (.loop d m (.store i next idx))
        { ch with buffer := Function.update ch.buffer idx (d.getD i 0) } (.loop d m (.publish i next))
  | publish {d : List Byte} {m : Bool} {i : ℕ} {next : Word} :
      Moved ch (.loop d m (.publish i next)) { ch with wrOff := next } (.loop d m (.test (i + 1)))
  | restore {m : Bool} : Moved ch (.restore m) ch .idle

theorem Active.pending (h : c.Active) : c.Pending := by
  cases c with
  | loop d m pc =>
    cases pc with
    | test i => exact .inr h.2
    | done i => exact h
    | _ => trivial
  | _ => exact h.elim

theorem Active.busy (h : c.Active) : c.Busy := by
  cases c with
  | loop d m pc =>
    cases pc with
    | test i => exact h
    | done i => exact h
    | _ => trivial
  | _ => exact h.elim

theorem rest_idle (h : ¬ c.Pending) : c.rest ch = ch := by
  cases c with
  | loop d m pc =>
    cases pc with
    | test i =>
      have hi : d.length ≤ i := by
        simp only [Pending, not_or] at h
        omega
      simp only [rest, List.drop_eq_nil_of_le hi]
      rfl
    | done i => rfl
    | _ => exact absurd trivial h
  | save d => exact absurd trivial h
  | _ => rfl

theorem rest_fresh (h : c.Pending) (ha : ¬ c.Active) : c.rest ch = osRttWrite c.data ch := by
  cases c with
  | loop d m pc =>
    have hzero : ∀ i, ¬ 0 < i → d.drop i = d := fun i hi => by
      rw [Nat.eq_zero_of_not_pos hi, List.drop_zero]
    cases pc with
    | test i =>
      rcases h with rfl | h
      · rfl
      · simp only [rest, data, hzero i fun hi => ha ⟨hi, h⟩]
    | full i next => simp only [rest, data, hzero i ha]
    | index i next => simp only [rest, data, hzero i ha]
    | store i next idx => simp only [rest, data, hzero i ha]
    | publish i next => exact absurd trivial ha
    | done i => exact h.elim
  | save d => rfl
  | _ => exact h.elim

/-- A call that is not busy knows nothing that a store could change. -/
theorem Ok.of_idle (h : c.Ok ch) (hb : ¬ c.Busy) : c.Ok ch' := by
  cases c with
  | loop d m pc =>
    cases pc with
    | test i => exact h
    | done i => exact h
    | _ => exact absurd trivial hb
  | _ => trivial

namespace Moved

variable (hm : Moved ch c ch' c')
include hm

theorem ok (h : c.Ok ch) : c'.Ok ch' := by
  cases hm with
  | save => exact Nat.zero_le _
  | more hi => exact ⟨hi, rfl⟩
  | room hne => exact ⟨h.1, h.2, hne⟩
  | index => exact ⟨h.1, h.2.1, h.2.2, rfl⟩
  | store => exact ⟨h.1, h.2.1, h.2.2.1⟩
  | publish => exact h.1
  | _ => trivial

theorem rest_eq (h : c.Ok ch) : c'.rest ch' = c.rest ch := by
  cases hm with
  | @last d m i hi => simp only [rest, List.drop_eq_nil_of_le (Nat.le_of_not_lt hi), osRttWrite]
  | @refused d m i next hf =>
    have hfull : ch.next ch.wrOff = ch.rdOff := h.2.symm.trans hf
    exact (osRttWrite_skip (.inr hfull)).symm
  | @store d m i next idx =>
    obtain ⟨hi, hn, hne, rfl⟩ := h
    subst hn
    have hb : d.getD i 0 = d[i] := by
      rw [List.getD_eq_getElem?_getD, List.getElem?_eq_getElem hi, Option.getD_some]
    simp only [rest, List.drop_eq_getElem_cons hi, osRttWrite, if_neg hne, hb]
  | _ => rfl

theorem data_eq (hp : c'.Pending) : c'.data = c.data := by
  cases hm with
  | last => exact hp.elim
  | refused => exact hp.elim
  | restore => exact hp.elim
  | _ => rfl

theorem pending (hp : c'.Pending) : c.Pending := by
  cases hm with
  | more hi => exact .inr hi
  | last => exact hp.elim
  | refused => exact hp.elim
  | restore => exact hp
  | _ => trivial

theorem active (ha : c.Active) (hp : c'.Pending) : c'.Active := by
  cases hm with
  | save => exact ha.elim
  | more hi => exact ha.1
  | last => exact hp.elim
  | refused => exact hp.elim
  | room => exact ha
  | index => exact ha
  | store => trivial
  | @publish d m i next =>
    refine ⟨Nat.succ_pos i, ?_⟩
    rcases hp with hp | hp
    · cases hp
    · exact hp
  | restore => exact hp.elim

theorem quiet (hs : ¬ c.Stores) : ch' = ch ∧ (c'.Active → c.Active) := by
  cases hm with
  | store => exact absurd trivial hs
  | publish => exact absurd trivial hs
  | save => exact ⟨rfl, fun ha => absurd ha.1 (Nat.lt_irrefl 0)⟩
  | more hi => exact ⟨rfl, fun ha => ⟨ha, hi⟩⟩
  | last => exact ⟨rfl, False.elim⟩
  | refused => exact ⟨rfl, False.elim⟩
  | _ => exact ⟨rfl, id⟩

/-- A call that ends before it has stored anything had nothing to store or found no room. -/
theorem skips (h : c.Ok ch) (hp : c.Pending) (ha : ¬ c.Active) (hp' : ¬ c'.Pending) :
    ¬ c.Stores ∧ (c.data = [] ∨ ch.Full) := by
  cases hm with
  | save => exact absurd (.inl rfl) hp'
  | @last d m i hi =>
    refine ⟨nofun, .inl (List.eq_nil_of_length_eq_zero ?_)⟩
    rcases hp with rfl | hp
    · exact Nat.eq_zero_of_not_pos hi
    · exact absurd hp hi
  | refused hf => exact ⟨nofun, .inr (h.2.symm.trans hf)⟩
  | publish => exact absurd trivial ha
  | restore => exact hp.elim
  | _ => exact absurd trivial hp'

theorem stores_active (hs : c.Stores) : c.Pending ∧ (c.Active ∨ c'.Active) := by
  cases hm with
  | store => exact ⟨trivial, .inr trivial⟩
  | publish => exact ⟨trivial, .inl trivial⟩
  | _ => exact hs.elim

omit hm in
theorem not_full (h : c.Ok ch) (hs : c.Stores) : ¬ ch.Full := by
  cases c with
  | loop d m pc =>
    cases pc with
    | store i next idx => exact fun hf => h.2.2.1 (h.2.1.trans hf)
    | publish i next => exact fun hf => h.2.2 (h.2.1.trans hf)
    | _ => exact hs.elim
  | _ => exact hs.elim

end Moved

end Caller

open Caller (Moved)

variable {s : Writers} {t : TaskId} {calls pre post : List (List Byte)} {pending : List TaskId}

/-- `s'` after the running task's call has moved to `c'` and left the channel as `ch'`. -/
structure Writers.Accessed (s : Writers) (ch' : OsRttChannel) (c' : Caller) (s' : Writers) : Prop where
  moved : Moved s.ch (s.caller s.running) ch' c'
  ch : s'.ch = ch'
  self : s'.caller s.running = c'
  other : ∀ t, t ≠ s.running → s'.caller t = s.caller t

theorem Writers.accessed (h : s.caller s.running ≠ .idle) (hok : (s.caller s.running).Ok s.ch) :
    ∃ ch' c', s.Accessed ch' c' s.access := by
  have hset : ∀ (ch' : OsRttChannel) (core : Core) (c' : Caller),
      Moved s.ch (s.caller s.running) ch' c' →
      s.Accessed ch' c' (({ s with ch := ch', core := core } : Writers).setCaller c') :=
    fun ch' core c' hm => ⟨hm, rfl, Function.update_self _ _ _, fun t ht => Function.update_of_ne ht _ _⟩
  unfold Writers.access
  cases hc : s.caller s.running with
  | idle => exact absurd hc h
  | save d => exact ⟨_, _, hset s.ch _ _ (hc ▸ .save)⟩
  | restore m => exact ⟨_, _, hset s.ch _ _ (hc ▸ .restore)⟩
  | loop d m pc =>
    rw [hc] at hok
    cases pc with
    | test i =>
      by_cases hi : i < d.length
      · simp only [writerStep, if_pos hi]
        exact ⟨_, _, hset s.ch s.core _ (hc ▸ .more hi)⟩
      · simp only [writerStep, if_neg hi]
        exact ⟨_, _, hset s.ch s.core _ (hc ▸ .last hi)⟩
    | full i next =>
      by_cases hf : next = s.ch.rdOff
      · simp only [writerStep, if_pos hf]
        exact ⟨_, _, hset s.ch s.core _ (hc ▸ .refused hf)⟩
      · simp only [writerStep, if_neg hf]
        exact ⟨_, _, hset s.ch s.core _ (hc ▸ .room hf)⟩
    | index i next => exact ⟨_, _, hset s.ch s.core _ (hc ▸ .index)⟩
    | store i next idx => exact ⟨_, _, hset _ s.core _ (hc ▸ .store)⟩
    | publish i next => exact ⟨_, _, hset _ s.core _ (hc ▸ .publish)⟩
    | done i => exact hok.elim

/-- The calls made so far: those of `pre` have had their effect in this order; those of `post`
ended without one while another was under way; those of `pending` may still have one. -/
structure Serial (ch₀ : OsRttChannel) (calls : List (List Byte)) (s : Writers)
    (pre post : List (List Byte)) (pending : List TaskId) : Prop where
  ok : ∀ t, (s.caller t).Ok s.ch
  single : ∀ t u, (s.caller t).Active → (s.caller u).Active → t = u
  nodup : pending.Nodup
  mem : ∀ t, t ∈ pending ↔ (s.caller t).Pending
  perm : (pre ++ post ++ pending.map fun t => (s.caller t).data).Perm calls
  skipped : ∀ d ∈ post, d = [] ∨ s.ch.Full
  quiet : (∀ t, ¬ (s.caller t).Active) → post = [] ∧ s.ch = serialWrites ch₀ pre
  owes : ∀ t, (s.caller t).Active →
    (s.caller t).rest s.ch = serialWrites ch₀ (pre ++ [(s.caller t).data])

/-- No call stores while another one is under way. -/
def Writers.Alone (s : Writers) : Prop :=
  (s.caller s.running).Stores → ∀ t, t ≠ s.running → ¬ (s.caller t).Busy

/-- While another call is active, the running one leaves the channel alone. -/
theorem Writers.Accessed.other_active {s' : Writers} (hs : s.Accessed ch' c' s') (ha : s.Alone)
    (ht : t ≠ s.running) (hact : (s.caller t).Active) :
    ¬ (s.caller s.running).Stores ∧ ch' = s.ch := by
  have hst : ¬ (s.caller s.running).Stores := fun hst => ha hst t ht hact.busy
  exact ⟨hst, (hs.moved.quiet hst).1⟩

namespace Serial

section access

variable {s' : Writers} (h : Serial ch₀ calls s pre post pending) (hs : s.Accessed ch' c' s')
  (ha : s.Alone)
include h hs ha

theorem ok_access (t : TaskId) : (s'.caller t).Ok s'.ch := by
  rw [hs.ch]
  by_cases ht : t = s.running
  · rw [ht, hs.self]
    exact hs.moved.ok (h.ok _)
  · rw [hs.other t ht]
    by_cases hst : (s.caller s.running).Stores
    · exact (h.ok t).of_idle (ha hst t ht)
    · rw [(hs.moved.quiet hst).1]
      exact h.ok t

theorem alone_active (hact : c'.Active) {t : TaskId} (ht : t ≠ s.running) : ¬ (s.caller t).Active := by
  intro hu
  have hc := (hs.moved.quiet (hs.other_active ha ht hu).1).2 hact
  exact ht (h.single t _ hu hc)

theorem single_access (t u : TaskId) (ht : (s'.caller t).Active) (hu : (s'.caller u).Active) :
    t = u := by
  by_cases htr : t = s.running
  · by_cases hur : u = s.running
    · rw [htr, hur]
    · rw [htr, hs.self] at ht
      rw [hs.other u hur] at hu
      exact absurd hu (h.alone_active hs ha ht hur)
  · rw [hs.other t htr] at ht
    by_cases hur : u = s.running
    · rw [hur, hs.self] at hu
      exact absurd ht (h.alone_active hs ha hu htr)
    · rw [hs.other u hur] at hu
      exact h.single t u ht hu

theorem keep (hp : c'.Pending) : Serial ch₀ calls s' pre post pending := by
  have hpc := hs.moved.pending hp
  refine ⟨h.ok_access hs ha, h.single_access hs ha, h.nodup, fun t => ?_, ?_, fun d hd => ?_,
    fun hq => ?_, fun t hact => ?_⟩
  · rw [h.mem]
    by_cases ht : t = s.running
    · rw [ht, hs.self]
      exact iff_of_true hpc hp
    · rw [hs.other t ht]
  · have hdata : (pending.map fun t => (s'.caller t).data) = pending.map fun t => (s.caller t).data := by
      refine List.map_congr_left fun t _ => ?_
      by_cases ht : t = s.running
      · rw [ht, hs.self]
        exact hs.moved.data_eq hp
      · rw [hs.other t ht]
    rw [hdata]
    exact h.perm
  · by_cases hst : (s.caller s.running).Stores
    · exact .inl ((h.skipped d hd).resolve_right (Moved.not_full (h.ok _) hst))
    · rw [hs.ch, (hs.moved.quiet hst).1]
      exact h.skipped d hd
  · have hc' : ¬ c'.Active := hs.self ▸ hq s.running
    have hc : ¬ (s.caller s.running).Active := fun hc => hc' (hs.moved.active hc hp)
    have hst : ¬ (s.caller s.running).Stores := fun hst =>
      (hs.moved.stores_active hst).2.elim hc hc'
    rw [hs.ch, (hs.moved.quiet hst).1]
    refine h.quiet fun t hact => ?_
    by_cases ht : t = s.running
    · exact hc (ht ▸ hact)
    · exact hq t (by rwa [hs.other t ht])
  · by_cases ht : t = s.running
    · rw [ht, hs.self] at hact ⊢
      rw [hs.ch, hs.moved.rest_eq (h.ok _), hs.moved.data_eq hp]
      by_cases hc : (s.caller s.running).Active
      · exact h.owes _ hc
      · rw [Caller.rest_fresh hpc hc, serialWrites_snoc]
        have hnone : ∀ u, ¬ (s.caller u).Active := fun u hu => by
          by_cases hur : u = s.running
          · exact hc (hur ▸ hu)
          · exact h.alone_active hs ha hact hur hu
        rw [← (h.quiet hnone).2]
    · rw [hs.other t ht] at hact ⊢
      rw [hs.ch, (hs.other_active ha ht hact).2]
      exact h.owes t hact

omit ha in
theorem mem_erase (hp : ¬ c'.Pending) (t : TaskId) :
    t ∈ pending.erase s.running ↔ (s'.caller t).Pending := by
  rw [h.nodup.mem_erase_iff, h.mem]
  by_cases ht : t = s.running
  · rw [ht, hs.self]
    exact iff_of_false (fun hf => hf.1 rfl) hp
  · rw [hs.other t ht]
    exact ⟨fun hf => hf.2, fun hf => ⟨ht, hf⟩⟩

omit ha in
theorem perm_erase (hpc : (s.caller s.running).Pending) :
    (pre ++ post ++ (s.caller s.running).data ::
      (pending.erase s.running).map fun t => (s'.caller t).data).Perm calls := by
  have hdata : ((pending.erase s.running).map fun t => (s'.caller t).data) =
      (pending.erase s.running).map fun t => (s.caller t).data := by
    refine List.map_congr_left fun t ht => ?_
    rw [hs.other t (h.nodup.mem_erase_iff.1 ht).1]
  have hperm := (List.perm_cons_erase ((h.mem _).2 hpc)).map fun t => (s.caller t).data
  rw [hdata]
  exact ((hperm.symm).append_left _).trans h.perm

/-- The active call ends: what it was owed has come, and those that were skipped come after it. -/
theorem finish (hp : ¬ c'.Pending) (hc : (s.caller s.running).Active) :
    Serial ch₀ calls s' (pre ++ [(s.caller s.running).data] ++ post) [] (pending.erase s.running) := by
  have hch : ch' = serialWrites ch₀ (pre ++ [(s.caller s.running).data]) := by
    rw [← h.owes _ hc, ← hs.moved.rest_eq (h.ok _), Caller.rest_idle hp]
  have hskip : ∀ d ∈ post, d = [] ∨ ch'.Full := fun d hd => by
    by_cases hst : (s.caller s.running).Stores
    · exact .inl ((h.skipped d hd).resolve_right (Moved.not_full (h.ok _) hst))
    · rw [(hs.moved.quiet hst).1]
      exact h.skipped d hd
  have hnone : ∀ t, ¬ (s'.caller t).Active := fun t hact => by
    by_cases ht : t = s.running
    · rw [ht, hs.self] at hact
      exact hp hact.pending
    · rw [hs.other t ht] at hact
      exact ht (h.single t _ hact hc)
  refine ⟨h.ok_access hs ha, h.single_access hs ha, h.nodup.erase _, h.mem_erase hs hp, ?_, nofun,
    fun _ => ⟨rfl, ?_⟩, fun t hact => absurd hact (hnone t)⟩
  · have := h.perm_erase hs hc.pending
    refine List.Perm.trans ?_ this
    rw [List.append_nil, List.append_assoc, List.append_assoc, List.append_assoc, List.singleton_append]
    exact List.perm_middle.symm.append_left pre
  · rw [hs.ch, serialWrites, List.foldl_append, ← serialWrites, ← serialWrites, ← hch,
      serialWrites_skip hskip]

/-- A call that has stored nothing ends: it is skipped. -/
theorem skip (hp : ¬ c'.Pending) (hpc : (s.caller s.running).Pending)
    (hc : ¬ (s.caller s.running).Active) : ∃ pre post pending, Serial ch₀ calls s' pre post pending := by
  obtain ⟨hst, hd⟩ := hs.moved.skips (h.ok _) hpc hc hp
  have hch : s'.ch = s.ch := hs.ch.trans (hs.moved.quiet hst).1
  have hact : ∀ t, (s'.caller t).Active ↔ (s.caller t).Active := fun t => by
    by_cases ht : t = s.running
    · rw [ht, hs.self]
      exact iff_of_false (fun hf => hp hf.pending) hc
    · rw [hs.other t ht]
  have hperm := h.perm_erase hs hpc
  by_cases hex : ∃ t, (s.caller t).Active
  · refine ⟨pre, post ++ [(s.caller s.running).data], pending.erase s.running, h.ok_access hs ha,
      h.single_access hs ha, h.nodup.erase _, h.mem_erase hs hp, ?_, fun d hd' => ?_, fun hq => ?_,
      fun t ht => ?_⟩
    · rw [← List.append_assoc, List.append_assoc]
      exact hperm
    · rw [hch]
      rcases List.mem_append.1 hd' with hd' | hd'
      · exact h.skipped d hd'
      · obtain rfl := List.mem_singleton.1 hd'
        exact hd
    · obtain ⟨t, ht⟩ := hex
      exact absurd ((hact t).2 ht) (hq t)
    · rw [hact] at ht
      have hne : t ≠ s.running := fun he => hc (he ▸ ht)
      rw [hs.other t hne, hch]
      exact h.owes t ht
  · have hnone : ∀ t, ¬ (s.caller t).Active := fun t ht => hex ⟨t, ht⟩
    obtain ⟨hpost, hserial⟩ := h.quiet hnone
    subst hpost
    refine ⟨pre ++ [(s.caller s.running).data], [], pending.erase s.running, h.ok_access hs ha,
      h.single_access hs ha, h.nodup.erase _, h.mem_erase hs hp, ?_, nofun, fun _ => ⟨rfl, ?_⟩,
      fun t ht => absurd ((hact t).1 ht) (hnone t)⟩
    · rw [List.append_nil, List.append_assoc]
      rwa [List.append_nil] at hperm
    · rw [hch, serialWrites_snoc, ← hserial, osRttWrite_skip hd]

/-- A call whose effect is complete moves on. -/
theorem after (hpc : ¬ (s.caller s.running).Pending) : Serial ch₀ calls s' pre post pending := by
  have hp : ¬ c'.Pending := fun hp => hpc (hs.moved.pending hp)
  have hst : ¬ (s.caller s.running).Stores := fun hst => hpc (hs.moved.stores_active hst).1
  have hch : s'.ch = s.ch := hs.ch.trans (hs.moved.quiet hst).1
  have hact : ∀ t, (s'.caller t).Active ↔ (s.caller t).Active := fun t => by
    by_cases ht : t = s.running
    · rw [ht, hs.self]
      exact iff_of_false (fun hf => hp hf.pending) fun hf => hpc hf.pending
    · rw [hs.other t ht]
  have hnot : s.running ∉ pending := fun hm => hpc ((h.mem _).1 hm)
  refine ⟨h.ok_access hs ha, h.single_access hs ha, h.nodup, fun t => ?_, ?_, ?_, fun hq => ?_,
    fun t ht => ?_⟩
  · rw [h.mem]
    by_cases ht : t = s.running
    · rw [ht, hs.self]
      exact iff_of_false hpc hp
    · rw [hs.other t ht]
  · have hdata : (pending.map fun t => (s'.caller t).data) = pending.map fun t => (s.caller t).data := by
      refine List.map_congr_left fun t ht => ?_
      rw [hs.other t fun he => hnot (he ▸ ht)]
    rw [hdata]
    exact h.perm
  · rw [hch]
    exact h.skipped
  · rw [hch]
    exact h.quiet fun t ht => hq t ((hact t).2 ht)
  · rw [hact] at ht
    have hne : t ≠ s.running := fun he => hpc (he ▸ ht).pending
    rw [hs.other t hne, hch]
    exact h.owes t ht

theorem access : ∃ pre post pending, Serial ch₀ calls s' pre post pending := by
  by_cases hpc : (s.caller s.running).Pending
  · by_cases hp : c'.Pending
    · exact ⟨_, _, _, h.keep hs ha hp⟩
    · by_cases hc : (s.caller s.running).Active
      · exact ⟨_, _, _, h.finish hs ha hp hc⟩
      · exact h.skip hs ha hp hpc hc
  · exact ⟨_, _, _, h.after hs ha hpc⟩

end access

variable (h : Serial ch₀ calls s pre post pending)
include h

theorem call (hi : s.caller s.running = .idle) (d : List Byte) :
    Serial ch₀ (calls ++ [d]) (s.setCaller (.save d)) pre post (pending ++ [s.running]) := by
  have hself : (s.setCaller (.save d)).caller s.running = .save d := Function.update_self _ _ _
  have hne : ∀ t, t ≠ s.running → (s.setCaller (.save d)).caller t = s.caller t := fun t ht =>
    Function.update_of_ne ht _ _
  have hact : ∀ t, ((s.setCaller (.save d)).caller t).Active ↔ (s.caller t).Active := fun t => by
    by_cases ht : t = s.running
    · rw [ht, hself, hi]
      exact Iff.rfl
    · rw [hne t ht]
  have hnot : s.running ∉ pending := fun hm => by
    have := (h.mem _).1 hm
    rw [hi] at this
    exact this
  refine ⟨fun t => ?_, fun t u ht hu => h.single t u ((hact t).1 ht) ((hact u).1 hu), ?_, fun t => ?_, ?_,
    h.skipped, fun hq => h.quiet fun t ht => hq t ((hact t).2 ht), fun t ht => ?_⟩
  · by_cases ht : t = s.running
    · rw [ht, hself]
      trivial
    · rw [hne t ht]
      exact h.ok t
  · refine List.nodup_append.2 ⟨h.nodup, List.nodup_singleton _, fun x hx y hy he => ?_⟩
    obtain rfl := List.mem_singleton.1 hy
    exact hnot (he ▸ hx)
  · rw [List.mem_append, List.mem_singleton, h.mem]
    by_cases ht : t = s.running
    · rw [ht, hself]
      exact iff_of_true (.inr rfl) trivial
    · rw [hne t ht]
      exact or_iff_left ht
  · have hdata : (pending.map fun t => ((s.setCaller (.save d)).caller t).data) =
        pending.map fun t => (s.caller t).data := by
      refine List.map_congr_left fun t ht => ?_
      rw [hne t fun he => hnot (he ▸ ht)]
    rw [List.map_append, hdata, ← List.append_assoc, List.map_singleton, hself]
    exact h.perm.append_right [d]
  · rw [hact] at ht
    have hr : t ≠ s.running := fun he => by
      rw [he, hi] at ht
      exact ht
    rw [hne t hr]
    exact h.owes t ht

end Serial

variable {tr : List (Writers × WritersAct)}

theorem writers_serial (h : Writers.Run ch₀ tr s) (ha : ∀ x ∈ tr, x.2 = .access → x.1.Alone) :
    ∃ pre post pending, Serial ch₀ (writeCalls tr) s pre post pending := by
  induction h with
  | start t =>
    exact ⟨[], [], [], fun _ => trivial, fun _ _ hf => hf.elim, List.nodup_nil,
      fun _ => iff_of_false List.not_mem_nil id, List.Perm.refl _, nofun, fun _ => ⟨rfl, rfl⟩,
      fun _ hf => hf.elim⟩
  | @snoc tr s s' x _ hx ih =>
    obtain ⟨pre, post, pending, h⟩ := ih fun y hy => ha y (by simp [hy])
    cases hx with
    | call data hi =>
      have hcalls : writeCalls (tr ++ [(s, .call data)]) = writeCalls tr ++ [data] := by
        simp [writeCalls]
      rw [hcalls]
      exact ⟨_, _, _, h.call hi data⟩
    | access hi =>
      have hcalls : writeCalls (tr ++ [(s, .access)]) = writeCalls tr := by simp [writeCalls]
      obtain ⟨ch', c', hs⟩ := Writers.accessed hi (h.ok _)
      rw [hcalls]
      exact h.access hs (ha (s, .access) (by simp) rfl)
    | switch t hp =>
      have hcalls : writeCalls (tr ++ [(s, .switch t)]) = writeCalls tr := by simp [writeCalls]
      rw [hcalls]
      exact ⟨pre, post, pending, h.ok, h.single, h.nodup, h.mem, h.perm, h.skipped, h.quiet, h.owes⟩

/-- The channel is as some serial order of the calls leaves it. -/
def Serialised (ch₀ : OsRttChannel) (tr : List (Writers × WritersAct)) (s : Writers) : Prop :=
  ∃ order, order.Perm (writeCalls tr) ∧ s.ch.wrOff = (serialWrites ch₀ order).wrOff ∧
    s.ch.contents = (serialWrites ch₀ order).contents

theorem writers_serialised (h : Writers.Run ch₀ tr s) (ha : ∀ x ∈ tr, x.2 = .access → x.1.Alone)
    (hidle : ∀ t, s.caller t = .idle) : Serialised ch₀ tr s := by
  obtain ⟨pre, post, pending, hs⟩ := writers_serial h ha
  obtain ⟨rfl, hch⟩ := hs.quiet fun t ht => by
    rw [hidle t] at ht
    exact ht
  have hnil : pending = [] := List.eq_nil_iff_forall_not_mem.2 fun t ht => by
    have := (hs.mem t).1 ht
    rw [hidle t] at this
    exact this
  have hperm := hs.perm
  rw [hnil, List.append_nil, List.map_nil, List.append_nil] at hperm
  exact ⟨pre, hperm, by rw [hch], by rw [hch]⟩

/-- A task that never runs is in no call. -/
theorem Writers.Run.untouched (h : Writers.Run ch₀ tr s) (ht : ∀ x ∈ tr, x.1.running ≠ t) :
    s.caller t = .idle ∧ ∀ x ∈ tr, x.1.caller t = .idle := by
  induction h with
  | start u => exact ⟨rfl, nofun⟩
  | @snoc tr s s' x _ hx ih =>
    obtain ⟨hs, htr⟩ := ih fun y hy => ht y (by simp [hy])
    have hne : t ≠ s.running := (ht (s, x) (by simp)).symm
    refine ⟨?_, fun y hy => ?_⟩
    · cases hx with
      | call data hi => exact (Function.update_of_ne hne _ _).trans hs
      | switch u hp => exact hs
      | access hi =>
        unfold Writers.access
        split
        · exact hs
        · exact (Function.update_of_ne hne _ _).trans hs
        · split <;> exact (Function.update_of_ne hne _ _).trans hs
        · exact (Function.update_of_ne hne _ _).trans hs
    · rcases List.mem_append.1 hy with hy | hy
      · exact htr y hy
      · obtain rfl := List.mem_singleton.1 hy
        exact hs

instance : DecidablePred Caller.Busy
  | .loop d _ (.test i) => inferInstanceAs (Decidable (0 < i ∧ i < d.length))
  | .loop _ _ (.full _ _) => isTrue trivial
  | .loop _ _ (.index _ _) => isTrue trivial
  | .loop _ _ (.store _ _ _) => isTrue trivial
  | .loop _ _ (.publish _ _) => isTrue trivial
  | .loop _ _ (.done _) => isFalse id
  | .idle => isFalse id
  | .save _ => isFalse id
  | .restore _ => isFalse id

instance : DecidablePred Caller.Stores
  | .loop _ _ (.store _ _ _) => isTrue trivial
  | .loop _ _ (.publish _ _) => isTrue trivial
  | .loop _ _ (.test _) => isFalse id
  | .loop _ _ (.full _ _) => isFalse id
  | .loop _ _ (.index _ _) => isFalse id
  | .loop _ _ (.done _) => isFalse id
  | .idle => isFalse id
  | .save _ => isFalse id
  | .restore _ => isFalse id

/-- `Alone`, as far as the tasks of `l` go. -/
def Writers.AloneAmong (l : List TaskId) (s : Writers) : Prop :=
  (s.caller s.running).Stores → ∀ t ∈ l, t ≠ s.running → ¬ (s.caller t).Busy

instance (l : List TaskId) (s : Writers) : Decidable (s.AloneAmong l) :=
  inferInstanceAs (Decidable (_ → ∀ t ∈ l, t ≠ s.running → ¬ (s.caller t).Busy))

theorem Writers.Run.alone (h : Writers.Run ch₀ tr s) {l : List TaskId}
    (hl : ∀ x ∈ tr, x.1.running ∈ l) (ha : ∀ x ∈ tr, x.2 = .access → x.1.AloneAmong l) :
    ∀ x ∈ tr, x.2 = .access → x.1.Alone := by
  intro x hx hacc hst t ht
  by_cases hm : t ∈ l
  · exact ha x hx hacc hst t hm ht
  · rw [(h.untouched (t := t) fun y hy he => hm (he ▸ hl y hy)).2 x hx]
    exact id

theorem Writers.Run.idle (h : Writers.Run ch₀ tr s) {l : List TaskId}
    (hl : ∀ x ∈ tr, x.1.running ∈ l) (hs : ∀ t ∈ l, s.caller t = .idle) (t : TaskId) :
    s.caller t = .idle := by
  by_cases hm : t ∈ l
  · exact hs t hm
  · exact (h.untouched (t := t) fun y hy he => hm (he ▸ hl y hy)).1

/-- A second task reads the offsets while the first one is writing, and finds no room. -/
theorem writers_serialised_small : ∃ tr s, Writers.Run (emptyChannel 2) tr s ∧
    ((∀ x ∈ tr, x.2 = .access → x.1.Alone) ∧ (∀ t, s.caller t = .idle) ∧
      writeCalls tr = [[1, 2], [3]]) ∧ Serialised (emptyChannel 2) tr s := by
  obtain ⟨tr, s, h, h1, h2, h3, h4⟩ := Writers.play_exists (emptyChannel 2) 0
    ([.call [1, 2]] ++ List.replicate 6 .access ++ [.switch 1, .call [3]] ++
      List.replicate 4 .access ++ [.switch 0] ++ List.replicate 3 .access)
    (fun tr s => (∀ x ∈ tr, x.1.running ∈ ([0, 1] : List TaskId)) ∧
      (∀ x ∈ tr, x.2 = .access → x.1.AloneAmong [0, 1]) ∧
      (∀ t ∈ ([0, 1] : List TaskId), s.caller t = .idle) ∧ writeCalls tr = [[1, 2], [3]])
    (by decide +kernel)
  exact ⟨tr, s, h, ⟨h.alone h1 h2, h.idle h1 h3, h4⟩,
    writers_serialised h (h.alone h1 h2) (h.idle h1 h3)⟩

/-- Two tasks write one byte each. The first is switched out before its stores, the second
writes to the same cell and publishes it, and the first then publishes the same offset again:
one of the two bytes is lost. -/
theorem writers_serialised_fails : ¬ ∀ (ch₀ : OsRttChannel) (tr : List (Writers × WritersAct))
    (s : Writers), Writers.Run ch₀ tr s → (∀ t, s.caller t = .idle) → Serialised ch₀ tr s := by
  intro hall
  obtain ⟨tr, s, h, h1, h2, h3, h4⟩ := Writers.play_exists (emptyChannel 4) 0
    ([.call [1]] ++ List.replicate 4 .access ++ [.switch 1, .call [2]] ++
      List.replicate 8 .access ++ [.switch 0] ++ List.replicate 4 .access)
    (fun tr s => (∀ x ∈ tr, x.1.running ∈ ([0, 1] : List TaskId)) ∧ (∀ t ∈ ([0, 1] : List TaskId), s.caller t = .idle) ∧
      writeCalls tr = [[1], [2]] ∧ s.ch.wrOff = 1) (by decide +kernel)
  obtain ⟨order, hperm, hwr, -⟩ := hall _ tr s h (h.idle h1 h2)
  rw [h3] at hperm
  rw [h4] at hwr
  have hlen := hperm.length_eq
  obtain ⟨x, y, rfl⟩ : ∃ x y, order = [x, y] := List.length_eq_two.1 hlen
  have hm1 := hperm.mem_iff.2 (show [1] ∈ [[(1 : Byte)], [2]] by simp)
  have hm2 := hperm.mem_iff.2 (show [2] ∈ [[(1 : Byte)], [2]] by simp)
  simp only [List.mem_cons, List.not_mem_nil, or_false] at hm1 hm2
  rcases hm1 with rfl | rfl
  · rcases hm2 with hc | rfl
    · cases hc
    · exact absurd hwr (by decide)
  · rcases hm2 with rfl | hc
    · exact absurd hwr (by decide)
    · cases hc

end Rtos
