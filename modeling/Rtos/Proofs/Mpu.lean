import Rtos.Kernel.Mpu

/-! The registers that `os_port_mpu_init` leaves give every address of a memory map the rights
it should have, and code without privilege that runs behind them can by itself neither change
nor see what is not its own. -/

namespace Rtos

variable {σ : Type*} {l : MemoryMap} {m : Mpu} {core : Access → Word → Bool} {a start attr : Word}
  {bits n : ℕ}

/-- What the memory map is meant to grant. -/
def MemoryMap.grants (l : MemoryMap) (core : Access → Word → Bool) (privileged : Bool) (x : Access)
    (a : Word) : Bool :=
  if Ppb a then if privileged then x ≠ .fetch else core x a
  else if l.kernelRam.Has a then privileged && x ≠ .fetch
  else if l.userRam.Has a then x ≠ .fetch
  else if l.kernelFlash.Has a then privileged && x ≠ .write
  else if l.userFlash.Has a then x ≠ .write
  else privileged && defaultGrants x a

/-! One region. -/

theorem sizeEncodeLoop_eq (s e : Word) :
    sizeEncodeLoop s e = e + BitVec.ofNat 32 s.toNat.log2 := by
  fun_induction sizeEncodeLoop s e with
  | case1 s e h ih =>
    have hs : 2 ≤ s.toNat := h
    rw [ih, Nat.log2_def s.toNat, if_pos hs, BitVec.toNat_ushiftRight, Nat.shiftRight_one,
      BitVec.add_assoc, BitVec.add_comm 1, ← BitVec.ofNat_add_ofNat]
    rfl
  | case2 s e h =>
    have hs : ¬ 2 ≤ s.toNat := h
    rw [Nat.log2_def s.toNat, if_neg hs]
    simp

theorem sizeEncode_pow (hb : 1 ≤ bits) {s : Word} (hs : s.toNat = 2 ^ bits) :
    osPortMpuSizeEncode s = BitVec.ofNat 32 (2 * (bits - 1)) := by
  have hsub : BitVec.ofNat 32 bits - 1 = BitVec.ofNat 32 (bits - 1) := by
    obtain ⟨d, rfl⟩ := Nat.exists_eq_add_of_le' hb
    rw [← BitVec.ofNat_add_ofNat, Nat.add_sub_cancel]
    exact BitVec.add_sub_cancel _ _
  rw [osPortMpuSizeEncode, sizeEncodeLoop_eq, hs, Nat.log2_two_pow,
    show (0 : Word) + BitVec.ofNat 32 bits = BitVec.ofNat 32 bits from BitVec.zero_add _, hsub]
  apply BitVec.eq_of_toNat_eq
  simp only [BitVec.toNat_shiftLeft, BitVec.toNat_ofNat, Nat.shiftLeft_eq]
  omega

/-- The region that `os_port_mpu_region_configure` writes for a size of two to the power `bits`. -/
def mpuEntry (start : Word) (bits : ℕ) (attr : Word) : MpuRegion :=
  ⟨start, attr ||| BitVec.ofNat 32 (2 * (bits - 1)) ||| mpuRegionEnable⟩

section

variable (hb : 5 ≤ bits) (hb' : bits < 32)

include hb hb'

theorem encode_bit {i : ℕ} (hi : 6 ≤ i) : (BitVec.ofNat 32 (2 * (bits - 1))).getLsbD i = false := by
  have : 2 * (bits - 1) < 2 ^ i := calc
    2 * (bits - 1) < 2 ^ 6 := by omega
    _ ≤ 2 ^ i := Nat.pow_le_pow_right (by decide) hi
  rw [BitVec.getLsbD_ofNat, Nat.testBit_lt_two_pow this, Bool.and_false]

theorem entry_bit {i : ℕ} (hi : 6 ≤ i) :
    (mpuEntry start bits attr).rasr.getLsbD i = attr.getLsbD i := by
  have h1 : mpuRegionEnable.getLsbD i = false := by
    have : (1 : ℕ) < 2 ^ i := Nat.one_lt_two_pow (by omega)
    rw [mpuRegionEnable, show (1 <<< 0 : Word) = BitVec.ofNat 32 1 from rfl, BitVec.getLsbD_ofNat,
      Nat.testBit_lt_two_pow this, Bool.and_false]
  rw [mpuEntry, BitVec.getLsbD_or, BitVec.getLsbD_or, encode_bit hb hb' hi, h1, Bool.or_false,
    Bool.or_false]

theorem entry_xn : (mpuEntry start bits attr).xn = attr.getLsbD 28 :=
  entry_bit hb hb' (by decide)

theorem entry_ap : (mpuEntry start bits attr).ap = ((attr >>> 24) &&& 7).toNat := by
  rw [MpuRegion.ap]
  congr 2
  apply BitVec.eq_of_getLsbD_eq
  intro i _
  rw [BitVec.getLsbD_ushiftRight, BitVec.getLsbD_ushiftRight, entry_bit hb hb' (by omega)]

variable (hattr : ∀ i < 16, attr.getLsbD i = false)

include hattr

theorem entry_sizeBits : (mpuEntry start bits attr).sizeBits = bits := by
  have hfield : ((mpuEntry start bits attr).rasr >>> 1) &&& 0x1F = BitVec.ofNat 32 (bits - 1) := by
    apply BitVec.eq_of_getLsbD_eq
    intro i hi
    have hmask : (0x1F : Word).getLsbD i = decide (i < 5) := by
      interval_cases i <;> rfl
    have hone : mpuRegionEnable.getLsbD (1 + i) = false := by
      interval_cases i <;> rfl
    have henc : (BitVec.ofNat 32 (2 * (bits - 1))).getLsbD (1 + i) =
        (decide (1 + i < 32) && (bits - 1).testBit i) := by
      rw [BitVec.getLsbD_ofNat, Nat.add_comm 1 i, Nat.testBit_succ,
        Nat.mul_div_cancel_left _ (by decide)]
    rw [mpuEntry, BitVec.getLsbD_and, BitVec.getLsbD_ushiftRight, BitVec.getLsbD_or,
      BitVec.getLsbD_or, hone, hmask, henc, BitVec.getLsbD_ofNat]
    by_cases h5 : i < 5
    · rw [hattr (1 + i) (by omega)]
      simp [h5, hi, show 1 + i < 32 by omega]
    · have : (bits - 1).testBit i = false := by
        apply Nat.testBit_lt_two_pow
        calc bits - 1 < 2 ^ 5 := by omega
          _ ≤ 2 ^ i := Nat.pow_le_pow_right (by decide) (by omega)
      simp [h5, this]
  rw [MpuRegion.sizeBits, hfield, BitVec.toNat_ofNat]
  omega

theorem entry_partOff : (mpuEntry start bits attr).partOff a = false := by
  rw [MpuRegion.partOff, entry_bit hb hb' (by omega)]
  exact hattr _ (by omega)

/-- A region covers the block that its start and its size say. -/
theorem entry_covers (hd : 2 ^ bits ∣ start.toNat) :
    (mpuEntry start bits attr).covers a = true ↔
      start.toNat ≤ a.toNat ∧ a.toNat < start.toNat + 2 ^ bits := by
  obtain ⟨q, hq⟩ := hd
  have hpos : 0 < 2 ^ bits := Nat.two_pow_pos bits
  have hen : (mpuEntry start bits attr).enabled = true := by
    simp [MpuRegion.enabled, mpuEntry, mpuRegionEnable]
  have hsh : a >>> bits = start >>> bits ↔ a.toNat / 2 ^ bits = q := by
    rw [← BitVec.toNat_inj, BitVec.toNat_ushiftRight, BitVec.toNat_ushiftRight,
      Nat.shiftRight_eq_div_pow, Nat.shiftRight_eq_div_pow, hq, Nat.mul_div_cancel_left _ hpos]
  simp only [MpuRegion.covers, hen, entry_partOff hb hb' hattr, entry_sizeBits hb hb' hattr]
  simp only [Bool.true_and, Bool.not_false, Bool.and_true, beq_iff_eq]
  rw [show (mpuEntry start bits attr).rbar = start from rfl, hsh, Nat.div_eq_iff hpos, hq,
    Nat.mul_comm q]
  omega

end

/-- What one call of `os_port_mpu_region_configure` does. -/
theorem configure_eq (hb : 5 ≤ bits) {region size : Word} (hs : size.toNat = 2 ^ bits)
    (hd : 2 ^ bits ∣ start.toNat) :
    osPortMpuRegionConfigure m region start size attr =
      { m with rnr := region
               region := Function.update m.region region (mpuEntry start bits attr) } := by
  obtain ⟨q, hq⟩ : 2 ^ 5 ∣ start.toNat := (Nat.pow_dvd_pow 2 hb).trans hd
  have hlow : ∀ i < 5, start.getLsbD i = false := by
    intro i hi
    rw [BitVec.getLsbD, hq, Nat.testBit_two_pow_mul]
    simp [show ¬ 5 ≤ i by omega]
  have hbase : start &&& ~~~0x1F = start := by
    apply BitVec.eq_of_getLsbD_eq
    intro i hi
    have hmask : (~~~0x1F : Word).getLsbD i = decide (5 ≤ i) := by
      interval_cases i <;> rfl
    rw [BitVec.getLsbD_and, hmask]
    by_cases h5 : i < 5
    · rw [hlow i h5, Bool.false_and]
    · simp [show 5 ≤ i by omega]
  simp only [osPortMpuRegionConfigure, Mpu.writeRbar, hlow 4 (by decide), hbase,
    sizeEncode_pow (Nat.le_of_lt (by omega)) hs, Mpu.writeRasr, Mpu.setRegion]
  simp [mpuEntry]

/-! The five regions. -/

/-- A block that a region of the unit can hold, and its attributes. -/
structure Zone where
  start : Word
  bits : ℕ
  attr : Word
  bits_ge : 5 ≤ bits
  bits_lt : bits < 32
  aligned : 2 ^ bits ∣ start.toNat
  attr_low : ∀ i < 16, attr.getLsbD i = false

namespace Zone

def Has (z : Zone) (a : Word) : Prop :=
  z.start.toNat ≤ a.toNat ∧ a.toNat < z.start.toNat + 2 ^ z.bits

instance (z : Zone) (a : Word) : Decidable (z.Has a) := inferInstanceAs (Decidable (_ ∧ _))

def entry (z : Zone) : MpuRegion := mpuEntry z.start z.bits z.attr

theorem covers_entry (z : Zone) (a : Word) : z.entry.covers a = decide (z.Has a) := by
  rw [Bool.eq_iff_iff, decide_eq_true_iff]
  exact entry_covers z.bits_ge z.bits_lt z.attr_low z.aligned

/-- The rights of a region are those of its attributes. -/
theorem grants_entry (z : Zone) (privileged : Bool) (x : Access) :
    z.entry.grants privileged x = (⟨0, z.attr⟩ : MpuRegion).grants privileged x := by
  have hap : z.entry.ap = (⟨0, z.attr⟩ : MpuRegion).ap := entry_ap z.bits_ge z.bits_lt
  have hxn : z.entry.xn = (⟨0, z.attr⟩ : MpuRegion).xn := entry_xn z.bits_ge z.bits_lt
  cases x <;> simp only [MpuRegion.grants, MpuRegion.readable, hap, hxn]

end Zone

theorem LinkRegion.bits_lt (r : LinkRegion) : r.bits < 32 := by
  have h := r.below
  by_contra hge
  have : 2 ^ 32 ≤ 2 ^ r.bits := Nat.pow_le_pow_right (by decide) (by omega)
  omega

def LinkRegion.zone (r : LinkRegion) (attr : Word) (h : ∀ i < 16, attr.getLsbD i = false) : Zone :=
  ⟨r.start, r.bits, attr, r.bits_ge, r.bits_lt, r.aligned, h⟩

/-- Region 0 to region 4. -/
def MemoryMap.zones (l : MemoryMap) : List Zone :=
  [l.userFlash.zone (mpuApRoAll ||| mpuAttrFlash) (by decide),
    l.kernelFlash.zone (mpuApPrivRo ||| mpuAttrFlash) (by decide),
    l.userRam.zone (mpuApFullAccess ||| mpuAttrSram ||| mpuRasrXn) (by decide),
    l.kernelRam.zone (mpuApPrivRw ||| mpuAttrSram ||| mpuRasrXn) (by decide),
    ⟨dwtPeriphRegionBase, 5, mpuApRoAll ||| mpuAttrDevice ||| mpuRasrXn, by decide, by decide,
      by decide, by decide⟩]

theorem init_eq (h : m.dregion ≠ 0) :
    ∃ region, osPortMpuInit l m =
      ⟨m.shcsr ||| shcsrMemfaultena, m.type, mpuCtrlEnable ||| mpuCtrlPrivdefena, 4, region⟩ ∧
      (List.range 5).map (fun n => region (BitVec.ofNat 32 n)) = l.zones.map Zone.entry ∧
      ∀ n, 5 ≤ n.toNat → region n = m.region n := by
  have hdwt : dwtPeriphRegionSize.toNat = 2 ^ 5 := rfl
  have hdwt' : 2 ^ 5 ∣ dwtPeriphRegionBase.toNat := by decide
  simp only [osPortMpuInit, if_neg h, configure_eq l.userFlash.bits_ge l.userFlash.size
    l.userFlash.aligned, configure_eq l.kernelFlash.bits_ge l.kernelFlash.size
    l.kernelFlash.aligned, configure_eq l.userRam.bits_ge l.userRam.size l.userRam.aligned,
    configure_eq l.kernelRam.bits_ge l.kernelRam.size l.kernelRam.aligned,
    configure_eq (le_refl 5) hdwt hdwt']
  refine ⟨_, rfl, rfl, ?_⟩
  intro n hn
  have hne : ∀ v : Word, v.toNat < 5 → n ≠ v := by
    rintro v hv rfl
    omega
  rw [Function.update_of_ne (hne 4 (by decide)), Function.update_of_ne (hne 3 (by decide)),
    Function.update_of_ne (hne 2 (by decide)), Function.update_of_ne (hne 1 (by decide)),
    Function.update_of_ne (hne 0 (by decide))]

/-- The search for a region, in terms of the map. -/
theorem find_zones (hd : 5 ≤ m.dregion.toNat)
    (hoff : ∀ n, 5 ≤ n.toNat → (m.region n).enabled = false) :
    (osPortMpuInit l m).find a = (l.zones.reverse.find? fun z => z.Has a).map Zone.entry := by
  obtain ⟨region, heq, hlow, hhigh⟩ := init_eq (l := l) (m := m) (by rintro h; simp [h] at hd)
  have hlt : m.dregion.toNat < 2 ^ 32 := m.dregion.isLt
  obtain ⟨e, he⟩ := Nat.exists_eq_add_of_le hd
  have hnone : ((List.range' 5 e).reverse.map fun n => region (BitVec.ofNat 32 n)).find?
      (·.covers a) = none := by
    rw [List.find?_eq_none]
    intro r hr
    obtain ⟨n, hn, rfl⟩ := List.mem_map.1 hr
    obtain ⟨hn5, hne⟩ := List.mem_range'_1.1 (List.mem_reverse.1 hn)
    have hto : (BitVec.ofNat 32 n).toNat = n := by
      rw [BitVec.toNat_ofNat, Nat.mod_eq_of_lt (by omega)]
    rw [hhigh _ (by omega), MpuRegion.covers, hoff _ (by omega)]
    simp
  have hsplit : List.range (5 + e) = List.range 5 ++ List.range' 5 e := by
    rw [List.range_eq_range', List.range_eq_range', ← List.range'_append_1]
  have hregion : (osPortMpuInit l m).region = region := by rw [heq]
  have htype : (osPortMpuInit l m).dregion = m.dregion := by rw [heq]; rfl
  rw [Mpu.find, htype, hregion, he, hsplit, List.reverse_append, List.map_append,
    List.find?_append, hnone, Option.none_or, List.map_reverse, hlow, ← List.map_reverse,
    List.find?_map]
  congr 2
  funext z
  exact z.covers_entry a

/-- The first zone that has the address decides. -/
theorem grants_find (privileged : Bool) (x : Access) (rest : Bool) (zs : List Zone) :
    (match (zs.find? fun z => z.Has a).map Zone.entry with
      | some r => r.grants privileged x
      | none => rest) =
    zs.foldr (fun z rest =>
      if z.Has a then (⟨0, z.attr⟩ : MpuRegion).grants privileged x else rest) rest := by
  induction zs with
  | nil => rfl
  | cons z zs ih =>
    rw [List.foldr_cons]
    split_ifs with h
    · rw [List.find?_cons_of_pos (by simpa using h), Option.map_some]
      exact z.grants_entry privileged x
    · rw [List.find?_cons_of_neg (by simpa using h)]
      exact ih

theorem LinkRegion.lt_system (r : LinkRegion) (ha : r.Has a) : a.toNat < 0xE0000000 := by
  have hbelow := r.below
  have hhi := ha.2
  omega

theorem LinkRegion.not_ppb (r : LinkRegion) (ha : r.Has a) : ¬ Ppb a := by
  intro hp
  have hlo := hp.1
  have hhi := r.lt_system ha
  omega

theorem defaultGrants_system (x : Access) (h : 0xE0000000 ≤ a.toNat) :
    defaultGrants x a = decide (x ≠ .fetch) := by
  have h1 : ¬ a.toNat < 0x40000000 := by omega
  have h2 : ¬ a.toNat < 0xA0000000 := by omega
  simp [defaultGrants, h1, h2]

/-- In the system's own addresses the map has no code. -/
theorem map_system_fetch (privileged : Bool) (hp : ¬ Ppb a) (h : 0xE0000000 ≤ a.toNat) :
    l.grants core privileged .fetch a = false := by
  have hno : ∀ r : LinkRegion, ¬ r.Has a := by
    intro r hr
    have := r.lt_system hr
    omega
  rw [MemoryMap.grants, if_neg hp, if_neg (hno _), if_neg (hno _), if_neg (hno _), if_neg (hno _),
    defaultGrants_system _ h]
  simp

theorem init_grants (hd : 5 ≤ m.dregion.toNat)
    (hoff : ∀ n, 5 ≤ n.toNat → (m.region n).enabled = false) (privileged : Bool) (x : Access)
    (a : Word) : (osPortMpuInit l m).grants core privileged x a = l.grants core privileged x a := by
  rw [Mpu.grants]
  by_cases hp : Ppb a
  · rw [if_pos hp, MemoryMap.grants, if_pos hp, defaultGrants_system x hp.1]
  rw [if_neg hp]
  by_cases hx : x = .fetch ∧ 0xE0000000 ≤ a.toNat
  · obtain ⟨rfl, hsys⟩ := hx
    rw [if_pos ⟨rfl, hsys⟩, map_system_fetch privileged hp hsys]
  rw [if_neg hx]
  have hctrl : (osPortMpuInit l m).ctrl = mpuCtrlEnable ||| mpuCtrlPrivdefena := by
    obtain ⟨region, heq, -⟩ := init_eq (l := l) (m := m) (by rintro h; simp [h] at hd)
    rw [heq]
  have hon : (mpuCtrlEnable ||| mpuCtrlPrivdefena).getLsbD 0 = true := rfl
  have hdef : (mpuCtrlEnable ||| mpuCtrlPrivdefena).getLsbD 2 = true := rfl
  rw [find_zones hd hoff, hctrl, hon, hdef, if_pos rfl, Bool.and_true]
  refine (grants_find privileged x _ _).trans ?_
  -- the rights that the attribute words of the first four regions stand for
  have h0 : (⟨0, mpuApRoAll ||| mpuAttrFlash⟩ : MpuRegion).grants privileged x =
      decide (x ≠ .write) := by
    cases privileged <;> cases x <;> rfl
  have h1 : (⟨0, mpuApPrivRo ||| mpuAttrFlash⟩ : MpuRegion).grants privileged x =
      (privileged && decide (x ≠ .write)) := by
    cases privileged <;> cases x <;> rfl
  have h2 : (⟨0, mpuApFullAccess ||| mpuAttrSram ||| mpuRasrXn⟩ : MpuRegion).grants privileged x =
      decide (x ≠ .fetch) := by
    cases privileged <;> cases x <;> rfl
  have h3 : (⟨0, mpuApPrivRw ||| mpuAttrSram ||| mpuRasrXn⟩ : MpuRegion).grants privileged x =
      (privileged && decide (x ≠ .fetch)) := by
    cases privileged <;> cases x <;> rfl
  rw [MemoryMap.grants, if_neg hp, ← h1, ← h3, ← h0, ← h2]
  -- the fifth region lies on the bus
  refine if_neg fun hdwt => hp ⟨?_, ?_⟩
  · exact le_trans (by decide) hdwt.1
  · exact lt_of_lt_of_le hdwt.2 (by decide)

theorem LinkRegion.Apart.not_has {r r' : LinkRegion} (h : r.Apart r') (ha : r.Has a) :
    ¬ r'.Has a := by
  intro ha'
  have hlo := ha.1
  have hhi := ha.2
  have hlo' := ha'.1
  have hhi' := ha'.2
  rcases h with h | h <;> omega

/-- After `os_port_mpu_init` every address has exactly the rights of its region: flash cannot be
written and RAM holds no code, at any privilege; without privilege the kernel's flash and RAM
cannot be touched, and nothing else is open. On the private peripheral bus no region counts,
so that the one over the cycle counter grants nothing. -/
theorem mpu_rights (l : MemoryMap) (m : Mpu) (core : Access → Word → Bool)
    (hd : 5 ≤ m.dregion.toNat) (hoff : ∀ n, 5 ≤ n.toNat → (m.region n).enabled = false)
    (privileged : Bool) (x : Access) (a : Word) :
    (l.userFlash.Has a →
      (osPortMpuInit l m).grants core privileged x a = decide (x ≠ .write)) ∧
    (l.kernelFlash.Has a →
      (osPortMpuInit l m).grants core privileged x a = (privileged && decide (x ≠ .write))) ∧
    (l.userRam.Has a →
      (osPortMpuInit l m).grants core privileged x a = decide (x ≠ .fetch)) ∧
    (l.kernelRam.Has a →
      (osPortMpuInit l m).grants core privileged x a = (privileged && decide (x ≠ .fetch))) ∧
    (Ppb a → (osPortMpuInit l m).grants core privileged x a =
      if privileged then decide (x ≠ .fetch) else core x a) ∧
    (¬ l.userFlash.Has a → ¬ l.kernelFlash.Has a → ¬ l.userRam.Has a → ¬ l.kernelRam.Has a →
      ¬ Ppb a →
      (osPortMpuInit l m).grants core privileged x a = (privileged && defaultGrants x a)) := by
  have hap := l.apart
  simp only [List.pairwise_cons, List.mem_cons, List.not_mem_nil, or_false, forall_eq_or_imp,
    forall_eq] at hap
  obtain ⟨⟨h01, h02, h03⟩, ⟨h12, h13⟩, h23, -⟩ := hap
  rw [init_grants hd hoff, MemoryMap.grants]
  refine ⟨fun h => ?_, fun h => ?_, fun h => ?_, fun h => ?_, fun h => ?_, ?_⟩
  · rw [if_neg (l.userFlash.not_ppb h), if_neg (h03.not_has h), if_neg (h02.not_has h),
      if_neg (h01.not_has h), if_pos h]
  · rw [if_neg (l.kernelFlash.not_ppb h), if_neg (h13.not_has h), if_neg (h12.not_has h),
      if_pos h]
  · rw [if_neg (l.userRam.not_ppb h), if_neg (h23.not_has h), if_pos h]
  · rw [if_neg (l.kernelRam.not_ppb h), if_pos h]
  · rw [if_pos h]
  · intro hu hk hr hs hp
    rw [if_neg hp, if_neg hs, if_neg hr, if_neg hk, if_neg hu]

/-- The unit after a reset, with eight regions. -/
def Mpu.reset : Mpu := ⟨0, 0x800, 0, 0, fun _ => ⟨0, 0⟩⟩

theorem reset_off (n : Word) : (Mpu.reset.region n).enabled = false := by
  simp [Mpu.reset, MpuRegion.enabled]

/-- On both boards a task cannot write the first word of the kernel's RAM, and the kernel can
start the cycle counter, over which region 4 would let nobody write. -/
theorem mpu_rights_boards :
    (osPortMpuInit stm32f103 Mpu.reset).grants (fun _ _ => false) false .write 0x20008000 = false ∧
    (osPortMpuInit stm32f103c8t6 Mpu.reset).grants (fun _ _ => false) false .write 0x20004000 =
      false ∧
    (osPortMpuInit stm32f103 Mpu.reset).grants (fun _ _ => false) true .write 0xE0001000 = true :=
  ⟨(mpu_rights stm32f103 Mpu.reset _ (by decide) (fun n _ => reset_off n) false .write
      0x20008000).2.2.2.1 (by decide),
    (mpu_rights stm32f103c8t6 Mpu.reset _ (by decide) (fun n _ => reset_off n) false .write
      0x20004000).2.2.2.1 (by decide),
    (mpu_rights stm32f103 Mpu.reset _ (by decide) (fun n _ => reset_off n) true .write
      0xE0001000).2.2.2.2.1 (by decide)⟩

/-! Runs of code without privilege. -/

/-- What a task may look at. -/
def MemoryMap.Visible (l : MemoryMap) (a : Word) : Prop := l.userFlash.Has a ∨ l.userRam.Has a

theorem grants_write (h : l.grants (fun _ _ => false) false .write a = true) : l.userRam.Has a := by
  simp only [MemoryMap.grants, Bool.false_eq_true, if_false, Bool.false_and] at h
  split_ifs at h with hp h3 h2 h1 h0
  · exact h2
  · simp at h

theorem grants_visible {x : Access} (h : l.grants (fun _ _ => false) false x a = true) :
    l.Visible a := by
  simp only [MemoryMap.grants, Bool.false_eq_true, if_false, Bool.false_and] at h
  split_ifs at h with hp h3 h2 h1 h0
  · exact .inr h2
  · exact .inl h0

section

variable {u : UserCode σ} {c c' : σ} {mpu : Mpu} {mem mem' mem₁ : Word → Byte}
  (hg : ∀ x a, mpu.grants (fun _ _ => false) false x a = l.grants (fun _ _ => false) false x a)

include hg

theorem user_step_frame (hs : u.step mpu (c, mem) = some (c', mem₁)) (ha : ¬ l.userRam.Has a) :
    mem₁ a = mem a := by
  cases hop : u.op c with
  | load b =>
    simp only [UserCode.step, hop, Option.ite_none_right_eq_some, Option.some.injEq,
      Prod.mk.injEq] at hs
    rw [← hs.2.2]
  | store b v =>
    simp only [UserCode.step, hop, Option.ite_none_right_eq_some, Option.some.injEq,
      Prod.mk.injEq] at hs
    obtain ⟨hok, -, rfl⟩ := hs
    rw [hg] at hok
    have hne : a ≠ b := by
      rintro rfl
      exact ha (grants_write hok)
    exact Function.update_of_ne hne v mem
  | fetch b =>
    simp only [UserCode.step, hop, Option.ite_none_right_eq_some, Option.some.injEq,
      Prod.mk.injEq] at hs
    rw [← hs.2.2]
  | svc => simp only [UserCode.step, hop, reduceCtorEq] at hs

/-- Two memories that a task cannot tell apart stay so, and it does the same over both. -/
theorem user_step_alike (h : ∀ a, l.Visible a → mem' a = mem a) :
    Option.Rel (fun x y => y.1 = x.1 ∧ ∀ a, l.Visible a → y.2 a = x.2 a)
      (u.step mpu (c, mem)) (u.step mpu (c, mem')) := by
  unfold UserCode.step
  cases hop : u.op c with
  | load b =>
    simp only [hop, hg]
    split_ifs with hok
    · exact .some ⟨by rw [h b (grants_visible hok)], h⟩
    · exact .none
  | store b v =>
    simp only [hop, hg]
    split_ifs with hok
    · refine .some ⟨rfl, ?_⟩
      intro a ha
      simp only [Function.update_apply, h a ha]
    · exact .none
  | fetch b =>
    simp only [hop, hg]
    split_ifs with hok
    · exact .some ⟨by rw [h b (grants_visible hok)], h⟩
    · exact .none
  | svc =>
    simp only [hop]
    exact .none

theorem user_run_frame (n : ℕ) (hs : u.run mpu n (c, mem) = some (c', mem₁))
    (ha : ¬ l.userRam.Has a) : mem₁ a = mem a := by
  induction n generalizing c' mem₁ with
  | zero =>
    obtain ⟨-, rfl⟩ := Prod.mk.inj (Option.some.inj hs)
    rfl
  | succ n ih =>
    obtain ⟨⟨c1, mem1⟩, h1, h2⟩ := Option.bind_eq_some_iff.1 hs
    exact (user_step_frame hg h2 ha).trans (ih h1)

theorem user_run_alike (h : ∀ a, l.Visible a → mem' a = mem a) (n : ℕ) :
    Option.Rel (fun x y => y.1 = x.1 ∧ ∀ a, l.Visible a → y.2 a = x.2 a)
      (u.run mpu n (c, mem)) (u.run mpu n (c, mem')) := by
  induction n with
  | zero => exact .some ⟨rfl, h⟩
  | succ n ih =>
    rw [UserCode.run, UserCode.run]
    generalize u.run mpu n (c, mem) = x at ih ⊢
    generalize u.run mpu n (c, mem') = y at ih ⊢
    cases ih with
    | some hxy =>
      rename_i x y
      obtain ⟨c1, mem1⟩ := x
      obtain ⟨c2, mem2⟩ := y
      obtain ⟨rfl, halike⟩ := hxy
      exact user_step_alike hg halike
    | none => exact .none

end

/-- Whatever code runs without privilege, until it next enters the kernel: memory outside user RAM
stays as it is, and the code behaves the same whatever is in the memory that is not its own. -/
theorem user_confined (l : MemoryMap) (m : Mpu) (hd : 5 ≤ m.dregion.toNat)
    (hoff : ∀ n, 5 ≤ n.toNat → (m.region n).enabled = false) (u : UserCode σ) (c : σ) (n : ℕ)
    (mem mem' : Word → Byte) (hmem : ∀ a, l.Visible a → mem' a = mem a) :
    (∀ c' mem₁, u.run (osPortMpuInit l m) n (c, mem) = some (c', mem₁) →
      ∀ a, ¬ l.userRam.Has a → mem₁ a = mem a) ∧
    (u.run (osPortMpuInit l m) n (c, mem')).map Prod.fst =
      (u.run (osPortMpuInit l m) n (c, mem)).map Prod.fst := by
  have hg : ∀ x a, (osPortMpuInit l m).grants (fun _ _ => false) false x a =
      l.grants (fun _ _ => false) false x a := init_grants hd hoff false
  refine ⟨fun c' mem₁ hs a ha => user_run_frame hg n hs ha, ?_⟩
  have hrel := user_run_alike (u := u) (c := c) hg hmem n
  generalize u.run (osPortMpuInit l m) n (c, mem) = x at hrel ⊢
  generalize u.run (osPortMpuInit l m) n (c, mem') = y at hrel ⊢
  cases hrel with
  | some hxy => exact congrArg some hxy.1
  | none => rfl

/-- Code that writes 7 over the last byte of user RAM, reads it and the flash, and makes a
system call. -/
def scribble : UserCode ℕ where
  op c := ([.store 0x20007FFF 7, .load 0x20007FFF, .fetch 0x100] : List MemOp).getD c .svc
  next c _ := c + 1

theorem user_confined_scribble :
    (scribble.run (osPortMpuInit stm32f103 Mpu.reset) 3 (0, fun _ => 0)).map Prod.fst =
      (scribble.run (osPortMpuInit stm32f103 Mpu.reset) 3
        (0, fun a => if a = 0x20008000 then 1 else 0)).map Prod.fst := by
  refine (user_confined stm32f103 Mpu.reset (by decide) (fun n _ => reset_off n) scribble 0 3 _ _
    ?_).2
  intro a ha
  have hne : a ≠ 0x20008000 := by
    rintro rfl
    revert ha
    unfold MemoryMap.Visible
    decide
  rw [if_neg hne]

end Rtos
