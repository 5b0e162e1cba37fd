import Rtos.Kernel.Types

/-! The memory protection unit: `os_port_mpu_init` register by register, what the registers then
mean for an access, and code that runs without privilege behind them, as every task does once
`PendSV_Handler` has written 3 to `CONTROL`, from one entry of the kernel to the next. -/

namespace Rtos

def shcsrMemfaultena : Word := 1 <<< 16

def mpuCtrlEnable : Word := 1 <<< 0
def mpuCtrlPrivdefena : Word := 1 <<< 2

def mpuRasrXn : Word := 1 <<< 28
def mpuApPrivRw : Word := 1 <<< 24
def mpuApFullAccess : Word := 3 <<< 24
def mpuApPrivRo : Word := 5 <<< 24
def mpuApRoAll : Word := 6 <<< 24
def mpuAttrFlash : Word := 1 <<< 17
def mpuAttrSram : Word := (1 <<< 17) ||| (1 <<< 16)
def mpuAttrDevice : Word := 1 <<< 16
def mpuRegionEnable : Word := 1 <<< 0

def dwtPeriphRegionBase : Word := 0xE0001000
def dwtPeriphRegionSize : Word := 32

/-- `MPU_RBAR` and `MPU_RASR` of one region. -/
structure MpuRegion where
  rbar : Word
  rasr : Word

structure Mpu where
  shcsr : Word
  type : Word
  ctrl : Word
  rnr : Word
  region : Word → MpuRegion

namespace Mpu

def setRegion (m : Mpu) (n : Word) (f : MpuRegion → MpuRegion) : Mpu :=
  { m with region := Function.update m.region n (f (m.region n)) }

/-- Bit 4 of what is written to `MPU_RBAR` says that the low four bits choose the region. -/
def writeRbar (m : Mpu) (v : Word) : Mpu :=
  let n := if v.getLsbD 4 then v &&& 0xF else m.rnr
  { m with rnr := n }.setRegion n fun r => { r with rbar := v &&& ~~~0x1F }

def writeRasr (m : Mpu) (v : Word) : Mpu := m.setRegion m.rnr fun r => { r with rasr := v }

/-- The field `DREGION` of `MPU_TYPE`. -/
def dregion (m : Mpu) : Word := (m.type >>> 8) &&& 0xFF

end Mpu

/-- The loop of `os_port_mpu_size_encode`. -/
def sizeEncodeLoop (sizeBytes encode : Word) : Word :=
  if 1 < sizeBytes then sizeEncodeLoop (sizeBytes >>> 1) (encode + 1) else encode
termination_by sizeBytes.toNat
decreasing_by
  have h : 1 < sizeBytes.toNat := ‹1 < sizeBytes›
  simp only [BitVec.toNat_ushiftRight, Nat.shiftRight_one]
  omega

def osPortMpuSizeEncode (sizeBytes : Word) : Word := (sizeEncodeLoop sizeBytes 0 - 1) <<< 1

def osPortMpuRegionConfigure (m : Mpu) (region base sizeBytes attr : Word) : Mpu :=
  let m := { m with rnr := region }
  let m := m.writeRbar base
  m.writeRasr (attr ||| osPortMpuSizeEncode sizeBytes ||| mpuRegionEnable)

/-- A memory region of the linker script. The unit can hold it when its size is a power of two,
at least 32, that divides its start. `bits` is the exponent. -/
structure LinkRegion where
  start : Word
  stop : Word
  bits : ℕ
  bits_ge : 5 ≤ bits
  size : (stop - start).toNat = 2 ^ bits
  aligned : 2 ^ bits ∣ start.toNat
  below : start.toNat + 2 ^ bits ≤ 0xE0000000

def LinkRegion.Has (r : LinkRegion) (a : Word) : Prop :=
  r.start.toNat ≤ a.toNat ∧ a.toNat < r.start.toNat + 2 ^ r.bits

instance (r : LinkRegion) (a : Word) : Decidable (r.Has a) :=
  inferInstanceAs (Decidable (_ ∧ _))

def LinkRegion.Apart (r r' : LinkRegion) : Prop :=
  r.start.toNat + 2 ^ r.bits ≤ r'.start.toNat ∨ r'.start.toNat + 2 ^ r'.bits ≤ r.start.toNat

instance : DecidableRel LinkRegion.Apart := fun _ _ => inferInstanceAs (Decidable (_ ∨ _))

/-- The symbols `__user_flash_region_start__` to `__kernel_ram_region_end__`. -/
structure MemoryMap where
  userFlash : LinkRegion
  kernelFlash : LinkRegion
  userRam : LinkRegion
  kernelRam : LinkRegion
  apart : [userFlash, kernelFlash, userRam, kernelRam].Pairwise LinkRegion.Apart

/-- `linker/stm32f103.ld`. -/
def stm32f103 : MemoryMap where
  userFlash := ⟨0x00000000, 0x00040000, 18, by decide, by decide, by decide, by decide⟩
  kernelFlash := ⟨0x00040000, 0x00080000, 18, by decide, by decide, by decide, by decide⟩
  userRam := ⟨0x20000000, 0x20008000, 15, by decide, by decide, by decide, by decide⟩
  kernelRam := ⟨0x20008000, 0x20010000, 15, by decide, by decide, by decide, by decide⟩
  apart := by decide

/-- `linker/stm32f103c8t6.ld`. -/
def stm32f103c8t6 : MemoryMap where
  userFlash := ⟨0x08000000, 0x08008000, 15, by decide, by decide, by decide, by decide⟩
  kernelFlash := ⟨0x08008000, 0x08010000, 15, by decide, by decide, by decide, by decide⟩
  userRam := ⟨0x20000000, 0x20004000, 14, by decide, by decide, by decide, by decide⟩
  kernelRam := ⟨0x20004000, 0x20005000, 12, by decide, by decide, by decide, by decide⟩
  apart := by decide

def osPortMpuInit (l : MemoryMap) (m : Mpu) : Mpu :=
  let userFlashSize := l.userFlash.stop - l.userFlash.start
  let kernelFlashSize := l.kernelFlash.stop - l.kernelFlash.start
  let userRamSize := l.userRam.stop - l.userRam.start
  let kernelRamSize := l.kernelRam.stop - l.kernelRam.start
  if m.dregion = 0 then m
  else
    let m := { m with ctrl := 0 }
    let m := { m with shcsr := m.shcsr ||| shcsrMemfaultena }
    let m := osPortMpuRegionConfigure m 0 l.userFlash.start userFlashSize
      (mpuApRoAll ||| mpuAttrFlash)
    let m := osPortMpuRegionConfigure m 1 l.kernelFlash.start kernelFlashSize
      (mpuApPrivRo ||| mpuAttrFlash)
    let m := osPortMpuRegionConfigure m 2 l.userRam.start userRamSize
      (mpuApFullAccess ||| mpuAttrSram ||| mpuRasrXn)
    let m := osPortMpuRegionConfigure m 3 l.kernelRam.start kernelRamSize
      (mpuApPrivRw ||| mpuAttrSram ||| mpuRasrXn)
    let m := osPortMpuRegionConfigure m 4 dwtPeriphRegionBase dwtPeriphRegionSize
      (mpuApRoAll ||| mpuAttrDevice ||| mpuRasrXn)
    { m with ctrl := mpuCtrlEnable ||| mpuCtrlPrivdefena }

/-! What the registers mean. -/

inductive Access
  | read
  | write
  | fetch
  deriving DecidableEq

namespace MpuRegion

def enabled (r : MpuRegion) : Bool := r.rasr.getLsbD 0

/-- The size of the region is two to this power. -/
def sizeBits (r : MpuRegion) : ℕ := ((r.rasr >>> 1) &&& 0x1F).toNat + 1

/-- A region has eight parts, and each can be switched off. -/
def partOff (r : MpuRegion) (a : Word) : Bool :=
  r.rasr.getLsbD (8 + a.toNat / 2 ^ (r.sizeBits - 3) % 8)

def covers (r : MpuRegion) (a : Word) : Bool :=
  r.enabled && a >>> r.sizeBits == r.rbar >>> r.sizeBits && !r.partOff a

def ap (r : MpuRegion) : ℕ := ((r.rasr >>> 24) &&& 7).toNat

def xn (r : MpuRegion) : Bool := r.rasr.getLsbD 28

def readable (r : MpuRegion) (privileged : Bool) : Bool :=
  if privileged then r.ap ≠ 0 ∧ r.ap ≠ 4 else r.ap = 2 ∨ r.ap = 3 ∨ r.ap = 6 ∨ r.ap = 7

def grants (r : MpuRegion) (privileged : Bool) : Access → Bool
  | .read => r.readable privileged
  | .write => if privileged then r.ap = 1 ∨ r.ap = 2 ∨ r.ap = 3 else r.ap = 3
  | .fetch => r.readable privileged && !r.xn

end MpuRegion

/-- The private peripheral bus: the trace and debug units and the system control space, where the
registers of the protection unit itself are. -/
def Ppb (a : Word) : Prop := 0xE0000000 ≤ a.toNat ∧ a.toNat < 0xE0100000

instance (a : Word) : Decidable (Ppb a) := inferInstanceAs (Decidable (_ ∧ _))

/-- The default memory map: peripherals and the system's own addresses hold no code. -/
def defaultGrants (x : Access) (a : Word) : Bool :=
  x ≠ .fetch ∨ a.toNat < 0x40000000 ∨ 0x60000000 ≤ a.toNat ∧ a.toNat < 0xA0000000

namespace Mpu

/-- Of the regions that cover an address, the one with the highest number counts. -/
def find (m : Mpu) (a : Word) : Option MpuRegion :=
  ((List.range m.dregion.toNat).reverse.map fun n => m.region (BitVec.ofNat 32 n)).find? (·.covers a)

/-- Whether an access goes through, outside the handlers of a hard fault and of the NMI. -/
def grants (m : Mpu) (core : Access → Word → Bool) (privileged : Bool) (x : Access) (a : Word) :
    Bool :=
  if Ppb a then
    -- no region counts here; `core` is what the core itself leaves open to code without privilege
    if privileged then defaultGrants x a else core x a
  else if x = .fetch ∧ 0xE0000000 ≤ a.toNat then false
  else if m.ctrl.getLsbD 0 then
    match m.find a with
    | some r => r.grants privileged x
    | none => privileged && m.ctrl.getLsbD 2 && defaultGrants x a
  else defaultGrants x a

end Mpu

/-! Code that runs without privilege. -/

/-- One access is to one byte; `svc` is a system call. -/
inductive MemOp
  | load (a : Word)
  | store (a : Word) (v : Byte)
  | fetch (a : Word)
  | svc
  deriving DecidableEq

/-- Any code: what it does next, and where it goes with the byte it gets back. -/
structure UserCode (σ : Type*) where
  op : σ → MemOp
  next : σ → Byte → σ

variable {σ : Type*}

/-- One step. The run ends with a system call, where the kernel takes over, with a refused access,
since `Default_Handler` never returns, and with any access to the private peripheral bus, which
is not memory and which the unit does not guard. -/
def UserCode.step (u : UserCode σ) (m : Mpu) (x : σ × (Word → Byte)) : Option (σ × (Word → Byte)) :=
  let (c, mem) := x
  let grants := m.grants (fun _ _ => false) false
  match u.op c with
  | .load a => if grants .read a then some (u.next c (mem a), mem) else none
  | .store a v => if grants .write a then some (u.next c 0, Function.update mem a v) else none
  | .fetch a => if grants .fetch a then some (u.next c (mem a), mem) else none
  | .svc => none

def UserCode.run (u : UserCode σ) (m : Mpu) : ℕ → σ × (Word → Byte) → Option (σ × (Word → Byte))
  | 0, x => some x
  | n + 1, x => (u.run m n x).bind (u.step m)

end Rtos
