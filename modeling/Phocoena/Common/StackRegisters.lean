import Phocoena.Lib.ByteMemory

/-! # Saving and restoring registers

`ABI_PushRegisters` and `ABI_PopRegisters` of both emitters: the instructions they emit, and what
these do with the fields they are encoded in. Register 31 is the stack pointer where it is the
base of an address and the zero register where it is transferred.
-/

namespace Phocoena.Arm64Emitter

open ByteMemory

/-- The general purpose registers as `X0` to `X30`, or the vector registers as `Q0` to `Q31`. -/
inductive Bank where
  | X | Q
deriving DecidableEq, Repr

def Bank.width : Bank → Nat
  | X => 64
  | Q => 128

def Bank.bytes : Bank → Nat
  | X => 8
  | Q => 16

/-- The types of indexing used here: `Unsigned` is not. -/
inductive IndexType where
  | Post | Pre | Signed
deriving DecidableEq, Repr

def SP : Nat := 31

/-- A transfer between registers and memory, with the immediate its emitter is called with. -/
inductive Transfer where
  /-- `LDR` and `STR` of 64 bits, or of 128 for vector registers. -/
  | single (store : Bool) (bank : Bank) (type : IndexType) (Rt Rn : Nat) (imm : Int)
  /-- `LDP` and `STP`. -/
  | pair (store : Bool) (bank : Bank) (type : IndexType) (Rt Rt2 Rn : Nat) (imm : Int)
  /-- `LD1` and `ST1` of `count` vector registers, post-indexed by their size. -/
  | structures (store : Bool) (count : Nat) (Rt Rn : Nat)
deriving DecidableEq, Repr

/-- `EncodeLoadStoreIndexedInst` and `EmitLoadStoreImmediate` keep nine bits of the offset, which
the processor reads as a signed number. -/
def indexedOffset (imm : Int) : BitVec 64 := (BitVec.ofInt 9 imm).signExtend 64

/-- `EncodeLoadStorePair` shifts the offset right and keeps seven bits. -/
def pairOffset (bank : Bank) (imm : Int) : BitVec 64 :=
  (BitVec.ofInt 7 (imm / bank.bytes)).signExtend 64 * BitVec.ofNat 64 bank.bytes

/-- What an instruction transfers: the registers follow each other in memory. -/
structure Access where
  store : Bool
  bank : Bank
  regs : List Nat
  base : Nat
  offset : BitVec 64
  /-- What is added to the base register. -/
  writeback : BitVec 64

def Transfer.access : Transfer → Access
  | single store bank type Rt Rn imm =>
      ⟨store, bank, [Rt], Rn, if type = .Post then 0 else indexedOffset imm, indexedOffset imm⟩
  | pair store bank type Rt Rt2 Rn imm =>
      ⟨store, bank, [Rt, Rt2], Rn, if type = .Post then 0 else pairOffset bank imm,
        if type = .Signed then 0 else pairOffset bank imm⟩
  | structures store count Rt Rn =>
      ⟨store, .Q, List.range' Rt count, Rn, 0, BitVec.ofNat 64 (16 * count)⟩

inductive Inst where
  | transfer (t : Transfer)
  /-- `ADD` and `SUB` of a 12-bit immediate, where register 31 is the stack pointer. -/
  | addSub (sub : Bool) (Rd Rn imm : Nat)
deriving DecidableEq, Repr

/-! ## What the instructions do -/

structure State where
  /-- The stack pointer is number 31. -/
  x : Nat → BitVec 64
  q : Nat → BitVec 128
  mem : ByteMemory

namespace State

def sp (s : State) : BitVec 64 := s.x SP

/-- The value a transfer reads: number 31 is the zero register. -/
def readX (s : State) (r : Nat) : BitVec 64 := if r = 31 then 0 else s.x r

def writeX (s : State) (r : Nat) (v : BitVec 64) : State :=
  if r = 31 then s else { s with x := fun i => if i = r then v else s.x i }

def read (s : State) : (bank : Bank) → Nat → BitVec bank.width
  | .X => s.readX
  | .Q => s.q

def write (s : State) : (bank : Bank) → Nat → BitVec bank.width → State
  | .X, r, v => s.writeX r v
  | .Q, r, v => { s with q := fun i => if i = r then v else s.q i }

def setBase (s : State) (r : Nat) (v : BitVec 64) : State :=
  { s with x := fun i => if i = r then v else s.x i }

def loadAll (s : State) (bank : Bank) : BitVec 64 → List Nat → State
  | _, [] => s
  | a, r :: regs =>
      loadAll (s.write bank r (load s.mem bank.width a)) bank (skip bank.width a 1) regs

end State

def Access.exec (a : Access) (s : State) : State :=
  let address := s.x a.base + a.offset
  let s' := if a.store then { s with mem := storeAll s.mem address (a.regs.map (s.read a.bank)) }
    else s.loadAll a.bank address a.regs
  s'.setBase a.base (s.x a.base + a.writeback)

def Inst.exec : Inst → State → State
  | transfer t, s => t.access.exec s
  | addSub sub Rd Rn imm, s =>
      s.setBase Rd (if sub then s.x Rn - (BitVec.ofNat 12 imm).setWidth 64
        else s.x Rn + (BitVec.ofNat 12 imm).setWidth 64)

def run : List Inst → State → State
  | [], s => s
  | i :: code, s => run code (i.exec s)

/-- The bytes an instruction writes. -/
def Inst.Writes : Inst → State → BitVec 64 → Prop
  | transfer t, s, b => t.access.store = true ∧
      Among (s.x t.access.base + t.access.offset) (t.access.bank.bytes * t.access.regs.length) b
  | addSub .., _, _ => False

/-! ## The emitters -/

def STR (bank : Bank) (type : IndexType) (Rt Rn : Nat) (imm : Int) : Inst :=
  .transfer (.single true bank type Rt Rn imm)

def LDR (bank : Bank) (type : IndexType) (Rt Rn : Nat) (imm : Int) : Inst :=
  .transfer (.single false bank type Rt Rn imm)

def STP (bank : Bank) (type : IndexType) (Rt Rt2 Rn : Nat) (imm : Int) : Inst :=
  .transfer (.pair true bank type Rt Rt2 Rn imm)

def LDP (bank : Bank) (type : IndexType) (Rt Rt2 Rn : Nat) (imm : Int) : Inst :=
  .transfer (.pair false bank type Rt Rt2 Rn imm)

/-- The registers of a `BitSet32`, in the order of its iterator. -/
def bits (registers : BitVec 32) : List Nat := (List.range 32).filter (registers.getLsbD ·)

/-- The loop of `ABI_PushRegisters` behind the first store. -/
def pushPairs : Nat → List Nat → List Inst
  | i, odd_reg :: even_reg :: it =>
      STP .X .Signed odd_reg even_reg SP (16 * (i + 1)) :: pushPairs (i + 1) it
  | _, _ => []

/-- The loop of `ABI_PopRegisters` before the last load. -/
def popPairs : Nat → List Nat → List Inst
  | i, odd_reg :: even_reg :: it =>
      LDP .X .Signed odd_reg even_reg SP (16 * (i + 1)) :: popPairs (i + 1) it
  | _, _ => []

/-- 8 bytes for each register, padded to 16. -/
def stackSize (num_regs : Nat) : Nat := (num_regs + num_regs % 2) * 8

def ABI_PushRegisters (registers : BitVec 32) : List Inst :=
  let num_regs := (bits registers).length
  let stack_size : Int := stackSize num_regs
  match num_regs % 2, bits registers with
  | 0, first_reg :: second_reg :: it =>
      STP .X .Pre first_reg second_reg SP (-stack_size) :: pushPairs 0 it
  | 1, first_reg :: it => STR .X .Pre first_reg SP (-stack_size) :: pushPairs 0 it
  | _, _ => []

def ABI_PopRegisters (registers : BitVec 32) : List Inst :=
  let num_regs := (bits registers).length
  let stack_size : Int := stackSize num_regs
  match num_regs % 2, bits registers with
  | 0, first :: second :: it => popPairs 0 it ++ [LDP .X .Post first second SP stack_size]
  | 1, first :: it => popPairs 0 it ++ [LDR .X .Post first SP stack_size]
  | _, _ => []

namespace FloatEmitter

/-- How many registers of the set follow each other from `i` on, up to four. -/
def runCount (registers : BitVec 32) (i : Nat) : Nat :=
  let more (count : Nat) : Bool := i + count < 32 && registers.getLsbD (i + count)
  if more 1 then if more 2 then if more 3 then 4 else 3 else 2 else 1

def bundled_loadstore (registers : BitVec 32) : Bool :=
  (List.range 32).any fun i => registers.getLsbD i && runCount registers i > 1

/-- The registers the loop over the set stops at from `i` on, with the numbers that follow. -/
def groups (registers : BitVec 32) : (fuel : Nat) → (i : Nat) → List (Nat × Nat)
  | 0, _ => []
  | fuel + 1, i =>
      if i ≥ 32 then []
      else if registers.getLsbD i then
        (i, runCount registers i) :: groups registers fuel (i + runCount registers i)
      else groups registers fuel (i + 1)

/-- The registers in pairs, and the last one alone. -/
def islandTransfers (store : Bool) (Rn : Nat) : List Nat → List Inst
  | a :: b :: island_regs =>
      .transfer (.pair store .Q .Post a b Rn 32) :: islandTransfers store Rn island_regs
  | [a] => [.transfer (.single store .Q .Post a Rn 16)]
  | [] => []

/-- The bundled transfers: what stands alone comes last. -/
def bundledTransfers (store : Bool) (registers : BitVec 32) (Rn : Nat) : List Inst :=
  ((groups registers 32 0).filter (·.2 ≠ 1)).map
      (fun g => Inst.transfer (.structures store g.2 g.1 Rn)) ++
    islandTransfers store Rn (((groups registers 32 0).filter (·.2 = 1)).map Prod.fst)

def pushPairwise : List Nat → List Inst
  | a :: b :: it => STP .Q .Pre a b SP (-32) :: pushPairwise it
  | [a] => [STR .Q .Pre a SP (-16)]
  | [] => []

/-- The loop over the set from its last register down. -/
def popPairwise (odd : Bool) (pair_regs : List Nat) : List Nat → List Inst
  | [] => []
  | i :: it =>
      if odd then LDR .Q .Post i SP 16 :: popPairwise false pair_regs it
      else match pair_regs with
        | [] => popPairwise false [i] it
        | first :: _ => LDP .Q .Post i first SP 32 :: popPairwise false [] it

def ABI_PushRegisters (registers : BitVec 32) (tmp : Option (Fin 31)) : List Inst :=
  match bundled_loadstore registers, tmp with
  | true, some tmp =>
      .addSub true SP SP ((bits registers).length * 16) :: .addSub false tmp SP 0 ::
        bundledTransfers true registers tmp
  | _, _ => pushPairwise (bits registers)

def ABI_PopRegisters (registers : BitVec 32) (tmp : Option (Fin 31)) : List Inst :=
  match bundled_loadstore registers, tmp with
  | true, some _ => bundledTransfers false registers SP
  | _, _ => popPairwise ((bits registers).length % 2 = 1) [] (bits registers).reverse

end FloatEmitter

end Phocoena.Arm64Emitter
