/-! # Gekko instruction words

The fields of `UGeckoInstruction`, the rotation masks they describe, and the
`OpType::Integer` rows of the primary table and of table 31. Rows of other types
are left out: looking one of them up gives `none`.
-/

namespace Phocoena.Gekko

/-- A 32-bit PowerPC instruction word. Bit 0 is the least significant bit, as in the
source's bit-fields, not as in the PowerPC manuals. -/
structure UGeckoInstruction where
  hex : BitVec 32
  deriving DecidableEq, Repr

namespace UGeckoInstruction

def opcd (inst : UGeckoInstruction) : BitVec 6 := inst.hex.extractLsb' 26 6
def rd (inst : UGeckoInstruction) : BitVec 5 := inst.hex.extractLsb' 21 5
def rs (inst : UGeckoInstruction) : BitVec 5 := inst.hex.extractLsb' 21 5
def ra (inst : UGeckoInstruction) : BitVec 5 := inst.hex.extractLsb' 16 5
def rb (inst : UGeckoInstruction) : BitVec 5 := inst.hex.extractLsb' 11 5
def sh (inst : UGeckoInstruction) : BitVec 5 := inst.hex.extractLsb' 11 5
def mb (inst : UGeckoInstruction) : BitVec 5 := inst.hex.extractLsb' 6 5
def me (inst : UGeckoInstruction) : BitVec 5 := inst.hex.extractLsb' 1 5
def crfd (inst : UGeckoInstruction) : BitVec 3 := inst.hex.extractLsb' 23 3
def subop10 (inst : UGeckoInstruction) : BitVec 10 := inst.hex.extractLsb' 1 10
def subop5 (inst : UGeckoInstruction) : BitVec 5 := inst.hex.extractLsb' 1 5
def rcReg (inst : UGeckoInstruction) : BitVec 5 := inst.hex.extractLsb' 6 5
def fa (inst : UGeckoInstruction) : BitVec 5 := inst.hex.extractLsb' 16 5
def fb (inst : UGeckoInstruction) : BitVec 5 := inst.hex.extractLsb' 11 5
def fc (inst : UGeckoInstruction) : BitVec 5 := inst.hex.extractLsb' 6 5
def fd (inst : UGeckoInstruction) : BitVec 5 := inst.hex.extractLsb' 21 5
def fs (inst : UGeckoInstruction) : BitVec 5 := inst.hex.extractLsb' 21 5
def crfs (inst : UGeckoInstruction) : BitVec 3 := inst.hex.extractLsb' 18 3
def crba (inst : UGeckoInstruction) : BitVec 5 := inst.hex.extractLsb' 16 5
def crbb (inst : UGeckoInstruction) : BitVec 5 := inst.hex.extractLsb' 11 5
def crbd (inst : UGeckoInstruction) : BitVec 5 := inst.hex.extractLsb' 21 5
def spru (inst : UGeckoInstruction) : BitVec 5 := inst.hex.extractLsb' 11 5
def sprl (inst : UGeckoInstruction) : BitVec 5 := inst.hex.extractLsb' 16 5
def bi (inst : UGeckoInstruction) : BitVec 5 := inst.hex.extractLsb' 16 5
def bo (inst : UGeckoInstruction) : BitVec 5 := inst.hex.extractLsb' 21 5
def bd (inst : UGeckoInstruction) : BitVec 14 := inst.hex.extractLsb' 2 14
def li (inst : UGeckoInstruction) : BitVec 24 := inst.hex.extractLsb' 2 24
def aa (inst : UGeckoInstruction) : Bool := inst.hex.getLsbD 1
def lk (inst : UGeckoInstruction) : Bool := inst.hex.getLsbD 0
def simm16 (inst : UGeckoInstruction) : BitVec 16 := inst.hex.extractLsb' 0 16
def uimm (inst : UGeckoInstruction) : BitVec 16 := inst.hex.extractLsb' 0 16
def rc (inst : UGeckoInstruction) : Bool := inst.hex.getLsbD 0
def oe (inst : UGeckoInstruction) : Bool := inst.hex.getLsbD 10

/-- `s32(inst.SIMM_16)`, as the bits of a `u32`. -/
def simm (inst : UGeckoInstruction) : BitVec 32 := inst.simm16.signExtend 32

/-- `u32{inst.UIMM}`. -/
def uimm32 (inst : UGeckoInstruction) : BitVec 32 := inst.uimm.setWidth 32

theorem oe_eq_subop10 (inst : UGeckoInstruction) : inst.oe = inst.subop10.getLsbD 9 := by
  simp [oe, subop10]

end UGeckoInstruction

/-- `MakeRotationMask`: ones from bit `mb` to bit `me` (PowerPC numbering), wrapping
around when `me < mb`. -/
def makeRotationMask (mb me : BitVec 5) : BitVec 32 :=
  let start := 0xFFFFFFFF#32 >>> mb.toNat
  let stop := 0x7FFFFFFF#32 >>> me.toNat
  let mask := start ^^^ stop
  if me < mb then ~~~mask else mask

/-! ## Instruction flags -/

abbrev InstructionFlags := BitVec 64

def flSetCR0 : InstructionFlags := 1 <<< 0
def flSetCRn : InstructionFlags := 1 <<< 2
def flSetCA : InstructionFlags := 1 <<< 3
def flReadCA : InstructionFlags := 1 <<< 4
def flRcBit : InstructionFlags := 1 <<< 5
def flInA : InstructionFlags := 1 <<< 8
def flInA0 : InstructionFlags := 1 <<< 9
def flInB : InstructionFlags := 1 <<< 10
def flInS : InstructionFlags := 1 <<< 12
def flInAB : InstructionFlags := flInA ||| flInB
def flInSB : InstructionFlags := flInS ||| flInB
def flOutD : InstructionFlags := 1 <<< 13
def flOutA : InstructionFlags := 1 <<< 14
def flSetOE : InstructionFlags := 1 <<< 22

/-- `flags & fl`, read as a truth value. -/
def InstructionFlags.has (flags fl : InstructionFlags) : Bool := flags &&& fl != 0

/-- The `OpType::Integer` rows of `s_primary_table`. -/
def primaryTable : List (BitVec 6 × InstructionFlags) :=
  [(7, flOutD ||| flInA),                                  -- mulli
   (8, flOutD ||| flInA ||| flSetCA),                      -- subfic
   (10, flInA ||| flSetCRn),                               -- cmpli
   (11, flInA ||| flSetCRn),                               -- cmpi
   (12, flOutD ||| flInA ||| flSetCA),                     -- addic
   (13, flOutD ||| flInA ||| flSetCA ||| flSetCR0),        -- addic_rc
   (14, flOutD ||| flInA0),                                -- addi
   (15, flOutD ||| flInA0),                                -- addis
   (20, flOutA ||| flInA ||| flInS ||| flRcBit),           -- rlwimix
   (21, flOutA ||| flInS ||| flRcBit),                     -- rlwinmx
   (23, flOutA ||| flInSB ||| flRcBit),                    -- rlwnmx
   (24, flOutA ||| flInS),                                 -- ori
   (25, flOutA ||| flInS),                                 -- oris
   (26, flOutA ||| flInS),                                 -- xori
   (27, flOutA ||| flInS),                                 -- xoris
   (28, flOutA ||| flInS ||| flSetCR0),                    -- andi_rc
   (29, flOutA ||| flInS ||| flSetCR0)]                    -- andis_rc

/-- The `OpType::Integer` rows of `s_table31`. -/
def table31 : List (BitVec 10 × InstructionFlags) :=
  [(266, flOutD ||| flInAB ||| flRcBit),                              -- addx
   (778, flOutD ||| flInAB ||| flRcBit ||| flSetOE),                  -- addox
   (10, flOutD ||| flInAB ||| flSetCA ||| flRcBit),                   -- addcx
   (522, flOutD ||| flInAB ||| flSetCA ||| flRcBit ||| flSetOE),      -- addcox
   (138, flOutD ||| flInAB ||| flReadCA ||| flSetCA ||| flRcBit),     -- addex
   (650, flOutD ||| flInAB ||| flReadCA ||| flSetCA ||| flRcBit ||| flSetOE),  -- addeox
   (234, flOutD ||| flInA ||| flReadCA ||| flSetCA ||| flRcBit),      -- addmex
   (746, flOutD ||| flInA ||| flReadCA ||| flSetCA ||| flRcBit ||| flSetOE),   -- addmeox
   (202, flOutD ||| flInA ||| flReadCA ||| flSetCA ||| flRcBit),      -- addzex
   (714, flOutD ||| flInA ||| flReadCA ||| flSetCA ||| flRcBit ||| flSetOE),   -- addzeox
   (491, flOutD ||| flInAB ||| flRcBit),                              -- divwx
   (1003, flOutD ||| flInAB ||| flRcBit ||| flSetOE),                 -- divwox
   (459, flOutD ||| flInAB ||| flRcBit),                              -- divwux
   (971, flOutD ||| flInAB ||| flRcBit ||| flSetOE),                  -- divwuox
   (75, flOutD ||| flInAB ||| flRcBit),                               -- mulhwx
   (11, flOutD ||| flInAB ||| flRcBit),                               -- mulhwux
   (235, flOutD ||| flInAB ||| flRcBit),                              -- mullwx
   (747, flOutD ||| flInAB ||| flRcBit ||| flSetOE),                  -- mullwox
   (104, flOutD ||| flInA ||| flRcBit),                               -- negx
   (616, flOutD ||| flInA ||| flRcBit ||| flSetOE),                   -- negox
   (40, flOutD ||| flInAB ||| flRcBit),                               -- subfx
   (552, flOutD ||| flInAB ||| flRcBit ||| flSetOE),                  -- subfox
   (8, flOutD ||| flInAB ||| flSetCA ||| flRcBit),                    -- subfcx
   (520, flOutD ||| flInAB ||| flSetCA ||| flRcBit ||| flSetOE),      -- subfcox
   (136, flOutD ||| flInAB ||| flReadCA ||| flSetCA ||| flRcBit),     -- subfex
   (648, flOutD ||| flInAB ||| flReadCA ||| flSetCA ||| flRcBit ||| flSetOE),  -- subfeox
   (232, flOutD ||| flInA ||| flReadCA ||| flSetCA ||| flRcBit),      -- subfmex
   (744, flOutD ||| flInA ||| flReadCA ||| flSetCA ||| flRcBit ||| flSetOE),   -- subfmeox
   (200, flOutD ||| flInA ||| flReadCA ||| flSetCA ||| flRcBit),      -- subfzex
   (712, flOutD ||| flInA ||| flReadCA ||| flSetCA ||| flRcBit ||| flSetOE),   -- subfzeox
   (28, flOutA ||| flInSB ||| flRcBit),                               -- andx
   (60, flOutA ||| flInSB ||| flRcBit),                               -- andcx
   (444, flOutA ||| flInSB ||| flRcBit),                              -- orx
   (124, flOutA ||| flInSB ||| flRcBit),                              -- norx
   (316, flOutA ||| flInSB ||| flRcBit),                              -- xorx
   (412, flOutA ||| flInSB ||| flRcBit),                              -- orcx
   (476, flOutA ||| flInSB ||| flRcBit),                              -- nandx
   (284, flOutA ||| flInSB ||| flRcBit),                              -- eqvx
   (0, flInAB ||| flSetCRn),                                          -- cmp
   (32, flInAB ||| flSetCRn),                                         -- cmpl
   (26, flOutA ||| flInS ||| flRcBit),                                -- cntlzwx
   (922, flOutA ||| flInS ||| flRcBit),                               -- extshx
   (954, flOutA ||| flInS ||| flRcBit),                               -- extsbx
   (536, flOutA ||| flInSB ||| flRcBit),                              -- srwx
   (792, flOutA ||| flInSB ||| flSetCA ||| flRcBit),                  -- srawx
   (824, flOutA ||| flInS ||| flSetCA ||| flRcBit),                   -- srawix
   (24, flOutA ||| flInSB ||| flRcBit)]                               -- slwx

/-- `PPCTables::GetOpInfo(inst)->flags` for the integer instructions. -/
def integerFlags (inst : UGeckoInstruction) : Option InstructionFlags :=
  if inst.opcd = 31 then table31.lookup inst.subop10 else primaryTable.lookup inst.opcd

end Phocoena.Gekko
