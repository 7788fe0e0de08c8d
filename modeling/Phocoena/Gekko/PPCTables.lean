import Phocoena.Gekko.Instruction

/-! # The instruction tables

Every row of the tables that `GetOpInfo` looks an instruction up in, without the cycle counts.
-/

namespace Phocoena.Gekko

/-! ## More instruction flags -/

def flSetCR1 : InstructionFlags := 1 <<< 1
def flRcBitF : InstructionFlags := 1 <<< 6
def flEndBlock : InstructionFlags := 1 <<< 7
def flInC : InstructionFlags := 1 <<< 11
def flInA0B : InstructionFlags := flInA0 ||| flInB
def flTimer : InstructionFlags := 1 <<< 15
def flCheckExceptions : InstructionFlags := 1 <<< 16
def flNoReorder : InstructionFlags := 1 <<< 17
def flUseFPU : InstructionFlags := 1 <<< 18
def flLoadStore : InstructionFlags := 1 <<< 19
def flSetFPRF : InstructionFlags := 1 <<< 20
def flReadFPRF : InstructionFlags := 1 <<< 21
def flInFloatA : InstructionFlags := 1 <<< 23
def flInFloatB : InstructionFlags := 1 <<< 24
def flInFloatC : InstructionFlags := 1 <<< 25
def flInFloatS : InstructionFlags := 1 <<< 26
def flInFloatD : InstructionFlags := 1 <<< 27
def flInFloatAB : InstructionFlags := flInFloatA ||| flInFloatB
def flInFloatAC : InstructionFlags := flInFloatA ||| flInFloatC
def flInFloatABC : InstructionFlags := flInFloatA ||| flInFloatB ||| flInFloatC
def flOutFloatD : InstructionFlags := 1 <<< 28
def flInoutFloatD : InstructionFlags := flInFloatD ||| flOutFloatD
def flInFloatABitExact : InstructionFlags := 1 <<< 29
def flInFloatBBitExact : InstructionFlags := 1 <<< 30
def flInFloatCBitExact : InstructionFlags := 1 <<< 31
def flInFloatABBitExact : InstructionFlags := flInFloatABitExact ||| flInFloatBBitExact
def flInFloatBCBitExact : InstructionFlags := flInFloatBBitExact ||| flInFloatCBitExact
def flProgramException : InstructionFlags := 1 <<< 32
def flFloatException : InstructionFlags := 1 <<< 33
def flFloatDiv : InstructionFlags := 1 <<< 34
def flSetAllCR : InstructionFlags := 1 <<< 35
def flReadCRn : InstructionFlags := 1 <<< 36
def flReadCRBI : InstructionFlags := 1 <<< 37
def flReadAllCR : InstructionFlags := 1 <<< 38
def flSetMSR : InstructionFlags := 1 <<< 39

inductive OpType where
  | invalid
  | subtable
  | integer
  | cr
  | spr
  | system
  | systemFP
  | load
  | store
  | loadFP
  | storeFP
  | doubleFP
  | singleFP
  | loadPS
  | storePS
  | ps
  | dataCache
  | instructionCache
  | branch
  | unknown
  deriving DecidableEq

structure GekkoOPInfo where
  opname : String
  type : OpType
  flags : InstructionFlags
  deriving DecidableEq

def unknownOpInfo : GekkoOPInfo := ⟨"unknown_instruction", .unknown, flEndBlock⟩

/-- A row of a table: the opcode it stands at and what is there. -/
abbrev GekkoOPTemplate (w : Nat) : Type := BitVec w × GekkoOPInfo

/-- `s_primary_table`. -/
def primaryOps : List (GekkoOPTemplate 6) :=
  [(4, ⟨"RunTable4", .subtable, 0⟩),
   (19, ⟨"RunTable19", .subtable, 0⟩),
   (31, ⟨"RunTable31", .subtable, 0⟩),
   (59, ⟨"RunTable59", .subtable, 0⟩),
   (63, ⟨"RunTable63", .subtable, 0⟩),
   (16, ⟨"bcx", .branch, flEndBlock ||| flReadCRBI⟩),
   (18, ⟨"bx", .branch, flEndBlock⟩),
   (3, ⟨"twi", .system, flInA ||| flEndBlock⟩),
   (17, ⟨"sc", .system, flEndBlock⟩),
   (7, ⟨"mulli", .integer, flOutD ||| flInA⟩),
   (8, ⟨"subfic", .integer, flOutD ||| flInA ||| flSetCA⟩),
   (10, ⟨"cmpli", .integer, flInA ||| flSetCRn⟩),
   (11, ⟨"cmpi", .integer, flInA ||| flSetCRn⟩),
   (12, ⟨"addic", .integer, flOutD ||| flInA ||| flSetCA⟩),
   (13, ⟨"addic_rc", .integer, flOutD ||| flInA ||| flSetCA ||| flSetCR0⟩),
   (14, ⟨"addi", .integer, flOutD ||| flInA0⟩),
   (15, ⟨"addis", .integer, flOutD ||| flInA0⟩),
   (20, ⟨"rlwimix", .integer, flOutA ||| flInA ||| flInS ||| flRcBit⟩),
   (21, ⟨"rlwinmx", .integer, flOutA ||| flInS ||| flRcBit⟩),
   (23, ⟨"rlwnmx", .integer, flOutA ||| flInSB ||| flRcBit⟩),
   (24, ⟨"ori", .integer, flOutA ||| flInS⟩),
   (25, ⟨"oris", .integer, flOutA ||| flInS⟩),
   (26, ⟨"xori", .integer, flOutA ||| flInS⟩),
   (27, ⟨"xoris", .integer, flOutA ||| flInS⟩),
   (28, ⟨"andi_rc", .integer, flOutA ||| flInS ||| flSetCR0⟩),
   (29, ⟨"andis_rc", .integer, flOutA ||| flInS ||| flSetCR0⟩),
   (32, ⟨"lwz", .load, flOutD ||| flInA0 ||| flLoadStore⟩),
   (33, ⟨"lwzu", .load, flOutD ||| flOutA ||| flInA ||| flLoadStore⟩),
   (34, ⟨"lbz", .load, flOutD ||| flInA0 ||| flLoadStore⟩),
   (35, ⟨"lbzu", .load, flOutD ||| flOutA ||| flInA ||| flLoadStore⟩),
   (40, ⟨"lhz", .load, flOutD ||| flInA0 ||| flLoadStore⟩),
   (41, ⟨"lhzu", .load, flOutD ||| flOutA ||| flInA ||| flLoadStore⟩),
   (42, ⟨"lha", .load, flOutD ||| flInA0 ||| flLoadStore⟩),
   (43, ⟨"lhau", .load, flOutD ||| flOutA ||| flInA ||| flLoadStore⟩),
   (44, ⟨"sth", .store, flInA0 ||| flInS ||| flLoadStore⟩),
   (45, ⟨"sthu", .store, flOutA ||| flInA ||| flInS ||| flLoadStore⟩),
   (36, ⟨"stw", .store, flInA0 ||| flInS ||| flLoadStore⟩),
   (37, ⟨"stwu", .store, flOutA ||| flInA ||| flInS ||| flLoadStore⟩),
   (38, ⟨"stb", .store, flInA0 ||| flInS ||| flLoadStore⟩),
   (39, ⟨"stbu", .store, flOutA ||| flInA ||| flInS ||| flLoadStore⟩),
   (46, ⟨"lmw", .system, flInA0 ||| flLoadStore⟩),
   (47, ⟨"stmw", .system, flInA0 ||| flLoadStore⟩),
   (48, ⟨"lfs", .loadFP, flOutFloatD ||| flInA ||| flUseFPU ||| flLoadStore⟩),
   (49, ⟨"lfsu", .loadFP, flOutFloatD ||| flOutA ||| flInA ||| flUseFPU ||| flLoadStore⟩),
   (50, ⟨"lfd", .loadFP, flInoutFloatD ||| flInA ||| flUseFPU ||| flLoadStore⟩),
   (51, ⟨"lfdu", .loadFP, flInoutFloatD ||| flOutA ||| flInA ||| flUseFPU ||| flLoadStore⟩),
   (52, ⟨"stfs", .storeFP, flInFloatS ||| flInA0 ||| flUseFPU ||| flLoadStore⟩),
   (53, ⟨"stfsu", .storeFP, flInFloatS ||| flOutA ||| flInA ||| flUseFPU ||| flLoadStore⟩),
   (54, ⟨"stfd", .storeFP, flInFloatS ||| flInA0 ||| flUseFPU ||| flLoadStore⟩),
   (55, ⟨"stfdu", .storeFP, flInFloatS ||| flOutA ||| flInA ||| flUseFPU ||| flLoadStore⟩),
   (56, ⟨"psq_l", .loadPS,
      flOutFloatD ||| flInA0 ||| flUseFPU ||| flLoadStore ||| flProgramException⟩),
   (57, ⟨"psq_lu", .loadPS,
      flOutFloatD ||| flOutA ||| flInA ||| flUseFPU ||| flLoadStore ||| flProgramException⟩),
   (60, ⟨"psq_st", .storePS,
      flInFloatS ||| flInA0 ||| flUseFPU ||| flLoadStore ||| flProgramException⟩),
   (61, ⟨"psq_stu", .storePS,
      flInFloatS ||| flOutA ||| flInA ||| flUseFPU ||| flLoadStore ||| flProgramException⟩)]

/-- `s_table4`. -/
def table4 : List (GekkoOPTemplate 10) :=
  [(0, ⟨"ps_cmpu0", .ps,
      flInFloatAB ||| flSetCRn ||| flUseFPU ||| flReadFPRF ||| flSetFPRF ||| flProgramException |||
        flFloatException⟩),
   (32, ⟨"ps_cmpo0", .ps,
      flInFloatAB ||| flSetCRn ||| flUseFPU ||| flReadFPRF ||| flSetFPRF ||| flProgramException |||
        flFloatException⟩),
   (40, ⟨"ps_neg", .ps,
      flOutFloatD ||| flInFloatB ||| flInFloatBBitExact ||| flRcBitF ||| flUseFPU |||
        flProgramException⟩),
   (136, ⟨"ps_nabs", .ps,
      flOutFloatD ||| flInFloatB ||| flInFloatBBitExact ||| flRcBitF ||| flUseFPU |||
        flProgramException⟩),
   (264, ⟨"ps_abs", .ps,
      flOutFloatD ||| flInFloatB ||| flInFloatBBitExact ||| flRcBitF ||| flUseFPU |||
        flProgramException⟩),
   (64, ⟨"ps_cmpu1", .ps,
      flInFloatAB ||| flSetCRn ||| flUseFPU ||| flReadFPRF ||| flSetFPRF ||| flProgramException |||
        flFloatException⟩),
   (72, ⟨"ps_mr", .ps,
      flOutFloatD ||| flInFloatB ||| flInFloatBBitExact ||| flRcBitF ||| flUseFPU |||
        flProgramException⟩),
   (96, ⟨"ps_cmpo1", .ps,
      flInFloatAB ||| flSetCRn ||| flUseFPU ||| flReadFPRF ||| flSetFPRF ||| flProgramException |||
        flFloatException⟩),
   (528, ⟨"ps_merge00", .ps,
      flOutFloatD ||| flInFloatAB ||| flInFloatABBitExact ||| flRcBitF ||| flUseFPU |||
        flProgramException⟩),
   (560, ⟨"ps_merge01", .ps,
      flOutFloatD ||| flInFloatAB ||| flInFloatABBitExact ||| flRcBitF ||| flUseFPU |||
        flProgramException⟩),
   (592, ⟨"ps_merge10", .ps,
      flOutFloatD ||| flInFloatAB ||| flInFloatABBitExact ||| flRcBitF ||| flUseFPU |||
        flProgramException⟩),
   (624, ⟨"ps_merge11", .ps,
      flOutFloatD ||| flInFloatAB ||| flInFloatABBitExact ||| flRcBitF ||| flUseFPU |||
        flProgramException⟩),
   (1014, ⟨"dcbz_l", .system, flInA0B ||| flLoadStore ||| flProgramException⟩)]

/-- `s_table4_2`, indexed by the low five bits of `SUBOP10`. -/
def table4_2 : List (GekkoOPTemplate 5) :=
  [(10, ⟨"ps_sum0", .ps,
      flOutFloatD ||| flInFloatABC ||| flRcBitF ||| flUseFPU ||| flSetFPRF |||
        flProgramException ||| flFloatException⟩),
   (11, ⟨"ps_sum1", .ps,
      flOutFloatD ||| flInFloatABC ||| flRcBitF ||| flUseFPU ||| flSetFPRF |||
        flProgramException ||| flFloatException⟩),
   (12, ⟨"ps_muls0", .ps,
      flOutFloatD ||| flInFloatAC ||| flRcBitF ||| flUseFPU ||| flSetFPRF |||
        flProgramException ||| flFloatException⟩),
   (13, ⟨"ps_muls1", .ps,
      flOutFloatD ||| flInFloatAC ||| flRcBitF ||| flUseFPU ||| flSetFPRF |||
        flProgramException ||| flFloatException⟩),
   (14, ⟨"ps_madds0", .ps,
      flOutFloatD ||| flInFloatABC ||| flRcBitF ||| flUseFPU ||| flSetFPRF |||
        flProgramException ||| flFloatException⟩),
   (15, ⟨"ps_madds1", .ps,
      flOutFloatD ||| flInFloatABC ||| flRcBitF ||| flUseFPU ||| flSetFPRF |||
        flProgramException ||| flFloatException⟩),
   (18, ⟨"ps_div", .ps,
      flOutFloatD ||| flInFloatAB ||| flRcBitF ||| flUseFPU ||| flSetFPRF |||
        flProgramException ||| flFloatException ||| flFloatDiv⟩),
   (20, ⟨"ps_sub", .ps,
      flOutFloatD ||| flInFloatAB ||| flRcBitF ||| flUseFPU ||| flSetFPRF |||
        flProgramException ||| flFloatException⟩),
   (21, ⟨"ps_add", .ps,
      flOutFloatD ||| flInFloatAB ||| flRcBitF ||| flUseFPU ||| flSetFPRF |||
        flProgramException ||| flFloatException⟩),
   (23, ⟨"ps_sel", .ps,
      flOutFloatD ||| flInFloatABC ||| flInFloatBCBitExact ||| flRcBitF ||| flUseFPU |||
        flProgramException⟩),
   (24, ⟨"ps_res", .ps,
      flOutFloatD ||| flInFloatB ||| flRcBitF ||| flUseFPU ||| flSetFPRF ||| flProgramException |||
        flFloatException ||| flFloatDiv⟩),
   (25, ⟨"ps_mul", .ps,
      flOutFloatD ||| flInFloatAC ||| flRcBitF ||| flUseFPU ||| flSetFPRF |||
        flProgramException ||| flFloatException⟩),
   (26, ⟨"ps_rsqrte", .ps,
      flOutFloatD ||| flInFloatB ||| flRcBitF ||| flUseFPU ||| flSetFPRF ||| flProgramException |||
        flFloatException ||| flFloatDiv⟩),
   (28, ⟨"ps_msub", .ps,
      flOutFloatD ||| flInFloatABC ||| flRcBitF ||| flUseFPU ||| flSetFPRF |||
        flProgramException ||| flFloatException⟩),
   (29, ⟨"ps_madd", .ps,
      flOutFloatD ||| flInFloatABC ||| flRcBitF ||| flUseFPU ||| flSetFPRF |||
        flProgramException ||| flFloatException⟩),
   (30, ⟨"ps_nmsub", .ps,
      flOutFloatD ||| flInFloatABC ||| flRcBitF ||| flUseFPU ||| flSetFPRF |||
        flProgramException ||| flFloatException⟩),
   (31, ⟨"ps_nmadd", .ps,
      flOutFloatD ||| flInFloatABC ||| flRcBitF ||| flUseFPU ||| flSetFPRF |||
        flProgramException ||| flFloatException⟩)]

/-- `s_table4_3`, indexed by the low six bits of `SUBOP10`. -/
def table4_3 : List (GekkoOPTemplate 6) :=
  [(6, ⟨"psq_lx", .loadPS, flOutFloatD ||| flInA0B ||| flUseFPU ||| flLoadStore⟩),
   (7, ⟨"psq_stx", .storePS, flInFloatS ||| flInA0B ||| flUseFPU ||| flLoadStore⟩),
   (38, ⟨"psq_lux", .loadPS, flOutFloatD ||| flOutA ||| flInAB ||| flUseFPU ||| flLoadStore⟩),
   (39, ⟨"psq_stux", .storePS, flInFloatS ||| flOutA ||| flInAB ||| flUseFPU ||| flLoadStore⟩)]

/-- `s_table19`. -/
def table19 : List (GekkoOPTemplate 10) :=
  [(528, ⟨"bcctrx", .branch, flEndBlock ||| flReadCRBI⟩),
   (16, ⟨"bclrx", .branch, flEndBlock ||| flReadCRBI⟩),
   (257, ⟨"crand", .cr, 0⟩),
   (129, ⟨"crandc", .cr, 0⟩),
   (289, ⟨"creqv", .cr, 0⟩),
   (225, ⟨"crnand", .cr, 0⟩),
   (33, ⟨"crnor", .cr, 0⟩),
   (449, ⟨"cror", .cr, 0⟩),
   (417, ⟨"crorc", .cr, 0⟩),
   (193, ⟨"crxor", .cr, 0⟩),
   (150, ⟨"isync", .instructionCache, flNoReorder⟩),
   (0, ⟨"mcrf", .system, flSetCRn ||| flReadCRn⟩),
   (50, ⟨"rfi", .system, flEndBlock ||| flCheckExceptions ||| flProgramException ||| flSetMSR⟩)]

/-- `s_table31`. -/
def table31Ops : List (GekkoOPTemplate 10) :=
  [(266, ⟨"addx", .integer, flOutD ||| flInAB ||| flRcBit⟩),
   (778, ⟨"addox", .integer, flOutD ||| flInAB ||| flRcBit ||| flSetOE⟩),
   (10, ⟨"addcx", .integer, flOutD ||| flInAB ||| flSetCA ||| flRcBit⟩),
   (522, ⟨"addcox", .integer, flOutD ||| flInAB ||| flSetCA ||| flRcBit ||| flSetOE⟩),
   (138, ⟨"addex", .integer, flOutD ||| flInAB ||| flReadCA ||| flSetCA ||| flRcBit⟩),
   (650, ⟨"addeox", .integer, flOutD ||| flInAB ||| flReadCA ||| flSetCA ||| flRcBit ||| flSetOE⟩),
   (234, ⟨"addmex", .integer, flOutD ||| flInA ||| flReadCA ||| flSetCA ||| flRcBit⟩),
   (746, ⟨"addmeox", .integer, flOutD ||| flInA ||| flReadCA ||| flSetCA ||| flRcBit ||| flSetOE⟩),
   (202, ⟨"addzex", .integer, flOutD ||| flInA ||| flReadCA ||| flSetCA ||| flRcBit⟩),
   (714, ⟨"addzeox", .integer, flOutD ||| flInA ||| flReadCA ||| flSetCA ||| flRcBit ||| flSetOE⟩),
   (491, ⟨"divwx", .integer, flOutD ||| flInAB ||| flRcBit⟩),
   (1003, ⟨"divwox", .integer, flOutD ||| flInAB ||| flRcBit ||| flSetOE⟩),
   (459, ⟨"divwux", .integer, flOutD ||| flInAB ||| flRcBit⟩),
   (971, ⟨"divwuox", .integer, flOutD ||| flInAB ||| flRcBit ||| flSetOE⟩),
   (75, ⟨"mulhwx", .integer, flOutD ||| flInAB ||| flRcBit⟩),
   (11, ⟨"mulhwux", .integer, flOutD ||| flInAB ||| flRcBit⟩),
   (235, ⟨"mullwx", .integer, flOutD ||| flInAB ||| flRcBit⟩),
   (747, ⟨"mullwox", .integer, flOutD ||| flInAB ||| flRcBit ||| flSetOE⟩),
   (104, ⟨"negx", .integer, flOutD ||| flInA ||| flRcBit⟩),
   (616, ⟨"negox", .integer, flOutD ||| flInA ||| flRcBit ||| flSetOE⟩),
   (40, ⟨"subfx", .integer, flOutD ||| flInAB ||| flRcBit⟩),
   (552, ⟨"subfox", .integer, flOutD ||| flInAB ||| flRcBit ||| flSetOE⟩),
   (8, ⟨"subfcx", .integer, flOutD ||| flInAB ||| flSetCA ||| flRcBit⟩),
   (520, ⟨"subfcox", .integer, flOutD ||| flInAB ||| flSetCA ||| flRcBit ||| flSetOE⟩),
   (136, ⟨"subfex", .integer, flOutD ||| flInAB ||| flReadCA ||| flSetCA ||| flRcBit⟩),
   (648, ⟨"subfeox", .integer, flOutD ||| flInAB ||| flReadCA ||| flSetCA ||| flRcBit ||| flSetOE⟩),
   (232, ⟨"subfmex", .integer, flOutD ||| flInA ||| flReadCA ||| flSetCA ||| flRcBit⟩),
   (744, ⟨"subfmeox", .integer, flOutD ||| flInA ||| flReadCA ||| flSetCA ||| flRcBit ||| flSetOE⟩),
   (200, ⟨"subfzex", .integer, flOutD ||| flInA ||| flReadCA ||| flSetCA ||| flRcBit⟩),
   (712, ⟨"subfzeox", .integer, flOutD ||| flInA ||| flReadCA ||| flSetCA ||| flRcBit ||| flSetOE⟩),
   (28, ⟨"andx", .integer, flOutA ||| flInSB ||| flRcBit⟩),
   (60, ⟨"andcx", .integer, flOutA ||| flInSB ||| flRcBit⟩),
   (444, ⟨"orx", .integer, flOutA ||| flInSB ||| flRcBit⟩),
   (124, ⟨"norx", .integer, flOutA ||| flInSB ||| flRcBit⟩),
   (316, ⟨"xorx", .integer, flOutA ||| flInSB ||| flRcBit⟩),
   (412, ⟨"orcx", .integer, flOutA ||| flInSB ||| flRcBit⟩),
   (476, ⟨"nandx", .integer, flOutA ||| flInSB ||| flRcBit⟩),
   (284, ⟨"eqvx", .integer, flOutA ||| flInSB ||| flRcBit⟩),
   (0, ⟨"cmp", .integer, flInAB ||| flSetCRn⟩),
   (32, ⟨"cmpl", .integer, flInAB ||| flSetCRn⟩),
   (26, ⟨"cntlzwx", .integer, flOutA ||| flInS ||| flRcBit⟩),
   (922, ⟨"extshx", .integer, flOutA ||| flInS ||| flRcBit⟩),
   (954, ⟨"extsbx", .integer, flOutA ||| flInS ||| flRcBit⟩),
   (536, ⟨"srwx", .integer, flOutA ||| flInSB ||| flRcBit⟩),
   (792, ⟨"srawx", .integer, flOutA ||| flInSB ||| flSetCA ||| flRcBit⟩),
   (824, ⟨"srawix", .integer, flOutA ||| flInS ||| flSetCA ||| flRcBit⟩),
   (24, ⟨"slwx", .integer, flOutA ||| flInSB ||| flRcBit⟩),
   (54, ⟨"dcbst", .dataCache, flInA0B ||| flLoadStore⟩),
   (86, ⟨"dcbf", .dataCache, flInA0B ||| flLoadStore⟩),
   (246, ⟨"dcbtst", .dataCache, 0⟩),
   (278, ⟨"dcbt", .dataCache, 0⟩),
   (470, ⟨"dcbi", .dataCache, flInA0B ||| flLoadStore ||| flProgramException⟩),
   (758, ⟨"dcba", .dataCache, 0⟩),
   (1014, ⟨"dcbz", .dataCache, flInA0B ||| flLoadStore⟩),
   (23, ⟨"lwzx", .load, flOutD ||| flInA0B ||| flLoadStore⟩),
   (55, ⟨"lwzux", .load, flOutD ||| flOutA ||| flInAB ||| flLoadStore⟩),
   (279, ⟨"lhzx", .load, flOutD ||| flInA0B ||| flLoadStore⟩),
   (311, ⟨"lhzux", .load, flOutD ||| flOutA ||| flInAB ||| flLoadStore⟩),
   (343, ⟨"lhax", .load, flOutD ||| flInA0B ||| flLoadStore⟩),
   (375, ⟨"lhaux", .load, flOutD ||| flOutA ||| flInAB ||| flLoadStore⟩),
   (87, ⟨"lbzx", .load, flOutD ||| flInA0B ||| flLoadStore⟩),
   (119, ⟨"lbzux", .load, flOutD ||| flOutA ||| flInAB ||| flLoadStore⟩),
   (534, ⟨"lwbrx", .load, flOutD ||| flInA0B ||| flLoadStore⟩),
   (790, ⟨"lhbrx", .load, flOutD ||| flInA0B ||| flLoadStore⟩),
   (150, ⟨"stwcxd", .store, flInS ||| flInA0B ||| flSetCR0 ||| flLoadStore⟩),
   (20, ⟨"lwarx", .load, flOutD ||| flInA0B ||| flSetCR0 ||| flLoadStore⟩),
   (533, ⟨"lswx", .load, flInA0B ||| flOutD ||| flLoadStore⟩),
   (597, ⟨"lswi", .load, flInA0 ||| flOutD ||| flLoadStore⟩),
   (151, ⟨"stwx", .store, flInS ||| flInA0B ||| flLoadStore⟩),
   (183, ⟨"stwux", .store, flInS ||| flOutA ||| flInAB ||| flLoadStore⟩),
   (407, ⟨"sthx", .store, flInS ||| flInA0B ||| flLoadStore⟩),
   (439, ⟨"sthux", .store, flInS ||| flOutA ||| flInAB ||| flLoadStore⟩),
   (215, ⟨"stbx", .store, flInS ||| flInA0B ||| flLoadStore⟩),
   (247, ⟨"stbux", .store, flInS ||| flOutA ||| flInAB ||| flLoadStore⟩),
   (662, ⟨"stwbrx", .store, flInS ||| flInA0B ||| flLoadStore⟩),
   (918, ⟨"sthbrx", .store, flInS ||| flInA0B ||| flLoadStore⟩),
   (661, ⟨"stswx", .store, flInA0B ||| flLoadStore⟩),
   (725, ⟨"stswi", .store, flInA0 ||| flLoadStore⟩),
   (535, ⟨"lfsx", .loadFP, flOutFloatD ||| flInA0B ||| flUseFPU ||| flLoadStore⟩),
   (567, ⟨"lfsux", .loadFP, flOutFloatD ||| flInAB ||| flOutA ||| flUseFPU ||| flLoadStore⟩),
   (599, ⟨"lfdx", .loadFP, flInoutFloatD ||| flInA0B ||| flUseFPU ||| flLoadStore⟩),
   (631, ⟨"lfdux", .loadFP, flInoutFloatD ||| flInAB ||| flOutA ||| flUseFPU ||| flLoadStore⟩),
   (663, ⟨"stfsx", .storeFP, flInFloatS ||| flInA0B ||| flUseFPU ||| flLoadStore⟩),
   (695, ⟨"stfsux", .storeFP, flInFloatS ||| flInAB ||| flOutA ||| flUseFPU ||| flLoadStore⟩),
   (727, ⟨"stfdx", .storeFP, flInFloatS ||| flInA0B ||| flUseFPU ||| flLoadStore⟩),
   (759, ⟨"stfdux", .storeFP, flInFloatS ||| flInAB ||| flOutA ||| flUseFPU ||| flLoadStore⟩),
   (983, ⟨"stfiwx", .storeFP, flInFloatS ||| flInA0B ||| flUseFPU ||| flLoadStore⟩),
   (19, ⟨"mfcr", .system, flOutD ||| flReadAllCR⟩),
   (83, ⟨"mfmsr", .system, flOutD ||| flProgramException⟩),
   (144, ⟨"mtcrf", .system, flInS ||| flSetAllCR ||| flReadAllCR⟩),
   (146, ⟨"mtmsr", .system,
      flInS ||| flEndBlock ||| flProgramException ||| flFloatException ||| flSetMSR⟩),
   (210, ⟨"mtsr", .system, flInS ||| flProgramException⟩),
   (242, ⟨"mtsrin", .system, flInSB ||| flProgramException⟩),
   (339, ⟨"mfspr", .spr, flOutD ||| flProgramException⟩),
   (467, ⟨"mtspr", .spr, flInS ||| flEndBlock ||| flProgramException⟩),
   (371, ⟨"mftb", .system, flOutD ||| flTimer ||| flProgramException⟩),
   (512, ⟨"mcrxr", .system, flSetCRn ||| flReadCA ||| flSetCA⟩),
   (595, ⟨"mfsr", .system, flOutD ||| flProgramException⟩),
   (659, ⟨"mfsrin", .system, flOutD ||| flInB ||| flProgramException⟩),
   (4, ⟨"tw", .system, flInAB ||| flEndBlock⟩),
   (598, ⟨"sync", .system, 0⟩),
   (982, ⟨"icbi", .system, flInA0B ||| flEndBlock ||| flLoadStore⟩),
   (310, ⟨"eciwx", .system, flInA0B ||| flOutD ||| flLoadStore⟩),
   (438, ⟨"ecowx", .system, flInA0B ||| flInS ||| flLoadStore⟩),
   (854, ⟨"eieio", .system, 0⟩),
   (306, ⟨"tlbie", .system, flInB ||| flProgramException⟩),
   (566, ⟨"tlbsync", .system, flProgramException⟩)]

/-- `s_table59`. -/
def table59 : List (GekkoOPTemplate 5) :=
  [(18, ⟨"fdivsx", .singleFP,
      flOutFloatD ||| flInFloatAB ||| flRcBitF ||| flUseFPU ||| flSetFPRF ||| flFloatException |||
        flFloatDiv⟩),
   (20, ⟨"fsubsx", .singleFP,
      flOutFloatD ||| flInFloatAB ||| flRcBitF ||| flUseFPU ||| flSetFPRF ||| flFloatException⟩),
   (21, ⟨"faddsx", .singleFP,
      flOutFloatD ||| flInFloatAB ||| flRcBitF ||| flUseFPU ||| flSetFPRF ||| flFloatException⟩),
   (24, ⟨"fresx", .singleFP,
      flOutFloatD ||| flInFloatB ||| flRcBitF ||| flUseFPU ||| flSetFPRF ||| flFloatException |||
        flFloatDiv⟩),
   (25, ⟨"fmulsx", .singleFP,
      flOutFloatD ||| flInFloatAC ||| flRcBitF ||| flUseFPU ||| flSetFPRF ||| flFloatException⟩),
   (28, ⟨"fmsubsx", .singleFP,
      flOutFloatD ||| flInFloatABC ||| flRcBitF ||| flUseFPU ||| flSetFPRF ||| flFloatException⟩),
   (29, ⟨"fmaddsx", .singleFP,
      flOutFloatD ||| flInFloatABC ||| flRcBitF ||| flUseFPU ||| flSetFPRF ||| flFloatException⟩),
   (30, ⟨"fnmsubsx", .singleFP,
      flOutFloatD ||| flInFloatABC ||| flRcBitF ||| flUseFPU ||| flSetFPRF ||| flFloatException⟩),
   (31, ⟨"fnmaddsx", .singleFP,
      flOutFloatD ||| flInFloatABC ||| flRcBitF ||| flUseFPU ||| flSetFPRF ||| flFloatException⟩)]

/-- `s_table63`. -/
def table63 : List (GekkoOPTemplate 10) :=
  [(264, ⟨"fabsx", .doubleFP,
      flInoutFloatD ||| flInFloatB ||| flInFloatBBitExact ||| flRcBitF ||| flUseFPU⟩),
   (32, ⟨"fcmpo", .doubleFP,
      flInFloatAB ||| flSetCRn ||| flUseFPU ||| flReadFPRF ||| flSetFPRF ||| flFloatException⟩),
   (0, ⟨"fcmpu", .doubleFP,
      flInFloatAB ||| flSetCRn ||| flUseFPU ||| flReadFPRF ||| flSetFPRF ||| flFloatException⟩),
   (14, ⟨"fctiwx", .doubleFP,
      flInoutFloatD ||| flInFloatB ||| flRcBitF ||| flUseFPU ||| flFloatException⟩),
   (15, ⟨"fctiwzx", .doubleFP,
      flInoutFloatD ||| flInFloatB ||| flRcBitF ||| flUseFPU ||| flFloatException⟩),
   (72, ⟨"fmrx", .doubleFP,
      flInoutFloatD ||| flInFloatB ||| flInFloatBBitExact ||| flRcBitF ||| flUseFPU⟩),
   (136, ⟨"fnabsx", .doubleFP,
      flInoutFloatD ||| flInFloatB ||| flRcBitF ||| flInFloatBBitExact ||| flUseFPU⟩),
   (40, ⟨"fnegx", .doubleFP,
      flInoutFloatD ||| flInFloatB ||| flRcBitF ||| flInFloatBBitExact ||| flUseFPU⟩),
   (12, ⟨"frspx", .doubleFP,
      flOutFloatD ||| flInFloatB ||| flRcBitF ||| flUseFPU ||| flSetFPRF ||| flFloatException⟩),
   (64, ⟨"mcrfs", .systemFP, flSetCRn ||| flUseFPU ||| flReadFPRF⟩),
   (583, ⟨"mffsx", .systemFP, flRcBitF ||| flInoutFloatD ||| flUseFPU ||| flReadFPRF⟩),
   (70, ⟨"mtfsb0x", .systemFP, flRcBitF ||| flUseFPU ||| flReadFPRF ||| flSetFPRF⟩),
   (38, ⟨"mtfsb1x", .systemFP,
      flRcBitF ||| flUseFPU ||| flReadFPRF ||| flSetFPRF ||| flFloatException⟩),
   (134, ⟨"mtfsfix", .systemFP,
      flRcBitF ||| flUseFPU ||| flReadFPRF ||| flSetFPRF ||| flFloatException⟩),
   (711, ⟨"mtfsfx", .systemFP,
      flRcBitF ||| flInFloatB ||| flUseFPU ||| flReadFPRF ||| flSetFPRF ||| flFloatException⟩)]

/-- `s_table63_2`, indexed by the low five bits of `SUBOP10`. -/
def table63_2 : List (GekkoOPTemplate 5) :=
  [(18, ⟨"fdivx", .doubleFP,
      flInoutFloatD ||| flInFloatAB ||| flRcBitF ||| flUseFPU ||| flSetFPRF |||
        flFloatException ||| flFloatDiv⟩),
   (20, ⟨"fsubx", .doubleFP,
      flInoutFloatD ||| flInFloatAB ||| flRcBitF ||| flUseFPU ||| flSetFPRF ||| flFloatException⟩),
   (21, ⟨"faddx", .doubleFP,
      flInoutFloatD ||| flInFloatAB ||| flRcBitF ||| flUseFPU ||| flSetFPRF ||| flFloatException⟩),
   (23, ⟨"fselx", .doubleFP,
      flInoutFloatD ||| flInFloatABC ||| flInFloatBCBitExact ||| flRcBitF ||| flUseFPU⟩),
   (25, ⟨"fmulx", .doubleFP,
      flInoutFloatD ||| flInFloatAC ||| flRcBitF ||| flUseFPU ||| flSetFPRF ||| flFloatException⟩),
   (26, ⟨"frsqrtex", .doubleFP,
      flInoutFloatD ||| flInFloatB ||| flRcBitF ||| flUseFPU ||| flSetFPRF ||| flFloatException |||
        flFloatDiv⟩),
   (28, ⟨"fmsubx", .doubleFP,
      flInoutFloatD ||| flInFloatABC ||| flRcBitF ||| flUseFPU ||| flSetFPRF |||
        flFloatException⟩),
   (29, ⟨"fmaddx", .doubleFP,
      flInoutFloatD ||| flInFloatABC ||| flRcBitF ||| flUseFPU ||| flSetFPRF |||
        flFloatException⟩),
   (30, ⟨"fnmsubx", .doubleFP,
      flInoutFloatD ||| flInFloatABC ||| flRcBitF ||| flUseFPU ||| flSetFPRF |||
        flFloatException⟩),
   (31, ⟨"fnmaddx", .doubleFP,
      flInoutFloatD ||| flInFloatABC ||| flRcBitF ||| flUseFPU ||| flSetFPRF |||
        flFloatException⟩)]

/-- The row for an opcode, if there is one. -/
def lookUp {w : Nat} (table : List (GekkoOPTemplate w)) (op : BitVec w) : Option GekkoOPInfo :=
  table.lookup op

/-- `PPCTables::GetOpInfo`. The rows of `table4_2`, `table4_3` and `table63_2` stand at every
opcode that ends in theirs; no opcode has two rows. -/
def getOpInfo (inst : UGeckoInstruction) : GekkoOPInfo :=
  let low5 := inst.subop10.setWidth 5
  let low6 := inst.subop10.setWidth 6
  let found :=
    if inst.opcd = 4 then
      (lookUp table4_2 low5).or ((lookUp table4_3 low6).or (lookUp table4 inst.subop10))
    else if inst.opcd = 19 then lookUp table19 inst.subop10
    else if inst.opcd = 31 then lookUp table31Ops inst.subop10
    else if inst.opcd = 59 then lookUp table59 low5
    else if inst.opcd = 63 then (lookUp table63 inst.subop10).or (lookUp table63_2 low5)
    else lookUp primaryOps inst.opcd
  found.getD unknownOpInfo

end Phocoena.Gekko
