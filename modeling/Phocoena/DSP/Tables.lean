import Phocoena.DSP.LoadStore

/-! # Instruction tables of the DSP

An instruction is the first row of its table that its word matches. The words of the flow of
control have rows without an instruction here.
-/

namespace Phocoena.DSP

inductive Op where
  | nop | dar | iar | subarn | addarn | sbclr | sbset | lsl | lsr | asl | asr | lsrn | asrn | lri
  | lr | sr | mrr | si | addis | cmpis | lris | addi | xori | andi | ori | cmpi | andf | andcf
  | ilrr | ilrrd | ilrri | ilrrn | lrr | lrrd | lrri | lrrn | srr | srrd | srri | srrn | lrs | srsh
  | srs | xorr | andr | orr | andc | orc | xorc | notc | lsrnrx | asrnrx | lsrnr | asrnr | addr
  | addax | add | addp | subr | subax | sub | subp | movr | movax | mov | movp | addaxl | incm
  | inc | decm | dec | neg | movnp | nx | clr | cmp | mulaxh | clrp | tstprod | tstaxh | srbith
  | mul | asr16 | mulmvz | mulac | mulmv | mulx | abs | mulxmvz | mulxac | mulxmv | tst | mulc
  | cmpaxh | mulcmvz | mulcac | mulcmv | maddx | msubx | maddc | msubc | lsl16 | madd | lsr16
  | msub | addpaxz | clrl | movpz
deriving DecidableEq

inductive ExtOp where
  | nop_ext | dr | ir | nr | mv | s | sn | l | ln | ls | sl | lsn | sln | lsm | slm | lsnm | slnm
  | ldax | ldaxn | ldaxm | ldaxnm | ld | ldn | ldm | ldnm

/-- Opcode, mask and function; `none` is a jump, a call, a return, a loop or a halt. -/
def s_opcodes : List (BitVec 16 × BitVec 16 × Option Op) :=
  [(0x0000, 0xfffc, some .nop), (0x0004, 0xfffc, some .dar), (0x0008, 0xfffc, some .iar),
   (0x000c, 0xfffc, some .subarn), (0x0010, 0xfff0, some .addarn), (0x0021, 0xffff, none),
   (0x02d0, 0xfff0, none), (0x02f0, 0xfff0, none), (0x02b0, 0xfff0, none), (0x0270, 0xfff0, none),
   (0x0290, 0xfff0, none), (0x1700, 0xff10, none), (0x1710, 0xff10, none),
   (0x1200, 0xff00, some .sbclr), (0x1300, 0xff00, some .sbset), (0x1400, 0xfec0, some .lsl),
   (0x1440, 0xfec0, some .lsr), (0x1480, 0xfec0, some .asl), (0x14c0, 0xfec0, some .asr),
   (0x02ca, 0xffff, some .lsrn), (0x02cb, 0xffff, some .asrn), (0x0080, 0xffe0, some .lri),
   (0x00c0, 0xffe0, some .lr), (0x00e0, 0xffe0, some .sr), (0x1c00, 0xfc00, some .mrr),
   (0x1600, 0xff00, some .si), (0x0400, 0xfe00, some .addis), (0x0600, 0xfe00, some .cmpis),
   (0x0800, 0xf800, some .lris), (0x0200, 0xfeff, some .addi), (0x0220, 0xfeff, some .xori),
   (0x0240, 0xfeff, some .andi), (0x0260, 0xfeff, some .ori), (0x0280, 0xfeff, some .cmpi),
   (0x02a0, 0xfeff, some .andf), (0x02c0, 0xfeff, some .andcf), (0x0210, 0xfefc, some .ilrr),
   (0x0214, 0xfefc, some .ilrrd), (0x0218, 0xfefc, some .ilrri), (0x021c, 0xfefc, some .ilrrn),
   (0x0040, 0xffe0, none), (0x0060, 0xffe0, none), (0x1000, 0xff00, none), (0x1100, 0xff00, none),
   (0x1800, 0xff80, some .lrr), (0x1880, 0xff80, some .lrrd), (0x1900, 0xff80, some .lrri),
   (0x1980, 0xff80, some .lrrn), (0x1a00, 0xff80, some .srr), (0x1a80, 0xff80, some .srrd),
   (0x1b00, 0xff80, some .srri), (0x1b80, 0xff80, some .srrn), (0x2000, 0xf800, some .lrs),
   (0x2800, 0xfe00, some .srsh), (0x2c00, 0xfc00, some .srs), (0x3000, 0xfc80, some .xorr),
   (0x3400, 0xfc80, some .andr), (0x3800, 0xfc80, some .orr), (0x3c00, 0xfe80, some .andc),
   (0x3e00, 0xfe80, some .orc), (0x3080, 0xfe80, some .xorc), (0x3280, 0xfe80, some .notc),
   (0x3480, 0xfc80, some .lsrnrx), (0x3880, 0xfc80, some .asrnrx), (0x3c80, 0xfe80, some .lsrnr),
   (0x3e80, 0xfe80, some .asrnr), (0x4000, 0xf800, some .addr), (0x4800, 0xfc00, some .addax),
   (0x4c00, 0xfe00, some .add), (0x4e00, 0xfe00, some .addp), (0x5000, 0xf800, some .subr),
   (0x5800, 0xfc00, some .subax), (0x5c00, 0xfe00, some .sub), (0x5e00, 0xfe00, some .subp),
   (0x6000, 0xf800, some .movr), (0x6800, 0xfc00, some .movax), (0x6c00, 0xfe00, some .mov),
   (0x6e00, 0xfe00, some .movp), (0x7000, 0xfc00, some .addaxl), (0x7400, 0xfe00, some .incm),
   (0x7600, 0xfe00, some .inc), (0x7800, 0xfe00, some .decm), (0x7a00, 0xfe00, some .dec),
   (0x7c00, 0xfe00, some .neg), (0x7e00, 0xfe00, some .movnp), (0x8000, 0xf700, some .nx),
   (0x8100, 0xf700, some .clr), (0x8200, 0xff00, some .cmp), (0x8300, 0xff00, some .mulaxh),
   (0x8400, 0xff00, some .clrp), (0x8500, 0xff00, some .tstprod), (0x8600, 0xfe00, some .tstaxh),
   (0x8a00, 0xff00, some .srbith), (0x8b00, 0xff00, some .srbith), (0x8c00, 0xff00, some .srbith),
   (0x8d00, 0xff00, some .srbith), (0x8e00, 0xff00, some .srbith), (0x8f00, 0xff00, some .srbith),
   (0x9000, 0xf700, some .mul), (0x9100, 0xf700, some .asr16), (0x9200, 0xf600, some .mulmvz),
   (0x9400, 0xf600, some .mulac), (0x9600, 0xf600, some .mulmv), (0xa000, 0xe700, some .mulx),
   (0xa100, 0xf700, some .abs), (0xa200, 0xe600, some .mulxmvz), (0xa400, 0xe600, some .mulxac),
   (0xa600, 0xe600, some .mulxmv), (0xb100, 0xf700, some .tst), (0xc000, 0xe700, some .mulc),
   (0xc100, 0xe700, some .cmpaxh), (0xc200, 0xe600, some .mulcmvz), (0xc400, 0xe600, some .mulcac),
   (0xc600, 0xe600, some .mulcmv), (0xe000, 0xfc00, some .maddx), (0xe400, 0xfc00, some .msubx),
   (0xe800, 0xfc00, some .maddc), (0xec00, 0xfc00, some .msubc), (0xf000, 0xfe00, some .lsl16),
   (0xf200, 0xfe00, some .madd), (0xf400, 0xfe00, some .lsr16), (0xf600, 0xfe00, some .msub),
   (0xf800, 0xfc00, some .addpaxz), (0xfc00, 0xfe00, some .clrl), (0xfe00, 0xfe00, some .movpz)]

def s_opcodes_ext : List (BitVec 16 × BitVec 16 × ExtOp) :=
  [(0x0000, 0x00fc, .nop_ext), (0x0004, 0x00fc, .dr), (0x0008, 0x00fc, .ir), (0x000c, 0x00fc, .nr),
   (0x0010, 0x00f0, .mv), (0x0020, 0x00e4, .s), (0x0024, 0x00e4, .sn), (0x0040, 0x00c4, .l),
   (0x0044, 0x00c4, .ln), (0x0080, 0x00ce, .ls), (0x0082, 0x00ce, .sl), (0x0084, 0x00ce, .lsn),
   (0x0086, 0x00ce, .sln), (0x0088, 0x00ce, .lsm), (0x008a, 0x00ce, .slm), (0x008c, 0x00ce, .lsnm),
   (0x008e, 0x00ce, .slnm), (0x00c3, 0x00cf, .ldax), (0x00c7, 0x00cf, .ldaxn),
   (0x00cb, 0x00cf, .ldaxm), (0x00cf, 0x00cf, .ldaxnm), (0x00c0, 0x00cc, .ld),
   (0x00c4, 0x00cc, .ldn), (0x00c8, 0x00cc, .ldm), (0x00cc, 0x00cc, .ldnm)]

def FindByOpcode {α : Type} (opcode : BitVec 16) (data : List (BitVec 16 × BitVec 16 × α)) :
    Option α :=
  (data.find? fun info => opcode &&& info.2.1 == info.1).map fun info => info.2.2

/-- Words without a row do nothing. -/
def GetOp (inst : BitVec 16) : Option Op := (FindByOpcode inst s_opcodes).getD (some .nop)

/-- The words from `0x3000` have an extension of 7 bits, later ones of 8. -/
def GetExtOp (inst : BitVec 16) : ExtOp :=
  let ext := if inst >>> 12 == 3 then inst &&& 0x7f else inst &&& 0xff
  (FindByOpcode ext s_opcodes_ext).getD .nop_ext

/-- The `extended` column of the instruction's template. -/
def Op.extended : Op → Bool
  | nop | dar | iar | subarn | addarn | sbclr | sbset | lsl | lsr | asl | asr | lsrn | asrn | lri
  | lr | sr | mrr | si | addis | cmpis | lris | addi | xori | andi | ori | cmpi | andf | andcf
  | ilrr | ilrrd | ilrri | ilrrn | lrr | lrrd | lrri | lrrn | srr | srrd | srri | srrn | lrs | srsh
  | srs => false
  | _ => true

section
variable {M : Type} (bus : Bus M)

def Op.run : Op → BitVec 16 → State M → State M
  | .nop => Interpreter.nop
  | .dar => Interpreter.dar
  | .iar => Interpreter.iar
  | .subarn => Interpreter.subarn
  | .addarn => Interpreter.addarn
  | .sbclr => Interpreter.sbclr
  | .sbset => Interpreter.sbset
  | .lsl => Interpreter.lsl
  | .lsr => Interpreter.lsr
  | .asl => Interpreter.asl
  | .asr => Interpreter.asr
  | .lsrn => Interpreter.lsrn
  | .asrn => Interpreter.asrn
  | .lri => Interpreter.lri bus
  | .lr => Interpreter.lr bus
  | .sr => Interpreter.sr bus
  | .mrr => Interpreter.mrr
  | .si => Interpreter.si bus
  | .addis => Interpreter.addis
  | .cmpis => Interpreter.cmpis
  | .lris => Interpreter.lris
  | .addi => Interpreter.addi bus
  | .xori => Interpreter.xori bus
  | .andi => Interpreter.andi bus
  | .ori => Interpreter.ori bus
  | .cmpi => Interpreter.cmpi bus
  | .andf => Interpreter.andf bus
  | .andcf => Interpreter.andcf bus
  | .ilrr => Interpreter.ilrr bus
  | .ilrrd => Interpreter.ilrrd bus
  | .ilrri => Interpreter.ilrri bus
  | .ilrrn => Interpreter.ilrrn bus
  | .lrr => Interpreter.lrr bus
  | .lrrd => Interpreter.lrrd bus
  | .lrri => Interpreter.lrri bus
  | .lrrn => Interpreter.lrrn bus
  | .srr => Interpreter.srr bus
  | .srrd => Interpreter.srrd bus
  | .srri => Interpreter.srri bus
  | .srrn => Interpreter.srrn bus
  | .lrs => Interpreter.lrs bus
  | .srsh => Interpreter.srsh bus
  | .srs => Interpreter.srs bus
  | .xorr => Interpreter.xorr
  | .andr => Interpreter.andr
  | .orr => Interpreter.orr
  | .andc => Interpreter.andc
  | .orc => Interpreter.orc
  | .xorc => Interpreter.xorc
  | .notc => Interpreter.notc
  | .lsrnrx => Interpreter.lsrnrx
  | .asrnrx => Interpreter.asrnrx
  | .lsrnr => Interpreter.lsrnr
  | .asrnr => Interpreter.asrnr
  | .addr => Interpreter.addr
  | .addax => Interpreter.addax
  | .add => Interpreter.add
  | .addp => Interpreter.addp
  | .subr => Interpreter.subr
  | .subax => Interpreter.subax
  | .sub => Interpreter.sub
  | .subp => Interpreter.subp
  | .movr => Interpreter.movr
  | .movax => Interpreter.movax
  | .mov => Interpreter.mov
  | .movp => Interpreter.movp
  | .addaxl => Interpreter.addaxl
  | .incm => Interpreter.incm
  | .inc => Interpreter.inc
  | .decm => Interpreter.decm
  | .dec => Interpreter.dec
  | .neg => Interpreter.neg
  | .movnp => Interpreter.movnp
  | .nx => Interpreter.nx
  | .clr => Interpreter.clr
  | .cmp => Interpreter.cmp
  | .mulaxh => Interpreter.mulaxh
  | .clrp => Interpreter.clrp
  | .tstprod => Interpreter.tstprod
  | .tstaxh => Interpreter.tstaxh
  | .srbith => Interpreter.srbith
  | .mul => Interpreter.mul
  | .asr16 => Interpreter.asr16
  | .mulmvz => Interpreter.mulmvz
  | .mulac => Interpreter.mulac
  | .mulmv => Interpreter.mulmv
  | .mulx => Interpreter.mulx
  | .abs => Interpreter.abs
  | .mulxmvz => Interpreter.mulxmvz
  | .mulxac => Interpreter.mulxac
  | .mulxmv => Interpreter.mulxmv
  | .tst => Interpreter.tst
  | .mulc => Interpreter.mulc
  | .cmpaxh => Interpreter.cmpaxh
  | .mulcmvz => Interpreter.mulcmvz
  | .mulcac => Interpreter.mulcac
  | .mulcmv => Interpreter.mulcmv
  | .maddx => Interpreter.maddx
  | .msubx => Interpreter.msubx
  | .maddc => Interpreter.maddc
  | .msubc => Interpreter.msubc
  | .lsl16 => Interpreter.lsl16
  | .madd => Interpreter.madd
  | .lsr16 => Interpreter.lsr16
  | .msub => Interpreter.msub
  | .addpaxz => Interpreter.addpaxz
  | .clrl => Interpreter.clrl
  | .movpz => Interpreter.movpz

def ExtOp.run : ExtOp → BitVec 16 → State M → State M
  | .nop_ext => Interpreter.nop_ext
  | .dr => Interpreter.dr
  | .ir => Interpreter.ir
  | .nr => Interpreter.nr
  | .mv => Interpreter.mv
  | .s => Interpreter.s bus
  | .sn => Interpreter.sn bus
  | .l => Interpreter.l bus
  | .ln => Interpreter.ln bus
  | .ls => Interpreter.ls bus
  | .sl => Interpreter.sl bus
  | .lsn => Interpreter.lsn bus
  | .sln => Interpreter.sln bus
  | .lsm => Interpreter.lsm bus
  | .slm => Interpreter.slm bus
  | .lsnm => Interpreter.lsnm bus
  | .slnm => Interpreter.slnm bus
  | .ldax => Interpreter.ldax bus
  | .ldaxn => Interpreter.ldaxn bus
  | .ldaxm => Interpreter.ldaxm bus
  | .ldaxnm => Interpreter.ldaxnm bus
  | .ld => Interpreter.ld bus
  | .ldn => Interpreter.ldn bus
  | .ldm => Interpreter.ldm bus
  | .ldnm => Interpreter.ldnm bus

/-- The extension leaves what it loads in the log, which is applied after the instruction. -/
def Interpreter.execute (op : Op) (inst : BitVec 16) (s : State M) : State M :=
  if op.extended then
    (op.run bus inst ((GetExtOp inst).run bus inst s)).ApplyWriteBackLog
  else op.run bus inst s

/-- `none` for a word of the flow of control. -/
def Interpreter.ExecuteInstruction (inst : BitVec 16) (s : State M) : Option (State M) :=
  (GetOp inst).map fun op => execute bus op inst s

end

end Phocoena.DSP
