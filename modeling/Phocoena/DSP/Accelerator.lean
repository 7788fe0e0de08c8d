import Phocoena.Lib.FixedWidth

/-! # The sample accelerator

Registers of the accelerator and a read of one sample in each of its formats. `sample_ends` counts
the calls of `OnSampleReadEndException`; the memory is what `ReadMemory` returns.
-/

namespace Phocoena.DSP

inductive FormatSize
  | Size4Bit | Size8Bit | Size16Bit | SizeInvalid
  deriving DecidableEq, Repr

inductive FormatDecode
  | ADPCM | MMIOPCMNoInc | PCM | MMIOPCMInc
  deriving DecidableEq, Repr

inductive FormatGainScale
  | GainScale2048 | GainScale1 | GainScale65536 | GainScaleInvalid
  deriving DecidableEq, Repr

structure SampleFormat where
  hex : BitVec 16
  deriving DecidableEq

namespace SampleFormat

def size (format : SampleFormat) : FormatSize :=
  match format.hex.toNat % 4 with
  | 0 => .Size4Bit
  | 1 => .Size8Bit
  | 2 => .Size16Bit
  | _ => .SizeInvalid

def decode (format : SampleFormat) : FormatDecode :=
  match format.hex.toNat / 4 % 4 with
  | 0 => .ADPCM
  | 1 => .MMIOPCMNoInc
  | 2 => .PCM
  | _ => .MMIOPCMInc

def gain_scale (format : SampleFormat) : FormatGainScale :=
  match format.hex.toNat / 16 % 4 with
  | 0 => .GainScale2048
  | 1 => .GainScale1
  | 2 => .GainScale65536
  | _ => .GainScaleInvalid

end SampleFormat

/-- An invalid gain scale leaves the shift at zero. -/
def FormatGainScale.gain_shift : FormatGainScale → Nat
  | .GainScale2048 => 11
  | .GainScale1 => 0
  | .GainScale65536 => 16
  | .GainScaleInvalid => 0

structure Accelerator where
  m_start_address : BitVec 32
  m_end_address : BitVec 32
  m_current_address : BitVec 32
  m_sample_format : SampleFormat
  m_gain : BitVec 16
  m_yn1 : BitVec 16
  m_yn2 : BitVec 16
  m_pred_scale : BitVec 16
  m_input : BitVec 16
  m_reads_stopped : Bool
  sample_ends : Nat
  deriving DecidableEq

/-- `SaturatingCast<s16>` of an `s32`. -/
def SaturatingCast (value : BitVec 32) : BitVec 16 :=
  if value.toInt < -32768 then -32768
  else if value.toInt > 32767 then 32767
  else value.setWidth 16

def CURRENT_ADDRESS_MASK : BitVec 32 := 0xbfffffff

namespace Accelerator

variable (mem : BitVec 32 → BitVec 8) (coefs : Nat → BitVec 16) (a : Accelerator)

def GetCurrentSample : BitVec 16 :=
  match a.m_sample_format.size with
  | .Size4Bit =>
      let val := (mem (a.m_current_address >>> 1)).setWidth 16
      if a.m_current_address &&& 1 ≠ 0 then val &&& 0xf else val >>> 4
  | .Size8Bit => (mem a.m_current_address).setWidth 16
  | .Size16Bit =>
      ((mem (a.m_current_address * 2)).setWidth 16 <<< 8) |||
        (mem (a.m_current_address * 2 + 1)).setWidth 16
  -- Produces garbage in the source as well, which is zero.
  | .SizeInvalid => 0

def SetCurrentAddress (address : BitVec 32) : Accelerator :=
  { a with m_current_address := address &&& CURRENT_ADDRESS_MASK }

def SetYn2 (yn2 : BitVec 16) : Accelerator :=
  { a with m_yn2 := yn2, m_reads_stopped := false }

def raw_sample : BitVec 16 :=
  match a.m_sample_format.decode with
  | .MMIOPCMNoInc | .MMIOPCMInc => a.m_input
  | .ADPCM | .PCM => a.GetCurrentSample mem

def coef_idx : Nat := ((a.m_pred_scale >>> 4) &&& 7).toNat

def coef1 : BitVec 32 := (coefs (a.coef_idx * 2 + 0)).signExtend 32

def coef2 : BitVec 32 := (coefs (a.coef_idx * 2 + 1)).signExtend 32

/-! The `s32` values of the ADPCM case. -/

/-- The low four bits of the sample as a signed number. -/
def adpcmRaw : BitVec 16 :=
  let raw_sample := a.raw_sample mem &&& 0xF
  if 8 ≤ raw_sample.toInt then raw_sample - 16 else raw_sample

def scale : BitVec 32 := 1 <<< (a.m_pred_scale &&& 0xF).toNat

def adpcmScaled : BitVec 32 := a.scale * (a.adpcmRaw mem).signExtend 32

def adpcmProduct1 : BitVec 32 := a.coef1 coefs * a.m_yn1.signExtend 32

def adpcmProduct2 : BitVec 32 := a.coef2 coefs * a.m_yn2.signExtend 32

def adpcmHistory : BitVec 32 := 0x400 + a.adpcmProduct1 coefs + a.adpcmProduct2 coefs

def adpcmVal32 : BitVec 32 := a.adpcmScaled mem + (a.adpcmHistory coefs).sshiftRight 11

def pcmVal32 : BitVec 32 :=
  let gain_shift := a.m_sample_format.gain_scale.gain_shift
  (a.m_gain.signExtend 32 * (a.raw_sample mem).signExtend 32).sshiftRight gain_shift +
    ((a.adpcmProduct1 coefs).sshiftRight gain_shift +
      (a.adpcmProduct2 coefs).sshiftRight gain_shift)

/-- The new sample enters the history. -/
def pushSample (val : BitVec 16) : Accelerator :=
  { a with m_yn2 := a.m_yn1, m_yn1 := val }

def increment : Accelerator :=
  { a with m_current_address := a.m_current_address + 1 }

/-- The two silent restarts and the frame header, with the step size that the check for the end
expects. -/
def adpcmAdvance : Accelerator × BitVec 32 :=
  if a.m_end_address &&& 0xf = 0x0 ∧ a.m_current_address = a.m_end_address then
    ({ a with m_current_address := a.m_start_address + 1 }, 2)
  else if a.m_end_address &&& 0xf = 0x1 ∧ a.m_current_address = a.m_end_address - 1 then
    ({ a with m_current_address := a.m_start_address }, 2)
  else if a.m_current_address &&& 15 = 0 then
    ({ a with
        m_pred_scale := (mem ((a.m_current_address &&& ~~~15) >>> 1)).setWidth 16
        m_current_address := a.m_current_address + 2 }, 4)
  else (a, 2)

/-- The check for the loop, and the update of the address that ends each read. -/
def checkLoop (step_size : BitVec 32) : Accelerator :=
  let a :=
    if a.m_current_address = a.m_end_address + step_size - 1 then
      { a with
        m_current_address := a.m_start_address
        m_reads_stopped := true
        sample_ends := a.sample_ends + 1 }
    else a
  a.SetCurrentAddress a.m_current_address

/-- The sample, as the `u16` returned, and the registers after the read. -/
def ReadSample : BitVec 16 × Accelerator :=
  if a.m_reads_stopped then (0, a)
  else
    match a.m_sample_format.decode with
    | .ADPCM =>
        let val := SaturatingCast (a.adpcmVal32 mem coefs)
        let (advanced, step_size) := (a.pushSample val).increment.adpcmAdvance mem
        (val, advanced.checkLoop step_size)
    | .MMIOPCMNoInc =>
        let val := (a.pcmVal32 mem coefs).setWidth 16
        (val, (a.pushSample val).checkLoop 2)
    | .PCM | .MMIOPCMInc =>
        let val := (a.pcmVal32 mem coefs).setWidth 16
        (val, (a.pushSample val).increment.checkLoop 2)

/-- The registers after the next read. -/
def next : Accelerator := (a.ReadSample mem coefs).2

/-- The registers after `i` reads. -/
def after (i : Nat) : Accelerator := (next mem coefs)^[i] a

/-- The registers before each of `n` reads. -/
def readingStates (n : Nat) : List Accelerator := (List.range n).map (a.after mem coefs)

end Accelerator

end Phocoena.DSP
