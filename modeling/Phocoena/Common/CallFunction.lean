import Phocoena.Common.MoveImmediate

/-! # Passing arguments

`ABI_CallFunction` up to the call itself: the moves of register arguments, in which
`ParallelMoves` does not overwrite a register that is still to be read, and then the constants.
-/

namespace Phocoena.Arm64Emitter

/-- A register as 32 or 64 bits. -/
structure ARM64Reg where
  size : GPRSize
  reg : GPR
deriving DecidableEq, Repr

/-- Register `i`, where 31 is the zero register. -/
def gpr (i : Nat) : GPR := if h : i < 31 then .name ⟨i, h⟩ else .zr

def DecodeReg (v : ARM64Reg) : Nat :=
  match v.reg with
  | .name r => r
  | .zr => 31

structure RegisterMove where
  dst : ARM64Reg
  src : ARM64Reg
deriving DecidableEq, Repr

/-- `source_gpr_usages`: bytes for the 32 register numbers. -/
abbrev Usages := Nat → BitVec 8

def Usages.set (u : Usages) (r : Nat) (n : BitVec 8) : Usages := fun i => if i = r then n else u i

def Usages.increment (u : Usages) (r : Nat) : Usages := u.set r (u r + 1)

def Usages.decrement (u : Usages) (r : Nat) : Usages := u.set r (u r - 1)

/-- `MOV`, whose width is the destination's. -/
def MOV (dst src : ARM64Reg) : Emitted := .data (.mov dst.size.bits dst.reg src.reg)

/-- The loop over the moves from the last one to the first: a move whose destination is not used
is emitted and leaves the array. -/
def emitUnblocked : List RegisterMove → Usages → List Emitted × List RegisterMove × Usages
  | [], u => ([], [], u)
  | current_move :: later, u =>
      let (code, left, u) := emitUnblocked later u
      if u (DecodeReg current_move.dst) = 0 then
        (code ++ [MOV current_move.dst current_move.src], left,
          u.decrement (DecodeReg current_move.src))
      else (code, current_move :: left, u)

def temp_reg_begin : Nat := 8

def temp_reg_end : Nat := 18

/-- The first temporary register that is not used. -/
def findTemp (u : Usages) : Option Nat :=
  (List.range' temp_reg_begin (temp_reg_end - temp_reg_begin)).find? (u · = 0)

/-- `none` where the temporary registers run out, or the fuel. -/
def ParallelMoves : (fuel : Nat) → List RegisterMove → Usages → Option (List Emitted)
  | _, [], _ => some []
  | 0, _ :: _, _ => none
  | fuel + 1, first :: moves, u =>
      let (code, left, u') := emitUnblocked (first :: moves) u
      if left.length < (first :: moves).length then
        (ParallelMoves fuel left u').map (code ++ ·)
      else (findTemp u).bind fun temp_reg =>
        let src := first.src
        let dst : ARM64Reg := ⟨src.size, gpr temp_reg⟩
        let u := (u.set (DecodeReg dst) (u (DecodeReg src))).set (DecodeReg src) 0
        (ParallelMoves fuel ((first :: moves).map fun move =>
          if move.src = src then { move with src := dst } else move) u).map (MOV dst src :: ·)

inductive Argument where
  | register (v : ARM64Reg)
  /-- A constant of 8 bytes, or of fewer. -/
  | immediate (size : GPRSize) (value : BitVec 64)
deriving DecidableEq, Repr

/-- `check_argument` for all arguments. -/
def countUses : List Argument → Usages → Usages
  | [], u => u
  | .register v :: args, u => countUses args (u.increment (DecodeReg v))
  | .immediate .. :: args, u => countUses args u

/-- `handle_register_argument` for the arguments from number `i` on. -/
def registerArguments : (i : Nat) → List Argument → Usages →
    List Emitted × List RegisterMove × Usages
  | _, [], u => ([], [], u)
  | i, .immediate .. :: args, u => registerArguments (i + 1) args u
  | i, .register arg :: args, u =>
      let dst_reg : ARM64Reg := ⟨arg.size, gpr i⟩
      if dst_reg = arg then registerArguments (i + 1) args (u.decrement (DecodeReg arg))
      else if u i = 0 then
        let (code, pending, u) := registerArguments (i + 1) args (u.decrement (DecodeReg arg))
        (MOV dst_reg arg :: code, pending, u)
      else
        let (code, pending, u) := registerArguments (i + 1) args u
        (code, ⟨dst_reg, arg⟩ :: pending, u)

/-- `handle_immediate_argument` for the arguments from number `i` on. -/
def immediateArguments : (pc : BitVec 64) → (i : Nat) → List Argument → Option (List Emitted)
  | _, _, [] => some []
  | pc, i, .register _ :: args => immediateArguments pc (i + 1) args
  | pc, i, .immediate size value :: args => do
      let code ← MOVI2R pc size (gpr i) value
      let later ← immediateArguments (pc + BitVec.ofNat 64 (4 * code.length)) (i + 1) args
      pure (code ++ later)

/-- The code before the call. -/
def ABI_CallFunction (fuel : Nat) (pc : BitVec 64) (args : List Argument) :
    Option (List Emitted) := do
  let (eager, pending, u) := registerArguments 0 args (countUses args fun _ => 0)
  let moves ← ParallelMoves fuel pending u
  let pc := pc + BitVec.ofNat 64 (4 * (eager ++ moves).length)
  let constants ← immediateArguments pc 0 args
  pure (eager ++ moves ++ constants)

end Phocoena.Arm64Emitter
