import Phocoena.VideoCommon.CPMemory
import Mathlib.Tactic.SplitIfs

/-! # Decoding the FIFO's commands

`OpcodeDecoder::Run`, with the callbacks as the calls it makes of them. The data is the bytes from
a pointer on, of which the first `available` may be read.
-/

namespace Phocoena.OpcodeDecoder

open CPMemory

/-- A call of one of the callbacks. -/
inductive Event where
  | onNop (count : Nat)
  | onCP (command value : Nat)
  | onXF (address count : Nat) (data : List UInt8)
  | onBP (command value : Nat)
  | onIndexedLoad (array index address size : Nat)
  | onPrimitiveCommand (primitive vat vertex_size num_vertices : Nat) (vertex_data : List UInt8)
  | onDisplayList (address size : Nat)
  | onUnknown (opcode : Nat)

/-- A callback, and the `OnCommand` after it. -/
structure Call (State : Type) where
  event : Event
  command : List UInt8
  /-- the state that it is called in -/
  state : State
  in_display_list : Bool

/-- A callback class: what its calls do to the state, and the calls they make in turn. -/
structure Callback (State : Type) where
  on : Event → State → State × List (Call State)
  GetVertexSize : State → Nat → Nat
  in_display_list : Bool
  on_nop (count : Nat) (s : State) : on (.onNop count) s = (s, [])
  vertexSize_le (s : State) (vat : Nat) : GetVertexSize s vat ≤ 129

structure Result (State : Type) where
  size : Nat
  state : State
  calls : List (Call State)

def bytes (data : Nat → UInt8) (start count : Nat) : List UInt8 :=
  (List.range count).map fun i => data (start + i)

def swap16 (data : Nat → UInt8) (start : Nat) : Nat :=
  (data start).toNat * 2 ^ 8 + (data (start + 1)).toNat

def swap24 (data : Nat → UInt8) (start : Nat) : Nat :=
  swap16 data start * 2 ^ 8 + (data (start + 2)).toNat

def swap32 (data : Nat → UInt8) (start : Nat) : Nat :=
  swap24 data start * 2 ^ 8 + (data (start + 3)).toNat

/-- The loop over NOPs, with the number of bytes that are left. -/
def countNops (data : Nat → UInt8) (count : Nat) : Nat → Nat
  | 0 => count
  | left + 1 => if data count = 0 then countNops data (count + 1) left else count

section
variable {State : Type} (callback : Callback State)

/-- `detail::RunCommand`: the callback it makes and the size that it returns, which is 0 where
there is none. -/
def decode (data : Nat → UInt8) (available : Nat) (s : State) : Option (Event × Nat) :=
  if available < 1 then none
  else
    let cmd := (data 0).toNat
    if cmd = 0x00 then
      let count := countNops data 1 (available - 1)
      some (.onNop count, count)
    else if cmd = 0x08 then
      if available < 6 then none
      else some (.onCP (data 1).toNat (swap32 data 2), 6)
    else if cmd = 0x10 then
      if available < 5 then none
      else
        let cmd2 := swap32 data 1
        let stream_size := cmd2 / 2 ^ 16 % 16 + 1
        if available < 5 + stream_size * 4 then none
        else some (.onXF (cmd2 % 2 ^ 16) stream_size (bytes data 5 (stream_size * 4)),
          5 + stream_size * 4)
    else if cmd = 0x20 ∨ cmd = 0x28 ∨ cmd = 0x30 ∨ cmd = 0x38 then
      if available < 5 then none
      else
        let value := swap32 data 1
        some (.onIndexedLoad (cmd / 8 + 8) (value / 2 ^ 16) (value % 2 ^ 12)
          (value / 2 ^ 12 % 16 + 1), 5)
    else if cmd = 0x40 then
      if available < 9 then none
      else some (.onDisplayList (swap32 data 1 / 32 * 32) (swap32 data 5 / 32 * 32), 9)
    else if cmd = 0x61 then
      if available < 5 then none
      else some (.onBP (data 1).toNat (swap24 data 2), 5)
    else if 0x80 ≤ cmd ∧ cmd ≤ 0xbf then
      if available < 3 then none
      else
        let vat := cmd % 8
        let vertex_size := callback.GetVertexSize s vat
        let num_vertices := swap16 data 1
        let size := (3 + num_vertices * vertex_size) % 2 ^ 32
        if available < size then none
        else some (.onPrimitiveCommand (cmd / 8 % 16) vat vertex_size num_vertices
          (bytes data 3 (num_vertices * vertex_size)), size)
    else some (.onUnknown cmd, 1)

def RunCommand (data : Nat → UInt8) (available : Nat) (s : State) : Result State :=
  match decode callback data available s with
  | none => ⟨0, s, []⟩
  | some (event, size) =>
      let (state, calls) := callback.on event s
      ⟨size, state, calls ++ [⟨event, bytes data 0 size, s, callback.in_display_list⟩]⟩

end

theorem countNops_bounds (data : Nat → UInt8) (count left : Nat) :
    count ≤ countNops data count left ∧ countNops data count left ≤ count + left := by
  induction left generalizing count with
  | zero => exact ⟨le_refl _, le_refl _⟩
  | succ left ih =>
      rw [countNops]
      split
      · have := ih (count + 1)
        omega
      · omega

theorem swap16_lt (data : Nat → UInt8) (start : Nat) : swap16 data start < 2 ^ 16 := by
  have high := (data start).toNat_lt
  have low := (data (start + 1)).toNat_lt
  unfold swap16
  omega

section
variable {State : Type} {callback : Callback State}

variable (callback) in
/-- The size of a primitive command does not wrap. -/
theorem primitive_size_lt (data : Nat → UInt8) (s : State) (vat : Nat) :
    3 + swap16 data 1 * callback.GetVertexSize s vat < 2 ^ 32 := by
  have product : swap16 data 1 * callback.GetVertexSize s vat ≤ 2 ^ 16 * 129 :=
    Nat.mul_le_mul (swap16_lt data 1).le (callback.vertexSize_le s vat)
  omega

variable (callback) in
/-- The command at a place where there is no NOP, and its size, as if all of it was there. -/
def commandAt (data : Nat → UInt8) (s : State) : Event × Nat :=
  let cmd := (data 0).toNat
  if cmd = 0x08 then (.onCP (data 1).toNat (swap32 data 2), 6)
  else if cmd = 0x10 then
    let cmd2 := swap32 data 1
    let stream_size := cmd2 / 2 ^ 16 % 16 + 1
    (.onXF (cmd2 % 2 ^ 16) stream_size (bytes data 5 (stream_size * 4)), 5 + stream_size * 4)
  else if cmd = 0x20 ∨ cmd = 0x28 ∨ cmd = 0x30 ∨ cmd = 0x38 then
    let value := swap32 data 1
    (.onIndexedLoad (cmd / 8 + 8) (value / 2 ^ 16) (value % 2 ^ 12) (value / 2 ^ 12 % 16 + 1), 5)
  else if cmd = 0x40 then
    (.onDisplayList (swap32 data 1 / 32 * 32) (swap32 data 5 / 32 * 32), 9)
  else if cmd = 0x61 then (.onBP (data 1).toNat (swap24 data 2), 5)
  else if 0x80 ≤ cmd ∧ cmd ≤ 0xbf then
    let vat := cmd % 8
    let vertex_size := callback.GetVertexSize s vat
    let num_vertices := swap16 data 1
    (.onPrimitiveCommand (cmd / 8 % 16) vat vertex_size num_vertices
      (bytes data 3 (num_vertices * vertex_size)), 3 + num_vertices * vertex_size)
  else (.onUnknown cmd, 1)

variable (callback) in
theorem commandAt_pos (data : Nat → UInt8) (s : State) : 0 < (commandAt callback data s).2 := by
  unfold commandAt
  dsimp only
  split_ifs <;> dsimp only <;> omega

theorem commandAt_ne_onNop (data : Nat → UInt8) (s : State) (count : Nat) :
    (commandAt callback data s).1 ≠ .onNop count := by
  unfold commandAt
  dsimp only
  split_ifs <;> exact nofun

/-- A check that is done before another one that it follows from. -/
theorem ite_none_of_lt {α : Type} {available header size : Nat} (le : header ≤ size) (x : α) :
    (if available < header then none else if available < size then none else some x) =
      if available < size then none else some x := by
  by_cases short : available < header
  · rw [if_pos short, if_pos (by omega)]
  · rw [if_neg short]

/-- The checks of the size come down to one. -/
theorem decode_eq (data : Nat → UInt8) (available : Nat) (s : State) :
    decode callback data available s =
      if available < 1 then none
      else if (data 0).toNat = 0 then
        some (.onNop (countNops data 1 (available - 1)), countNops data 1 (available - 1))
      else if available < (commandAt callback data s).2 then none
      else some (commandAt callback data s) := by
  have fits := primitive_size_lt callback data s ((data 0).toNat % 8)
  unfold decode commandAt
  dsimp only
  by_cases empty : available < 1
  · rw [if_pos empty, if_pos empty]
  rw [if_neg empty, if_neg empty]
  by_cases nop : (data 0).toNat = 0
  · rw [if_pos nop, if_pos nop]
  rw [if_neg nop, if_neg nop]
  by_cases cp : (data 0).toNat = 0x08
  · simp only [if_pos cp]
  simp only [if_neg cp]
  by_cases xf : (data 0).toNat = 0x10
  · simp only [if_pos xf]
    exact ite_none_of_lt (by omega) _
  simp only [if_neg xf]
  by_cases indexed : (data 0).toNat = 0x20 ∨ (data 0).toNat = 0x28 ∨ (data 0).toNat = 0x30 ∨
      (data 0).toNat = 0x38
  · simp only [if_pos indexed]
  simp only [if_neg indexed]
  by_cases list : (data 0).toNat = 0x40
  · simp only [if_pos list]
  simp only [if_neg list]
  by_cases bp : (data 0).toNat = 0x61
  · simp only [if_pos bp]
  simp only [if_neg bp]
  by_cases primitive : 0x80 ≤ (data 0).toNat ∧ (data 0).toNat ≤ 0xbf
  · simp only [if_pos primitive, Nat.mod_eq_of_lt fits]
    exact ite_none_of_lt (by omega) _
  simp only [if_neg primitive, if_neg empty]

theorem decode_size {data : Nat → UInt8} {available size : Nat} {s : State} {event : Event}
    (decoded : decode callback data available s = some (event, size)) :
    0 < size ∧ size ≤ available := by
  have nops := countNops_bounds data 1 (available - 1)
  rw [decode_eq] at decoded
  split_ifs at decoded with empty nop short
  · cases decoded
    omega
  · have pos := commandAt_pos callback data s
    rw [Option.some.inj decoded] at pos short
    dsimp only at pos short
    omega

variable (callback) in
theorem runCommand_size_le (data : Nat → UInt8) (available : Nat) (s : State) :
    (RunCommand callback data available s).size ≤ available := by
  unfold RunCommand
  split
  · exact Nat.zero_le _
  · rename_i event size decoded
    exact (decode_size decoded).2

end

/-- The loop over the commands. -/
def Run {State : Type} (callback : Callback State) (data : Nat → UInt8) (available : Nat)
    (s : State) : Result State :=
  match command : RunCommand callback data available s with
  | ⟨0, _, _⟩ => ⟨0, s, []⟩
  | ⟨size + 1, state, calls⟩ =>
      let rest := Run callback (fun i => data (size + 1 + i)) (available - (size + 1)) state
      ⟨size + 1 + rest.size, rest.state, calls ++ rest.calls⟩
termination_by available
decreasing_by
  have le := runCommand_size_le callback data available s
  rw [command] at le
  dsimp only at le
  omega

/-! ## The callback of the FIFO -/

/-- `RunCallback` while it runs a display list. -/
def listCallback (is_wii : Bool) : Callback CPState where
  on event s :=
    match event with
    | .onCP command value => (s.LoadCPReg is_wii command value, [])
    | _ => (s, [])
  GetVertexSize := CPState.GetVertexSize
  in_display_list := true
  on_nop _ _ := rfl
  vertexSize_le := CPState.vertexSize_le

/-- `RunCallback`. `memory` is `GetPointerForRange`: it has the bytes of a range, or the range is
not mapped. -/
def runCallback (is_wii : Bool) (memory : Nat → Nat → Option (Nat → UInt8)) : Callback CPState where
  on event s :=
    match event with
    | .onCP command value => (s.LoadCPReg is_wii command value, [])
    | .onDisplayList address size =>
        match memory address size with
        | none => (s, [])
        | some start_address =>
            let result := Run (listCallback is_wii) start_address size s
            (result.state, result.calls)
    | _ => (s, [])
  GetVertexSize := CPState.GetVertexSize
  in_display_list := false
  on_nop _ _ := rfl
  vertexSize_le := CPState.vertexSize_le

end Phocoena.OpcodeDecoder
