import Phocoena.VideoCommon.OpcodeDecoding
import Mathlib.Tactic.SplitIfs

/-! # Decoding does not depend on how the stream is cut

The FIFO is decoded as far as it has come, and what is left is decoded again with what comes next.
A command whose end is not there yet is not begun. Only the NOPs of a run are counted as far as
they have come.
-/

namespace Phocoena.OpcodeDecoder

open CPMemory

/-! ## Runs of NOPs -/

theorem countNops_add (data : Nat → UInt8) (count left more : Nat) :
    countNops data count (left + more) =
      if countNops data count left = count + left then countNops data (count + left) more
      else countNops data count left := by
  induction left generalizing count with
  | zero => simp [countNops]
  | succ left ih =>
      rw [show left + 1 + more = (left + more) + 1 by omega, countNops, countNops]
      split
      · rw [ih, show count + 1 + left = count + (left + 1) by omega]
      · rw [if_neg (by omega)]

theorem countNops_shift (data : Nat → UInt8) (offset count left : Nat) :
    offset + countNops (fun i => data (offset + i)) count left =
      countNops data (offset + count) left := by
  induction left generalizing count with
  | zero => rfl
  | succ left ih =>
      rw [countNops, countNops]
      split
      · rw [ih, Nat.add_assoc]
      · rfl

theorem bytes_append (data : Nat → UInt8) (start count more : Nat) :
    bytes data start (count + more) =
      bytes data start count ++ bytes data (start + count) more := by
  simp only [bytes, List.range_add, List.map_append, List.map_map, Function.comp_def,
    Nat.add_assoc]

theorem bytes_shift (data : Nat → UInt8) (offset start count : Nat) :
    bytes (fun i => data (offset + i)) start count = bytes data (offset + start) count := by
  simp only [bytes, Nat.add_assoc]

theorem bytes_congr {data data' : Nat → UInt8} {start count : Nat}
    (same : ∀ i < start + count, data i = data' i) :
    bytes data start count = bytes data' start count := by
  apply List.map_congr_left
  intro i member
  have := List.mem_range.mp member
  exact same _ (by omega)

section
variable {State : Type}

/-- A call of `OnNop` together with the one that follows it. -/
def combine (first : Call State) (calls : List (Call State)) : List (Call State) :=
  match first.event, calls with
  | .onNop count, next :: rest =>
      match next.event with
      | .onNop more =>
          if first.in_display_list = next.in_display_list then
            ⟨.onNop (count + more), first.command ++ next.command, first.state,
              first.in_display_list⟩ :: rest
          else first :: calls
      | _ => first :: calls
  | _, _ => first :: calls

/-- Calls with the runs of NOPs merged. -/
def mergeNops (calls : List (Call State)) : List (Call State) := calls.foldr combine []

theorem mergeNops_append (calls more : List (Call State)) :
    mergeNops (calls ++ more) = calls.foldr combine (mergeNops more) :=
  List.foldr_append ..

theorem combine_nops (count more : Nat) (command command' : List UInt8) (s : State)
    (in_display_list : Bool) (calls : List (Call State)) :
    combine ⟨.onNop count, command, s, in_display_list⟩
        (combine ⟨.onNop more, command', s, in_display_list⟩ calls) =
      combine ⟨.onNop (count + more), command ++ command', s, in_display_list⟩ calls := by
  cases calls with
  | nil => simp [combine]
  | cons next rest =>
      obtain ⟨event, command'', s', in_display_list'⟩ := next
      cases event
      case onNop third =>
        by_cases same : in_display_list = in_display_list'
        · simp [combine, same, Nat.add_assoc]
        · simp [combine, same]
      all_goals simp [combine]

/-! ## One command -/

theorem countNops_congr {data data' : Nat → UInt8} {count left : Nat}
    (same : ∀ i < count + left, data i = data' i) :
    countNops data count left = countNops data' count left := by
  induction left generalizing count with
  | zero => rfl
  | succ left ih =>
      have rest : countNops data (count + 1) left = countNops data' (count + 1) left :=
        ih fun i bound => same i (by omega)
      rw [countNops, countNops, same count (by omega), rest]

theorem swap16_congr {data data' : Nat → UInt8} {start : Nat}
    (same : ∀ i < start + 2, data i = data' i) : swap16 data start = swap16 data' start := by
  rw [swap16, swap16, same start (by omega), same (start + 1) (by omega)]

theorem swap24_congr {data data' : Nat → UInt8} {start : Nat}
    (same : ∀ i < start + 3, data i = data' i) : swap24 data start = swap24 data' start := by
  rw [swap24, swap24, swap16_congr fun i bound => same i (by omega), same (start + 2) (by omega)]

theorem swap32_congr {data data' : Nat → UInt8} {start : Nat}
    (same : ∀ i < start + 4, data i = data' i) : swap32 data start = swap32 data' start := by
  rw [swap32, swap32, swap24_congr fun i bound => same i (by omega), same (start + 3) (by omega)]

variable {callback : Callback State}

/-- A command reads its own bytes. -/
theorem commandAt_congr {data data' : Nat → UInt8} {s : State}
    (same : ∀ i < (commandAt callback data s).2, data i = data' i) :
    commandAt callback data s = commandAt callback data' s := by
  have opcode := same 0 (commandAt_pos callback data s)
  unfold commandAt at same ⊢
  dsimp only at same ⊢
  rw [← opcode]
  split_ifs at same ⊢ <;> dsimp only at same
  · rw [same 1 (by omega), swap32_congr fun i bound => same i (by omega)]
  · have header : swap32 data 1 = swap32 data' 1 :=
      swap32_congr fun i bound => same i (by omega)
    rw [← header, bytes_congr fun i bound => same i (by omega)]
  · rw [swap32_congr fun i bound => same i (by omega)]
  · have address : swap32 data 1 = swap32 data' 1 :=
      swap32_congr fun i bound => same i (by omega)
    have size : swap32 data 5 = swap32 data' 5 := swap32_congr fun i bound => same i (by omega)
    rw [address, size]
  · rw [same 1 (by omega), swap24_congr fun i bound => same i (by omega)]
  · have count : swap16 data 1 = swap16 data' 1 := swap16_congr fun i bound => same i (by omega)
    rw [← count, bytes_congr fun i bound => same i (by omega)]
  · rfl

theorem decode_congr {data data' : Nat → UInt8} {available : Nat} {s : State}
    (same : ∀ i < available, data i = data' i) :
    decode callback data available s = decode callback data' available s := by
  rw [decode_eq, decode_eq]
  by_cases empty : available < 1
  · rw [if_pos empty, if_pos empty]
  rw [if_neg empty, if_neg empty, same 0 (by omega)]
  have nops : countNops data 1 (available - 1) = countNops data' 1 (available - 1) :=
    countNops_congr fun i bound => same i (by omega)
  rw [nops]
  by_cases fits : (commandAt callback data s).2 ≤ available
  · rw [commandAt_congr fun i bound => same i (by omega)]
  · have short : ¬ (commandAt callback data' s).2 ≤ available := by
      intro fits'
      apply fits
      rwa [commandAt_congr fun i bound => (same i (by omega)).symm] at fits'
    rw [if_pos (by omega : available < (commandAt callback data s).2),
      if_pos (by omega : available < (commandAt callback data' s).2)]

/-- A command that has come to its end is the same with more bytes after it. -/
theorem decode_more {data : Nat → UInt8} {available more size : Nat} {s : State} {event : Event}
    (decoded : decode callback data available s = some (event, size))
    (ended : size < available ∨ ∀ count, event ≠ .onNop count) :
    decode callback data (available + more) s = some (event, size) := by
  rw [decode_eq] at decoded ⊢
  split_ifs at decoded with empty nop short
  · rw [if_neg (by omega), if_pos nop]
    cases decoded
    have before : countNops data 1 (available - 1) < available := by
      obtain before | none := ended
      · exact before
      · exact absurd rfl (none _)
    rw [show available + more - 1 = available - 1 + more by omega, countNops_add,
      if_neg (by omega)]
  · rw [if_neg (by omega), if_neg nop, if_neg (by omega)]
    exact decoded

/-- NOPs up to the end of the bytes go on with the NOPs that come next. -/
theorem decode_nops {data : Nat → UInt8} {available : Nat} (more : Nat) {s : State} {count : Nat}
    (decoded : decode callback data available s = some (.onNop count, available)) :
    count = available ∧ decode callback data (available + more) s =
      some (.onNop (countNops data available more), countNops data available more) := by
  rw [decode_eq] at decoded ⊢
  split_ifs at decoded with empty nop short
  · simp only [Option.some.injEq, Prod.mk.injEq, Event.onNop.injEq] at decoded
    obtain ⟨rfl, all⟩ := decoded
    rw [if_neg (by omega), if_pos nop, show available + more - 1 = available - 1 + more by omega,
      countNops_add, if_pos (by omega), show 1 + (available - 1) = available by omega]
    exact ⟨all, rfl⟩
  · have eq := congrArg Prod.fst (Option.some.inj decoded)
    exact absurd eq (commandAt_ne_onNop _ _ _)

/-! ## Runs of commands -/

theorem run_none {data : Nat → UInt8} {available : Nat} {s : State}
    (decoded : decode callback data available s = none) :
    Run callback data available s = ⟨0, s, []⟩ := by
  rw [Run]
  split
  · rfl
  · rename_i command
    simp [RunCommand, decoded] at command

/-- The calls of a command. -/
def callsOf (callback : Callback State) (event : Event) (size : Nat) (data : Nat → UInt8)
    (s : State) : List (Call State) :=
  (callback.on event s).2 ++ [⟨event, bytes data 0 size, s, callback.in_display_list⟩]

/-- A run that begins with a command. -/
def andThen (callback : Callback State) (event : Event) (size : Nat) (data : Nat → UInt8)
    (s : State) (rest : Result State) : Result State :=
  ⟨size + rest.size, rest.state, callsOf callback event size data s ++ rest.calls⟩

theorem run_some {data : Nat → UInt8} {available size : Nat} {s : State} {event : Event}
    (decoded : decode callback data available s = some (event, size)) :
    Run callback data available s = andThen callback event size data s
      (Run callback (fun i => data (size + i)) (available - size) (callback.on event s).1) := by
  have pos := (decode_size decoded).1
  rw [Run]
  split
  · rename_i command
    simp only [RunCommand, decoded, Result.mk.injEq] at command
    omega
  · rename_i command
    simp only [RunCommand, decoded, Result.mk.injEq] at command
    obtain ⟨rfl, rfl, rfl⟩ := command
    rfl

theorem run_congr {data data' : Nat → UInt8} {available : Nat} {s : State}
    (same : ∀ i < available, data i = data' i) :
    Run callback data available s = Run callback data' available s := by
  induction available using Nat.strongRecOn generalizing data data' s with
  | ind available ih =>
    cases decoded : decode callback data available s with
    | none => rw [run_none decoded, run_none ((decode_congr same).symm.trans decoded)]
    | some command =>
        obtain ⟨event, size⟩ := command
        have bounds := decode_size decoded
        have decoded' : decode callback data' available s = some (event, size) :=
          (decode_congr same).symm.trans decoded
        have command : bytes data 0 size = bytes data' 0 size :=
          bytes_congr fun i bound => same i (by omega)
        have rest (t : State) : Run callback (fun i => data (size + i)) (available - size) t =
            Run callback (fun i => data' (size + i)) (available - size) t :=
          ih (available - size) (by omega) fun i bound => same (size + i) (by omega)
        rw [run_some decoded, run_some decoded', andThen, andThen, callsOf, callsOf, command, rest]

/-- What a run leaves is the beginning of a command. -/
theorem run_rest (data : Nat → UInt8) (available : Nat) (s : State) :
    (Run callback data available s).size ≤ available ∧
      decode callback (fun i => data ((Run callback data available s).size + i))
        (available - (Run callback data available s).size) (Run callback data available s).state =
        none := by
  induction available using Nat.strongRecOn generalizing data s with
  | ind available ih =>
    cases decoded : decode callback data available s with
    | none =>
        rw [run_none decoded]
        refine ⟨Nat.zero_le _, ?_⟩
        simpa only [Nat.zero_add, Nat.sub_zero] using decoded
    | some command =>
        obtain ⟨event, size⟩ := command
        have bounds := decode_size decoded
        obtain ⟨le, stops⟩ := ih (available - size) (by omega) (fun i => data (size + i))
          (callback.on event s).1
        rw [run_some decoded]
        refine ⟨by dsimp only [andThen]; omega, ?_⟩
        simpa only [andThen, Nat.sub_sub, Nat.add_assoc] using stops

/-- The same callbacks, with the NOPs merged, and the same bytes consumed. -/
structure Alike (result result' : Result State) : Prop where
  size : result.size = result'.size
  state : result.state = result'.state
  calls : mergeNops result.calls = mergeNops result'.calls

/-- One run after another. -/
def Result.then (first second : Result State) : Result State :=
  ⟨first.size + second.size, second.state, first.calls ++ second.calls⟩

theorem Alike.andThen {event : Event} {size : Nat} {data : Nat → UInt8} {s : State}
    {result result' : Result State} (alike : Alike result result') :
    Alike (andThen callback event size data s result)
      (andThen callback event size data s result') where
  size := congrArg (size + ·) alike.size
  state := alike.state
  calls := by
    dsimp only [OpcodeDecoder.andThen]
    rw [mergeNops_append, mergeNops_append, alike.calls]

/-- NOPs that are cut. -/
theorem alike_nops (data : Nat → UInt8) (count more : Nat) (s : State) (rest : Result State) :
    Alike (andThen callback (.onNop (count + more)) (count + more) data s rest)
      (andThen callback (.onNop count) count data s
        (andThen callback (.onNop more) more (fun i => data (count + i)) s rest)) where
  size := Nat.add_assoc ..
  state := rfl
  calls := by
    simp only [andThen, callsOf, callback.on_nop, List.nil_append, List.singleton_append,
      mergeNops, List.foldr_cons, combine_nops, bytes_append, bytes_shift, Nat.zero_add,
      Nat.add_zero]

theorem Alike.refl (result : Result State) : Alike result result := ⟨rfl, rfl, rfl⟩

theorem nothing_then (s : State) (second : Result State) :
    (Result.mk 0 s []).then second = second := by
  simp only [Result.then, Nat.zero_add, List.nil_append]

theorem andThen_then (event : Event) (size : Nat) (data : Nat → UInt8) (s : State)
    (first second : Result State) :
    (andThen callback event size data s first).then second =
      andThen callback event size data s (first.then second) := by
  simp only [andThen, Result.then, Nat.add_assoc, List.append_assoc]

theorem run_zero (data : Nat → UInt8) (s : State) : Run callback data 0 s = ⟨0, s, []⟩ :=
  run_none (by rw [decode_eq, if_pos (by omega)])

/-- NOPs before a cut, with the ones that come after it. -/
theorem run_nops {data : Nat → UInt8} {available : Nat} (more : Nat) {s : State} {count : Nat}
    (decoded : decode callback data available s = some (.onNop count, available)) :
    Alike (Run callback data (available + more) s)
      (andThen callback (.onNop available) available data s
        (Run callback (fun i => data (available + i)) more s)) := by
  obtain ⟨rfl, decoded'⟩ := decode_nops more decoded
  have bounds := countNops_bounds data count more
  rw [run_some decoded', callback.on_nop]
  cases more with
  | zero =>
      rw [countNops, Nat.add_zero, Nat.sub_self]
      exact Alike.refl _
  | succ more =>
      rw [countNops]
      by_cases goes_on : data count = 0
      · have next : decode callback (fun i => data (count + i)) (more + 1) s =
            some (.onNop (countNops (fun i => data (count + i)) 1 more),
              countNops (fun i => data (count + i)) 1 more) := by
          rw [decode_eq, if_neg (by omega), if_pos (by simp [goes_on])]
          rfl
        rw [if_pos goes_on, ← countNops_shift, run_some next, callback.on_nop]
        have rest : count + (more + 1) - (count + countNops (fun i => data (count + i)) 1 more) =
            more + 1 - countNops (fun i => data (count + i)) 1 more := by omega
        rw [rest]
        simpa only [Nat.add_assoc] using alike_nops data count _ s
          (Run callback (fun i => data (count + (countNops (fun i => data (count + i)) 1 more + i)))
            (more + 1 - countNops (fun i => data (count + i)) 1 more) s)
      · rw [if_neg goes_on, Nat.add_sub_cancel_left]
        exact Alike.refl _

/-- The bytes up to a cut are run, and then what is left of them with the bytes after it. -/
theorem run_cut (data : Nat → UInt8) (available more : Nat) (s : State) :
    Alike (Run callback data (available + more) s)
      ((Run callback data available s).then
        (Run callback (fun i => data ((Run callback data available s).size + i))
          (available + more - (Run callback data available s).size)
          (Run callback data available s).state)) := by
  induction available using Nat.strongRecOn generalizing data s with
  | ind available ih =>
    cases decoded : decode callback data available s with
    | none =>
        rw [run_none decoded, nothing_then]
        simp only [Nat.zero_add, Nat.sub_zero]
        exact Alike.refl _
    | some command =>
        obtain ⟨event, size⟩ := command
        have bounds := decode_size decoded
        by_cases ended : size < available ∨ ∀ count, event ≠ .onNop count
        · rw [run_some decoded, run_some (decode_more decoded ended), andThen_then]
          have rest := ih (available - size) (by omega) (fun i => data (size + i))
            (callback.on event s).1
          rw [show available - size + more = available + more - size by omega] at rest
          simpa only [andThen, Nat.add_assoc, Nat.sub_sub] using rest.andThen
        · obtain ⟨cut, nop⟩ := not_or.mp ended
          obtain ⟨count, rfl⟩ : ∃ count, event = .onNop count := by simpa using nop
          obtain rfl : size = available := by omega
          obtain ⟨rfl, _⟩ := decode_nops more decoded
          rw [run_some decoded, andThen_then, Nat.sub_self, run_zero, nothing_then,
            callback.on_nop]
          simpa only [andThen, Nat.add_zero, Nat.add_sub_cancel_left] using run_nops more decoded

end

/-! ## Pieces of a stream -/

section
variable {State : Type} (callback : Callback State)

/-- The bytes of a list. -/
def dataOf (stream : List UInt8) (i : Nat) : UInt8 := stream.getD i 0

/-- `Run` over a list. -/
def RunAll (stream : List UInt8) (s : State) : Result State :=
  Run callback (dataOf stream) stream.length s

/-- Each piece is run after what is left from the ones before. -/
def feed : List (List UInt8) → List UInt8 → State → Result State
  | [], _, s => ⟨0, s, []⟩
  | piece :: pieces, rest, s =>
      let result := RunAll callback (rest ++ piece) s
      result.then (feed pieces ((rest ++ piece).drop result.size) result.state)

end

section
variable {State : Type} {callback : Callback State}

theorem dataOf_drop (stream : List UInt8) (size : Nat) :
    dataOf (stream.drop size) = fun i => dataOf stream (size + i) := by
  funext i
  simp only [dataOf, List.getD_eq_getElem?_getD, List.getElem?_drop]

theorem dataOf_append {stream more : List UInt8} {i : Nat} (bound : i < stream.length) :
    dataOf (stream ++ more) i = dataOf stream i := by
  simp only [dataOf, List.getD_eq_getElem?_getD, List.getElem?_append_left bound]

theorem Alike.trans_then {whole first second second' : Result State}
    (cut : Alike whole (first.then second)) (alike : Alike second second') :
    Alike whole (first.then second') where
  size := cut.size.trans (congrArg (first.size + ·) alike.size)
  state := cut.state.trans alike.state
  calls := by
    rw [cut.calls]
    dsimp only [Result.then]
    rw [mergeNops_append, mergeNops_append, alike.calls]

theorem runAll_rest (stream : List UInt8) (s : State) :
    (RunAll callback stream s).size ≤ stream.length ∧
      decode callback (dataOf (stream.drop (RunAll callback stream s).size))
        (stream.drop (RunAll callback stream s).size).length (RunAll callback stream s).state =
        none := by
  rw [dataOf_drop, List.length_drop]
  exact run_rest (dataOf stream) stream.length s

theorem feed_alike (pieces : List (List UInt8)) (rest : List UInt8) (s : State)
    (begun : decode callback (dataOf rest) rest.length s = none) :
    Alike (RunAll callback (rest ++ pieces.flatten) s) (feed callback pieces rest s) := by
  induction pieces generalizing rest s with
  | nil =>
      rw [List.flatten_nil, List.append_nil, RunAll, run_none begun]
      exact Alike.refl _
  | cons piece pieces ih =>
      have whole : rest ++ (piece :: pieces).flatten = rest ++ piece ++ pieces.flatten := by
        rw [List.flatten_cons, List.append_assoc]
      have first : Run callback (dataOf (rest ++ piece ++ pieces.flatten)) (rest ++ piece).length
          s = RunAll callback (rest ++ piece) s :=
        run_congr fun i bound => dataOf_append bound
      obtain ⟨le, stops⟩ := runAll_rest (rest ++ piece) s
      have cut := @run_cut _ callback (dataOf (rest ++ piece ++ pieces.flatten))
        (rest ++ piece).length pieces.flatten.length s
      rw [first, ← dataOf_drop, List.drop_append_of_le_length le] at cut
      rw [whole, RunAll, List.length_append, feed]
      refine cut.trans_then ?_
      have left := ih _ _ stops
      generalize RunAll callback (rest ++ piece) s = result at le left ⊢
      have length : (rest ++ piece).length + pieces.flatten.length - result.size =
          ((rest ++ piece).drop result.size ++ pieces.flatten).length := by
        rw [@List.length_append _ ((rest ++ piece).drop result.size), List.length_drop]
        omega
      rw [length]
      exact left

/-! ## The callbacks of the FIFO -/

theorem runCommand_congr {data data' : Nat → UInt8} {available : Nat} {s : State}
    (same : ∀ i < available, data i = data' i) :
    RunCommand callback data available s = RunCommand callback data' available s := by
  unfold RunCommand
  rw [← decode_congr same]
  cases decoded : decode callback data available s with
  | none => rfl
  | some command =>
      have bounds := decode_size decoded
      dsimp only
      rw [bytes_congr fun i bound => same i (by omega)]

theorem runCommand_calls (data : Nat → UInt8) (available : Nat) (s : State) :
    RunCommand callback data available s = ⟨0, s, []⟩ ∨
      0 < (RunCommand callback data available s).size ∧
        (RunCommand callback data available s).size ≤ available := by
  unfold RunCommand
  cases decoded : decode callback data available s with
  | none => exact .inl rfl
  | some command => exact .inr (decode_size decoded)

end

end Phocoena.OpcodeDecoder
