import Phocoena.VideoCommon.StreamCuts

/-! # Runs of two callbacks

Callbacks whose states stay related make related calls over the same bytes. Runs of NOPs are
merged before the calls of two runs are compared.
-/

namespace Phocoena.OpcodeDecoder

open CPMemory

/-! ## Runs of related callbacks -/

section
variable {S T : Type} {c : Callback S} {d : Callback T}

theorem decode_of_sizes {s : S} {t : T} (sizes : c.GetVertexSize s = d.GetVertexSize t)
    (data : Nat → UInt8) (available : Nat) :
    decode c data available s = decode d data available t := by
  unfold decode
  rw [sizes]

/-- What every callback keeps, a run keeps. -/
theorem run_keeps {P : S → Prop} (on : ∀ event s, P s → P (c.on event s).1) (data : Nat → UInt8)
    (available : Nat) {s : S} (holds : P s) : P (Run c data available s).state := by
  induction available using Nat.strongRecOn generalizing data s with
  | ind available ih =>
    cases decoded : decode c data available s with
    | none =>
        rw [run_none decoded]
        exact holds
    | some command =>
        obtain ⟨event, size⟩ := command
        have bounds := decode_size decoded
        rw [run_some decoded]
        exact ih (available - size) (by omega) _ (on event s holds)

/-- Two callbacks with related states, as long as the second one is fine. -/
structure Simulates {X : Type} (R : S → T → Prop) (fine : T → Prop) (f : Call S → X)
    (g : Call T → X) (c : Callback S) (d : Callback T) : Prop where
  sizes : ∀ s t, R s t → c.GetVertexSize s = d.GetVertexSize t
  sticky : ∀ event t, ¬ fine t → ¬ fine (d.on event t).1
  on : ∀ event s t, R s t → fine (d.on event t).1 → R (c.on event s).1 (d.on event t).1 ∧
    (c.on event s).2.map f = (d.on event t).2.map g
  own : ∀ event command s t, R s t →
    f ⟨event, command, s, c.in_display_list⟩ = g ⟨event, command, t, d.in_display_list⟩

theorem Simulates.run {X : Type} {R : S → T → Prop} {fine : T → Prop} {f : Call S → X}
    {g : Call T → X} (simulates : Simulates R fine f g c d) {data : Nat → UInt8} {available : Nat}
    {s : S} {t : T} (related : R s t) (good : fine (Run d data available t).state) :
    (Run c data available s).size = (Run d data available t).size ∧
      R (Run c data available s).state (Run d data available t).state ∧
      (Run c data available s).calls.map f = (Run d data available t).calls.map g := by
  induction available using Nat.strongRecOn generalizing data s t with
  | ind available ih =>
    have same := decode_of_sizes (simulates.sizes s t related) data available
    cases decoded : decode d data available t with
    | none =>
        rw [run_none decoded, run_none (same.trans decoded)]
        exact ⟨rfl, related, rfl⟩
    | some command =>
        obtain ⟨event, size⟩ := command
        have bounds := decode_size decoded
        rw [run_some decoded] at good ⊢
        rw [run_some (same.trans decoded)]
        have first : fine (d.on event t).1 := by
          by_contra bad
          exact run_keeps (P := fun t => ¬ fine t) simulates.sticky _ _ bad good
        obtain ⟨related', calls⟩ := simulates.on event s t related first
        obtain ⟨sizes, states, rest⟩ := ih (available - size) (by omega) related' good
        refine ⟨congrArg (size + ·) sizes, states, ?_⟩
        simp only [andThen, callsOf, List.map_append, calls, rest, List.map_cons, List.map_nil,
          simulates.own event _ s t related]

end

/-! ## Merged calls -/

section
variable {S T : Type}

theorem combine_combine (count more : Nat) (command command' : List UInt8) (s s' : S)
    (in_display_list : Bool) (calls : List (Call S)) :
    combine ⟨.onNop count, command, s, in_display_list⟩
        (combine ⟨.onNop more, command', s', in_display_list⟩ calls) =
      combine ⟨.onNop (count + more), command ++ command', s, in_display_list⟩ calls := by
  cases calls with
  | nil => simp [combine]
  | cons next rest =>
      obtain ⟨event, command'', s'', in_display_list'⟩ := next
      cases event
      case onNop third =>
        by_cases same : in_display_list = in_display_list'
        · simp [combine, same, Nat.add_assoc]
        · simp [combine, same]
      all_goals simp [combine]

/-- A call goes in front of calls that are merged already. -/
theorem mergeNops_combine (first : Call S) (calls more : List (Call S)) :
    mergeNops (combine first calls ++ more) = combine first (mergeNops (calls ++ more)) := by
  obtain ⟨event, command, s, in_display_list⟩ := first
  cases event
  case onNop count =>
    cases calls with
    | nil => rfl
    | cons next rest =>
        obtain ⟨event', command', s', in_display_list'⟩ := next
        cases event'
        case onNop more' =>
          by_cases same : in_display_list = in_display_list'
          · subst same
            have first : combine ⟨.onNop count, command, s, in_display_list⟩
                (⟨.onNop more', command', s', in_display_list⟩ :: rest) =
                  ⟨.onNop (count + more'), command ++ command', s, in_display_list⟩ :: rest := by
              simp [combine]
            rw [first]
            exact (combine_combine ..).symm
          · simp [combine, same, mergeNops]
        all_goals rfl
  all_goals rfl

theorem mergeNops_mergeNops_append (calls more : List (Call S)) :
    mergeNops (mergeNops calls ++ more) = mergeNops (calls ++ more) := by
  induction calls with
  | nil => rfl
  | cons first calls ih =>
      rw [show mergeNops (first :: calls) = combine first (mergeNops calls) from rfl,
        mergeNops_combine, ih]
      rfl

theorem mergeNops_append_congr {calls calls' more more' : List (Call S)}
    (same : mergeNops calls = mergeNops calls') (same' : mergeNops more = mergeNops more') :
    mergeNops (calls ++ more) = mergeNops (calls' ++ more') := by
  rw [← mergeNops_mergeNops_append calls, same, mergeNops_mergeNops_append, mergeNops_append,
    mergeNops_append, same']

/-- A call with the command processor's state. -/
def Call.within {State : Type} (cp : State → CPState) (call : Call State) : Call CPState :=
  ⟨call.event, call.command, cp call.state, call.in_display_list⟩

theorem map_combine (cp : S → CPState) (first : Call S) (calls : List (Call S)) :
    (combine first calls).map (Call.within cp) =
      combine (Call.within cp first) (calls.map (Call.within cp)) := by
  obtain ⟨event, command, s, in_display_list⟩ := first
  cases event
  case onNop count =>
    cases calls with
    | nil => rfl
    | cons next rest =>
        obtain ⟨event', command', s', in_display_list'⟩ := next
        cases event'
        case onNop more' =>
          by_cases same : in_display_list = in_display_list'
          · simp [combine, Call.within, same]
          · simp [combine, Call.within, same]
        all_goals rfl
  all_goals rfl

theorem map_mergeNops (cp : S → CPState) (calls : List (Call S)) :
    (mergeNops calls).map (Call.within cp) = mergeNops (calls.map (Call.within cp)) := by
  induction calls with
  | nil => rfl
  | cons first calls ih =>
      rw [show mergeNops (first :: calls) = combine first (mergeNops calls) from rfl, map_combine,
        ih]
      rfl

end

end Phocoena.OpcodeDecoder
