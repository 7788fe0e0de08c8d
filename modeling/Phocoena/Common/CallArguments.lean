import Phocoena.Common.CallFunction
import Phocoena.Common.MoveImmediateExact
import Mathlib.Data.List.Nodup
import Mathlib.Data.List.Perm.Subperm

/-! # The arguments arrive

Every emitted move leaves fewer moves, in the machine it leads to, with the same values still to
be delivered. Where all destinations are still to be read, sources and destinations are the same
registers, so that each is read once and the temporary registers are free.
-/

namespace Phocoena.Arm64Emitter

/-! ## Registers -/

/-- What a register holds, as far as it is looked at. -/
def Machine.view (m : Machine) (v : ARM64Reg) : BitVec 64 :=
  ((m.get v.reg).setWidth v.size.bits).setWidth 64

/-- The machine behind a `MOV`. -/
def Machine.mov (m : Machine) (dst src : ARM64Reg) : Machine :=
  m.after dst.reg (((m.get src.reg).setWidth dst.size.bits).setWidth 64, m.nzcv)

theorem step_MOV (m : Machine) (dst src : ARM64Reg) :
    m.step (MOV dst src) = some (m.mov dst src) := by
  simp [Machine.step, MOV, Emitted.eval, A64.Inst.eval, A64.LogicalOp.apply, A64.Operand.eval,
    Machine.get, Machine.mov, Emitted.dest]

theorem encodable_MOV (dst src : ARM64Reg) : (MOV dst src).encodable = true := by
  rcases dst with ⟨size, reg⟩
  cases size <;> rfl

theorem DecodeReg_gpr (size : GPRSize) {i : Nat} (le : i ≤ 31) : DecodeReg ⟨size, gpr i⟩ = i := by
  unfold DecodeReg gpr
  by_cases lt : i < 31
  · simp [lt]
  · simp only [lt, dite_false]
    omega

theorem gpr_DecodeReg (v : ARM64Reg) : gpr (DecodeReg v) = v.reg := by
  unfold DecodeReg gpr
  cases v.reg with
  | name r => simp
  | zr => rfl

theorem gpr_of_lt {i : Nat} (lt : i < 31) : gpr i = .name ⟨i, lt⟩ := dif_pos lt

section
variable {m : Machine} {dst src v : ARM64Reg}

theorem view_mov_self (size : src.size = dst.size) (named : DecodeReg dst < 31) :
    (m.mov dst src).view dst = m.view src := by
  have reg := gpr_DecodeReg dst
  rw [gpr_of_lt named] at reg
  have value : (m.mov dst src).get dst.reg =
      ((m.get src.reg).setWidth dst.size.bits).setWidth 64 := by
    rw [← reg]
    exact if_pos reg
  rw [Machine.view, value, setWidth_back, Machine.view, size]

theorem view_mov_of_ne (ne : DecodeReg v ≠ DecodeReg dst) : (m.mov dst src).view v = m.view v := by
  have apart : v.reg ≠ dst.reg := fun same => ne (by rw [DecodeReg, DecodeReg, same])
  have value : (m.mov dst src).get v.reg = m.get v.reg := by
    cases h : v.reg with
    | zr => rfl
    | name r =>
        rw [h] at apart
        exact if_neg apart
  rw [Machine.view, value, Machine.view]

theorem mov_x_of_ne {r : Fin 31} (ne : DecodeReg dst ≠ r) : (m.mov dst src).x r = m.x r := by
  refine if_neg fun same => ne ?_
  rw [DecodeReg, ← same]

end

/-! ## Moves that are still to be made -/

/-- The usages count the sources of the moves, and the sources hold what is to be delivered. -/
structure Pending (T : Nat → BitVec 64) (moves : List RegisterMove) (u : Usages) (m : Machine) :
    Prop where
  counts : ∀ r, u r = BitVec.ofNat 8 (moves.countP fun move => DecodeReg move.src = r)
  sources : ∀ move ∈ moves, m.view move.src = T (DecodeReg move.dst)
  distinct : (moves.map fun move => DecodeReg move.dst).Nodup
  sizes : ∀ move ∈ moves, move.src.size = move.dst.size
  arguments : ∀ move ∈ moves, DecodeReg move.dst < 8
  few : moves.length ≤ 8

section
variable {T : Nat → BitVec 64} {moves pre later : List RegisterMove} {move : RegisterMove}
  {u : Usages} {m : Machine}

theorem Pending.unused (pending : Pending T moves u m) {r : Nat} (zero : u r = 0) :
    ∀ move ∈ moves, DecodeReg move.src ≠ r := by
  have le := List.countP_le_length (l := moves) (p := fun move => DecodeReg move.src = r)
  have few := pending.few
  rw [pending.counts] at zero
  have none_ := congrArg BitVec.toNat zero
  rw [BitVec.toNat_ofNat, Nat.mod_eq_of_lt (by omega)] at none_
  intro move member same
  have := List.countP_eq_zero.mp none_ move member
  simp [same] at this

theorem Pending.used (pending : Pending T moves u m) {r : Nat} (some_ : u r ≠ 0) :
    ∃ move ∈ moves, DecodeReg move.src = r := by
  by_contra none_
  refine some_ ?_
  rw [pending.counts, List.countP_eq_zero.mpr fun move member => by
    simpa using fun same => none_ ⟨move, member, same⟩]
  rfl

/-- One move less, which its machine does not need any more. -/
theorem Pending.remove (pending : Pending T (pre ++ move :: later) u m) {m' : Machine}
    (sources : ∀ other ∈ pre ++ later, m'.view other.src = m.view other.src) :
    Pending T (pre ++ later) (u.decrement (DecodeReg move.src)) m' := by
  have sub : (pre ++ later).Sublist (pre ++ move :: later) :=
    (List.sublist_cons_self move later).append_left pre
  have inside : ∀ other ∈ pre ++ later, other ∈ pre ++ move :: later := fun _ member =>
    sub.subset member
  refine ⟨fun r => ?_, fun other member => ?_, (sub.map _).nodup pending.distinct,
    fun other member => pending.sizes other (inside other member),
    fun other member => pending.arguments other (inside other member),
    sub.length_le.trans pending.few⟩
  · have count := pending.counts r
    rw [List.countP_append, List.countP_cons] at count
    rw [List.countP_append, Usages.decrement, Usages.set]
    by_cases here : r = DecodeReg move.src
    · rw [if_pos here, ← here, count, if_pos (by simpa using here.symm), ← Nat.add_assoc,
        BitVec.ofNat_add]
      exact BitVec.add_sub_cancel _ _
    · rw [if_neg here, count, if_neg (by simpa using fun same => here same.symm), Nat.add_zero]
  · rw [sources other member]
    exact pending.sources other (inside other member)

/-- A move whose destination is not read any more can be made. -/
theorem Pending.emit (pending : Pending T (pre ++ move :: later) u m)
    (zero : u (DecodeReg move.dst) = 0) :
    Pending T (pre ++ later) (u.decrement (DecodeReg move.src)) (m.mov move.dst move.src) ∧
      (m.mov move.dst move.src).view move.dst = T (DecodeReg move.dst) := by
  have here : move ∈ pre ++ move :: later := List.mem_append_right pre List.mem_cons_self
  refine ⟨pending.remove fun other member => ?_, ?_⟩
  · refine view_mov_of_ne (pending.unused zero other ?_)
    exact ((List.sublist_cons_self move later).append_left pre).subset member
  · rw [view_mov_self (pending.sizes move here), pending.sources move here]
    exact (pending.arguments move here).trans (by decide)

end

/-! ## Code for some of the moves -/

/-- What is left of some moves after code that has made the others. -/
structure Progress (T : Nat → BitVec 64) (moves left : List RegisterMove) (code : List Emitted)
    (m m' : Machine) : Prop where
  run : m.run code = some m'
  encodable : ∀ i ∈ code, i.encodable = true
  sublist : left.Sublist moves
  landed : ∀ move ∈ moves, move ∈ left ∨ m'.view move.dst = T (DecodeReg move.dst)
  frame : ∀ r : Fin 31, (∀ move ∈ moves, DecodeReg move.dst ≠ r) → m'.x r = m.x r

theorem Progress.nothing (T : Nat → BitVec 64) (m : Machine) : Progress T [] [] [] m m where
  run := rfl
  encodable _ member := absurd member List.not_mem_nil
  sublist := .refl []
  landed _ member := absurd member List.not_mem_nil
  frame _ _ := rfl

theorem view_of_frame {m m' : Machine} {v : ARM64Reg} (named : DecodeReg v < 31)
    (same : m'.x ⟨DecodeReg v, named⟩ = m.x ⟨DecodeReg v, named⟩) : m'.view v = m.view v := by
  have reg := gpr_DecodeReg v
  rw [gpr_of_lt named] at reg
  have value : m'.get v.reg = m.get v.reg := by
    rw [← reg]
    exact same
  rw [Machine.view, value, Machine.view]

section
variable {T : Nat → BitVec 64} {moves pre : List RegisterMove} {u : Usages} {m : Machine}

/-- The loop over the array, where moves before it are still to come. -/
theorem emitUnblocked_spec (pending : Pending T (pre ++ moves) u m) :
    ∃ m', Progress T moves (emitUnblocked moves u).2.1 (emitUnblocked moves u).1 m m' ∧
      Pending T (pre ++ (emitUnblocked moves u).2.1) (emitUnblocked moves u).2.2 m' := by
  induction moves generalizing pre with
  | nil => exact ⟨m, .nothing T m, pending⟩
  | cons move later ih =>
      obtain ⟨m1, progress, pending1⟩ := @ih (pre ++ [move]) (by simpa using pending)
      have distinct := pending.distinct
      rw [List.map_append, List.map_cons] at distinct
      have apart : ∀ other ∈ later, DecodeReg other.dst ≠ DecodeReg move.dst := by
        intro other member same
        have head := (List.nodup_cons.mp (List.nodup_append.mp distinct).2.1).1
        exact head (same ▸ List.mem_map_of_mem member)
      have small := pending.arguments move (List.mem_append_right pre List.mem_cons_self)
      rw [emitUnblocked]
      generalize emitUnblocked later u = result at progress pending1
      obtain ⟨code, left, u1⟩ := result
      simp only [List.append_assoc, List.singleton_append] at progress pending1 ⊢
      by_cases zero : u1 (DecodeReg move.dst) = 0
      · obtain ⟨pending2, value⟩ := pending1.emit zero
        rw [if_pos zero]
        refine ⟨m1.mov move.dst move.src, ⟨?_, ?_, progress.sublist.cons move, ?_, ?_⟩, pending2⟩
        · rw [Machine.run_append, progress.run, Option.bind_some, Machine.run_singleton, step_MOV]
        · intro i member
          rcases List.mem_append.mp member with before | last
          · exact progress.encodable i before
          · rw [List.mem_singleton.mp last]
            exact encodable_MOV _ _
        · intro other member
          rcases List.mem_cons.mp member with rfl | behind
          · exact .inr value
          · refine (progress.landed other behind).imp_right fun landed => ?_
            rw [view_mov_of_ne (apart other behind), landed]
        · intro r outside
          rw [mov_x_of_ne (outside move List.mem_cons_self)]
          exact progress.frame r fun other member => outside other (List.mem_cons_of_mem _ member)
      · rw [if_neg zero]
        refine ⟨m1, ⟨progress.run, progress.encodable, progress.sublist.cons_cons move, ?_, ?_⟩,
          pending1⟩
        · intro other member
          rcases List.mem_cons.mp member with rfl | behind
          · exact .inl List.mem_cons_self
          · exact (progress.landed other behind).imp_left (List.mem_cons_of_mem _)
        · exact fun r outside => progress.frame r fun other member =>
            outside other (List.mem_cons_of_mem _ member)

theorem emitUnblocked_length (moves : List RegisterMove) (u : Usages) :
    (emitUnblocked moves u).2.1.length ≤ moves.length := by
  induction moves with
  | nil => exact Nat.le_refl 0
  | cons move later ih =>
      rw [emitUnblocked]
      generalize emitUnblocked later u = result at ih ⊢
      obtain ⟨code, left, u1⟩ := result
      dsimp only at ih ⊢
      split
      · exact Nat.le_succ_of_le ih
      · exact Nat.succ_le_succ ih

/-- Where nothing is emitted, every destination is used. -/
theorem emitUnblocked_stuck (stuck : (emitUnblocked moves u).2.1.length = moves.length) :
    (emitUnblocked moves u).2.2 = u ∧ ∀ move ∈ moves, u (DecodeReg move.dst) ≠ 0 := by
  induction moves with
  | nil => exact ⟨rfl, nofun⟩
  | cons move later ih =>
      rw [emitUnblocked] at stuck ⊢
      have le : (emitUnblocked later u).2.1.length ≤ later.length := emitUnblocked_length later u
      generalize emitUnblocked later u = result at stuck ih le ⊢
      obtain ⟨code, left, u1⟩ := result
      dsimp only at stuck ih le ⊢
      by_cases zero : u1 (DecodeReg move.dst) = 0
      · rw [if_pos zero, List.length_cons] at stuck
        have stuck : left.length = later.length + 1 := stuck
        omega
      · rw [if_neg zero] at stuck ⊢
        have stuck : left.length + 1 = later.length + 1 := stuck
        obtain ⟨rfl, used⟩ := ih (by omega)
        refine ⟨rfl, fun other member => ?_⟩
        rcases List.mem_cons.mp member with rfl | behind
        · exact zero
        · exact used other behind

end

/-! ## Breaking a cycle -/

section
variable {T : Nat → BitVec 64} {first : RegisterMove} {moves : List RegisterMove} {u : Usages}
  {m : Machine}

/-- Where every destination is used, the sources are the destinations in another order. -/
theorem Pending.sources_perm (pending : Pending T moves u m)
    (used : ∀ move ∈ moves, u (DecodeReg move.dst) ≠ 0) :
    (moves.map fun move => DecodeReg move.dst).Perm (moves.map fun move => DecodeReg move.src) := by
  have subset : (moves.map fun move => DecodeReg move.dst) ⊆
      moves.map fun move => DecodeReg move.src := by
    intro r member
    obtain ⟨move, inside, rfl⟩ := List.mem_map.mp member
    obtain ⟨source, inside', same⟩ := pending.used (used move inside)
    exact List.mem_map.mpr ⟨source, inside', same⟩
  exact (pending.distinct.subperm subset).perm_of_length_le (by simp)

/-- The moves after the first source has been saved. -/
def renamed (first : RegisterMove) (moves : List RegisterMove) : List RegisterMove :=
  ⟨first.dst, ⟨first.src.size, gpr 8⟩⟩ :: moves

def saved (u : Usages) (first : RegisterMove) : Usages :=
  (u.set 8 (u (DecodeReg first.src))).set (DecodeReg first.src) 0

theorem Pending.break_cycle (pending : Pending T (first :: moves) u m)
    (used : ∀ move ∈ first :: moves, u (DecodeReg move.dst) ≠ 0) :
    findTemp u = some 8 ∧
      ((first :: moves).map fun move => if move.src = first.src then
        { move with src := ⟨first.src.size, gpr 8⟩ } else move) = renamed first moves ∧
      Pending T (renamed first moves) (saved u first)
        (m.mov ⟨first.src.size, gpr 8⟩ first.src) ∧
      ∃ move ∈ renamed first moves, saved u first (DecodeReg move.dst) = 0 := by
  have perm := pending.sources_perm used
  have among : ∀ move ∈ first :: moves, ∃ other ∈ first :: moves,
      DecodeReg other.dst = DecodeReg move.src := fun move member =>
    List.mem_map.mp (perm.mem_iff.mpr (List.mem_map.mpr ⟨move, member, rfl⟩))
  have small : ∀ move ∈ first :: moves, DecodeReg move.src < 8 := by
    intro move member
    obtain ⟨other, inside, same⟩ := among move member
    rw [← same]
    exact pending.arguments other inside
  have once : ∀ move ∈ moves, DecodeReg move.src ≠ DecodeReg first.src := by
    intro move member same
    exact (List.nodup_cons.mp (perm.nodup pending.distinct)).1
      (List.mem_map.mpr ⟨move, member, same⟩)
  have source := small first List.mem_cons_self
  have number : DecodeReg ⟨first.src.size, gpr 8⟩ = 8 := DecodeReg_gpr _ (by decide)
  have free : u 8 = 0 := by
    rw [pending.counts, List.countP_eq_zero.mpr fun move member => by
      simpa using (show DecodeReg move.src ≠ 8 by have := small move member; omega)]
    rfl
  have none_of : ∀ r, (∀ move ∈ moves, DecodeReg move.src ≠ r) →
      (moves.countP fun move => DecodeReg move.src = r) = 0 := fun r ne =>
    List.countP_eq_zero.mpr fun move member => by simpa using ne move member
  refine ⟨List.find?_cons_of_pos (decide_eq_true free), ?_,
    ⟨fun r => ?_, ?_, pending.distinct, ?_, ?_, pending.few⟩, ?_⟩
  · rw [List.map_cons, if_pos rfl, renamed]
    congr 1
    refine (List.map_congr_left fun move member => ?_).trans (List.map_id moves)
    exact if_neg fun same => once move member (by rw [same])
  · have count := pending.counts r
    rw [List.countP_cons] at count
    rw [renamed, List.countP_cons, saved, Usages.set, number]
    by_cases cleared : r = DecodeReg first.src
    · rw [if_pos cleared, none_of r fun move member => cleared ▸ once move member,
        if_neg (by simp; omega)]
      rfl
    rw [if_neg cleared, Usages.set]
    by_cases temp : r = 8
    · have eight : (moves.countP fun move => DecodeReg move.src = r) = 0 :=
        none_of r fun move member => by
          have := small move (List.mem_cons_of_mem _ member)
          omega
      rw [if_pos temp, pending.counts, List.countP_cons, none_of _ once, eight,
        if_pos (by simp), if_pos (by simp [temp])]
    · rw [if_neg temp, count, if_neg (by simpa using fun same => cleared same.symm),
        if_neg (by simpa using fun same => temp same.symm)]
  · intro move member
    rcases List.mem_cons.mp member with rfl | behind
    · have value := @view_mov_self m ⟨first.src.size, gpr 8⟩ first.src rfl (by omega)
      exact value.trans (pending.sources first List.mem_cons_self)
    · have ne := small move (List.mem_cons_of_mem _ behind)
      rw [view_mov_of_ne (by omega)]
      exact pending.sources move (List.mem_cons_of_mem _ behind)
  · intro move member
    rcases List.mem_cons.mp member with rfl | behind
    · exact pending.sizes first List.mem_cons_self
    · exact pending.sizes move (List.mem_cons_of_mem _ behind)
  · intro move member
    rcases List.mem_cons.mp member with rfl | behind
    · exact pending.arguments first List.mem_cons_self
    · exact pending.arguments move (List.mem_cons_of_mem _ behind)
  · obtain ⟨move, member, same⟩ := among first List.mem_cons_self
    have zero : saved u first (DecodeReg move.dst) = 0 := if_pos same
    rcases List.mem_cons.mp member with rfl | behind
    · exact ⟨_, List.mem_cons_self, zero⟩
    · exact ⟨move, List.mem_cons_of_mem _ behind, zero⟩

end

/-! ## All moves -/

/-- Code after which every destination holds its value. -/
structure Delivered (T : Nat → BitVec 64) (moves : List RegisterMove) (code : List Emitted)
    (m m' : Machine) : Prop where
  run : m.run code = some m'
  encodable : ∀ i ∈ code, i.encodable = true
  landed : ∀ move ∈ moves, m'.view move.dst = T (DecodeReg move.dst)
  frame : ∀ r : Fin 31, (∀ move ∈ moves, DecodeReg move.dst ≠ r) →
    ¬ (8 ≤ (r : Nat) ∧ (r : Nat) < 18) → m'.x r = m.x r

theorem Delivered.nothing (T : Nat → BitVec 64) (m : Machine) : Delivered T [] [] m m where
  run := rfl
  encodable _ member := absurd member List.not_mem_nil
  landed _ member := absurd member List.not_mem_nil
  frame _ _ _ := rfl

section
variable {T : Nat → BitVec 64} {moves left : List RegisterMove} {u : Usages} {m m1 m2 : Machine}
  {code code' : List Emitted}

theorem Progress.deliver (progress : Progress T moves left code m m1)
    (distinct : (moves.map fun move => DecodeReg move.dst).Nodup)
    (arguments : ∀ move ∈ moves, DecodeReg move.dst < 8) (rest : Delivered T left code' m1 m2) :
    Delivered T moves (code ++ code') m m2 := by
  refine ⟨?_, fun i member => ?_, fun move member => ?_, fun r outside temp => ?_⟩
  · rw [Machine.run_append, progress.run]
    exact rest.run
  · exact (List.mem_append.mp member).elim (progress.encodable i) (rest.encodable i)
  · by_cases inside : move ∈ left
    · exact rest.landed move inside
    · have small := arguments move member
      have kept : m2.x ⟨DecodeReg move.dst, by omega⟩ = m1.x ⟨DecodeReg move.dst, by omega⟩ := by
        refine rest.frame _ (fun other left_ same => inside ?_) fun temp => ?_
        · have equal := List.inj_on_of_nodup_map distinct (progress.sublist.subset left_) member
            same
          rwa [← equal]
        · have := temp.1
          dsimp only at this
          omega
      rw [view_of_frame _ kept]
      exact (progress.landed move member).resolve_left inside
  · rw [rest.frame r (fun move member => outside move (progress.sublist.subset member)) temp]
    exact progress.frame r outside

theorem ParallelMoves_spec {fuel : Nat} (pending : Pending T moves u m)
    (enough : 2 * moves.length ≤ fuel ∨
      (∃ move ∈ moves, u (DecodeReg move.dst) = 0) ∧ 2 * moves.length ≤ fuel + 1) :
    ∃ code m', ParallelMoves fuel moves u = some code ∧ Delivered T moves code m m' := by
  induction fuel generalizing moves u m with
  | zero =>
      cases moves with
      | nil => exact ⟨[], m, by rw [ParallelMoves], .nothing T m⟩
      | cons first moves =>
          rw [List.length_cons] at enough
          omega
  | succ fuel ih =>
      cases moves with
      | nil => exact ⟨[], m, by rw [ParallelMoves], .nothing T m⟩
      | cons first moves =>
          obtain ⟨m1, progress, pending1⟩ := @emitUnblocked_spec T (first :: moves) [] u m pending
          have le := emitUnblocked_length (first :: moves) u
          have stuck := @emitUnblocked_stuck (first :: moves) u
          rw [List.length_cons] at enough
          rw [ParallelMoves]
          generalize emitUnblocked (first :: moves) u = result at progress pending1 le stuck
          obtain ⟨before, left, u1⟩ := result
          dsimp only at progress pending1 le stuck ⊢
          by_cases shorter : left.length < (first :: moves).length
          · rw [if_pos shorter]
            rw [List.length_cons] at shorter
            obtain ⟨code, m2, emitted, rest⟩ := ih pending1 (.inl (by
              rw [List.nil_append]
              omega))
            rw [List.nil_append] at emitted rest
            refine ⟨_, m2, by rw [emitted]; rfl, ?_⟩
            exact progress.deliver pending.distinct pending.arguments rest
          · rw [if_neg shorter]
            obtain ⟨-, used⟩ := stuck (by omega)
            obtain ⟨temp, list, pending2, free⟩ := pending.break_cycle used
            rw [temp, Option.bind_some, list]
            have number : DecodeReg ⟨first.src.size, gpr 8⟩ = 8 := DecodeReg_gpr _ (by decide)
            obtain ⟨code, m2, emitted, rest⟩ := ih pending2 (.inr ⟨free, by
              have none_ : ¬ ∃ move ∈ first :: moves, u (DecodeReg move.dst) = 0 := by
                rintro ⟨move, member, zero⟩
                exact used move member zero
              have := enough.resolve_right fun h => none_ h.1
              rw [renamed, List.length_cons]
              omega⟩)
            refine ⟨MOV ⟨first.src.size, gpr 8⟩ first.src :: code, m2, ?_, ?_, fun i member => ?_,
              fun move member => ?_, fun r outside temp => ?_⟩
            · have emitted : ParallelMoves fuel (renamed first moves) ((u.set
                  (DecodeReg ⟨first.src.size, gpr 8⟩) (u (DecodeReg first.src))).set
                  (DecodeReg first.src) 0) = some code := by
                rw [number]
                exact emitted
              rw [emitted]
              rfl
            · have first_ := Machine.run_append m [MOV ⟨first.src.size, gpr 8⟩ first.src] code
              rw [Machine.run_singleton, step_MOV, Option.bind_some, rest.run] at first_
              exact first_
            · rcases List.mem_cons.mp member with rfl | behind
              · exact encodable_MOV _ _
              · exact rest.encodable i behind
            · rcases List.mem_cons.mp member with rfl | behind
              · exact rest.landed ⟨move.dst, ⟨move.src.size, gpr 8⟩⟩ List.mem_cons_self
              · exact rest.landed move (List.mem_cons_of_mem _ behind)
            · rw [rest.frame r (fun move member => ?_) temp, mov_x_of_ne (by omega)]
              rcases List.mem_cons.mp member with rfl | behind
              · exact outside first List.mem_cons_self
              · exact outside move (List.mem_cons_of_mem _ behind)

end

/-! ## Register arguments -/

/-- The register arguments from number `i` on, as moves. -/
def argumentMoves : Nat → List Argument → List RegisterMove
  | _, [] => []
  | i, .register arg :: args => ⟨⟨arg.size, gpr i⟩, arg⟩ :: argumentMoves (i + 1) args
  | i, .immediate .. :: args => argumentMoves (i + 1) args

theorem mem_argumentMoves {move : RegisterMove} {i : Nat} {args : List Argument} :
    move ∈ argumentMoves i args ↔
      ∃ j, args[j]? = some (.register move.src) ∧ move.dst = ⟨move.src.size, gpr (i + j)⟩ := by
  induction args generalizing i with
  | nil => simp [argumentMoves]
  | cons arg args ih =>
      have later : (∃ j, (arg :: args)[j + 1]? = some (.register move.src) ∧
          move.dst = ⟨move.src.size, gpr (i + (j + 1))⟩) ↔ move ∈ argumentMoves (i + 1) args := by
        rw [ih]
        simp only [List.getElem?_cons_succ, Nat.add_assoc, Nat.add_comm 1]
      have both : (∃ j, (arg :: args)[j]? = some (.register move.src) ∧
          move.dst = ⟨move.src.size, gpr (i + j)⟩) ↔
          (arg = .register move.src ∧ move.dst = ⟨move.src.size, gpr i⟩) ∨
            move ∈ argumentMoves (i + 1) args := by
        rw [← later]
        constructor
        · rintro ⟨_ | j, at_, dst⟩
          · exact .inl ⟨Option.some.inj at_, dst⟩
          · exact .inr ⟨j, at_, dst⟩
        · rintro (⟨rfl, dst⟩ | ⟨j, at_, dst⟩)
          · exact ⟨0, rfl, dst⟩
          · exact ⟨j + 1, at_, dst⟩
      rw [both]
      cases arg with
      | register v =>
          rw [argumentMoves, List.mem_cons]
          refine or_congr_left ⟨?_, ?_⟩
          · rintro rfl
            exact ⟨rfl, rfl⟩
          · rintro ⟨same, dst⟩
            obtain rfl := Argument.register.inj same
            rw [← dst]
      | immediate size value => simp [argumentMoves]

theorem argumentMoves_length (i : Nat) (args : List Argument) :
    (argumentMoves i args).length ≤ args.length := by
  induction args generalizing i with
  | nil => exact Nat.le_refl 0
  | cons arg args ih =>
      cases arg with
      | register v => exact Nat.succ_le_succ (ih (i + 1))
      | immediate size value => exact Nat.le_succ_of_le (ih (i + 1))

theorem argumentMoves_dst {move : RegisterMove} {i : Nat} {args : List Argument}
    (few : i + args.length ≤ 31) (member : move ∈ argumentMoves i args) :
    i ≤ DecodeReg move.dst ∧ DecodeReg move.dst < i + args.length := by
  obtain ⟨j, at_, dst⟩ := mem_argumentMoves.mp member
  have lt := (List.getElem?_eq_some_iff.mp at_).1
  rw [dst, DecodeReg_gpr _ (by omega)]
  omega

theorem argumentMoves_distinct {i : Nat} {args : List Argument} (few : i + args.length ≤ 31) :
    ((argumentMoves i args).map fun move => DecodeReg move.dst).Nodup := by
  induction args generalizing i with
  | nil => exact List.nodup_nil
  | cons arg args ih =>
      rw [List.length_cons] at few
      cases arg with
      | register v =>
          refine List.nodup_cons.mpr ⟨fun member => ?_, ih (by omega)⟩
          obtain ⟨move, inside, same⟩ := List.mem_map.mp member
          have same : DecodeReg move.dst = DecodeReg ⟨v.size, gpr i⟩ := same
          have := argumentMoves_dst (by omega) inside
          rw [same, DecodeReg_gpr _ (by omega)] at this
          omega
      | immediate size value => exact ih (by omega)

theorem countUses_eq (args : List Argument) (i : Nat) (u : Usages) (r : Nat) :
    countUses args u r = u r +
      BitVec.ofNat 8 ((argumentMoves i args).countP fun move => DecodeReg move.src = r) := by
  induction args generalizing i u with
  | nil => exact (BitVec.add_zero (u r)).symm
  | cons arg args ih =>
      cases arg with
      | register v =>
          rw [countUses, ih (i + 1), argumentMoves, List.countP_cons, Usages.increment, Usages.set]
          by_cases here : r = DecodeReg v
          · rw [if_pos here, if_pos (by simpa using here.symm), BitVec.ofNat_add, here,
              BitVec.add_assoc, BitVec.add_comm 1]
            rfl
          · rw [if_neg here, if_neg (by simpa using fun same => here same.symm)]
            rfl
      | immediate size value => exact ih (i + 1) u

section
variable {T : Nat → BitVec 64} {pre : List RegisterMove} {u : Usages} {m : Machine}

/-- The loop over the arguments, with the moves found before. -/
theorem registerArguments_spec {args : List Argument} {i : Nat} (few : i + args.length ≤ 8)
    (pending : Pending T (pre ++ argumentMoves i args) u m) :
    ∃ m', Progress T (argumentMoves i args) (registerArguments i args u).2.1
        (registerArguments i args u).1 m m' ∧
      Pending T (pre ++ (registerArguments i args u).2.1) (registerArguments i args u).2.2 m' := by
  induction args generalizing pre u m i with
  | nil => exact ⟨m, .nothing T m, pending⟩
  | cons arg args ih =>
      rw [List.length_cons] at few
      cases arg with
      | immediate size value => exact ih (by omega) pending
      | register arg =>
          have number : DecodeReg ⟨arg.size, gpr i⟩ = i := DecodeReg_gpr _ (by omega)
          have later : ∀ move ∈ argumentMoves (i + 1) args, DecodeReg move.dst ≠ i := by
            intro move member
            have := argumentMoves_dst (by omega) member
            omega
          have value := pending.sources _ (List.mem_append_right pre List.mem_cons_self)
          rw [argumentMoves] at pending ⊢
          rw [registerArguments]
          by_cases there : (⟨arg.size, gpr i⟩ : ARM64Reg) = arg
          · obtain ⟨m1, progress, pending1⟩ := ih (by omega)
              (@Pending.remove T pre _ _ u m pending m fun _ _ => rfl)
            rw [if_pos there]
            refine ⟨m1, ⟨progress.run, progress.encodable, progress.sublist.cons _, ?_, ?_⟩,
              pending1⟩
            · intro move member
              rcases List.mem_cons.mp member with rfl | behind
              · refine .inr ((view_of_frame (number.trans_lt (by omega)) ?_).trans
                  ((congrArg m.view there).trans value))
                refine progress.frame _ fun move member same => later move member ?_
                exact same.trans number
              · exact progress.landed move behind
            · exact fun r outside => progress.frame r fun move member =>
                outside move (List.mem_cons_of_mem _ member)
          · rw [if_neg there]
            by_cases zero : u i = 0
            · obtain ⟨pending1, landed⟩ := pending.emit (by rwa [number])
              obtain ⟨m1, progress, pending2⟩ := ih (by omega) pending1
              rw [if_pos zero]
              generalize registerArguments (i + 1) args _ = result at progress pending2
              obtain ⟨code, left, u1⟩ := result
              refine ⟨m1, ⟨?_, ?_, progress.sublist.cons _, ?_, ?_⟩, pending2⟩
              · have first := Machine.run_append m [MOV ⟨arg.size, gpr i⟩ arg] code
                rw [Machine.run_singleton, step_MOV, Option.bind_some] at first
                exact first.trans progress.run
              · intro j member
                rcases List.mem_cons.mp member with rfl | behind
                · exact encodable_MOV _ _
                · exact progress.encodable j behind
              · intro move member
                rcases List.mem_cons.mp member with rfl | behind
                · refine .inr ((view_of_frame (number.trans_lt (by omega)) ?_).trans landed)
                  refine progress.frame _ fun move member same => later move member ?_
                  exact same.trans number
                · exact progress.landed move behind
              · intro r outside
                rw [progress.frame r fun move member =>
                  outside move (List.mem_cons_of_mem _ member)]
                exact mov_x_of_ne (outside _ List.mem_cons_self)
            · obtain ⟨m1, progress, pending1⟩ := @ih (pre ++ [⟨⟨arg.size, gpr i⟩, arg⟩]) u m (i + 1)
                (by omega) (by simpa using pending)
              rw [if_neg zero]
              generalize registerArguments (i + 1) args u = result at progress pending1
              obtain ⟨code, left, u1⟩ := result
              refine ⟨m1, ⟨progress.run, progress.encodable, progress.sublist.cons_cons _, ?_, ?_⟩,
                by simpa using pending1⟩
              · intro move member
                rcases List.mem_cons.mp member with rfl | behind
                · exact .inl List.mem_cons_self
                · exact (progress.landed move behind).imp_left (List.mem_cons_of_mem _)
              · exact fun r outside => progress.frame r fun move member =>
                  outside move (List.mem_cons_of_mem _ member)

end

/-! ## Constants -/

theorem run_pc {code : List Emitted} {m m' : Machine} (run : m.run code = some m') :
    m'.pc = m.pc + BitVec.ofNat 64 (4 * code.length) := by
  induction code generalizing m with
  | nil =>
      obtain rfl : m = m' := Option.some.inj run
      exact (BitVec.add_zero m.pc).symm
  | cons i code ih =>
      obtain ⟨m1, step, rest⟩ := Option.bind_eq_some_iff.mp run
      obtain ⟨result, -, rfl⟩ := Option.map_eq_some_iff.mp step
      rw [ih rest, List.length_cons, Nat.mul_succ, Nat.add_comm, BitVec.ofNat_add,
        ← BitVec.add_assoc]
      rfl

/-- Constants go to their registers and change no others. -/
theorem immediateArguments_spec {args : List Argument} {i : Nat} (few : i + args.length ≤ 31)
    (m : Machine) :
    ∃ code m', immediateArguments m.pc i args = some code ∧ (∀ j ∈ code, j.encodable = true) ∧
      m.run code = some m' ∧
      (∀ j size value, args[j]? = some (.immediate size value) →
        m'.view ⟨size, gpr (i + j)⟩ = (value.setWidth size.bits).setWidth 64) ∧
      ∀ r : Fin 31, (∀ j size value, args[j]? = some (.immediate size value) → i + j ≠ r) →
        m'.x r = m.x r := by
  induction args generalizing i m with
  | nil =>
      refine ⟨[], m, rfl, fun _ member => absurd member List.not_mem_nil, rfl,
        fun j size value at_ => ?_, fun _ _ => rfl⟩
      rw [List.getElem?_nil] at at_
      cases at_
  | cons arg args ih =>
      rw [List.length_cons] at few
      cases arg with
      | register v =>
          obtain ⟨code, m', emitted, encodable, run, values, frame⟩ := @ih (i + 1) (by omega) m
          refine ⟨code, m', emitted, encodable, run, fun j size value at_ => ?_,
            fun r outside => ?_⟩
          · cases j with
            | zero => cases at_
            | succ j =>
                rw [show i + (j + 1) = i + 1 + j by omega]
                exact values j size value at_
          · refine frame r fun j size value at_ => ?_
            rw [show i + 1 + j = i + (j + 1) by omega]
            exact outside (j + 1) size value at_
      | immediate size value =>
          have reg := gpr_of_lt (show i < 31 by omega)
          obtain ⟨code, emitted, -, encodable, run⟩ := MOVI2R_loads m size ⟨i, by omega⟩ value
          obtain ⟨later, m', emitted', encodable', run', values, frame⟩ := @ih (i + 1) (by omega)
            (m.moved ⟨i, by omega⟩ ((value.setWidth size.bits).setWidth 64) code.length)
          refine ⟨code ++ later, m', ?_, fun j member => ?_, ?_, fun j size' value' at_ => ?_,
            fun r outside => ?_⟩
          · rw [immediateArguments, reg, emitted]
            have emitted' : immediateArguments (m.pc + BitVec.ofNat 64 (4 * code.length)) (i + 1)
              args = some later := emitted'
            show (immediateArguments (m.pc + BitVec.ofNat 64 (4 * code.length)) (i + 1) args).bind
              _ = _
            rw [emitted']
            rfl
          · exact (List.mem_append.mp member).elim (encodable j) (encodable' j)
          · rw [Machine.run_append, run]
            exact run'
          · cases j with
            | zero =>
                obtain ⟨rfl, rfl⟩ := Argument.immediate.inj (Option.some.inj at_)
                have kept := frame ⟨i, by omega⟩ fun j _ _ _ same => by
                  dsimp only at same
                  omega
                rw [Nat.add_zero, Machine.view, reg]
                show ((m'.x _).setWidth _).setWidth 64 = _
                rw [kept]
                show (((m.moved _ _ code.length).get (.name _)).setWidth _).setWidth 64 = _
                rw [Machine.get_moved, setWidth_back]
            | succ j =>
                rw [show i + (j + 1) = i + 1 + j by omega]
                exact values j size' value' at_
          · have ne : (⟨i, by omega⟩ : Fin 31) ≠ r := fun same =>
              outside 0 size value rfl (congrArg Fin.val same)
            rw [frame r fun j size' value' at_ => ?_]
            · exact Function.update_of_ne ne.symm _ _
            · rw [show i + 1 + j = i + (j + 1) by omega]
              exact outside (j + 1) size' value' at_

/-! ## The call -/

def Argument.size : Argument → GPRSize
  | register v => v.size
  | immediate size _ => size

/-- What the function is to find in the argument's register. -/
def Argument.value (m : Machine) : Argument → BitVec 64
  | register v => m.view v
  | immediate size value => (value.setWidth size.bits).setWidth 64

def argumentValue (m : Machine) (args : List Argument) (i : Nat) : BitVec 64 :=
  (args[i]?.map (·.value m)).getD 0

theorem pending_arguments (m : Machine) {args : List Argument} (few : args.length ≤ 8) :
    Pending (argumentValue m args) (argumentMoves 0 args) (countUses args fun _ => 0) m := by
  refine ⟨fun r => ?_, fun move member => ?_, argumentMoves_distinct (by omega),
    fun move member => ?_, fun move member => ?_, (argumentMoves_length 0 args).trans few⟩
  · rw [countUses_eq args 0]
    exact BitVec.zero_add _
  · obtain ⟨j, at_, dst⟩ := mem_argumentMoves.mp member
    have lt := (List.getElem?_eq_some_iff.mp at_).1
    rw [dst, DecodeReg_gpr _ (by omega), Nat.zero_add, argumentValue, at_]
    rfl
  · obtain ⟨j, -, dst⟩ := mem_argumentMoves.mp member
    rw [dst]
  · have := argumentMoves_dst (by omega) member
    omega

/-- The code before the call is emitted, and where it runs every argument is in its register at
its width, with the value it had before the first instruction; nothing but the argument registers
and the temporary ones has changed. -/
def Arrive (fuel : Nat) (m : Machine) (args : List Argument) : Prop :=
  ∃ code m', ABI_CallFunction fuel m.pc args = some code ∧ (∀ i ∈ code, i.encodable = true) ∧
    m.run code = some m' ∧
    (∀ i arg, args[i]? = some arg → m'.view ⟨arg.size, gpr i⟩ = arg.value m) ∧
    ∀ r : Fin 31, args.length ≤ r → ¬ (8 ≤ (r : Nat) ∧ (r : Nat) < 18) → m'.x r = m.x r

/-- Sixteen rounds are enough for the moves of eight arguments. -/
theorem arguments_arrive (m : Machine) (args : List Argument) (few : args.length ≤ 8) {fuel : Nat}
    (enough : 16 ≤ fuel) : Arrive fuel m args := by
  have pending := pending_arguments m few
  obtain ⟨m1, progress, pending1⟩ := @registerArguments_spec (argumentValue m args) [] _ m args 0
    (by omega) pending
  rw [Arrive, ABI_CallFunction]
  generalize registerArguments 0 args _ = result at progress pending1
  obtain ⟨eager, left, u⟩ := result
  have short := pending1.few
  obtain ⟨moves, m2, emitted, delivered⟩ :=
    @ParallelMoves_spec _ _ _ m1 fuel pending1 (.inl (by omega))
  have all := progress.deliver pending.distinct pending.arguments delivered
  obtain ⟨constants, m3, emitted', encodable, run, values, frame⟩ :=
    @immediateArguments_spec args 0 (by omega) m2
  refine ⟨eager ++ moves ++ constants, m3, ?_, fun i member => ?_, ?_, fun i arg at_ => ?_,
    fun r outside temp => ?_⟩
  · have emitted : ParallelMoves fuel left u = some moves := emitted
    dsimp only
    rw [emitted]
    show (immediateArguments (m.pc + BitVec.ofNat 64 (4 * (eager ++ moves).length)) 0 args).bind
      _ = _
    rw [← run_pc all.run, emitted']
    rfl
  · exact (List.mem_append.mp member).elim (all.encodable i) (encodable i)
  · rw [Machine.run_append, all.run]
    exact run
  · have lt := (List.getElem?_eq_some_iff.mp at_).1
    cases arg with
    | immediate size value =>
        have here := values i size value at_
        rwa [Nat.zero_add] at here
    | register v =>
        have member : (⟨⟨v.size, gpr i⟩, v⟩ : RegisterMove) ∈ argumentMoves 0 args :=
          mem_argumentMoves.mpr ⟨i, at_, by rw [Nat.zero_add]⟩
        have number : DecodeReg ⟨v.size, gpr i⟩ = i := DecodeReg_gpr _ (by omega)
        have landed := all.landed _ member
        have kept : m3.view ⟨v.size, gpr i⟩ = m2.view ⟨v.size, gpr i⟩ := by
          refine view_of_frame (number.trans_lt (by omega))
            (frame _ fun j size value other same => ?_)
          have same : 0 + j = DecodeReg ⟨v.size, gpr i⟩ := same
          rw [number, Nat.zero_add] at same
          rw [same, at_] at other
          cases other
        refine kept.trans (landed.trans ?_)
        show argumentValue m args (DecodeReg ⟨v.size, gpr i⟩) = _
        rw [number, argumentValue, at_]
        rfl
  · rw [frame r fun j size value at_ same => ?_]
    · refine all.frame r (fun move member same => ?_) temp
      have := argumentMoves_dst (by omega) member
      omega
    · have := (List.getElem?_eq_some_iff.mp at_).1
      omega

/-- The first two arguments exchanged, at two widths. -/
theorem arguments_arrive_exchanged :
    Arrive 16 ⟨fun r => BitVec.ofNat 64 r, ⟨false, false, false, false⟩, 0x4000⟩
      [.register ⟨.B64, .name 1⟩, .register ⟨.B32, .name 0⟩] :=
  arguments_arrive _ _ (by decide) (Nat.le_refl 16)

end Phocoena.Arm64Emitter
