import Phocoena.Core.ActionReplayReference
import Mathlib.Logic.Function.Basic
import Mathlib.Tactic.SplitIfs

/-! # Runs of Action Replay codes follow the line grammar -/

namespace Phocoena.ActionReplay

section Loops

variable {M : Type} (mmu : MMU M)

@[simp] theorem ApplyMemoryPatch_patches (patch : Patch) (guest : Guest M) :
    (ApplyMemoryPatch mmu patch guest).patches = guest.patches ++ [patch] := rfl

theorem applyAll_cons (patch : Patch) (patches : List Patch) (guest : Guest M) :
    applyAll mmu (patch :: patches) guest =
      applyAll mmu patches (ApplyMemoryPatch mmu patch guest) := rfl

theorem fill_eq (patch : Nat → Patch) (count i : Nat) (guest : Guest M) :
    fill mmu patch count i guest = applyAll mmu ((List.range' i count).map patch) guest := by
  induction count generalizing i guest with
  | zero => rfl
  | succ count ih => rw [fill, ih, List.range'_succ, List.map_cons, applyAll_cons]

theorem copyBytes_eq (src dest : Word) (count i : Nat) (guest : Guest M) :
    copyBytes mmu src dest count i guest =
      (List.range' i count).foldl (fun guest i =>
        let value := mmu.HostRead8 guest.memory (src + BitVec.ofNat 32 i)
        ApplyMemoryPatch mmu (.u8 value (dest + BitVec.ofNat 32 i)) guest) guest := by
  induction count generalizing i guest with
  | zero => rfl
  | succ count ih => rw [copyBytes, ih, List.range'_succ, List.foldl_cons]

/-- The `i`-th turn of the loop has added `i` increments. -/
theorem slide_eq (patch : Word → Word → Patch) (val_incr addr_incr : Int) (count : Nat)
    (val curr_addr : Word) (guest : Guest M) :
    slide mmu patch (BitVec.ofInt 32 val_incr) (BitVec.ofInt 32 addr_incr) count val curr_addr
        guest =
      applyAll mmu ((List.range count).map fun (i : Nat) =>
        patch (val + BitVec.ofInt 32 (i * val_incr))
          (curr_addr + BitVec.ofInt 32 (i * addr_incr))) guest := by
  induction count generalizing val curr_addr guest with
  | zero => rfl
  | succ count ih =>
      have next : ∀ (start : Word) (incr : Int) (i : Nat),
          start + BitVec.ofInt 32 incr + BitVec.ofInt 32 (i * incr) =
            start + BitVec.ofInt 32 ((i + 1 : Nat) * incr) := by
        intro start incr i
        rw [BitVec.add_assoc, ← BitVec.ofInt_add]
        congr 2
        grind
      rw [slide, ih, List.range_succ_eq_map, List.map_cons, applyAll_cons, List.map_map]
      simp only [next, Function.comp_def]
      simp

/-- A memory copy makes one patch for each byte. -/
theorem copyAll_length (src dest : Word) (count : Nat) (guest : Guest M) :
    (copyAll mmu src dest count guest).patches.length = guest.patches.length + count := by
  induction count with
  | zero => rfl
  | succ count ih =>
      rw [copyAll] at ih ⊢
      rw [List.range_succ, List.foldl_append, List.foldl_cons, List.foldl_nil,
        ApplyMemoryPatch_patches, List.length_append, ih]
      rfl

end Loops

/-! ## The fields of a line -/

theorem size_cases (size : BitVec 2) : size = 0 ∨ size = 1 ∨ size = 2 ∨ size = 3 := by
  revert size
  decide

theorem zcode_cases (zcode : BitVec 3) : zcode = 0 ∨ zcode = 1 ∨ zcode = 2 ∨ zcode = 3 ∨
    zcode = 4 ∨ zcode = 5 ∨ zcode = 6 ∨ zcode = 7 := by
  revert zcode
  decide

theorem addr_incr_eq (data : Word) : (data &&& 0xFFFF).setWidth 16 = data.extractLsb' 0 16 := by
  rw [BitVec.setWidth_and]
  change data.setWidth 16 &&& BitVec.allOnes 16 = _
  rw [BitVec.and_allOnes]
  ext i bound
  simp

theorem val_incr_eq (data : Word) : (data >>> 24).setWidth 8 = data.extractLsb' 24 8 := by
  ext i bound
  simp

theorem write_num_eq (data : Word) :
    ((data &&& 0xFF0000) >>> 16).setWidth 8 = data.extractLsb' 16 8 := by
  rw [BitVec.ushiftRight_and_distrib, BitVec.setWidth_and]
  change (data >>> 16).setWidth 8 &&& BitVec.allOnes 8 = _
  rw [BitVec.and_allOnes]
  ext i bound
  simp

theorem zcode_eq (data : Word) : (data >>> 29).setWidth 3 = data.extractLsb' 29 3 := by
  ext i bound
  simp

theorem z4_size_iff (data : Word) :
    0x3 = (data >>> 25) &&& 0x03 ↔ (ARAddr.mk data).size = 3 := by
  have low : ((data >>> 25) &&& 0x03).toNat = data.toNat >>> 25 % 4 := by
    rw [BitVec.toNat_and, BitVec.toNat_ushiftRight]
    exact Nat.and_two_pow_sub_one_eq_mod _ 2
  have size : ((ARAddr.mk data).size).toNat = data.toNat >>> 25 % 4 := BitVec.extractLsb'_toNat ..
  rw [← BitVec.toNat_inj, low, ← BitVec.toNat_inj, size]
  exact eq_comm

/-! ## The code functions -/

section Functions

variable {M : Type} (mmu : MMU M)

theorem Subtype_RamWriteAndFill_eq (addr : ARAddr) (data : Word) (guest : Guest M) :
    Subtype_RamWriteAndFill mmu addr data guest =
      (true, applyAll mmu (ramFill addr data) guest) := by
  rw [Subtype_RamWriteAndFill, ramFill]
  rcases size_cases addr.size with size | size | size | size
  · simp only [size, DATATYPE_8BIT, if_true, fill_eq, List.range_eq_range', patchOf, bytesOf]
    simp
  · simp only [size, DATATYPE_8BIT, DATATYPE_16BIT, fill_eq, List.range_eq_range', patchOf, bytesOf]
    simp [BitVec.ofNat_mul]
  · have none_left : data >>> (8 * bytesOf 2) = 0 := BitVec.ushiftRight_eq_zero (Nat.le_refl _)
    simp only [size, DATATYPE_8BIT, DATATYPE_16BIT, DATATYPE_32BIT, none_left]
    simp [patchOf, applyAll]
  · have none_left : data >>> (8 * bytesOf 3) = 0 := BitVec.ushiftRight_eq_zero (Nat.le_refl _)
    simp only [size, DATATYPE_8BIT, DATATYPE_16BIT, DATATYPE_32BIT_FLOAT, none_left]
    simp [patchOf, applyAll]

theorem ZeroCode_FillAndSlide_eq {val_last : Word} (addr : ARAddr) (data : Word) (guest : Guest M)
    (slides : (ARAddr.mk val_last).size ≠ 3) :
    ZeroCode_FillAndSlide mmu val_last addr data guest =
      (true, applyAll mmu (slidePatches val_last addr data) guest) := by
  rw [ZeroCode_FillAndSlide, slidePatches, addr_incr_eq, val_incr_eq, write_num_eq]
  rcases size_cases (ARAddr.mk val_last).size with size | size | size | size
  · simp only [size, DATATYPE_8BIT, if_true, BitVec.signExtend, slide_eq, patchOf, bytesOf]
    simp
  · have double : ∀ incr : Int, BitVec.ofInt 32 incr * 2 = BitVec.ofInt 32 (incr * 2) := by
      intro incr
      rw [BitVec.ofInt_mul]
      rfl
    simp only [size, DATATYPE_8BIT, DATATYPE_16BIT, BitVec.signExtend, double, slide_eq, patchOf,
      bytesOf]
    simp
  · have fourfold : ∀ incr : Int, BitVec.ofInt 32 incr * 4 = BitVec.ofInt 32 (incr * 4) := by
      intro incr
      rw [BitVec.ofInt_mul]
      rfl
    simp only [size, DATATYPE_8BIT, DATATYPE_16BIT, DATATYPE_32BIT, BitVec.signExtend, fourfold,
      slide_eq, patchOf, bytesOf]
    simp
  · exact absurd size slides

/-- The number of bytes that `ZeroCode_MemoryCopy` copies. -/
theorem num_bytes_eq (data : Word) :
    ((data &&& 0x7FFF).setWidth 8 : Byte).toNat = copyCount data % 256 := BitVec.toNat_setWidth ..

theorem ZeroCode_MemoryCopy_eq {val_last : Word} {addr : ARAddr} {data : Word} {memory : M}
    (valid : data &&& 0xFF0000 = 0) :
    ZeroCode_MemoryCopy mmu val_last addr data ⟨memory, []⟩ =
      (true, copyAll mmu (copyAddresses mmu val_last addr data memory).1
        (copyAddresses mmu val_last addr data memory).2 (copyCount data % 256) ⟨memory, []⟩) := by
  rw [ZeroCode_MemoryCopy, if_pos valid, num_bytes_eq, copyAddresses]
  by_cases direct : data >>> 24 = 0
  · rw [if_neg (not_not.mpr direct), if_pos direct, copyBytes_eq, copyAll, List.range_eq_range']
  · rw [if_pos direct, if_neg direct]
    dsimp only
    rw [copyBytes_eq, copyAll, List.range_eq_range']

end Functions

/-! ## Skipped lines -/

section Runs

variable {M : Type} (mmu : MMU M)

/-- The loop in front of a command. -/
def Lines.ready (val_last : Word) : Lines :=
  { do_fill_and_slide := false, do_memory_copy := false, skip_count := 0, val_last := val_last }

theorem Outcome.behind_nil (outcome : Outcome M) : outcome.behind [] = outcome := rfl

theorem Outcome.behind_inj {carried : List (List Patch)} {o o' : Outcome M} :
    o.behind carried = o'.behind carried ↔ o = o' := by
  constructor
  · intro same
    obtain ⟨success, memory, later⟩ := o
    obtain ⟨success', memory', later'⟩ := o'
    simpa [Outcome.behind] using same
  · exact congrArg _

theorem runLines_stop {entry : AREntry} {entries : List AREntry} {lines : Lines}
    {memory memory' : M} {success : Bool} {carried : List (List Patch)}
    (line : runLine mmu entry lines memory = .stop success memory' carried) :
    runLines mmu (entry :: entries) lines memory = ⟨success, memory', carried⟩ := by
  rw [runLines, line]

theorem runLines_go {entry : AREntry} {entries : List AREntry} {lines lines' : Lines}
    {memory memory' : M} {carried : List (List Patch)}
    (line : runLine mmu entry lines memory = .go lines' memory' carried) :
    runLines mmu (entry :: entries) lines memory =
      (runLines mmu entries lines' memory').behind carried := by
  rw [runLines, line]

theorem runLines_skip (entries : List AREntry) (val_last : Word) (memory : M) (count : Nat) :
    runLines mmu entries { Lines.ready val_last with skip_count := count } memory =
      runLines mmu (entries.drop count) (.ready val_last) memory := by
  induction count generalizing entries with
  | zero => rfl
  | succ count ih =>
      cases entries with
      | nil => rfl
      | cons entry entries =>
          have line : runLine mmu entry
              { Lines.ready val_last with skip_count := (count + 1 : Nat) } memory =
                .go { Lines.ready val_last with skip_count := count } memory [] := by
            simp only [runLine]
            rw [if_pos (by omega), if_pos (by omega)]
            simp
          rw [runLines_go mmu line, Outcome.behind_nil, ih, List.drop_succ_cons]

theorem runLines_skipAll (entries : List AREntry) (val_last : Word) (memory : M) :
    runLines mmu entries { Lines.ready val_last with skip_count := -3 } memory =
      runLines mmu [] (.ready val_last) memory := by
  cases entries with
  | nil => rfl
  | cons entry entries => rfl

theorem runLines_skipUntil (entries : List AREntry) (val_last : Word) (memory : M) :
    runLines mmu entries { Lines.ready val_last with skip_count := -2 } memory =
      runLines mmu ((entries.dropWhile fun entry => !entry.isEndIf).drop 1) (.ready val_last)
        memory := by
  induction entries with
  | nil => rfl
  | cons entry entries ih =>
      by_cases ends : entry.isEndIf = true
      · have line : runLine mmu entry { Lines.ready val_last with skip_count := -2 } memory =
            .go (.ready val_last) memory [] := by
          have fields := ends
          simp only [AREntry.isEndIf, decide_eq_true_eq] at fields
          simp [runLine, fields, Lines.ready, CONDTIONAL_ALL_LINES, CONDTIONAL_ALL_LINES_UNTIL]
        rw [runLines_go mmu line, Outcome.behind_nil, List.dropWhile_cons_of_neg (by simp [ends])]
        rfl
      · have line : runLine mmu entry { Lines.ready val_last with skip_count := -2 } memory =
            .go { Lines.ready val_last with skip_count := -2 } memory [] := by
          have fields := ends
          simp only [AREntry.isEndIf, decide_eq_true_eq] at fields
          simp only [runLine, Lines.ready, CONDTIONAL_ALL_LINES, CONDTIONAL_ALL_LINES_UNTIL]
          rw [if_neg (c := _ ∧ _) fun same => fields ⟨same.1, same.2.symm⟩]
          rfl
        rw [runLines_go mmu line, Outcome.behind_nil, ih,
          List.dropWhile_cons_of_pos (by simp [ends])]

/-- The lines behind a false conditional. -/
theorem runLines_skipped (subtype : BitVec 2) (entries : List AREntry) (val_last : Word)
    (memory : M) :
    runLines mmu entries { Lines.ready val_last with
      skip_count := if subtype = CONDTIONAL_ONE_LINE ∨ subtype = CONDTIONAL_TWO_LINES then
        subtype.toNat + 1 else -subtype.toNat } memory =
      runLines mmu (skipped subtype entries) (.ready val_last) memory := by
  rcases size_cases subtype with rfl | rfl | rfl | rfl
  · exact runLines_skip mmu entries val_last memory 1
  · exact runLines_skip mmu entries val_last memory 2
  · exact runLines_skipUntil mmu entries val_last memory
  · exact runLines_skipAll mmu entries val_last memory

/-! ## Commands -/

/-- The run behind a command. -/
def onwards (val_last : Word) (rest : List AREntry) (memory : M) : Outcome M :=
  runLines mmu rest (.ready val_last) memory

theorem runLines_carry {entry : AREntry} {entries : List AREntry} {lines : Lines} {memory : M}
    {val_last : Word} {result : Bool × Guest M}
    (line : runLine mmu entry lines memory = carry (.ready val_last) result) :
    runLines mmu (entry :: entries) lines memory =
      (Continuation.of result.1 entries result.2).finish (onwards mmu val_last) := by
  obtain ⟨success, guest⟩ := result
  cases success with
  | true => exact runLines_go mmu line
  | false => exact runLines_stop mmu line

theorem runLines_fillAndSlide (entry : AREntry) (entries : List AREntry) {val_last : Word}
    (memory : M) (slides : (ARAddr.mk val_last).size ≠ 3) :
    runLines mmu (entry :: entries) { Lines.ready val_last with do_fill_and_slide := true } memory =
      ((Command.fillAndSlide val_last ⟨entry.cmd_addr⟩ entry.value).run mmu entries memory).finish
        (onwards mmu val_last) := by
  have line : runLine mmu entry { Lines.ready val_last with do_fill_and_slide := true } memory =
      carry (.ready val_last)
        (ZeroCode_FillAndSlide mmu val_last ⟨entry.cmd_addr⟩ entry.value ⟨memory, []⟩) := rfl
  rw [ZeroCode_FillAndSlide_eq mmu _ _ _ slides] at line
  exact runLines_carry mmu line

/-- A memory copy copies at most as many bytes as a byte can count. -/
theorem runLines_memoryCopy (entry : AREntry) (entries : List AREntry) (val_last : Word)
    (memory : M) (valid : entry.value &&& 0xFF0000 = 0) :
    runLines mmu (entry :: entries) { Lines.ready val_last with do_memory_copy := true } memory =
      (Continuation.of true entries
        (copyAll mmu (copyAddresses mmu val_last ⟨entry.cmd_addr⟩ entry.value memory).1
          (copyAddresses mmu val_last ⟨entry.cmd_addr⟩ entry.value memory).2
          (copyCount entry.value % 256) ⟨memory, []⟩)).finish (onwards mmu val_last) := by
  have line : runLine mmu entry { Lines.ready val_last with do_memory_copy := true } memory =
      carry (.ready val_last)
        (ZeroCode_MemoryCopy mmu val_last ⟨entry.cmd_addr⟩ entry.value ⟨memory, []⟩) := rfl
  rw [ZeroCode_MemoryCopy_eq mmu valid] at line
  exact runLines_carry mmu line

theorem runLines_badCopy (entry : AREntry) (entries : List AREntry) (val_last : Word)
    (memory : M) (bad : entry.value &&& 0xFF0000 ≠ 0) :
    runLines mmu (entry :: entries) { Lines.ready val_last with do_memory_copy := true } memory =
      (Continuation.of false entries ⟨memory, []⟩).finish (onwards mmu val_last) := by
  have line : runLine mmu entry { Lines.ready val_last with do_memory_copy := true } memory =
      carry (.ready val_last)
        (ZeroCode_MemoryCopy mmu val_last ⟨entry.cmd_addr⟩ entry.value ⟨memory, []⟩) := rfl
  rw [ZeroCode_MemoryCopy, if_neg bad] at line
  exact runLines_carry mmu line

theorem runLines_normal {entry : AREntry} (entries : List AREntry) (val_last : Word) (memory : M)
    (line : runLine mmu entry (.ready val_last) memory = carry (.ready val_last)
      (NormalCode mmu ⟨entry.cmd_addr⟩ entry.value ⟨memory, []⟩)) :
    runLines mmu (entry :: entries) (.ready val_last) memory =
      ((Command.normal ⟨entry.cmd_addr⟩ entry.value).run mmu entries memory).finish
        (onwards mmu val_last) := by
  rw [Command.run]
  split
  · next ram_write =>
    rw [NormalCode, if_pos ram_write, Subtype_RamWriteAndFill_eq] at line
    exact runLines_carry mmu line
  · exact runLines_carry mmu line

theorem runLines_conditional {entry : AREntry} (entries : List AREntry) (val_last : Word)
    (memory : M)
    (line : runLine mmu entry (.ready val_last) memory = .go { Lines.ready val_last with
      skip_count := ConditionalCode mmu ⟨entry.cmd_addr⟩ entry.value memory 0 } memory []) :
    runLines mmu (entry :: entries) (.ready val_last) memory =
      ((Command.conditional ⟨entry.cmd_addr⟩ entry.value).run mmu entries memory).finish
        (onwards mmu val_last) := by
  rw [ConditionalCode] at line
  rw [Command.run]
  split
  · next holds =>
    rw [if_pos holds] at line
    exact runLines_go mmu line
  · next fails =>
    rw [if_neg fails] at line
    rw [runLines_go mmu line, runLines_skipped]
    rfl

/-- The command that a Z4 line begins. -/
theorem runLines_z4 (val_last : Word) (entries : List AREntry) (memory : M) :
    let lines := if (ARAddr.mk val_last).size = 3 then
        { Lines.ready val_last with do_memory_copy := true }
      else { Lines.ready val_last with do_fill_and_slide := true }
    ((parseZ4 val_last entries).1.short ∧ runLines mmu entries lines memory =
        ((parseZ4 val_last entries).1.run mmu (parseZ4 val_last entries).2 memory).finish
          (onwards mmu val_last)) ∨
      ∃ addr data rest, parseZ4 val_last entries = (.memoryCopy val_last addr data, rest) ∧
        data &&& 0xFF0000 = 0 ∧ runLines mmu entries lines memory =
          (Continuation.of true rest (copyAll mmu (copyAddresses mmu val_last addr data memory).1
            (copyAddresses mmu val_last addr data memory).2 (copyCount data % 256)
            ⟨memory, []⟩)).finish (onwards mmu val_last) := by
  intro lines
  cases entries with
  | nil => exact .inl ⟨trivial, rfl⟩
  | cons parameters rest =>
      by_cases copies : (ARAddr.mk val_last).size = 3
      · simp only [lines, parseZ4, if_pos copies]
        by_cases valid : parameters.value &&& 0xFF0000 = 0
        · refine .inr ⟨_, _, _, rfl, valid, ?_⟩
          exact runLines_memoryCopy mmu parameters rest val_last memory valid
        · refine .inl ⟨fun is_valid => absurd is_valid valid, ?_⟩
          rw [runLines_badCopy mmu parameters rest val_last memory valid, Command.run,
            if_neg valid]
      · simp only [lines, parseZ4, if_neg copies]
        exact .inl ⟨trivial, runLines_fillAndSlide mmu parameters rest memory copies⟩

/-- The loop at a line of a zero code. -/
def zeroLine (value : Word) (val_last : Word) (memory : M) (zcode : BitVec 3) : LineResult M :=
  if zcode = ZCODE_END then .stop true memory []
  else if zcode = ZCODE_NORM then .go (.ready val_last) memory []
  else if zcode = ZCODE_ROW then .stop false memory []
  else if zcode = ZCODE_04 then
    if 0x3 = (value >>> 25) &&& 0x03 then
      .go { Lines.ready value with do_memory_copy := true } memory []
    else .go { Lines.ready value with do_fill_and_slide := true } memory []
  else .stop false memory []

theorem runLine_zero {entry : AREntry} (val_last : Word) (memory : M)
    (zero : entry.cmd_addr = 0) : runLine mmu entry (.ready val_last) memory =
      zeroLine entry.value val_last memory (entry.value.extractLsb' 29 3) := by
  have not_self : ¬((ARAddr.mk entry.cmd_addr).address ≥ 0x00002000 ∧
      (ARAddr.mk entry.cmd_addr).address < 0x00003000) := by
    rw [zero]
    decide
  rw [← zcode_eq]
  simp only [runLine]
  rw [if_neg not_self, if_pos (c := 0x0 = _) zero.symm]
  rfl

theorem zeroLine_z4 (value val_last : Word) (memory : M) :
    zeroLine value val_last memory 4 = .go (if (ARAddr.mk value).size = 3 then
        { Lines.ready value with do_memory_copy := true }
      else { Lines.ready value with do_fill_and_slide := true }) memory [] := by
  by_cases copies : (ARAddr.mk value).size = 3
  · rw [if_pos copies]
    exact if_pos ((z4_size_iff value).mpr copies)
  · rw [if_neg copies]
    exact if_neg fun same => copies ((z4_size_iff value).mp same)

/-- A run carries out its first command, up to the bytes that a memory copy leaves out. -/
theorem runLines_command (entry : AREntry) (entries : List AREntry) (val_last : Word) (memory : M) :
    ∃ val_last', ((parse entry entries).1.short ∧
      runLines mmu (entry :: entries) (.ready val_last) memory =
        ((parse entry entries).1.run mmu (parse entry entries).2 memory).finish
          (onwards mmu val_last')) ∨
      ∃ val addr data rest, parse entry entries = (.memoryCopy val addr data, rest) ∧
        data &&& 0xFF0000 = 0 ∧ runLines mmu (entry :: entries) (.ready val_last) memory =
          (Continuation.of true rest (copyAll mmu (copyAddresses mmu val addr data memory).1
            (copyAddresses mmu val addr data memory).2 (copyCount data % 256)
            ⟨memory, []⟩)).finish (onwards mmu val_last') := by
  by_cases itself : 0x00002000 ≤ entry.cmd_addr ∧ entry.cmd_addr < 0x00003000
  · rw [parse, if_pos itself]
    exact ⟨val_last, .inl ⟨trivial, runLines_stop mmu (if_pos itself)⟩⟩
  by_cases zero : entry.cmd_addr = 0
  · have line := runLine_zero mmu val_last memory zero
    rw [parse, if_neg itself, if_pos zero]
    generalize entry.value.extractLsb' 29 3 = zcode at line ⊢
    rcases zcode_cases zcode with rfl | rfl | rfl | rfl | rfl | rfl | rfl | rfl
    · exact ⟨val_last, .inl ⟨trivial, runLines_stop mmu line⟩⟩
    · exact ⟨val_last, .inl ⟨trivial, runLines_stop mmu line⟩⟩
    · exact ⟨val_last, .inl ⟨trivial, runLines_go mmu line⟩⟩
    · exact ⟨val_last, .inl ⟨trivial, runLines_stop mmu line⟩⟩
    · refine ⟨entry.value, ?_⟩
      rw [runLines_go mmu (line.trans (zeroLine_z4 _ _ _)), Outcome.behind_nil]
      rcases runLines_z4 mmu entry.value entries memory with same | ⟨addr, data, rest, copy⟩
      · exact .inl same
      · exact .inr ⟨_, addr, data, rest, copy⟩
    · exact ⟨val_last, .inl ⟨trivial, runLines_stop mmu line⟩⟩
    · exact ⟨val_last, .inl ⟨trivial, runLines_stop mmu line⟩⟩
    · exact ⟨val_last, .inl ⟨trivial, runLines_stop mmu line⟩⟩
  · have line : runLine mmu entry (.ready val_last) memory =
        if (ARAddr.mk entry.cmd_addr).type = 0x00 then
          carry (.ready val_last) (NormalCode mmu ⟨entry.cmd_addr⟩ entry.value ⟨memory, []⟩)
        else .go { Lines.ready val_last with
          skip_count := ConditionalCode mmu ⟨entry.cmd_addr⟩ entry.value memory 0 } memory [] := by
      simp only [runLine]
      rw [if_neg itself, if_neg (c := 0x0 = _) fun same => zero same.symm]
      rfl
    rw [parse, if_neg itself, if_neg zero]
    by_cases normal : (ARAddr.mk entry.cmd_addr).type = 0
    · rw [if_pos normal] at line ⊢
      exact ⟨val_last, .inl ⟨trivial, runLines_normal mmu entries val_last memory line⟩⟩
    · rw [if_neg normal] at line ⊢
      exact ⟨val_last, .inl ⟨trivial, runLines_conditional mmu entries val_last memory line⟩⟩

/-! ## The whole run -/

theorem parse_length (entry : AREntry) (entries : List AREntry) :
    (parse entry entries).2.length ≤ entries.length := by
  rw [parse]
  split_ifs
  · exact Nat.le_refl _
  · generalize (entry.value.extractLsb' 29 3).toNat = zcode
    unfold parseZero
    split
    · exact Nat.le_refl _
    · exact Nat.le_refl _
    · cases entries with
      | nil => exact Nat.le_refl _
      | cons parameters rest =>
          rw [parseZ4]
          split <;> exact Nat.le_succ _
    · exact Nat.le_refl _
  · exact Nat.le_refl _
  · exact Nat.le_refl _

theorem skipped_length (subtype : BitVec 2) (rest : List AREntry) :
    (skipped subtype rest).length ≤ rest.length := by
  rcases size_cases subtype with rfl | rfl | rfl | rfl
  · exact (List.drop_sublist ..).length_le
  · exact (List.drop_sublist ..).length_le
  · exact ((List.drop_sublist ..).trans (List.dropWhile_sublist _)).length_le
  · exact Nat.zero_le _

/-- A run goes on behind its command. -/
theorem run_length {command : Command} {entries rest : List AREntry} {memory memory' : M}
    {carried : List (List Patch)} (go : command.run mmu entries memory = .go rest memory' carried) :
    rest.length ≤ entries.length := by
  have of_length : ∀ (valid : Bool) (guest : Guest M),
      Continuation.of valid entries guest = .go rest memory' carried →
        rest.length ≤ entries.length := by
    intro valid guest same
    cases valid with
    | false => cases same
    | true =>
        cases same
        exact Nat.le_refl _
  cases command with
  | endOfCodes => cases go
  | invalid => cases go
  | normalExecution =>
      cases go
      exact Nat.le_refl _
  | unfinished =>
      cases go
      exact Nat.le_refl _
  | fillAndSlide val_last addr data => exact of_length _ _ go
  | memoryCopy val_last addr data =>
      rw [Command.run] at go
      split at go
      · exact of_length _ _ go
      · exact of_length _ _ go
  | normal addr data =>
      rw [Command.run] at go
      split at go
      · exact of_length _ _ go
      · exact of_length _ _ go
  | conditional addr data =>
      rw [Command.run] at go
      split at go
      · cases go
        exact Nat.le_refl _
      · cases go
        exact skipped_length _ _

theorem Continuation.finish_eq_iff {continuation : Continuation M}
    {f g : List AREntry → M → Outcome M} :
    continuation.finish f = continuation.finish g ↔
      ∀ rest memory carried, continuation = .go rest memory carried →
        f rest memory = g rest memory := by
  cases continuation with
  | stop success memory carried =>
      refine ⟨fun _ _ _ _ same => ?_, fun _ => rfl⟩
      cases same
  | go rest memory carried =>
      refine ⟨fun same _ _ _ other => ?_, fun same => ?_⟩
      · cases other
        exact Outcome.behind_inj.mp same
      · exact congrArg (Outcome.behind carried) (same _ _ _ rfl)

/-- The commands behind the first one. -/
theorem commandsUpTo_short {fuel : Nat} {entry : AREntry} {entries : List AREntry} {memory : M} :
    (∀ command ∈ commandsUpTo mmu (fuel + 1) (entry :: entries) memory, command.short) ↔
      (parse entry entries).1.short ∧ ∀ rest memory' carried,
        (parse entry entries).1.run mmu (parse entry entries).2 memory = .go rest memory' carried →
          ∀ command ∈ commandsUpTo mmu fuel rest memory', command.short := by
  rw [commandsUpTo]
  cases continuation : (parse entry entries).1.run mmu (parse entry entries).2 memory with
  | stop success memory' carried => simp
  | go rest memory' carried => simp

/-- Behind the first command, a run does what the reference does when that holds of the rest. -/
theorem finish_eq_iff {fuel : Nat} {entry : AREntry} {entries : List AREntry} {memory : M}
    {continuation : Continuation M} {onwards : List AREntry → M → Outcome M}
    (enough : (entry :: entries).length ≤ fuel + 1)
    (ih : ∀ ops : List AREntry, ops.length ≤ fuel → ∀ memory,
      onwards ops memory = referenceUpTo mmu fuel ops memory ↔
        ∀ command ∈ commandsUpTo mmu fuel ops memory, command.short)
    (run : (parse entry entries).1.run mmu (parse entry entries).2 memory = continuation)
    (short : (parse entry entries).1.short) :
    continuation.finish onwards = continuation.finish (referenceUpTo mmu fuel) ↔
      ∀ command ∈ commandsUpTo mmu (fuel + 1) (entry :: entries) memory, command.short := by
  have shorter : ∀ rest memory' carried, continuation = .go rest memory' carried →
      rest.length ≤ fuel := by
    intro rest memory' carried go
    have behind := run_length mmu (run.trans go)
    have parsed := parse_length entry entries
    simp only [List.length_cons] at enough
    omega
  rw [commandsUpTo_short, Continuation.finish_eq_iff, run]
  constructor
  · intro same
    refine ⟨short, fun rest memory' carried go => ?_⟩
    exact (ih rest (shorter _ _ _ go) memory').mp (same _ _ _ go)
  · intro later rest memory' carried go
    exact (ih rest (shorter _ _ _ go) memory').mpr (later.2 _ _ _ go)

/-- A run does what the reference does exactly when no memory copy is too long. -/
theorem runLines_eq_iff (fuel : Nat) (ops : List AREntry) (enough : ops.length ≤ fuel)
    (val_last : Word) (memory : M) :
    runLines mmu ops (.ready val_last) memory = referenceUpTo mmu fuel ops memory ↔
      ∀ command ∈ commandsUpTo mmu fuel ops memory, command.short := by
  induction fuel generalizing ops val_last memory with
  | zero =>
      cases ops with
      | nil => simp [runLines, referenceUpTo, commandsUpTo]
      | cons entry entries => cases enough
  | succ fuel ih =>
      cases ops with
      | nil => simp [runLines, referenceUpTo, commandsUpTo]
      | cons entry entries =>
          rw [referenceUpTo]
          obtain ⟨val_last', ⟨short, same⟩ | ⟨val, addr, data, rest, parsed, valid, copied⟩⟩ :=
            runLines_command mmu entry entries val_last memory
          · rw [same]
            exact finish_eq_iff mmu enough (fun ops enough => ih ops enough val_last') rfl short
          · have run : (parse entry entries).1.run mmu (parse entry entries).2 memory =
                .of true rest (copyAll mmu (copyAddresses mmu val addr data memory).1
                  (copyAddresses mmu val addr data memory).2 (copyCount data) ⟨memory, []⟩) := by
              rw [parsed]
              exact if_pos valid
            by_cases short : copyCount data < 256
            · rw [copied, Nat.mod_eq_of_lt short, run]
              refine finish_eq_iff mmu enough (fun ops enough => ih ops enough val_last') run ?_
              rw [parsed]
              exact fun _ => short
            · constructor
              · intro same
                rw [copied, run] at same
                have lengths := congrArg (fun o : Outcome M => o.carried.head?.map List.length) same
                simp only [Continuation.of, if_true, Continuation.finish, Outcome.behind,
                  List.singleton_append, List.head?_cons, Option.map_some,
                  copyAll_length] at lengths
                have left_out := Nat.mod_lt (copyCount data) (Nat.zero_lt_succ 255)
                simp at lengths
                omega
              · intro all_short
                have first := (commandsUpTo_short mmu).mp all_short
                rw [parsed] at first
                exact absurd (first.1 valid) short

end Runs

/-- A memory of bytes behind the address `80000000`. -/
def console : MMU (Word → Byte) where
  HostRead8 memory address := memory address
  HostRead16 memory address := memory address ++ memory (address + 1)
  HostRead32 memory address :=
    memory address ++ memory (address + 1) ++ memory (address + 2) ++ memory (address + 3)
  HostWrite8 memory value address := Function.update memory address value
  HostIsRAMAddress _ address := 0x80000000 ≤ address ∧ address < 0x81800000
  addFloat read _ := read

/-- Copy 256 bytes from `80003000` to `80001000`. -/
def copyPage : List AREntry := [⟨0x00000000, 0x86001000⟩, ⟨0x00003000, 0x00000100⟩]

end Phocoena.ActionReplay
