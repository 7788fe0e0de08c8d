import Phocoena.DiscIO.NFSBlob
import Phocoena.Lib.Runs
import Mathlib.Data.List.GetD

/-! # Blocks of NFS files are found where they are stored

Every read of a reader that was created stays inside the part files and is not affected by the
reads before it. It returns the stored blocks unless a range of blocks ends past the last index of
32 bits.
-/

namespace Phocoena.DiscIO

namespace NFSLBARange

/-- The range contains the block; its end is not cut to 32 bits. -/
def Holds (range : NFSLBARange) (block : Nat) : Prop :=
  range.start_block.toNat ≤ block ∧ block < range.start_block.toNat + range.num_blocks.toNat

instance (range : NFSLBARange) (block : Nat) : Decidable (range.Holds block) :=
  inferInstanceAs (Decidable (_ ∧ _))

end NFSLBARange

/-- Which of the stored blocks a block is, `before` blocks being stored before the ranges. -/
def storedIndex (block before : Nat) : List NFSLBARange → Option Nat
  | [] => none
  | range :: ranges =>
      if range.Holds block then some (before + (block - range.start_block.toNat))
      else storedIndex block (before + range.num_blocks.toNat) ranges

/-- The byte at a position of the image that is cut into the part files. -/
def storedByte (files : List (List Byte)) (position : Nat) : Byte :=
  (files.getD (position / NFS_MAX_FILE_SIZE) []).getD (position % NFS_MAX_FILE_SIZE) 0

def storedBlock (files : List (List Byte)) (index : Nat) : List Byte :=
  (List.range NFS_BLOCK_SIZE).map fun i =>
    storedByte files (NFS_HEADER_SIZE + NFS_BLOCK_SIZE * index + i)

/-- The bytes of a block that is stored at an index or is not stored. -/
def blockBytes (crypt : Decrypt) (files : List (List Byte)) (block : Nat) (index : Option Nat) :
    Nat → Byte :=
  NFSFileReader.markUnencrypted block (match index with
    | none => fun _ => 0
    | some index => crypt (NFSFileReader.blockIv block) (storedBlock files index))

/-- The byte at an offset of the disc image. -/
def imageByte (crypt : Decrypt) (ranges : List NFSLBARange) (files : List (List Byte))
    (offset : Nat) : Byte :=
  blockBytes crypt files (offset / NFS_BLOCK_SIZE)
    (storedIndex (offset / NFS_BLOCK_SIZE) 0 ranges) (offset % NFS_BLOCK_SIZE)

/-- A call of `Read`, and which of its reads of part files the file system does. -/
structure NFSRequest where
  offset : Nat
  nbytes : Nat
  works : Nat → Bool

namespace NFSFileReader

variable {crypt : Decrypt} {r : NFSFileReader}

def run (crypt : Decrypt) (r : NFSFileReader) (q : NFSRequest) (s : State) :
    Except Fault (Option (List Byte) × State) :=
  r.read crypt q.works 0 q.offset q.nbytes s

def step (crypt : Decrypt) (r : NFSFileReader) (q : NFSRequest) (s : State) : Option State :=
  (r.run crypt q s).toOption.map (·.2)

/-- Whether a call stays below `GetDataSize`. -/
def Below (r : NFSFileReader) (q : NFSRequest) : Prop := q.offset + q.nbytes ≤ r.getDataSize

/-- In every state after reads below `GetDataSize`: a further one stays inside the part files,
returns the bytes of the image if it succeeds, and what it returns is up to the file system only. -/
def ReadsImage (crypt : Decrypt) (r : NFSFileReader) : Prop :=
  ∀ s, Reaches (r.step crypt) (fun q _ => r.Below q) .initial s → ∀ q, r.Below q →
    ∃ result s', r.run crypt q s = .ok (result, s') ∧
      (∀ bytes, result = some bytes → bytes = (List.range q.nbytes).map fun i =>
        imageByte crypt r.m_lba_ranges r.m_files (q.offset + i)) ∧
      ((∀ k, q.works k = true) → ∃ s', r.run crypt q .initial = .ok (result, s'))

/-! ## Part files -/

/-- Two pieces that follow each other. -/
theorem map_range_join {β : Type} {n m total base first second : Nat} (g : Nat → β)
    (sum : n + m = total) (start : first = base) (next : second = base + n) :
    ((List.range n).map fun i => g (first + i)) ++ ((List.range m).map fun i => g (second + i)) =
      (List.range total).map fun i => g (base + i) := by
  subst sum start next
  rw [List.range_add, List.map_append, List.map_map]
  refine congrArg (_ ++ ·) (List.map_congr_left fun i _ => ?_)
  rw [Function.comp_apply, Nat.add_assoc]

/-- The part files that the stored block `index` reaches into exist. -/
def Covered (r : NFSFileReader) (index : Nat) : Prop :=
  index / BLOCKS_PER_FILE < r.m_files.length ∧
    (index % BLOCKS_PER_FILE = BLOCKS_PER_FILE - 1 →
      index / BLOCKS_PER_FILE + 1 < r.m_files.length)

/-- The part files are long enough for the stored block `index`. -/
def Complete (r : NFSFileReader) (index : Nat) : Prop :=
  if index % BLOCKS_PER_FILE = BLOCKS_PER_FILE - 1 then
    NFS_MAX_FILE_SIZE ≤ (r.m_files.getD (index / BLOCKS_PER_FILE) []).length ∧
      NFS_HEADER_SIZE ≤ (r.m_files.getD (index / BLOCKS_PER_FILE + 1) []).length
  else NFS_HEADER_SIZE + index % BLOCKS_PER_FILE * NFS_BLOCK_SIZE + NFS_BLOCK_SIZE ≤
    (r.m_files.getD (index / BLOCKS_PER_FILE) []).length

theorem readFile_of_lt {works : Nat → Bool} {k index offset size : Nat}
    (inside : index < r.m_files.length) (small : offset < NFS_MAX_FILE_SIZE) (some_ : size ≠ 0) :
    r.readFile works k index offset size =
      .ok (if works k = true ∧ offset + size ≤ (r.m_files.getD index []).length then
        some (((r.m_files.getD index []).drop offset).take size) else none) := by
  have offsetOk : offset < 2 ^ 63 := Nat.lt_trans small (by decide)
  rw [readFile, List.getElem?_eq_getElem inside, List.getD_eq_getElem _ _ inside]
  dsimp only
  by_cases working : works k = true
  · rw [if_pos working, offsetRead]
    simp only [offsetOk, some_, working, true_and, false_or]
  · rw [if_neg working, if_neg fun both => working both.1]

/-- A piece of a file, by the bytes of the image. -/
theorem take_drop_eq {index offset size : Nat}
    (fits : offset + size ≤ (r.m_files.getD index []).length)
    (within : offset + size ≤ NFS_MAX_FILE_SIZE) :
    ((r.m_files.getD index []).drop offset).take size =
      (List.range size).map fun i =>
        storedByte r.m_files (NFS_MAX_FILE_SIZE * index + offset + i) := by
  have long : size ≤ (r.m_files.getD index []).length - offset := by omega
  refine List.ext_getElem ?_ fun i lt _ => ?_
  · rw [List.length_take, List.length_drop, List.length_map, List.length_range, min_eq_left long]
  rw [List.length_take, List.length_drop] at lt
  have file : (NFS_MAX_FILE_SIZE * index + offset + i) / NFS_MAX_FILE_SIZE = index := by
    rw [Nat.add_assoc, Nat.mul_add_div (by decide), Nat.div_eq_of_lt (by omega), Nat.add_zero]
  have place : (NFS_MAX_FILE_SIZE * index + offset + i) % NFS_MAX_FILE_SIZE = offset + i := by
    rw [Nat.add_assoc, Nat.mul_add_mod, Nat.mod_eq_of_lt (by omega)]
  rw [List.getElem_take, List.getElem_drop, List.getElem_map, List.getElem_range, storedByte, file,
    place]
  exact (List.getD_eq_getElem _ _ (by omega)).symm

/-- What a read of a block comes to. -/
def Outcome {α : Type} (works : Nat → Bool) (complete : Prop) (value : α) (x : Option α) : Prop :=
  (x = some value ∧ complete) ∨ (x = none ∧ ¬ ((∀ k, works k = true) ∧ complete))

theorem readEncryptedBlock_spec {works : Nat → Bool} {k index : Nat} (covered : r.Covered index) :
    ∃ x k', r.readEncryptedBlock works k index = .ok (x, k') ∧
      Outcome works (r.Complete index) (storedBlock r.m_files index) x := by
  obtain ⟨first, second⟩ := covered
  have inFile := Nat.mod_lt index (show 0 < BLOCKS_PER_FILE by decide)
  have perFile : BLOCKS_PER_FILE = 8000 := rfl
  have blockSize : NFS_BLOCK_SIZE = 32768 := rfl
  have headerSize : NFS_HEADER_SIZE = 512 := rfl
  have fileSize : NFS_MAX_FILE_SIZE = 262144000 := rfl
  have position : NFS_MAX_FILE_SIZE * (index / BLOCKS_PER_FILE) +
      (NFS_HEADER_SIZE + index % BLOCKS_PER_FILE * NFS_BLOCK_SIZE) =
      NFS_HEADER_SIZE + NFS_BLOCK_SIZE * index := by
    rw [perFile, blockSize, headerSize, fileSize]
    omega
  rw [readEncryptedBlock]
  dsimp only
  by_cases last : index % BLOCKS_PER_FILE = BLOCKS_PER_FILE - 1
  · have whole : NFS_HEADER_SIZE + index % BLOCKS_PER_FILE * NFS_BLOCK_SIZE +
        (NFS_BLOCK_SIZE - NFS_HEADER_SIZE) = NFS_MAX_FILE_SIZE := by
      rw [last, perFile, blockSize, headerSize, fileSize]
    have next : NFS_MAX_FILE_SIZE * (index / BLOCKS_PER_FILE + 1) + 0 =
        NFS_HEADER_SIZE + NFS_BLOCK_SIZE * index + (NFS_BLOCK_SIZE - NFS_HEADER_SIZE) := by
      rw [← position, Nat.mul_add, Nat.add_assoc _ _ (NFS_BLOCK_SIZE - NFS_HEADER_SIZE), whole]
      omega
    rw [if_pos last, if_neg (Nat.not_le.mpr (second last)), Complete, if_pos last,
      readFile_of_lt first (by omega) (by decide), whole]
    by_cases done : works k = true ∧
        NFS_MAX_FILE_SIZE ≤ (r.m_files.getD (index / BLOCKS_PER_FILE) []).length
    · rw [if_pos done]
      change ∃ x k', (r.readFile works (k + 1) (index / BLOCKS_PER_FILE + 1) 0 NFS_HEADER_SIZE >>= _) =
        Except.ok (x, k') ∧ _
      rw [readFile_of_lt (second last) (by decide) (by decide), Nat.zero_add]
      by_cases rest : works (k + 1) = true ∧
          NFS_HEADER_SIZE ≤ (r.m_files.getD (index / BLOCKS_PER_FILE + 1) []).length
      · rw [if_pos rest]
        refine ⟨_, _, rfl, .inl ⟨?_, done.2, rest.2⟩⟩
        rw [take_drop_eq (by omega) (by omega), take_drop_eq (by omega) (by decide)]
        exact congrArg some (map_range_join (storedByte r.m_files)
          (Nat.sub_add_cancel (by decide)) position next)
      · rw [if_neg rest]
        exact ⟨_, _, rfl, .inr ⟨rfl, fun both => rest ⟨both.1 (k + 1), both.2.2⟩⟩⟩
    · rw [if_neg done]
      exact ⟨_, _, rfl, .inr ⟨rfl, fun both => done ⟨both.1 k, both.2.1⟩⟩⟩
  · have small : NFS_HEADER_SIZE + index % BLOCKS_PER_FILE * NFS_BLOCK_SIZE + NFS_BLOCK_SIZE ≤
        NFS_MAX_FILE_SIZE := by
      rw [perFile, blockSize, headerSize, fileSize] at *
      omega
    rw [if_neg last, Complete, if_neg last, readFile_of_lt first (by omega) (by decide)]
    by_cases done : works k = true ∧ NFS_HEADER_SIZE + index % BLOCKS_PER_FILE * NFS_BLOCK_SIZE +
        NFS_BLOCK_SIZE ≤ (r.m_files.getD (index / BLOCKS_PER_FILE) []).length
    · rw [if_pos done]
      refine ⟨_, _, rfl, .inl ⟨?_, done.2⟩⟩
      rw [take_drop_eq done.2 small, position]
      rfl
    · rw [if_neg done]
      exact ⟨_, _, rfl, .inr ⟨rfl, fun both => done ⟨both.1 k, both.2⟩⟩⟩

/-! ## Blocks -/

/-- The bytes of a block where the reader looks for it. -/
def foundBlock (crypt : Decrypt) (r : NFSFileReader) (block : Nat) : Nat → Byte :=
  blockBytes crypt r.m_files block (r.toPhysicalBlockIndex block)

/-- What is stored of a block is in the part files. -/
def BlockComplete (r : NFSFileReader) (block : Nat) : Prop :=
  ∀ index, r.toPhysicalBlockIndex block = some index → r.Complete index

/-- The part files reach as far as the ranges say. -/
def AllCovered (r : NFSFileReader) : Prop :=
  ∀ block index, r.toPhysicalBlockIndex block = some index → r.Covered index

theorem readAndDecryptBlock_spec (covered : r.AllCovered) (crypt : Decrypt) (works : Nat → Bool)
    (k block : Nat) : ∃ x k', r.readAndDecryptBlock crypt works k block = .ok (x, k') ∧
      Outcome works (r.BlockComplete block) (r.foundBlock crypt block) x := by
  unfold readAndDecryptBlock foundBlock blockBytes BlockComplete
  cases place : r.toPhysicalBlockIndex block with
  | none => exact ⟨_, _, rfl, .inl ⟨rfl, fun _ found => nomatch found⟩⟩
  | some index =>
      obtain ⟨x, k', run, outcome⟩ := @readEncryptedBlock_spec r works k index
        (covered block index place)
      dsimp only
      rw [run]
      rcases outcome with ⟨rfl, complete⟩ | ⟨rfl, incomplete⟩
      · refine ⟨_, _, rfl, .inl ⟨rfl, fun other same => ?_⟩⟩
        rwa [← Option.some.inj same]
      · exact ⟨_, _, rfl, .inr ⟨rfl, fun both => incomplete ⟨both.1, both.2 index rfl⟩⟩⟩

/-- The cached block is what the reader finds at its index. -/
def Valid (crypt : Decrypt) (r : NFSFileReader) (s : State) : Prop :=
  ∀ block, s.index = some block →
    s.decrypted = r.foundBlock crypt block ∧ r.BlockComplete block

theorem valid_initial : r.Valid crypt .initial := fun _ cached => nomatch cached

/-- All blocks from an offset on are complete. -/
def AllComplete (r : NFSFileReader) (offset nbytes : Nat) : Prop :=
  ∀ i < nbytes, r.BlockComplete ((offset + i) / NFS_BLOCK_SIZE)

def foundBytes (crypt : Decrypt) (r : NFSFileReader) (offset nbytes : Nat) : List Byte :=
  (List.range nbytes).map fun i =>
    r.foundBlock crypt ((offset + i) / NFS_BLOCK_SIZE) ((offset + i) % NFS_BLOCK_SIZE)

theorem foundBytes_join {offset nbytes : Nat} (n m : Nat) (sum : n + m = nbytes) :
    r.foundBytes crypt offset n ++ r.foundBytes crypt (offset + n) m =
      r.foundBytes crypt offset nbytes :=
  map_range_join (fun x => r.foundBlock crypt (x / NFS_BLOCK_SIZE) (x % NFS_BLOCK_SIZE)) sum rfl rfl

/-- Positions of one block. -/
theorem block_of_lt {offset i : Nat} (lt : i < NFS_BLOCK_SIZE - offset % NFS_BLOCK_SIZE) :
    (offset + i) / NFS_BLOCK_SIZE = offset / NFS_BLOCK_SIZE ∧
      (offset + i) % NFS_BLOCK_SIZE = offset % NFS_BLOCK_SIZE + i := by
  have size : NFS_BLOCK_SIZE = 32768 := rfl
  rw [size] at lt ⊢
  omega

theorem currentBlock_spec (covered : r.AllCovered) (works : Nat → Bool) (k block : Nat) {s : State}
    (valid : r.Valid crypt s) : ∃ x k', r.currentBlock crypt works k block s = .ok (x, k') ∧
      Outcome works (r.BlockComplete block) (r.foundBlock crypt block) x := by
  rw [currentBlock]
  by_cases cached : s.index = some block
  · obtain ⟨same, complete⟩ := valid _ cached
    rw [if_pos cached]
    exact ⟨_, _, rfl, .inl ⟨congrArg some same, complete⟩⟩
  · rw [if_neg cached]
    exact readAndDecryptBlock_spec covered crypt works k block

/-- The bytes up to the end of the block, then the rest. -/
theorem read_of_current {works : Nat → Bool} {k k' offset nbytes : Nat} {s s' : State}
    {decrypted : Nat → Byte} {rest : Option (List Byte)} (some_ : nbytes ≠ 0)
    (load : r.currentBlock crypt works k (offset / NFS_BLOCK_SIZE) s = .ok (some decrypted, k'))
    (run : r.read crypt works k'
      (offset + min nbytes (NFS_BLOCK_SIZE - offset % NFS_BLOCK_SIZE))
      (nbytes - min nbytes (NFS_BLOCK_SIZE - offset % NFS_BLOCK_SIZE))
      ⟨some (offset / NFS_BLOCK_SIZE), decrypted⟩ = .ok (rest, s')) :
    r.read crypt works k offset nbytes s =
      .ok (rest.map (((List.range (min nbytes (NFS_BLOCK_SIZE - offset % NFS_BLOCK_SIZE))).map
        fun i => decrypted (offset % NFS_BLOCK_SIZE + i)) ++ ·), s') := by
  rw [read, if_neg some_]
  dsimp only
  rw [load]
  change (r.read crypt works k' _ _ _ >>= _) = _
  rw [run]
  rfl

theorem read_spec (covered : r.AllCovered) (crypt : Decrypt) (works : Nat → Bool)
    (k offset nbytes : Nat) {s : State} (valid : r.Valid crypt s) :
    ∃ x s', r.read crypt works k offset nbytes s = .ok (x, s') ∧ r.Valid crypt s' ∧
      Outcome works (r.AllComplete offset nbytes) (r.foundBytes crypt offset nbytes) x := by
  induction nbytes using Nat.strong_induction_on generalizing k offset s with
  | _ nbytes ih =>
      by_cases none_ : nbytes = 0
      · subst none_
        rw [read, if_pos rfl]
        exact ⟨_, _, rfl, valid, .inl ⟨rfl, fun i lt => absurd lt (Nat.not_lt_zero i)⟩⟩
      · have inBlock := Nat.mod_lt offset (show 0 < NFS_BLOCK_SIZE by decide)
        obtain ⟨x, k', load, outcome⟩ := currentBlock_spec covered works k
          (offset / NFS_BLOCK_SIZE) valid
        rcases outcome with ⟨rfl, complete⟩ | ⟨rfl, incomplete⟩
        · obtain ⟨copied, some_, le, short⟩ : ∃ copied, 0 < copied ∧ copied ≤ nbytes ∧
              copied ≤ NFS_BLOCK_SIZE - offset % NFS_BLOCK_SIZE ∧
              copied = min nbytes (NFS_BLOCK_SIZE - offset % NFS_BLOCK_SIZE) :=
            ⟨_, by omega, by omega, by omega, rfl⟩
          obtain ⟨rest, s', run, valid', outcome⟩ := ih (nbytes - copied) (by omega) k'
            (offset + copied)
            (s := ⟨some (offset / NFS_BLOCK_SIZE), r.foundBlock crypt (offset / NFS_BLOCK_SIZE)⟩)
            (by
              intro block cached
              rw [← Option.some.inj cached]
              exact ⟨rfl, complete⟩)
          rw [short.2] at run
          refine ⟨_, _, read_of_current none_ load run, valid', ?_⟩
          rw [← short.2]
          have here : ∀ i < copied, r.BlockComplete ((offset + i) / NFS_BLOCK_SIZE) := by
            intro i lt
            rwa [(block_of_lt (by omega)).1]
          rcases outcome with ⟨rfl, restComplete⟩ | ⟨rfl, incomplete⟩
          · refine .inl ⟨congrArg some ?_, ?_⟩
            · rw [← foundBytes_join copied (nbytes - copied) (Nat.add_sub_of_le le)]
              refine congrArg (· ++ _) (List.map_congr_left fun i mem => ?_)
              have same := @block_of_lt offset i
                (Nat.lt_of_lt_of_le (List.mem_range.mp mem) short.1)
              rw [same.1, same.2]
            · intro i lt
              by_cases first : i < copied
              · exact here i first
              · have later := restComplete (i - copied) (by omega)
                rwa [Nat.add_assoc, Nat.add_sub_of_le (Nat.le_of_not_lt first)] at later
          · refine .inr ⟨rfl, fun both => incomplete ⟨both.1, fun i lt => ?_⟩⟩
            rw [Nat.add_assoc]
            exact both.2 (copied + i) (by omega)
        · rw [read, if_neg none_]
          dsimp only
          rw [load]
          refine ⟨_, _, rfl, valid, .inr ⟨rfl, fun both => incomplete ⟨both.1, ?_⟩⟩⟩
          exact both.2 0 (by omega)

/-! ## Indices of stored blocks -/

section
variable {block before : Nat} {ranges : List NFSLBARange}

theorem end_of_fits {range : NFSLBARange}
    (fits : range.start_block.toNat + range.num_blocks.toNat < 2 ^ 32) :
    (range.start_block + range.num_blocks).toNat =
      range.start_block.toNat + range.num_blocks.toNat := by
  rw [BitVec.toNat_add, Nat.mod_eq_of_lt fits]

/-- An end that is cut to 32 bits lies before the start. -/
theorem end_of_over {range : NFSLBARange}
    (beyond : 2 ^ 32 ≤ range.start_block.toNat + range.num_blocks.toNat) :
    (range.start_block + range.num_blocks).toNat < range.start_block.toNat := by
  have start := range.start_block.isLt
  have count := range.num_blocks.isLt
  rw [BitVec.toNat_add]
  omega

theorem holds_of_found {range : NFSLBARange} (found : range.start_block.toNat ≤ block ∧
    block < (range.start_block + range.num_blocks).toNat) : range.Holds block := by
  refine ⟨found.1, ?_⟩
  have le := Nat.mod_le (range.start_block.toNat + range.num_blocks.toNat) (2 ^ 32)
  rw [← BitVec.toNat_add] at le
  omega

theorem toPhysical_ge {index : Nat}
    (found : toPhysicalBlockIndexFrom block before ranges = some index) : before ≤ index := by
  induction ranges generalizing before with
  | nil => exact nomatch found
  | cons range ranges ih =>
      rw [toPhysicalBlockIndexFrom] at found
      split at found
      · exact Option.some.inj found ▸ Nat.le_add_right _ _
      · exact Nat.le_trans (Nat.le_add_right _ _) (ih found)

theorem toPhysical_lt {index : Nat}
    (found : toPhysicalBlockIndexFrom block before ranges = some index) :
    index < before + (ranges.map (·.num_blocks.toNat)).sum := by
  induction ranges generalizing before with
  | nil => exact nomatch found
  | cons range ranges ih =>
      rw [toPhysicalBlockIndexFrom] at found
      rw [List.map_cons, List.sum_cons]
      split at found
      · next inside =>
          obtain ⟨lower, upper⟩ := holds_of_found inside
          rw [← Option.some.inj found]
          omega
      · have := ih found
        omega

theorem toPhysical_eq_stored (fits : ∀ range, ranges.find? (·.Holds block) = some range →
      range.start_block.toNat + range.num_blocks.toNat < 2 ^ 32) :
    toPhysicalBlockIndexFrom block before ranges = storedIndex block before ranges := by
  induction ranges generalizing before with
  | nil => rfl
  | cons range ranges ih =>
      rw [toPhysicalBlockIndexFrom, storedIndex]
      by_cases holds : range.Holds block
      · have inside := end_of_fits (fits range (List.find?_cons_of_pos (decide_eq_true holds)))
        rw [if_pos holds, if_pos ⟨holds.1, inside ▸ holds.2⟩]
      · rw [if_neg holds, if_neg fun found => holds (holds_of_found found)]
        refine ih fun other found => fits other ?_
        rw [List.find?_cons_of_neg (by simpa using holds)]
        exact found

/-- A range that ends past the last index of 32 bits is not found to hold any block. -/
theorem toPhysical_ne_stored {range : NFSLBARange}
    (first : ranges.find? (·.Holds block) = some range)
    (beyond : 2 ^ 32 ≤ range.start_block.toNat + range.num_blocks.toNat) :
    ∃ index, storedIndex block before ranges = some index ∧
      index < before + (ranges.map (·.num_blocks.toNat)).sum ∧
      toPhysicalBlockIndexFrom block before ranges ≠ some index := by
  induction ranges generalizing before with
  | nil => exact nomatch first
  | cons head ranges ih =>
      rw [toPhysicalBlockIndexFrom, storedIndex, List.map_cons, List.sum_cons]
      by_cases holds : head.Holds block
      · have here : (head :: ranges).find? (·.Holds block) = some head :=
          List.find?_cons_of_pos (decide_eq_true holds)
        obtain rfl := Option.some.inj (here.symm.trans first)
        obtain ⟨lower, upper⟩ := holds
        have cut := end_of_over beyond
        rw [if_pos ⟨lower, upper⟩, if_neg fun found => by omega]
        refine ⟨_, rfl, by omega, fun same => ?_⟩
        have later := toPhysical_ge same
        omega
      · rw [List.find?_cons_of_neg (by simpa using holds)] at first
        rw [if_neg holds, if_neg fun found => holds (holds_of_found found)]
        obtain ⟨index, stored, lt, ne⟩ := @ih (before + head.num_blocks.toNat) first
        exact ⟨index, stored, by omega, ne⟩

end

/-! ## Readers that were created -/

theorem length_of_mapM {α β : Type} {f : α → Option β} {l : List α} {bs : List β}
    (all : l.mapM f = some bs) : bs.length = l.length := by
  induction l generalizing bs with
  | nil =>
      rw [List.mapM_nil] at all
      exact Option.some.inj all ▸ rfl
  | cons a l ih =>
      rw [List.mapM_cons] at all
      obtain ⟨b, -, rest⟩ := Option.bind_eq_some_iff.mp all
      obtain ⟨bs', later, same⟩ := Option.bind_eq_some_iff.mp rest
      rw [← Option.some.inj same, List.length_cons, List.length_cons, ih later]

section
variable {header : NFSHeader} {first_file : List Byte} {child : Nat → Option (List Byte)}

theorem create_eq_some (created : create header first_file child = some r) :
    r.m_lba_ranges = getLBARanges header ∧ r.m_files.length =
      alignUp (calculateExpectedRawSize (getLBARanges header)) NFS_MAX_FILE_SIZE /
        NFS_MAX_FILE_SIZE - 1 + 1 := by
  obtain ⟨files, opened, same⟩ := Option.bind_eq_some_iff.mp created
  obtain ⟨children, found, sizes⟩ := Option.bind_eq_some_iff.mp opened
  have count := length_of_mapM found
  rw [List.length_range] at count
  dsimp only at sizes
  split at sizes
  · exact nomatch sizes
  · rw [← Option.some.inj same, ← Option.some.inj sizes]
    exact ⟨rfl, by rw [List.length_cons, count]⟩

theorem covered_of_lt (created : create header first_file child = some r) {index : Nat}
    (lt : index < ((getLBARanges header).map (·.num_blocks.toNat)).sum) : r.Covered index := by
  obtain ⟨-, count⟩ := create_eq_some created
  have perFile : BLOCKS_PER_FILE = 8000 := rfl
  have blockSize : NFS_BLOCK_SIZE = 32768 := rfl
  have headerSize : NFS_HEADER_SIZE = 512 := rfl
  have fileSize : NFS_MAX_FILE_SIZE = 262144000 := rfl
  rw [alignUp, calculateExpectedRawSize, blockSize, headerSize, fileSize] at count
  rw [Covered, perFile, count]
  omega

theorem covered_of_create (created : create header first_file child = some r) : r.AllCovered := by
  intro block index found
  have lt := toPhysical_lt found
  rw [(create_eq_some created).1, Nat.zero_add] at lt
  exact covered_of_lt created lt

theorem valid_of_reaches (covered : r.AllCovered) {s : State} {ok : NFSRequest → State → Prop}
    (reached : Reaches (r.step crypt) ok .initial s) : r.Valid crypt s := by
  refine reached.invariant valid_initial fun q s s' valid _ next => ?_
  obtain ⟨x, s'', run, valid', -⟩ := r.read_spec covered crypt q.works 0 q.offset q.nbytes valid
  rw [step, NFSFileReader.run, run] at next
  exact Option.some.inj next ▸ valid'

theorem foundBytes_eq {offset nbytes : Nat} (below : offset + nbytes ≤ r.getDataSize)
    (fits : ∀ block < (greatestBlockIndex r.m_lba_ranges).toNat, ∀ range,
      r.m_lba_ranges.find? (·.Holds block) = some range →
        range.start_block.toNat + range.num_blocks.toNat < 2 ^ 32) :
    r.foundBytes crypt offset nbytes = (List.range nbytes).map fun i =>
      imageByte crypt r.m_lba_ranges r.m_files (offset + i) := by
  refine List.map_congr_left fun i mem => ?_
  have lt := List.mem_range.mp mem
  have inData : (offset + i) / NFS_BLOCK_SIZE < (greatestBlockIndex r.m_lba_ranges).toNat := by
    rw [Nat.div_lt_iff_lt_mul (by decide)]
    exact Nat.lt_of_lt_of_le (by omega) below
  rw [imageByte, foundBlock, toPhysicalBlockIndex, toPhysical_eq_stored (fits _ inData)]

theorem readsImage_of_fits (created : create header first_file child = some r)
    (fits : ∀ block < (greatestBlockIndex (getLBARanges header)).toNat, ∀ range,
      (getLBARanges header).find? (·.Holds block) = some range →
        range.start_block.toNat + range.num_blocks.toNat < 2 ^ 32) : r.ReadsImage crypt := by
  have covered := covered_of_create created
  rw [← (create_eq_some created).1] at fits
  intro s reached q below
  obtain ⟨x, s', run, -, outcome⟩ :=
    r.read_spec covered crypt q.works 0 q.offset q.nbytes (valid_of_reaches covered reached)
  obtain ⟨y, s'', fresh, -, freshOutcome⟩ :=
    r.read_spec covered crypt q.works 0 q.offset q.nbytes valid_initial
  refine ⟨x, s', run, fun bytes same => ?_, fun working => ⟨s'', ?_⟩⟩
  · rcases outcome with ⟨rfl, -⟩ | ⟨rfl, -⟩
    · rw [← Option.some.inj same, foundBytes_eq below fits]
    · exact nomatch same
  · have agree : x = y := by
      rcases outcome with ⟨rfl, complete⟩ | ⟨rfl, incomplete⟩ <;>
        rcases freshOutcome with ⟨rfl, complete'⟩ | ⟨rfl, incomplete'⟩
      · rfl
      · exact absurd ⟨working, complete⟩ incomplete'
      · exact absurd ⟨working, complete'⟩ incomplete
      · rfl
    rw [agree]
    exact fresh

/-! ## Ranges that end past the last index -/

/-- A part file in which every byte is given by its position in the image. -/
def partFile (byte : Nat → Byte) (i : Nat) : List Byte :=
  (List.range NFS_MAX_FILE_SIZE).map fun j => byte (NFS_MAX_FILE_SIZE * i + j)

theorem length_partFile (byte : Nat → Byte) (i : Nat) :
    (partFile byte i).length = NFS_MAX_FILE_SIZE := by
  rw [partFile, List.length_map, List.length_range]

theorem getD_partFile (byte : Nat → Byte) (i : Nat) {j : Nat} (lt : j < NFS_MAX_FILE_SIZE) :
    (partFile byte i).getD j 0 = byte (NFS_MAX_FILE_SIZE * i + j) := by
  rw [partFile, List.getD_eq_getElem _ _ (by rwa [List.length_map, List.length_range]),
    List.getElem_map, List.getElem_range]

theorem sum_lengths (byte : Nat → Byte) (is : List Nat) :
    ((is.map (partFile byte)).map List.length).sum = is.length * NFS_MAX_FILE_SIZE := by
  induction is with
  | nil => exact (Nat.zero_mul _).symm
  | cons i is ih =>
      rw [List.map_cons, List.map_cons, List.sum_cons, ih, length_partFile, List.length_cons,
        Nat.succ_mul, Nat.add_comm]

theorem create_partFiles (header : NFSHeader) (byte : Nat → Byte) :
    ∃ count, create header (partFile byte 0) (fun i => some (partFile byte i)) =
      some ⟨getLBARanges header, (List.range count).map (partFile byte)⟩ := by
  have fileSize : NFS_MAX_FILE_SIZE = 262144000 := rfl
  obtain ⟨more, isMore⟩ : ∃ more, more = alignUp (calculateExpectedRawSize (getLBARanges header))
    NFS_MAX_FILE_SIZE / NFS_MAX_FILE_SIZE - 1 := ⟨_, rfl⟩
  have files : partFile byte 0 :: (List.range more).map (fun i => partFile byte (i + 1)) =
      (List.range (more + 1)).map (partFile byte) := by
    rw [List.range_succ_eq_map, List.map_cons, List.map_map]
    exact congrArg (partFile byte 0 :: ·) (List.map_congr_left fun i _ => by
      rw [Function.comp_apply])
  have children : (List.range more).mapM (fun i => some (partFile byte (i + 1))) =
      some ((List.range more).map fun i => partFile byte (i + 1)) := List.mapM_pure
  have enough : calculateExpectedRawSize (getLBARanges header) ≤ (more + 1) * NFS_MAX_FILE_SIZE := by
    rw [alignUp, fileSize] at isMore
    rw [fileSize]
    omega
  have opened : openFiles (partFile byte 0) (fun i => some (partFile byte i))
      (calculateExpectedRawSize (getLBARanges header)) =
        some ((List.range (more + 1)).map (partFile byte)) := by
    rw [openFiles, ← isMore, children, Option.bind_eq_bind, Option.bind_some, files]
    dsimp only
    rw [sum_lengths, List.length_range, if_neg (Nat.not_lt.mpr enough)]
  refine ⟨more + 1, ?_⟩
  rw [create, opened]
  rfl

theorem storedByte_partFile {byte : Nat → Byte} {count position : Nat}
    (lt : position / NFS_MAX_FILE_SIZE < count) :
    storedByte ((List.range count).map (partFile byte)) position = byte position := by
  have inside : position / NFS_MAX_FILE_SIZE < ((List.range count).map (partFile byte)).length := by
    rwa [List.length_map, List.length_range]
  rw [storedByte, List.getD_eq_getElem _ _ inside, List.getElem_map, List.getElem_range,
    getD_partFile byte _ (Nat.mod_lt _ (by decide)), Nat.div_add_mod]

theorem complete_partFile {byte : Nat → Byte} {count index : Nat} {ranges : List NFSLBARange}
    (covered : (⟨ranges, (List.range count).map (partFile byte)⟩ : NFSFileReader).Covered index) :
    (⟨ranges, (List.range count).map (partFile byte)⟩ : NFSFileReader).Complete index := by
  have long : ∀ i < count, (((List.range count).map (partFile byte)).getD i []).length =
      NFS_MAX_FILE_SIZE := by
    intro i lt
    rw [List.getD_eq_getElem _ _ (by rwa [List.length_map, List.length_range]), List.getElem_map,
      List.getElem_range, length_partFile]
  obtain ⟨first, second⟩ := covered
  simp only [List.length_map, List.length_range] at first second
  have inFile := Nat.mod_lt index (show 0 < BLOCKS_PER_FILE by decide)
  have perFile : BLOCKS_PER_FILE = 8000 := rfl
  have blockSize : NFS_BLOCK_SIZE = 32768 := rfl
  have headerSize : NFS_HEADER_SIZE = 512 := rfl
  have fileSize : NFS_MAX_FILE_SIZE = 262144000 := rfl
  unfold Complete
  split
  · next last =>
      dsimp only
      rw [long _ first, long _ (second last)]
      exact ⟨Nat.le_refl _, by decide⟩
  · next inner =>
      dsimp only
      rw [long _ first, blockSize, headerSize, fileSize]
      rw [perFile] at *
      omega

/-- A decryption that leaves the bytes as they are. -/
def plainText : Decrypt := fun _ encrypted i => encrypted.getD i 0

theorem markUnencrypted_zero (block : Nat) (decrypted : Nat → Byte) :
    markUnencrypted block decrypted 0 = decrypted 0 := by
  unfold markUnencrypted
  split
  · exact Function.update_of_ne (by decide) _ _
  · rfl

theorem plainText_storedBlock (iv : List Byte) (files : List (List Byte)) (index : Nat) :
    plainText iv (storedBlock files index) 0 =
      storedByte files (NFS_HEADER_SIZE + NFS_BLOCK_SIZE * index) := by
  have some_ : 0 < NFS_BLOCK_SIZE := by decide
  rw [plainText, storedBlock,
    List.getD_eq_getElem _ _ (by rwa [List.length_map, List.length_range]), List.getElem_map,
    List.getElem_range, Nat.add_zero]

/-- The first byte of a block, where the part files are complete. -/
theorem first_byte_eq {block : Nat} (covered : r.AllCovered)
    (complete : ∀ index, r.Covered index → r.Complete index) (reads : r.ReadsImage crypt)
    (below : block < (greatestBlockIndex r.m_lba_ranges).toNat) :
    r.foundBlock crypt block 0 =
      blockBytes crypt r.m_files block (storedIndex block 0 r.m_lba_ranges) 0 := by
  have blockSize : NFS_BLOCK_SIZE = 32768 := rfl
  have here : (NFS_BLOCK_SIZE * block + 0) / NFS_BLOCK_SIZE = block := by
    rw [Nat.add_zero, Nat.mul_div_cancel_left _ (by decide)]
  have start : (NFS_BLOCK_SIZE * block + 0) % NFS_BLOCK_SIZE = 0 := by
    rw [Nat.add_zero, Nat.mul_mod_right]
  obtain ⟨x, s, run, right, -⟩ := reads .initial .refl
    ⟨NFS_BLOCK_SIZE * block, 1, fun _ => true⟩ (by
      show NFS_BLOCK_SIZE * block + 1 ≤ (greatestBlockIndex r.m_lba_ranges).toNat * NFS_BLOCK_SIZE
      rw [blockSize]
      omega)
  obtain ⟨y, s', run', -, outcome⟩ := r.read_spec covered crypt (fun _ => true) 0
    (NFS_BLOCK_SIZE * block) 1 valid_initial
  have same : x = y := (Prod.mk.inj (Except.ok.inj (run.symm.trans run'))).1
  rcases outcome with ⟨found, -⟩ | ⟨-, incomplete⟩
  · have bytes := right _ (same.trans found)
    have first := (List.cons.inj bytes).1
    dsimp only at first
    rw [imageByte, here, start] at first
    exact first
  · refine absurd ⟨fun _ => rfl, fun i lt => ?_⟩ incomplete
    rw [Nat.lt_one_iff.mp lt, here]
    exact fun index found => complete index (covered block index found)

/-- Where a range ends past the last index, a file can tell its blocks from what is read. -/
theorem not_readsImage_of_over {block : Nat} {range : NFSLBARange}
    (below : block < (greatestBlockIndex (getLBARanges header)).toNat)
    (first : (getLBARanges header).find? (·.Holds block) = some range)
    (beyond : 2 ^ 32 ≤ range.start_block.toNat + range.num_blocks.toNat) :
    ∃ first_file child r, create header first_file child = some r ∧ ¬ r.ReadsImage plainText := by
  obtain ⟨index, stored, lt, ne⟩ := @toPhysical_ne_stored _ 0 _ _ first beyond
  rw [Nat.zero_add] at lt
  -- The file has a one in the first byte of the block and zeros elsewhere.
  obtain ⟨byte, isByte⟩ : ∃ byte : Nat → Byte, byte = fun position =>
    if position = NFS_HEADER_SIZE + NFS_BLOCK_SIZE * index then 1 else 0 := ⟨_, rfl⟩
  obtain ⟨count, created⟩ := create_partFiles header byte
  refine ⟨_, _, _, created, fun reads => ?_⟩
  have at_ : ∀ index', (⟨getLBARanges header, (List.range count).map (partFile byte)⟩ :
      NFSFileReader).Covered index' → storedByte ((List.range count).map (partFile byte))
        (NFS_HEADER_SIZE + NFS_BLOCK_SIZE * index') = if index' = index then 1 else 0 := by
    intro index' covered
    have inside := covered.1
    rw [List.length_map, List.length_range] at inside
    have perFile : BLOCKS_PER_FILE = 8000 := rfl
    have blockSize : NFS_BLOCK_SIZE = 32768 := rfl
    have headerSize : NFS_HEADER_SIZE = 512 := rfl
    have fileSize : NFS_MAX_FILE_SIZE = 262144000 := rfl
    have file : (NFS_HEADER_SIZE + NFS_BLOCK_SIZE * index') / NFS_MAX_FILE_SIZE < count := by
      rw [blockSize, headerSize, fileSize]
      rw [perFile] at inside
      omega
    rw [storedByte_partFile file, isByte, blockSize]
    dsimp only
    by_cases eq : index' = index
    · rw [eq, if_pos rfl, if_pos rfl]
    · rw [if_neg eq, if_neg (by omega)]
  have covered := covered_of_create created
  have equal := first_byte_eq covered (fun _ => complete_partFile) reads below
  rw [stored, foundBlock] at equal
  unfold blockBytes at equal
  rw [markUnencrypted_zero, markUnencrypted_zero] at equal
  dsimp only at equal
  rw [plainText_storedBlock, at_ index (covered_of_lt created lt), if_pos rfl] at equal
  cases place : toPhysicalBlockIndex block
      ⟨getLBARanges header, (List.range count).map (partFile byte)⟩ with
  | none =>
      rw [place] at equal
      exact absurd (show (0 : Byte) = 1 from equal) (by decide)
  | some other =>
      rw [place] at equal
      dsimp only at equal
      have differs : other ≠ index := fun same => ne (same ▸ place)
      rw [plainText_storedBlock, at_ other (covered block other place), if_neg differs] at equal
      exact absurd equal (by decide)

/-- Every read of every accepted image is right exactly when no block of the image is in a range
that ends past the last index of 32 bits. -/
theorem reads_image_iff (header : NFSHeader) :
    (∀ crypt first_file child r, create header first_file child = some r → r.ReadsImage crypt) ↔
      ∀ block < (greatestBlockIndex (getLBARanges header)).toNat, ∀ range,
        (getLBARanges header).find? (·.Holds block) = some range →
          range.start_block.toNat + range.num_blocks.toNat < 2 ^ 32 := by
  constructor
  · intro reads block below range first
    by_contra beyond
    obtain ⟨first_file, child, r, created, wrong⟩ :=
      not_readsImage_of_over below first (Nat.le_of_not_lt beyond)
    exact wrong (reads plainText first_file child r created)
  · intro fits crypt first_file child r created
    exact readsImage_of_fits created fits

/-- A range up to the last index of 32 bits, and one inside it. -/
def lastBlocks : NFSHeader where
  lba_range_count := 2
  lba_ranges := Vector.ofFn fun i =>
    if i = 0 then ⟨0xFFFFFFF0, 0x10⟩ else if i = 1 then ⟨0xFFFFFFF8, 2⟩ else ⟨0, 0⟩

/-- The first of these blocks is stored first, and is read as zeros. -/
theorem reads_image_fails : toPhysicalBlockIndexFrom 0xFFFFFFF0 0 (getLBARanges lastBlocks) = none ∧
    storedIndex 0xFFFFFFF0 0 (getLBARanges lastBlocks) = some 0 ∧
    ∃ first_file child r, create lastBlocks first_file child = some r ∧ ¬ r.ReadsImage plainText := by
  have ranges : getLBARanges lastBlocks = [⟨0xFFFFFFF0, 0x10⟩, ⟨0xFFFFFFF8, 2⟩] := by decide
  refine ⟨by rw [ranges]; decide, by rw [ranges]; decide, ?_⟩
  refine @not_readsImage_of_over lastBlocks 0xFFFFFFF0 ⟨0xFFFFFFF0, 0x10⟩ ?_ ?_ ?_
  · rw [ranges]
    decide
  · rw [ranges]
    decide
  · decide

end

end NFSFileReader

end Phocoena.DiscIO
