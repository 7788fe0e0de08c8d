import Phocoena.Common.RangeSizeSetRuns
import Mathlib.Logic.Function.Basic
import Mathlib.Tactic.Ring

/-! # The block cache of the JITs

A pointer to a block is the number that the block has as `self`. Following a pointer to a block
that was freed is a fault, and so is an iterator that walks past the end of its map; both are
`none`.
-/

namespace Phocoena.JitCommon

/-- `std::unordered_set::insert` and `erase`. -/
def insertBlock (id : Nat) (blocks : List Nat) : List Nat :=
  if id ∈ blocks then blocks else id :: blocks

def eraseBlock (id : Nat) (blocks : List Nat) : List Nat := blocks.filter (· ≠ id)

structure LinkData where
  exitAddress : Nat
  linkStatus : Bool
  /-- The block that the exit jumps to; without one it jumps to the dispatcher. -/
  target : Option Nat
  deriving DecidableEq

structure JitBlock where
  self : Nat
  normalEntry : Nat
  feature_flags : Nat
  effectiveAddress : Nat
  physicalAddress : Nat
  fast_block_map_index : Nat
  linkData : List LinkData
  physical_addresses : List Range
  deriving DecidableEq

def OverlapsPhysicalRange (block : JitBlock) (address length : Nat) : Bool :=
  RangeSizeSet.overlaps ⟨block.physical_addresses, block.physical_addresses⟩ address
    ((address + length) % 2 ^ 32)

/-- The first of the pieces of some size that meet a range, and the pieces behind it. -/
def pieces (size : Nat) (r : Range) : List Nat :=
  List.range' (r.From / size * size) ((r.To - r.From / size * size + (size - 1)) / size) size

def BLOCK_RANGE_SIZE : Nat := 0x100

def macroBlocks (block : JitBlock) : List Nat :=
  block.physical_addresses.flatMap (pieces BLOCK_RANGE_SIZE)

/-- The map of the macro blocks, with the keys in order. -/
structure BlockRangeMap where
  keys : List Nat
  blocks : Nat → List Nat

namespace BlockRangeMap

/-- `operator[]` puts in the key that it is asked for. -/
def withKey (key : Nat) (keys : List Nat) : List Nat :=
  if key ∈ keys then keys else keys.takeWhile (· < key) ++ key :: keys.dropWhile (· < key)

def insert (map : BlockRangeMap) (id key : Nat) : BlockRangeMap :=
  ⟨withKey key map.keys, Function.update map.blocks key (insertBlock id (map.blocks key))⟩

def erase (map : BlockRangeMap) (id key : Nat) : BlockRangeMap :=
  ⟨withKey key map.keys, Function.update map.blocks key (eraseBlock id (map.blocks key))⟩

def insertAll (map : BlockRangeMap) (id : Nat) (keys : List Nat) : BlockRangeMap :=
  keys.foldl (fun map key => map.insert id key) map

def eraseAll (map : BlockRangeMap) (id : Nat) (keys : List Nat) : BlockRangeMap :=
  keys.foldl (fun map key => map.erase id key) map

/-- Drops a macro block that is empty. -/
def dropEmpty (map : BlockRangeMap) (key : Nat) : BlockRangeMap :=
  if map.blocks key = [] then { map with keys := map.keys.filter (· ≠ key) } else map

end BlockRangeMap

/-- What the JIT remembers of single addresses. -/
structure JitState where
  fifoWriteAddresses : List Nat
  pairedQuantizeAddresses : List Nat
  noSpeculativeConstantsAddresses : List Nat

def JitState.erase (js : JitState) (keep : Nat → Bool) : JitState :=
  ⟨js.fifoWriteAddresses.filter keep, js.pairedQuantizeAddresses.filter keep,
    js.noSpeculativeConstantsAddresses.filter keep⟩

/-- An entry point of 0 is a null pointer. -/
structure JitBaseBlockCache where
  js : JitState
  block_map : List JitBlock
  links_to : Nat → List Nat
  block_range_map : BlockRangeMap
  valid_block : Nat → Bool
  large_entry_points_map : Bool
  m_entry_points_ptr : Nat → Nat
  m_fast_block_map_fallback : Nat → Option Nat

structure TranslateResult where
  valid : Bool
  translated : Bool
  from_bat : Bool
  address : Nat

/-- What the cache reads of the rest of the machine. -/
structure Machine where
  JitCache_TranslateAddress : Nat → TranslateResult
  feature_flags : Nat
  pc : Nat

def FEATURE_FLAG_MSR_IR : Nat := 2

namespace JitBaseBlockCache

def Init (large_entry_points_map : Bool) : JitBaseBlockCache where
  js := ⟨[], [], []⟩
  block_map := []
  links_to := fun _ => []
  block_range_map := ⟨[], fun _ => []⟩
  valid_block := fun _ => false
  large_entry_points_map := large_entry_points_map
  m_entry_points_ptr := fun _ => 0
  m_fast_block_map_fallback := fun _ => none

section
variable (c : JitBaseBlockCache)

/-- The block that a pointer points to. -/
def deref (id : Nat) : Option JitBlock := c.block_map.find? (·.self = id)

def modify (id : Nat) (f : JitBlock → JitBlock) : JitBaseBlockCache :=
  { c with block_map := c.block_map.map fun b => if b.self = id then f b else b }

def withBlocks (block_map : List JitBlock) : JitBaseBlockCache := { c with block_map := block_map }

def withRanges (block_range_map : BlockRangeMap) : JitBaseBlockCache :=
  { c with block_range_map := block_range_map }

def FAST_BLOCK_MAP_FALLBACK_ELEMENTS : Nat := 0x10000

def FastLookupIndexForAddress (address feature_flags : Nat) : Nat :=
  if c.large_entry_points_map then feature_flags * 2 ^ 30 + address / 4
  else address / 4 % FAST_BLOCK_MAP_FALLBACK_ELEMENTS

def GetBlockFromStartAddress (m : Machine) (addr feature_flags : Nat) : Option JitBlock :=
  let found (translated_addr : Nat) := c.block_map.find? fun b =>
    b.physicalAddress = translated_addr ∧ b.effectiveAddress = addr ∧
      b.feature_flags = feature_flags
  if feature_flags / FEATURE_FLAG_MSR_IR % 2 = 1 then
    let translated := m.JitCache_TranslateAddress addr
    if translated.valid then found translated.address else none
  else found addr

/-! ## Linking -/

def WriteLinkBlock (source : LinkData) (dest : Option Nat) : LinkData :=
  { source with target := dest }

/-- One round of `LinkBlockExits`. -/
def linkExit (m : Machine) (feature_flags : Nat) (e : LinkData) : LinkData :=
  if e.linkStatus then e
  else match c.GetBlockFromStartAddress m e.exitAddress feature_flags with
    | some destinationBlock =>
        { WriteLinkBlock e (some destinationBlock.self) with linkStatus := true }
    | none => e

def LinkBlockExits (m : Machine) (id : Nat) : Option JitBaseBlockCache :=
  (c.deref id).map fun block => c.modify id fun b =>
    { b with linkData := b.linkData.map (c.linkExit m block.feature_flags) }

/-- One round of the loop of `LinkBlock`. -/
def linkSource (m : Machine) (block : JitBlock) (c : JitBaseBlockCache) (b2 : Nat) :
    Option JitBaseBlockCache :=
  (c.deref b2).bind fun source =>
    if block.feature_flags = source.feature_flags then c.LinkBlockExits m b2 else some c

def LinkBlock (m : Machine) (id : Nat) : Option JitBaseBlockCache :=
  (c.LinkBlockExits m id).bind fun c => (c.deref id).bind fun block =>
    (c.links_to block.effectiveAddress).foldlM (linkSource m block) c

/-- One round of `UnlinkBlock` over the exits of another block. -/
def unlinkExit (effectiveAddress : Nat) (e : LinkData) : LinkData :=
  if e.exitAddress = effectiveAddress then { WriteLinkBlock e none with linkStatus := false } else e

/-- One round of the loop of `UnlinkBlock`. -/
def unlinkSource (block : JitBlock) (c : JitBaseBlockCache) (sourceBlock : Nat) :
    Option JitBaseBlockCache :=
  (c.deref sourceBlock).map fun source =>
    if source.feature_flags ≠ block.feature_flags then c
    else c.modify sourceBlock fun b =>
      { b with linkData := b.linkData.map (unlinkExit block.effectiveAddress) }

def UnlinkBlock (id : Nat) : Option JitBaseBlockCache :=
  (c.deref id).bind fun block =>
    (c.links_to block.effectiveAddress).foldlM (unlinkSource block)
      (c.modify id fun b => { b with linkData := b.linkData.map (WriteLinkBlock · none) })

/-! ## The fast block map -/

/-- The entry of a block is taken out of the fast block map if it is there. -/
def dropFastEntry (block : JitBlock) : JitBaseBlockCache :=
  if c.large_entry_points_map then
    if c.m_entry_points_ptr block.fast_block_map_index = block.normalEntry then
      { c with m_entry_points_ptr := Function.update c.m_entry_points_ptr block.fast_block_map_index 0 }
    else c
  else if c.m_fast_block_map_fallback block.fast_block_map_index = some block.self then
    { c with m_fast_block_map_fallback :=
        Function.update c.m_fast_block_map_fallback block.fast_block_map_index none }
  else c

def putFastEntry (block : JitBlock) (index : Nat) : JitBaseBlockCache :=
  if c.large_entry_points_map then
    { c with
      m_entry_points_ptr := Function.update c.m_entry_points_ptr index block.normalEntry }
  else
    { c with
      m_fast_block_map_fallback :=
        Function.update c.m_fast_block_map_fallback index (some block.self) }

/-- The entry of a block is put in, and its index noted. -/
def setFastEntry (block : JitBlock) (index : Nat) : JitBaseBlockCache :=
  (c.putFastEntry block index).modify block.self fun b => { b with fast_block_map_index := index }

def MoveBlockIntoFastCache (m : Machine) (addr feature_flags : Nat) :
    JitBaseBlockCache × Option JitBlock :=
  match c.GetBlockFromStartAddress m addr feature_flags with
  | none => (c, none)
  | some block =>
      ((c.dropFastEntry block).setFastEntry block (c.FastLookupIndexForAddress addr feature_flags),
        some block)

/-- The entry of the block for the current address, and 0 without one. -/
def Dispatch (m : Machine) : Option (JitBaseBlockCache × Nat) :=
  let index := c.FastLookupIndexForAddress m.pc m.feature_flags
  let moved := c.MoveBlockIntoFastCache m m.pc m.feature_flags
  let slow := (moved.1, (moved.2.map (·.normalEntry)).getD 0)
  if c.large_entry_points_map then
    if c.m_entry_points_ptr index ≠ 0 then some (c, c.m_entry_points_ptr index) else some slow
  else match c.m_fast_block_map_fallback index with
    | none => some slow
    | some id => (c.deref id).map fun block =>
        if block.effectiveAddress ≠ m.pc ∨ block.feature_flags ≠ m.feature_flags then slow
        else (c, block.normalEntry)

/-! ## Making blocks -/

/-- `std::multimap::emplace`, behind the blocks that have the key already. -/
def emplace (block : JitBlock) (block_map : List JitBlock) : List JitBlock :=
  block_map.takeWhile (·.physicalAddress ≤ block.physicalAddress) ++
    block :: block_map.dropWhile (·.physicalAddress ≤ block.physicalAddress)

/-- The new block stands at an address that the allocator chooses. -/
def AllocateBlock (m : Machine) (em_address self : Nat) : JitBaseBlockCache :=
  let physical_address := (m.JitCache_TranslateAddress em_address).address
  let b : JitBlock := ⟨self, 0, m.feature_flags, em_address, physical_address, 0, [], []⟩
  c.withBlocks (emplace b c.block_map)

/-- What the code generator leaves in the block. -/
def fillBlock (self normalEntry : Nat) (linkData : List LinkData) : JitBaseBlockCache :=
  c.modify self fun b => { b with normalEntry := normalEntry, linkData := linkData }

def setLines (valid_block : Nat → Bool) (ranges : List Range) : Nat → Bool :=
  (ranges.flatMap (pieces 32)).foldl (fun valid i => Function.update valid (i / 32) true) valid_block

def addLinks (self : Nat) (links_to : Nat → List Nat) (exits : List LinkData) : Nat → List Nat :=
  exits.foldl (fun links e =>
    Function.update links e.exitAddress (insertBlock self (links e.exitAddress))) links_to

/-- The lines and the macro blocks of the instructions of a block. -/
def noteInstructions (self : Nat) (ranges : List Range) : JitBaseBlockCache :=
  { c with
    valid_block := setLines c.valid_block ranges
    block_range_map := c.block_range_map.insertAll self (ranges.flatMap (pieces BLOCK_RANGE_SIZE)) }

def noteExits (self : Nat) (exits : List LinkData) : JitBaseBlockCache :=
  { c with links_to := addLinks self c.links_to exits }

def FinalizeBlock (m : Machine) (self : Nat) (block_link : Bool) (m_physical_addresses : List Range) :
    Option JitBaseBlockCache :=
  (c.deref self).bind fun block =>
    let index := c.FastLookupIndexForAddress block.effectiveAddress block.feature_flags
    let c := ((c.setFastEntry block index).modify self fun b =>
      { b with physical_addresses := m_physical_addresses }).noteInstructions self
        m_physical_addresses
    if block_link then (c.noteExits self block.linkData).LinkBlock m self else some c

/-! ## Destroying blocks -/

def removeLinks (self : Nat) (links_to : Nat → List Nat) (exits : List LinkData) :
    Nat → List Nat :=
  exits.foldl (fun links e =>
    Function.update links e.exitAddress (eraseBlock self (links e.exitAddress))) links_to

def DestroyBlock (id : Nat) : Option JitBaseBlockCache :=
  (c.deref id).bind fun block => ((c.dropFastEntry block).UnlinkBlock id).map fun c =>
    { c with links_to := removeLinks id c.links_to block.linkData }

/-- The block is freed. -/
def free (id : Nat) : JitBaseBlockCache :=
  { c with block_map := c.block_map.eraseP (·.self = id) }

def Clear : Option JitBaseBlockCache :=
  ((c.block_map.map (·.self)).foldlM DestroyBlock c).map fun c =>
    { Init c.large_entry_points_map with
      m_fast_block_map_fallback := c.m_fast_block_map_fallback }

def EraseSingleBlock (id : Nat) : Option JitBaseBlockCache :=
  match c.deref id with
  | none => some c
  | some block =>
      let c := c.withRanges (c.block_range_map.eraseAll id (macroBlocks block))
      (c.DestroyBlock id).map fun c => c.free id

/-- One block of a macro block in `ErasePhysicalRange`. -/
def eraseIfOverlapping (address length start : Nat) (c : JitBaseBlockCache) (id : Nat) :
    Option JitBaseBlockCache :=
  (c.deref id).bind fun block =>
    if OverlapsPhysicalRange block address length then
      let others := (macroBlocks block).filter (· ≠ start)
      let c := c.withRanges (c.block_range_map.eraseAll id others)
      (c.DestroyBlock id).map fun c => (c.free id).withRanges (c.block_range_map.erase id start)
    else some c

/-- One macro block in `ErasePhysicalRange`. -/
def eraseInMacroBlock (address length : Nat) (c : JitBaseBlockCache) (start : Nat) :
    Option JitBaseBlockCache :=
  ((c.block_range_map.blocks start).foldlM (eraseIfOverlapping address length start) c).map fun c =>
    c.withRanges (c.block_range_map.dropEmpty start)

/-- The macro blocks in the range are there from the beginning. Where the range ends at the end of
the addresses, the loop begins behind the iterator that it waits for. -/
def ErasePhysicalRange (address length : Nat) : Option JitBaseBlockCache :=
  let start := address / BLOCK_RANGE_SIZE * BLOCK_RANGE_SIZE
  let stop := (address + length) % 2 ^ 32
  if c.block_range_map.keys.any fun key => stop ≤ key ∧ key < start then none
  else (c.block_range_map.keys.filter fun key => start ≤ key ∧ key < stop).foldlM
    (eraseInMacroBlock address length) c

/-! ## Invalidation -/

/-- The bits of the lines behind `first` and before `last` are cleared. -/
def clearLines (valid_block : Nat → Bool) (first last : Nat) : Nat → Bool :=
  fun i => valid_block i && !(first ≤ i && i < last)

def InvalidateICacheInternal (physical_address address length : Nat) (forced : Bool) :
    Option JitBaseBlockCache :=
  let single := length = 32 ∧ physical_address % 32 = 0
  let first := if single then physical_address / 32 else (physical_address + 0x1f) % 2 ^ 32 / 32
  let last := if single then first + 1 else (physical_address + length) % 2 ^ 32 / 32
  if single ∧ c.valid_block (physical_address / 32) = false then some c
  else
    (if single ∨ length > 32 then { c with valid_block := clearLines c.valid_block first last }
      else c).ErasePhysicalRange physical_address length |>.map fun c =>
        if forced then c
        else { c with js := c.js.erase fun i =>
          !(address ≤ i && i < (address + length) % 2 ^ 32 && (i - address) % 4 = 0) }

def InvalidateICacheLine (m : Machine) (address : Nat) : Option JitBaseBlockCache :=
  let cache_line_address := address / 32 * 32
  let translated := m.JitCache_TranslateAddress cache_line_address
  if translated.valid then c.InvalidateICacheInternal translated.address cache_line_address 32 false
  else some c

def BAT_INDEX_SHIFT : Nat := 17

def HW_PAGE_INDEX_SHIFT : Nat := 12

/-- The bytes that are mapped together with an address. -/
def mappedTogether (translated : TranslateResult) : Nat :=
  2 ^ (if translated.valid ∧ translated.translated ∧ translated.from_bat then BAT_INDEX_SHIFT
    else HW_PAGE_INDEX_SHIFT)

/-- The loop of `InvalidateICache`, which needs no more rounds than there are bytes. -/
def invalidateLoop (m : Machine) (forced : Bool) :
    Nat → JitBaseBlockCache → (address length : Nat) → Option JitBaseBlockCache
  | 0, c, _, length => if length = 0 then some c else none
  | fuel + 1, c, address, length =>
      if length = 0 then some c
      else
        let translated := m.JitCache_TranslateAddress address
        let unit := mappedTogether translated
        let invalidate (length : Nat) := if translated.valid then
          c.InvalidateICacheInternal translated.address address length forced else some c
        if address / unit = (address + (length - 1)) % 2 ^ 32 / unit then invalidate length
        else
          let length_this_page := (address / unit + 1) * unit - address
          (invalidate length_this_page).bind fun c => invalidateLoop m forced fuel c
            ((address + length_this_page) % 2 ^ 32) (length - length_this_page)

def InvalidateICache (m : Machine) (initial_address initial_length : Nat) (forced : Bool) :
    Option JitBaseBlockCache :=
  invalidateLoop m forced initial_length c initial_address initial_length

/-- `JitInterface::InvalidateICacheLines` -/
def InvalidateICacheLines (m : Machine) (address count : Nat) : Option JitBaseBlockCache :=
  if count = 1 then c.InvalidateICacheLine m address
  else if count = 0 ∨ count ≥ 2 ^ 32 / 32 then
    c.InvalidateICache m (address / 32 * 32) 0xffffffff false
  else c.InvalidateICache m (address / 32 * 32) (32 * count) false

end

end JitBaseBlockCache

end Phocoena.JitCommon
