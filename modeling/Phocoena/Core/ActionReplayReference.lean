import Phocoena.Core.ActionReplay

/-! # The line grammar of Action Replay codes

The reference for `RunCodeLocked`: what the first lines of a code say is one command, which consumes
its lines, and a command says where the run goes on.
-/

namespace Phocoena.ActionReplay

/-- What the first lines of a code say. -/
inductive Command where
  /-- `00000000 00000000`, or another line of this zero code -/
  | endOfCodes
  /-- `00000000 40000000`, or another line of this zero code -/
  | normalExecution
  /-- A Z4 line and its parameters. -/
  | fillAndSlide (val_last : Word) (addr : ARAddr) (data : Word)
  | memoryCopy (val_last : Word) (addr : ARAddr) (data : Word)
  /-- A Z4 line that is the last one. -/
  | unfinished
  | normal (addr : ARAddr) (data : Word)
  | conditional (addr : ARAddr) (data : Word)
  | invalid

/-- The command of a Z4 line and the lines behind it. -/
def parseZ4 (val_last : Word) : List AREntry → Command × List AREntry
  | [] => (.unfinished, [])
  | parameters :: rest =>
      if (ARAddr.mk val_last).size = 3 then
        (.memoryCopy val_last ⟨parameters.cmd_addr⟩ parameters.value, rest)
      else (.fillAndSlide val_last ⟨parameters.cmd_addr⟩ parameters.value, rest)

/-- A zero code, by its type. -/
def parseZero (value : Word) (rest : List AREntry) : (zcode : Nat) → Command × List AREntry
  | 0 => (.endOfCodes, rest)
  | 2 => (.normalExecution, rest)
  | 4 => parseZ4 value rest
  | _ => (.invalid, rest)

/-- The first command, and the lines behind it. -/
def parse (entry : AREntry) (rest : List AREntry) : Command × List AREntry :=
  if 0x00002000 ≤ entry.cmd_addr ∧ entry.cmd_addr < 0x00003000 then (.invalid, rest)
  else if entry.cmd_addr = 0 then parseZero entry.value rest (entry.value.extractLsb' 29 3).toNat
  else if (ARAddr.mk entry.cmd_addr).type = 0 then (.normal ⟨entry.cmd_addr⟩ entry.value, rest)
  else (.conditional ⟨entry.cmd_addr⟩ entry.value, rest)

/-- `00000000 40000000` -/
def AREntry.isEndIf (entry : AREntry) : Bool := entry.cmd_addr = 0 ∧ entry.value = 0x40000000

/-- The lines behind a conditional that is false. -/
def skipped (subtype : BitVec 2) (rest : List AREntry) : List AREntry :=
  match subtype.toNat with
  | 0 => rest.drop 1
  | 1 => rest.drop 2
  | 2 => (rest.dropWhile fun entry => !entry.isEndIf).drop 1
  | _ => []

section

variable {M : Type} (mmu : MMU M)

/-- The patches in turn. -/
def applyAll (patches : List Patch) (guest : Guest M) : Guest M :=
  patches.foldl (fun guest patch => ApplyMemoryPatch mmu patch guest) guest

/-- A value of the size that a line asks for. -/
def patchOf (size : BitVec 2) (value address : Word) : Patch :=
  match size.toNat with
  | 0 => .u8 (value.setWidth 8) address
  | 1 => .u16 (value.setWidth 16) address
  | _ => .u32 value address

/-- The number of bytes of such a value. -/
def bytesOf (size : BitVec 2) : Nat :=
  match size.toNat with
  | 0 => 1
  | 1 => 2
  | _ => 4

/-- A RAM fill repeats the value in the low bytes as often as the bytes above them say. -/
def ramFill (addr : ARAddr) (data : Word) : List Patch :=
  let repeats := data >>> (8 * bytesOf addr.size)
  (List.range (repeats.toNat + 1)).map fun i =>
    patchOf addr.size data (addr.GCAddress + BitVec.ofNat 32 (i * bytesOf addr.size))

/-- A fill and slide takes the `i`-th of its values and addresses from their increments. -/
def slidePatches (val_last : Word) (addr : ARAddr) (data : Word) : List Patch :=
  let size := (ARAddr.mk val_last).size
  let addr_incr := (data.extractLsb' 0 16).toInt
  let val_incr := (data.extractLsb' 24 8).toInt
  let write_num := (data.extractLsb' 16 8).toNat
  (List.range write_num).map fun (i : Nat) =>
    patchOf size (addr.address + BitVec.ofInt 32 (i * val_incr))
      ((ARAddr.mk val_last).GCAddress + BitVec.ofInt 32 (i * (addr_incr * bytesOf size)))

/-- One byte after the other. -/
def copyAll (src dest : Word) (count : Nat) (guest : Guest M) : Guest M :=
  (List.range count).foldl (fun guest i =>
    let value := mmu.HostRead8 guest.memory (src + BitVec.ofNat 32 i)
    ApplyMemoryPatch mmu (.u8 value (dest + BitVec.ofNat 32 i)) guest) guest

/-- The addresses of a memory copy, which may be given by pointers to them. -/
def copyAddresses (val_last : Word) (addr : ARAddr) (data : Word) (memory : M) : Word × Word :=
  let src := addr.GCAddress
  let dest := val_last &&& ~~~0x06000000
  if data >>> 24 = 0 then (src, dest)
  else (mmu.HostRead32 memory src, mmu.HostRead32 memory dest)

/-- The number of bytes that a memory copy asks for. -/
def copyCount (data : Word) : Nat := (data &&& 0x7FFF).toNat

/-- Where a run goes on. -/
inductive Continuation (M : Type) where
  | stop (success : Bool) (memory : M) (carried : List (List Patch))
  | go (rest : List AREntry) (memory : M) (carried : List (List Patch))

/-- A line that is carried out, or reported as invalid. -/
def Continuation.of (valid : Bool) (rest : List AREntry) (guest : Guest M) : Continuation M :=
  if valid then .go rest guest.memory [guest.patches]
  else .stop false guest.memory [guest.patches]

def Command.run (rest : List AREntry) (memory : M) : Command → Continuation M
  | .endOfCodes => .stop true memory []
  | .normalExecution => .go rest memory []
  | .unfinished => .go rest memory []
  | .invalid => .stop false memory []
  | .fillAndSlide val_last addr data =>
      .of true rest (applyAll mmu (slidePatches val_last addr data) ⟨memory, []⟩)
  | .memoryCopy val_last addr data =>
      if data &&& 0xFF0000 = 0 then
        let addresses := copyAddresses mmu val_last addr data memory
        .of true rest (copyAll mmu addresses.1 addresses.2 (copyCount data) ⟨memory, []⟩)
      else .of false rest ⟨memory, []⟩
  | .normal addr data =>
      if addr.subtype = SUB_RAM_WRITE then
        .of true rest (applyAll mmu (ramFill addr data) ⟨memory, []⟩)
      else
        let result := NormalCode mmu addr data ⟨memory, []⟩
        .of result.1 rest result.2
  | .conditional addr data =>
      if compare mmu addr data memory then .go rest memory []
      else .go (skipped addr.subtype rest) memory []

/-- The outcome of a run that goes on in this way. -/
def Continuation.finish (onwards : List AREntry → M → Outcome M) : Continuation M → Outcome M
  | .stop success memory carried => ⟨success, memory, carried⟩
  | .go rest memory carried => (onwards rest memory).behind carried

/-- A run of at most `fuel` commands. -/
def referenceUpTo : (fuel : Nat) → List AREntry → M → Outcome M
  | 0, _, memory => ⟨true, memory, []⟩
  | _, [], memory => ⟨true, memory, []⟩
  | fuel + 1, entry :: entries, memory =>
      let parsed := parse entry entries
      (parsed.1.run mmu parsed.2 memory).finish (referenceUpTo fuel)

/-- Every command consumes a line. -/
def reference (ops : List AREntry) (memory : M) : Outcome M :=
  referenceUpTo mmu ops.length ops memory

/-- The commands of such a run. -/
def commandsUpTo : (fuel : Nat) → List AREntry → M → List Command
  | 0, _, _ => []
  | _, [], _ => []
  | fuel + 1, entry :: entries, memory =>
      let parsed := parse entry entries
      parsed.1 :: match parsed.1.run mmu parsed.2 memory with
        | .stop _ _ _ => []
        | .go rest memory' _ => commandsUpTo fuel rest memory'

def commands (ops : List AREntry) (memory : M) : List Command :=
  commandsUpTo mmu ops.length ops memory

end

/-- A memory copy that is valid asks for no more bytes than a byte can count. -/
def Command.short : Command → Prop
  | .memoryCopy _ _ data => data &&& 0xFF0000 = 0 → copyCount data < 256
  | _ => True

end Phocoena.ActionReplay
