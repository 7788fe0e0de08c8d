import Phocoena.Horizon.StoredZipWriter
import Phocoena.Horizon.ZipArchive

/-! # The archive that is written is read back

Writes are followed through the stream: as long as it is good, it holds what was written.
-/

namespace Phocoena.Horizon.StoredZipWriter

open Zip

/-! ## Check sums -/

theorem crcBit_eq (c : BitVec 32) : crcBit c = Crc.shiftBit CRC_POLYNOMIAL c := by
  have mask : 0#32 - (c &&& 1#32) = if c.getLsbD 0 then BitVec.allOnes 32 else 0#32 := by
    rw [BitVec.and_one_eq_setWidth_ofBool_getLsbD]
    cases c.getLsbD 0 <;> rfl
  unfold crcBit Crc.shiftBit
  rw [mask]
  cases c.getLsbD 0 with
  | false => simp
  | true => simp [CRC_POLYNOMIAL]

theorem crcTable_getD (i : BitVec 8) :
    crcTable.getD i.toNat 0 = Crc.shiftBits CRC_POLYNOMIAL 8 (i.setWidth 32) := by
  have same : crcBit = Crc.shiftBit CRC_POLYNOMIAL := funext crcBit_eq
  have index : BitVec.ofNat 32 i.toNat = i.setWidth 32 := by
    apply BitVec.eq_of_toNat_eq
    rw [BitVec.toNat_ofNat, BitVec.toNat_setWidth]
  rw [crcTable, List.getD_eq_getElem?_getD, List.getElem?_map, List.getElem?_range i.isLt,
    Option.map_some, Option.getD_some, same, index]
  rfl

/-- The table takes a byte at a time as the check sum takes its bits. -/
theorem crc32Update_eq (crc : BitVec 32) (data : List Byte) :
    crc32Update crc data = Crc.update CRC_POLYNOMIAL crc data := by
  unfold crc32Update Crc.update
  congr 1
  funext crc b
  have low : ((crc ^^^ b.setWidth 32) &&& 0xff#32).toNat =
      ((crc ^^^ b.setWidth 32).setWidth 8).toNat := by
    rw [BitVec.toNat_and, BitVec.toNat_setWidth]
    exact Nat.and_two_pow_sub_one_eq_mod _ 8
  rw [low, crcTable_getD, Crc.byte_eq_table]

theorem crc32_eq (data : List Byte) : StoredZipWriter.crc32 data = Zip.crc32 data := by
  rw [StoredZipWriter.crc32, Zip.crc32, crc32Update_eq]

/-- Any chunking of the content has the check sum of the whole. -/
theorem crc32Update_flatten (crc : BitVec 32) (chunks : List (List Byte)) :
    chunks.foldl crc32Update crc = crc32Update crc chunks.flatten := by
  unfold crc32Update
  rw [List.foldl_flatten]

theorem measure_eq {chunks : List (List Byte)} {total total' : Nat} {crc crc' : BitVec 32}
    (small : total ≤ UINT32_MAX) (measured : measure chunks total crc = some (total', crc')) :
    total' = total + chunks.flatten.length ∧ crc' = crc32Update crc chunks.flatten ∧
      total' ≤ UINT32_MAX := by
  induction chunks generalizing total crc with
  | nil =>
      cases measured
      exact ⟨rfl, rfl, small⟩
  | cons chunk chunks ih =>
      rw [measure] at measured
      split at measured
      · cases measured
      · rename_i fits
        obtain ⟨size, check, most⟩ := ih (by omega) measured
        refine ⟨?_, ?_, most⟩
        · rw [size, List.flatten_cons, List.length_append, Nat.add_assoc]
        · rw [check, ← crc32Update_flatten, ← crc32Update_flatten, List.foldl_cons]

theorem flatten_readChunks {buffer_size fuel : Nat} {content : List Byte} (pos : 0 < buffer_size)
    (enough : content.length ≤ fuel) :
    (readChunks buffer_size fuel content).flatten = content := by
  induction fuel generalizing content with
  | zero =>
      have empty : content = [] := List.length_eq_zero_iff.mp (by omega)
      rw [empty]
      rfl
  | succ fuel ih =>
      rw [readChunks]
      split
      · rename_i empty
        rw [List.isEmpty_iff.mp empty]
        rfl
      · rw [List.flatten_cons, ih (by rw [List.length_drop]; omega), List.take_append_drop]

/-! ## Writes -/

/-- The writer has written `data`, as far as its stream is good. -/
structure Wrote (w w' : StoredZipWriter) (data : List Byte) : Prop where
  entries : w'.m_entries = w.m_entries
  error : w'.m_error = w.m_error
  finished : w'.m_finished = w.m_finished
  good : w'.m_stream.good = true →
    w.m_stream.good = true ∧ w'.m_stream.bytes = w.m_stream.bytes ++ data

theorem Wrote.trans {w₁ w₂ w₃ : StoredZipWriter} {front back : List Byte}
    (first : Wrote w₁ w₂ front) (second : Wrote w₂ w₃ back) : Wrote w₁ w₃ (front ++ back) where
  entries := second.entries.trans first.entries
  error := second.error.trans first.error
  finished := second.finished.trans first.finished
  good now := by
    obtain ⟨then_good, bytes₂⟩ := second.good now
    obtain ⟨start_good, bytes₁⟩ := first.good then_good
    exact ⟨start_good, by rw [bytes₂, bytes₁, List.append_assoc]⟩

theorem good_write {s : OutStream} {data : List Byte} (now : (s.write data).good = true) :
    s.good = true ∧ (s.write data).bytes = s.bytes ++ data := by
  unfold OutStream.write at now ⊢
  split at now
  · rename_i possible
    rw [if_pos possible]
    simp only [Bool.and_eq_true] at possible
    exact ⟨possible.1.2, rfl⟩
  · cases now

theorem good_flush {s : OutStream} (now : s.flush.good = true) :
    s.good = true ∧ s.flush.bytes = s.bytes := by
  obtain ⟨good, bytes⟩ := good_write now
  exact ⟨good, bytes.trans (List.append_nil _)⟩

theorem wrote_writeBytes (data : List Byte) (w : StoredZipWriter) :
    Wrote w (w.writeBytes data).2 data := by
  unfold writeBytes
  split
  · rename_i empty
    rw [List.isEmpty_iff.mp empty]
    exact ⟨rfl, rfl, rfl, fun good => ⟨good, (List.append_nil _).symm⟩⟩
  · exact ⟨rfl, rfl, rfl, good_write⟩

theorem good_of_writeBytes {data : List Byte} {w w' : StoredZipWriter}
    (written : w.writeBytes data = (true, w')) (good : data = [] → w.m_stream.good = true) :
    w'.m_stream.good = true := by
  unfold writeBytes at written
  split at written
  · rename_i empty
    cases written
    exact good (List.isEmpty_iff.mp empty)
  · simp only [Prod.mk.injEq] at written
    rw [← written.2]
    exact written.1

/-- A byte of a word, as the writer masks it out. -/
theorem masked_byte {n : Nat} (value : BitVec n) (at_least : 8 ≤ n) :
    (value &&& BitVec.ofNat n 0xff).setWidth 8 = value.setWidth 8 := by
  have pow : (2 : Nat) ^ 8 ≤ 2 ^ n := Nat.pow_le_pow_right (by decide) at_least
  apply BitVec.eq_of_toNat_eq
  rw [BitVec.toNat_setWidth, BitVec.toNat_and, BitVec.toNat_ofNat, BitVec.toNat_setWidth,
    Nat.mod_eq_of_lt (show 0xff < 2 ^ n by omega), Nat.and_two_pow_sub_one_eq_mod _ 8,
    Nat.mod_mod]

theorem extractLsb'_byte {n : Nat} (value : BitVec n) (start : Nat) :
    value.extractLsb' start 8 = (value >>> start).setWidth 8 := by
  apply BitVec.eq_of_toNat_eq
  simp

theorem le16_encode (value : BitVec 16) : Codec.le16.encode value =
    [(value &&& 0xff#16).setWidth 8, (value >>> 8 &&& 0xff#16).setWidth 8] := by
  rw [masked_byte value (by decide), masked_byte (value >>> 8) (by decide)]
  change [value.extractLsb' 0 8, value.extractLsb' 8 8] = _
  rw [extractLsb'_byte, extractLsb'_byte, BitVec.ushiftRight_zero]

theorem le32_encode (value : BitVec 32) : Codec.le32.encode value =
    [(value &&& 0xff#32).setWidth 8, (value >>> 8 &&& 0xff#32).setWidth 8,
      (value >>> 16 &&& 0xff#32).setWidth 8, (value >>> 24 &&& 0xff#32).setWidth 8] := by
  have nested (start base : Nat) (inside : start + 8 ≤ 16) :
      (value.extractLsb' base 16).extractLsb' start 8 = (value >>> (base + start)).setWidth 8 := by
    apply BitVec.eq_of_getLsbD_eq
    intro i lt
    have within : start + i < 16 := by omega
    simp [lt, within, Nat.add_assoc]
  rw [masked_byte value (by decide), masked_byte (value >>> 8) (by decide),
    masked_byte (value >>> 16) (by decide), masked_byte (value >>> 24) (by decide)]
  change [(value.extractLsb' 0 16).extractLsb' 0 8, (value.extractLsb' 0 16).extractLsb' 8 8,
    (value.extractLsb' 16 16).extractLsb' 0 8, (value.extractLsb' 16 16).extractLsb' 8 8] = _
  rw [nested 0 _ (by decide), nested 8 _ (by decide), nested 0 _ (by decide),
    nested 8 _ (by decide), BitVec.ushiftRight_zero]

theorem wrote_writeU16 (value : BitVec 16) (w : StoredZipWriter) :
    Wrote w (w.writeU16 value) (Codec.le16.encode value) := by
  rw [le16_encode]
  exact wrote_writeBytes _ w

theorem wrote_writeU32 (value : BitVec 32) (w : StoredZipWriter) :
    Wrote w (w.writeU32 value) (Codec.le32.encode value) := by
  rw [le32_encode]
  exact wrote_writeBytes _ w

theorem text_ne_nil {what tail : String} (some_tail : tail ≠ "") : text (what ++ tail) ≠ [] := by
  simp [text, some_tail]

theorem tell32_spec {what : String} {w w' : StoredZipWriter} {offset : BitVec 32}
    (told : w.tell32 what = (offset, w')) (fine : ¬ w'.m_error.isEmpty = false) :
    w' = w ∧ w.m_stream.good = true ∧ w.m_stream.bytes.length < 2 ^ 32 ∧
      offset = BitVec.ofNat 32 w.m_stream.bytes.length := by
  have failed (message : List Byte) (some_message : message ≠ []) :
      (w.fail message).2.m_error.isEmpty = false := by
    unfold fail
    dsimp only
    split
    · simpa using some_message
    · simp_all
  have limit := @text_ne_nil what " exceeds classic ZIP limits" (by decide)
  unfold tell32 at told
  split at told
  · cases told
    exact absurd (failed _ limit) fine
  · rename_i pos position
    split at told
    · cases told
      exact absurd (failed _ limit) fine
    · cases told
      unfold OutStream.tellp at position
      split at position
      · rename_i possible
        cases position
        simp only [Bool.and_eq_true] at possible
        unfold UINT32_MAX at *
        exact ⟨rfl, possible.2, by omega, rfl⟩
      · cases position

theorem writeLocalHeader_spec {name : List Byte} {crc size : BitVec 32} {w w' : StoredZipWriter}
    (named : name ≠ []) (written : w.writeLocalHeader name crc size = (true, w')) :
    name.length < 2 ^ 16 ∧ w.m_stream.bytes.length < 2 ^ 32 ∧ w'.m_stream.good = true ∧
      w.m_stream.good = true ∧
      w'.m_stream.bytes = w.m_stream.bytes ++ (LocalHeader.codec.encode
        { signature := 0x04034b50, version := 20, flags := 0x0800, method := 0, time := 0
          date := 0, crc, compressed_size := size, uncompressed_size := size
          name_length := BitVec.ofNat 16 name.length, extra_length := 0 } ++ name) ∧
      w'.m_entries = w.m_entries ++
        [⟨name, crc, size, BitVec.ofNat 32 w.m_stream.bytes.length⟩] ∧
      w'.m_finished = w.m_finished := by
  unfold writeLocalHeader at written
  split at written
  · cases written
  · rename_i short
    rcases told : w.tell32 "ZIP local header offset" with ⟨offset, w₁⟩
    simp only [told] at written
    split at written
    · cases written
    · rename_i fine
      obtain ⟨rfl, good, small, at_end⟩ := tell32_spec told fine
      split at written
      · cases written
      · rename_i all
        simp only [Prod.mk.injEq, true_and] at written
        subst written
        have chain := (wrote_writeU32 0x04034b50 w₁).trans <| (wrote_writeU16 20 _).trans <|
          (wrote_writeU16 0x0800 _).trans <| (wrote_writeU16 0 _).trans <|
          (wrote_writeU16 0 _).trans <| (wrote_writeU16 0 _).trans <|
          (wrote_writeU32 crc _).trans <| (wrote_writeU32 size _).trans <|
          (wrote_writeU32 size _).trans <| (wrote_writeU16 (BitVec.ofNat 16 name.length) _).trans <|
          (wrote_writeU16 0 _).trans <| wrote_writeBytes name _
        have good_after := good_of_writeBytes (Prod.ext (by simpa using all) rfl)
          fun empty => absurd empty named
        have bytes := (chain.good good_after).2
        refine ⟨by unfold UINT16_MAX at short; omega, small, good_after, good, ?_, ?_,
          chain.finished⟩
        · rw [← List.append_assoc, LocalHeader.codec]
          simpa only [Codec.map, Codec.pair, List.append_assoc] using bytes
        · dsimp only
          rw [chain.entries, at_end]

theorem writeChunks_spec {name : List Byte} {chunks : List (List Byte)}
    {w w' : StoredZipWriter} (written : writeChunks name chunks w = (true, w'))
    (good : w.m_stream.good = true) : Wrote w w' chunks.flatten ∧ w'.m_stream.good = true := by
  induction chunks generalizing w with
  | nil =>
      cases written
      exact ⟨⟨rfl, rfl, rfl, fun good => ⟨good, (List.append_nil _).symm⟩⟩, good⟩
  | cons chunk chunks ih =>
      rcases first : w.writeBytes chunk with ⟨ok, w₁⟩
      have wrote := wrote_writeBytes chunk w
      rw [first] at wrote
      rw [writeChunks, first] at written
      cases ok with
      | false => cases written
      | true =>
          obtain ⟨rest, end_good⟩ := ih written (good_of_writeBytes first fun _ => good)
          exact ⟨wrote.trans rest, end_good⟩

/-! ## Calls -/

def Call.item (call : Call) : Item := ⟨normalizeName call.name, call.content⟩

def Entry.of (p : Nat × Item) : Entry :=
  ⟨p.2.name, Zip.crc32 p.2.content, BitVec.ofNat 32 p.2.content.length, BitVec.ofNat 32 p.1⟩

/-- The writer has written these items and noted an entry for each of them. -/
structure Inv (items : List Item) (w : StoredZipWriter) : Prop where
  bytes : w.m_stream.good = true → w.m_stream.bytes = itemsBytes items
  entries : w.m_entries = (placed 0 items).map Entry.of
  fits : ∀ item ∈ items, item.Fits
  unfinished : w.m_finished = false

theorem placed_concat (offset : Nat) (items : List Item) (item : Item) :
    placed offset (items ++ [item]) =
      placed offset items ++ [(offset + (itemsBytes items).length, item)] := by
  induction items generalizing offset with
  | nil => simp [placed, itemsBytes]
  | cons first items ih =>
      simp [placed, itemsBytes, ih, Nat.add_assoc]

/-- A local header and the bytes after it add an item. -/
theorem Inv.add {items : List Item} {w w₁ w₂ : StoredZipWriter} {i : Item}
    (inv : Inv items w) (named : i.name ≠ []) (size : i.content.length < 2 ^ 32)
    (headed : w.writeLocalHeader i.name (Zip.crc32 i.content)
      (BitVec.ofNat 32 i.content.length) = (true, w₁))
    (wrote : Wrote w₁ w₂ i.content) : Inv (items ++ [i]) w₂ := by
  obtain ⟨short, small, -, good, bytes, entries, unfinished⟩ := writeLocalHeader_spec named headed
  refine ⟨fun good₂ => ?_, ?_, fun j mem => ?_, ?_⟩
  · rw [(wrote.good good₂).2, bytes, inv.bytes good]
    simp [itemsBytes, Item.bytes, Item.header]
  · rw [wrote.entries, entries, inv.entries, placed_concat, List.map_append, inv.bytes good]
    simp [Entry.of]
  · rcases List.mem_append.mp mem with old | new
    · exact inv.fits j old
    · rw [List.mem_singleton.mp new]
      exact ⟨short, size⟩
  · rw [wrote.finished, unfinished, inv.unfinished]

theorem Inv.addBuffer {items : List Item} {w w' : StoredZipWriter} {name data : List Byte}
    (inv : Inv items w) (added : w.addBuffer name data = (true, w')) :
    Inv (items ++ [⟨normalizeName name, data⟩]) w' := by
  unfold StoredZipWriter.addBuffer at added
  dsimp only at added
  split at added
  · cases added
  · rename_i named
    split at added
    · cases added
    · rename_i fits
      rcases headed : w.writeLocalHeader (normalizeName name) (StoredZipWriter.crc32 data)
        (BitVec.ofNat 32 data.length) with ⟨_ | _, w₁⟩
      · simp [headed] at added
      · simp only [headed, Bool.true_eq_false, if_false] at added
        split at added
        · cases added
        · simp only [Prod.mk.injEq, true_and] at added
          subst added
          rw [crc32_eq] at headed
          refine inv.add (i := ⟨normalizeName name, data⟩) ?_ ?_ headed (wrote_writeBytes data w₁)
          · simpa using named
          · unfold UINT32_MAX at fits
            dsimp only
            omega

theorem Inv.addFile {items : List Item} {w w' : StoredZipWriter} {path name : List Byte}
    {file : DiskFile} (inv : Inv items w) (added : w.addFile path file name = (true, w')) :
    Inv (items ++ [⟨normalizeName name, file.content⟩]) w' := by
  unfold StoredZipWriter.addFile at added
  dsimp only at added
  split at added
  · cases added
  · rename_i named
    split at added
    · cases added
    · split at added
      · cases added
      · rename_i total crc_state measured
        split at added
        · cases added
        · rename_i whole
          have all : file.read_fails = none := by simpa using whole
          have content : (file.reads none).flatten = file.content :=
            flatten_readChunks (by decide) (Nat.le_refl _)
          rw [all] at measured
          obtain ⟨size, check, most⟩ := measure_eq (Nat.zero_le _) measured
          rw [content, Nat.zero_add] at size
          rw [content] at check
          have crc : crc_state ^^^ 0xffffffff#32 = Zip.crc32 file.content := by
            rw [check, ← crc32_eq]
            rfl
          rw [crc, size] at added
          rcases headed : w.writeLocalHeader (normalizeName name) (Zip.crc32 file.content)
            (BitVec.ofNat 32 file.content.length) with ⟨_ | _, w₁⟩
          · simp [headed] at added
          · simp only [headed, Bool.true_eq_false, if_false] at added
            split at added
            · cases added
            · rcases written : writeChunks (normalizeName name) (file.reads file.reread_fails) w₁
                with ⟨_ | _, w₂⟩
              · simp [written] at added
              · simp only [written, Bool.true_eq_false, if_false] at added
                split at added
                · cases added
                · rename_i reread
                  have all : file.reread_fails = none := by simpa using reread
                  cases added
                  have good := (writeLocalHeader_spec (by simpa using named) headed).2.2.1
                  rw [all] at written
                  have wrote := (writeChunks_spec written good).1
                  rw [content] at wrote
                  refine inv.add (i := ⟨normalizeName name, file.content⟩) (by simpa using named)
                    ?_ headed wrote
                  unfold UINT32_MAX at most
                  dsimp only
                  omega

theorem Inv.performAll {items : List Item} {calls : List Call} {w w' : StoredZipWriter}
    (inv : Inv items w) (performed : performAll calls w = some w') :
    Inv (items ++ calls.map Call.item) w' := by
  induction calls generalizing items w with
  | nil =>
      cases performed
      simpa using inv
  | cons call calls ih =>
      rw [StoredZipWriter.performAll] at performed
      split at performed
      · rename_i w₁ added
        have first : Inv (items ++ [call.item]) w₁ := by
          cases call with
          | addBuffer name data => exact inv.addBuffer added
          | addFile path file name => exact inv.addFile added
        simpa using ih first performed
      · cases performed

/-! ## The end -/

theorem writeCentralHeader_spec (p : Nat × Item) (w : StoredZipWriter) :
    Wrote w (w.writeCentralHeader (Entry.of p)).2 (centralBytes p) := by
  have chain := (wrote_writeU32 0x02014b50#32 w).trans <| (wrote_writeU16 20 _).trans <|
    (wrote_writeU16 20 _).trans <| (wrote_writeU16 0x0800 _).trans <| (wrote_writeU16 0 _).trans <|
    (wrote_writeU16 0 _).trans <| (wrote_writeU16 0 _).trans <|
    (wrote_writeU32 (Entry.of p).crc _).trans <| (wrote_writeU32 (Entry.of p).size _).trans <|
    (wrote_writeU32 (Entry.of p).size _).trans <|
    (wrote_writeU16 (BitVec.ofNat 16 (Entry.of p).name.length) _).trans <|
    (wrote_writeU16 0 _).trans <| (wrote_writeU16 0 _).trans <| (wrote_writeU16 0 _).trans <|
    (wrote_writeU16 0 _).trans <| (wrote_writeU32 0 _).trans <|
    (wrote_writeU32 (Entry.of p).local_offset _).trans <| wrote_writeBytes (Entry.of p).name _
  rw [centralBytes, CentralHeader.codec]
  simp only [Codec.map, Codec.pair, List.append_assoc]
  exact chain

theorem writeCentralDirectory_spec {entries : List (Nat × Item)} {w w' : StoredZipWriter}
    (written : writeCentralDirectory (entries.map Entry.of) w = (true, w')) :
    Wrote w w' (entries.flatMap centralBytes) := by
  induction entries generalizing w with
  | nil =>
      cases written
      exact ⟨rfl, rfl, rfl, fun good => ⟨good, (List.append_nil _).symm⟩⟩
  | cons p entries ih =>
      have first := writeCentralHeader_spec p w
      rw [List.map_cons, writeCentralDirectory] at written
      dsimp only at written
      split at written
      · cases written
      · exact first.trans (ih written)

theorem writeEndRecord_spec (count : BitVec 16) (central_size central_offset : BitVec 32)
    (w : StoredZipWriter) :
    Wrote w ((((((((w.writeU32 0x06054b50).writeU16 0).writeU16 0).writeU16 count).writeU16
        count).writeU32 central_size).writeU32 central_offset).writeU16 0)
      (EndRecord.codec.encode
        { signature := 0x06054b50, disk := 0, central_disk := 0, disk_entries := count
          entries := count, central_size, central_offset, comment_length := 0 }) := by
  have chain := (wrote_writeU32 0x06054b50#32 w).trans <| (wrote_writeU16 0 _).trans <|
    (wrote_writeU16 0 _).trans <| (wrote_writeU16 count _).trans <|
    (wrote_writeU16 count _).trans <| (wrote_writeU32 central_size _).trans <|
    (wrote_writeU32 central_offset _).trans <| wrote_writeU16 0 _
  rw [EndRecord.codec]
  simp only [Codec.map, Codec.pair]
  exact chain

theorem finish_spec {items : List Item} {w w' : StoredZipWriter} (inv : Inv items w)
    (finished : w.finish = (true, w')) :
    w'.m_stream.bytes = archiveBytes items ∧ items.length < 2 ^ 16 ∧
      (itemsBytes items).length < 2 ^ 32 := by
  unfold finish at finished
  rw [if_neg (by simp [inv.unfinished])] at finished
  split at finished
  · cases finished
  · split at finished
    · cases finished
    · rename_i few
      rcases told : w.tell32 "ZIP central directory offset" with ⟨central_offset, w₁⟩
      simp only [told] at finished
      split at finished
      · cases finished
      · rename_i fine
        obtain ⟨rfl, good, small, offset⟩ := tell32_spec told fine
        rcases directory : writeCentralDirectory w₁.m_entries w₁ with ⟨_ | _, w₂⟩
        · simp [directory] at finished
        · simp only [directory, Bool.true_eq_false, if_false] at finished
          rcases told : w₂.tell32 "ZIP central directory end" with ⟨central_end, w₃⟩
          simp only [told] at finished
          split at finished
          · cases finished
          · rename_i fine
            obtain ⟨rfl, good₂, small₂, at_end⟩ := tell32_spec told fine
            split at finished
            · cases finished
            · rename_i flushed
              cases finished
              rw [inv.entries] at directory
              have central := writeCentralDirectory_spec directory
              have tail := writeEndRecord_spec (BitVec.ofNat 16 w₃.m_entries.length)
                (central_end - central_offset) central_offset w₃
              obtain ⟨last_good, flushed_bytes⟩ := good_flush (by simpa using flushed)
              have end_bytes := (tail.good last_good).2
              have central_bytes := (central.good good₂).2
              have items_bytes := inv.bytes good
              have count : w₃.m_entries.length = items.length := by
                rw [central.entries, inv.entries, List.length_map, length_placed]
              have size : central_end - central_offset =
                  BitVec.ofNat 32 ((placed 0 items).flatMap centralBytes).length := by
                rw [at_end, offset, central_bytes, List.length_append]
                apply BitVec.eq_of_toNat_eq
                simp only [BitVec.toNat_sub, BitVec.toNat_ofNat]
                omega
              refine ⟨?_, ?_, ?_⟩
              · refine flushed_bytes.trans (end_bytes.trans ?_)
                rw [central_bytes, items_bytes, size, count, offset, items_bytes]
                rfl
              · rw [inv.entries, List.length_map, length_placed] at few
                unfold UINT16_MAX at few
                omega
              · rw [← items_bytes]
                exact small

/-- An archive whose calls and `finish` all return true is read back as the names, normalized,
and the contents of the calls in their order; and the check sum does not depend on how a content
is divided into reads. -/
theorem read_finish {opens : Bool} {fails : Nat → Bool} {calls : List Call}
    {w w' : StoredZipWriter} (performed : performAll calls (create opens fails) = some w)
    (finished : w.finish = (true, w')) :
    Zip.read w'.m_stream.bytes =
        some (calls.map fun call => (normalizeName call.name, call.content)) ∧
      ∀ chunks : List (List Byte), chunks.foldl crc32Update 0xffffffff#32 ^^^ 0xffffffff#32 =
        StoredZipWriter.crc32 chunks.flatten := by
  have start : Inv [] (create opens fails) :=
    ⟨fun _ => rfl, rfl, fun _ mem => absurd mem List.not_mem_nil, rfl⟩
  have inv := start.performAll performed
  obtain ⟨bytes, few, small⟩ := finish_spec inv finished
  refine ⟨?_, fun chunks => ?_⟩
  · rw [bytes, read_archiveBytes _ inv.fits few small, List.nil_append, List.map_map]
    rfl
  · rw [crc32Update_flatten, StoredZipWriter.crc32]

/-- A buffer and a file, with a name of each kind that is normalized. -/
def twoEntries : List Call :=
  [.addBuffer (text "/a") [7#8], .addFile (text "p") { content := [] } (text "b\\c")]

theorem read_finish_twoEntries : ∃ w w',
    performAll twoEntries (create true fun _ => false) = some w ∧ w.finish = (true, w') ∧
      Zip.read w'.m_stream.bytes = some [(text "a", [7#8]), (text "b/c", [])] := by
  have sound : (performAll twoEntries (create true fun _ => false)).any (·.finish.1) = true := by
    decide +kernel
  rw [Option.any_eq_true] at sound
  obtain ⟨w, performed, ended⟩ := sound
  have finished : w.finish = (true, w.finish.2) := Prod.ext ended rfl
  have items := (read_finish performed finished).1
  have names : (twoEntries.map fun call => (normalizeName call.name, call.content)) =
      [(text "a", [7#8]), (text "b/c", [])] := by decide +kernel
  exact ⟨w, w.finish.2, performed, finished, items.trans (congrArg some names)⟩

end Phocoena.Horizon.StoredZipWriter
