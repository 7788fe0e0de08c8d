import Phocoena.Common.LinearDiskCache

/-! # The cache after sessions that stopped early

The next session writes over what a torn entry has left, and a shorter entry leaves the end of it
in the file. Those bytes are read as a further entry if they happen to be one with the next number.
-/

namespace Phocoena.LinearDiskCache

variable {l : Layout}

/-! ## Entries one after the other -/

/-- The number of the last of some entries, of which the first follows the number `n`. -/
def lastNumber (n : BitVec 32) (entries : List (Entry l)) : BitVec 32 :=
  n + BitVec.ofNat 32 entries.length

theorem lastNumber_cons (n : BitVec 32) (entry : Entry l) (entries : List (Entry l)) :
    lastNumber n (entry :: entries) = lastNumber (n + 1) entries := by
  apply BitVec.eq_of_toNat_eq
  simp only [lastNumber, List.length_cons, BitVec.toNat_add, BitVec.toNat_ofNat]
  change _ = ((n.toNat + 1) % 2 ^ 32 + _) % 2 ^ 32
  omega

def encodeAll (n : BitVec 32) : List (Entry l) → List Byte
  | [] => []
  | entry :: entries => entry.encode (n + 1) ++ encodeAll (n + 1) entries

theorem encodeAll_append (n : BitVec 32) (entries more : List (Entry l)) :
    encodeAll n (entries ++ more)
      = encodeAll n entries ++ encodeAll (lastNumber n entries) more := by
  induction entries generalizing n with
  | nil => simp [encodeAll, lastNumber]
  | cons entry entries ih =>
      rw [List.cons_append, encodeAll, encodeAll, ih, lastNumber_cons, List.append_assoc]

theorem Entry.encode_ne_nil (entry : Entry l) (n : BitVec 32) : entry.encode n ≠ [] := by
  intro empty
  have length := entry.length_encode n
  rw [empty, List.length_nil] at length
  omega

/-- The loop reads the entries that are there, and goes on behind them. -/
theorem readEntries_encodeAll {file rest : List Byte} {tell : Nat} {n : BitVec 32}
    {entries : List (Entry l)} (here : file.drop tell = encodeAll n entries ++ rest) :
    readEntries l file tell n =
      let later := readEntries l file (tell + (encodeAll n entries).length) (lastNumber n entries)
      { later with entries := entries ++ later.entries } := by
  induction entries generalizing tell n with
  | nil => simp [encodeAll, lastNumber]
  | cons entry entries ih =>
      rw [encodeAll, List.append_assoc] at here
      have reads := readEntry_eq_some_iff.mpr ⟨⟨_, here⟩, rfl⟩
      rw [readEntries_some reads, ih (drop_of_drop here), lastNumber_cons, encodeAll,
        List.length_append, Nat.add_assoc]
      rfl

/-- As many of the entries as the bytes begin with. -/
def complete (n : BitVec 32) (bytes : List Byte) : List (Entry l) → List (Entry l)
  | [] => []
  | entry :: entries =>
      if entry.encode (n + 1) <+: bytes then
        entry :: complete (n + 1) (bytes.drop (entry.encode (n + 1)).length) entries
      else []

theorem encodeAll_complete (n : BitVec 32) (bytes : List Byte) (entries : List (Entry l)) :
    encodeAll n (complete n bytes entries) <+: bytes := by
  induction entries generalizing n bytes with
  | nil => exact List.nil_prefix
  | cons entry entries ih =>
      rw [complete]
      split
      · next first =>
          obtain ⟨more, rfl⟩ := first
          rw [List.drop_left, encodeAll]
          exact (List.prefix_append_right_inj _).mpr (ih _ _)
      · exact List.nil_prefix

/-- No further entry is there. -/
theorem prefix_complete {n : BitVec 32} {bytes : List Byte} {entries all : List (Entry l)}
    (first : entries <+: all) (here : encodeAll n entries <+: bytes) :
    entries <+: complete n bytes all := by
  obtain ⟨later, rfl⟩ := first
  induction entries generalizing n bytes with
  | nil => exact List.nil_prefix
  | cons entry entries ih =>
      rw [encodeAll] at here
      obtain ⟨more, rfl⟩ := here
      rw [List.append_assoc, List.cons_append, complete, if_pos (List.prefix_append _ _),
        List.drop_left]
      exact List.cons_prefix_cons.mpr ⟨rfl, ih (List.prefix_append _ _)⟩

/-! ## Opening -/

/-- What is on the disk when the stored entries are. -/
def image (stored : List (Entry l)) : List Byte := header l ++ encodeAll 0 stored

theorem read_header_iff (file : List Byte) :
    (readArray file 0 (header l).length).map (·.1) = some (header l) ↔ header l <+: file := by
  constructor
  · intro read
    obtain ⟨bytes, read, same⟩ := Option.map_eq_some_iff.mp read
    obtain ⟨more, whole⟩ := readArray_eq_some read List.drop_zero
    exact ⟨more, by rw [whole, same]⟩
  · rintro ⟨more, rfl⟩
    rw [readArray_append (List.drop_zero) (Nat.zero_le _) rfl]
    rfl

theorem openAndRead_anew {disk : Option (List Byte)}
    (bad : ∀ file, disk = some file → ¬ header l <+: file) :
    openAndRead l disk = (⟨[], 0, header l, 0⟩, []) := by
  cases disk with
  | none => rfl
  | some file =>
      rw [openAndRead, if_neg]
      rw [read_header_iff]
      exact bad file rfl

/-- A file with a good header: the stored entries are read, and whatever is behind them. -/
theorem openAndRead_image (stored : List (Entry l)) (rest : List Byte) :
    openAndRead l (some (image stored ++ rest)) =
      (⟨image stored ++ rest,
        (readEntries l (image stored ++ rest) (image stored).length
          (lastNumber 0 stored)).last_valid_value_start, [],
        (readEntries l (image stored ++ rest) (image stored).length
          (lastNumber 0 stored)).m_num_entries⟩,
      stored ++ (readEntries l (image stored ++ rest) (image stored).length
          (lastNumber 0 stored)).entries) := by
  have good : header l <+: image stored ++ rest := by
    rw [image, List.append_assoc]
    exact List.prefix_append _ _
  have here : (image stored ++ rest).drop (header l).length = encodeAll 0 stored ++ rest := by
    rw [image, List.append_assoc, List.drop_left]
  rw [openAndRead, if_pos ((read_header_iff _).mpr good), readEntries_encodeAll here,
    ← List.length_append]
  rfl

/-! ## Sessions -/

theorem foldl_append (c : Cache) (entries : List (Entry l)) :
    entries.foldl Cache.append c =
      { c with
        written := c.written ++ encodeAll c.m_num_entries entries
        m_num_entries := lastNumber c.m_num_entries entries } := by
  induction entries generalizing c with
  | nil => simp [encodeAll, lastNumber]
  | cons entry entries ih =>
      rw [List.foldl_cons, ih, lastNumber_cons, encodeAll, ← List.append_assoc]
      rfl

/-- The entries of a session that are completely stored when it has ended: those of which all the
bytes are in the file, one behind the other from the end of the stored entries on. -/
def Session.completed (s : Session l) (disk : Option (List Byte)) (stored : List (Entry l)) :
    List (Entry l) :=
  complete (lastNumber 0 stored) ((s.run disk).drop (image stored).length) s.appended

/-- What an open promises: the reader is given the entries that are stored, the file is written
behind them, and the appended entries of which every byte is kept will be stored. -/
structure Recovers (disk : Option (List Byte)) (stored : List (Entry l)) : Prop where
  reported : (openAndRead l disk).2 = stored
  number : (openAndRead l disk).1.m_num_entries = lastNumber 0 stored
  position : (openAndRead l disk).1.tell = (image stored).length
  completes : ∀ (s : Session l) (entries : List (Entry l)), entries <+: s.appended →
    (openAndRead l disk).1.written.length + (encodeAll (lastNumber 0 stored) entries).length
      ≤ s.kept → entries <+: s.completed disk stored

/-- The bytes behind the stored entries begin with those of an entry of the next number. -/
def Continued (disk : Option (List Byte)) (stored : List (Entry l)) : Prop :=
  ∃ (entry : Entry l) (more : List Byte),
    disk = some (image stored ++ (entry.encode (lastNumber 0 stored + 1) ++ more))

/-- A property of the disk and of the entries completely stored on it, whenever the cache is opened
in a run of sessions, and when it is opened after them. -/
def EveryOpen (P : Option (List Byte) → List (Entry l) → Prop) (disk : Option (List Byte))
    (stored : List (Entry l)) : List (Session l) → Prop
  | [] => P disk stored
  | s :: later => P disk stored ∧
      EveryOpen P (some (s.run disk)) (stored ++ s.completed disk stored) later

/-- The disk holds a file that will be made anew, or the stored entries. -/
inductive Consistent : Option (List Byte) → List (Entry l) → Prop where
  | anew {disk : Option (List Byte)} :
    (∀ file, disk = some file → ¬ header l <+: file) → Consistent disk []
  | image (stored : List (Entry l)) (rest : List Byte) :
    Consistent (some (image stored ++ rest)) stored

theorem Consistent.append (stored : List (Entry l)) (rest : List Byte) (appended : List (Entry l)) :
    Consistent (some (LinearDiskCache.image stored ++ rest))
      (stored ++ complete (lastNumber 0 stored) rest appended) := by
  obtain ⟨more, same⟩ := encodeAll_complete (lastNumber 0 stored) rest appended
  rw [← same]
  have whole := Consistent.image (stored ++ complete (lastNumber 0 stored) rest appended) more
  rw [LinearDiskCache.image, encodeAll_append, ← List.append_assoc] at whole
  rw [LinearDiskCache.image, ← List.append_assoc, same]
  exact whole

theorem Session.run_eq (s : Session l) (disk : Option (List Byte)) {c : Cache}
    {read : List (Entry l)} (opened : openAndRead l disk = (c, read)) : s.run disk =
      overwrite c.base c.start ((c.written ++ encodeAll c.m_num_entries s.appended).take s.kept) := by
  rw [run, opened, foldl_append]
  rfl

/-- If nothing continues the stored entries, they are what is read. -/
theorem openAndRead_stored {stored : List (Entry l)} {rest : List Byte}
    (fine : ¬ Continued (some (image stored ++ rest)) stored) :
    openAndRead l (some (image stored ++ rest)) =
      (⟨image stored ++ rest, (image stored).length, [], lastNumber 0 stored⟩, stored) := by
  have stops : readEntry l (image stored ++ rest) (image stored).length (lastNumber 0 stored)
      = none := by
    by_contra reads
    obtain ⟨⟨entry, next⟩, read⟩ := Option.ne_none_iff_exists'.mp reads
    obtain ⟨⟨more, bytes⟩, _⟩ := readEntry_eq_some_iff.mp read
    rw [List.drop_left] at bytes
    exact fine ⟨entry, more, by rw [bytes]⟩
  rw [openAndRead_image, readEntries_none stops, List.append_nil]

/-- If something does, it is read as well. -/
theorem openAndRead_continued {stored : List (Entry l)} {rest : List Byte}
    (continued : Continued (some (image stored ++ rest)) stored) :
    (openAndRead l (some (image stored ++ rest))).2 ≠ stored := by
  obtain ⟨entry, more, same⟩ := continued
  cases List.append_cancel_left (Option.some.inj same)
  have here := (@readEntry_eq_some_iff l (image stored ++ _) (image stored).length _
    (lastNumber 0 stored) entry).mpr ⟨⟨more, List.drop_left⟩, rfl⟩
  rw [openAndRead_image, readEntries_some here]
  intro eq
  have length := congrArg List.length eq
  rw [List.length_append, List.length_cons] at length
  omega

theorem Session.run_image (s : Session l) {stored : List (Entry l)} {rest : List Byte}
    (fine : ¬ Continued (some (image stored ++ rest)) stored) :
    ∃ more, s.run (some (image stored ++ rest))
      = image stored ++ ((encodeAll (lastNumber 0 stored) s.appended).take s.kept ++ more) := by
  rw [s.run_eq _ (openAndRead_stored fine), overwrite, List.take_left, List.append_assoc]
  exact ⟨_, rfl⟩

theorem Session.run_anew (s : Session l) {disk : Option (List Byte)}
    (bad : ∀ file, disk = some file → ¬ header l <+: file) :
    s.run disk = (header l ++ encodeAll 0 s.appended).take s.kept := by
  rw [s.run_eq _ (openAndRead_anew bad), overwrite]
  simp only [List.take_zero, List.nil_append, List.drop_nil, List.append_nil]

theorem image_nil : image ([] : List (Entry l)) = header l := List.append_nil _

/-- A session that writes behind the stored entries, or the header and entries behind it. -/
theorem Consistent.run {disk : Option (List Byte)} {stored : List (Entry l)}
    (consistent : Consistent disk stored) (fine : ¬ Continued disk stored) (s : Session l) :
    Consistent (some (s.run disk)) (stored ++ s.completed disk stored) := by
  cases consistent with
  | anew bad =>
      have written := s.run_anew bad
      rw [Session.completed, written, image_nil]
      by_cases whole : (header l).length ≤ s.kept
      · rw [List.take_append, List.take_of_length_le whole, List.drop_left]
        have consistent := Consistent.append (l := l) [] ((encodeAll 0 s.appended).take
          (s.kept - (header l).length)) s.appended
        rwa [image_nil] at consistent
      · have short : ((header l ++ encodeAll 0 s.appended).take s.kept).length
            < (header l).length := by
          rw [List.length_take]
          omega
        have none : complete (lastNumber 0 ([] : List (Entry l)))
            (((header l ++ encodeAll 0 s.appended).take s.kept).drop (header l).length)
            s.appended = [] := by
          rw [List.drop_eq_nil_of_le (Nat.le_of_lt short)]
          cases s.appended with
          | nil => rfl
          | cons entry entries =>
              rw [complete, if_neg]
              rw [List.prefix_nil]
              exact entry.encode_ne_nil _
        rw [none]
        refine .anew fun file same first => ?_
        cases same
        exact absurd first.length_le (Nat.not_le.mpr short)
  | image _ rest =>
      obtain ⟨more, written⟩ := s.run_image fine
      rw [Session.completed, written, List.drop_left]
      exact .append stored _ s.appended

theorem encodeAll_mono {n : BitVec 32} {entries all : List (Entry l)} (first : entries <+: all) :
    encodeAll n entries <+: encodeAll n all := by
  obtain ⟨more, rfl⟩ := first
  rw [encodeAll_append]
  exact List.prefix_append _ _

theorem Consistent.recovers_iff {disk : Option (List Byte)} {stored : List (Entry l)}
    (consistent : Consistent disk stored) : Recovers disk stored ↔ ¬ Continued disk stored := by
  cases consistent with
  | anew bad =>
      refine iff_of_true ?_ ?_
      · refine ⟨?_, ?_, ?_, fun s entries first inside => ?_⟩
        · rw [openAndRead_anew bad]
        · rw [openAndRead_anew bad]
          rfl
        · rw [openAndRead_anew bad, image_nil]
          exact Nat.zero_add _
        · rw [openAndRead_anew bad] at inside
          have whole : (header l).length ≤ s.kept := Nat.le_trans (Nat.le_add_right _ _) inside
          rw [Session.completed, s.run_anew bad, image_nil, List.take_append,
            List.take_of_length_le whole, List.drop_left]
          exact prefix_complete first
            (List.prefix_take_iff.mpr ⟨encodeAll_mono first, by simp only at inside; omega⟩)
      · rintro ⟨entry, more, same⟩
        rw [image_nil] at same
        exact bad _ same (List.prefix_append _ _)
  | image _ rest =>
      constructor
      · exact fun recovers continued => openAndRead_continued continued recovers.reported
      · intro fine
        refine ⟨?_, ?_, ?_, fun s entries first inside => ?_⟩
        · rw [openAndRead_stored fine]
        · rw [openAndRead_stored fine]
        · rw [openAndRead_stored fine]
          rfl
        · rw [openAndRead_stored fine] at inside
          obtain ⟨more, written⟩ := s.run_image fine
          rw [Session.completed, written, List.drop_left]
          have kept := List.prefix_take_iff.mpr
            ⟨encodeAll_mono first, (Nat.zero_add _).symm.trans_le inside⟩
          exact prefix_complete first (kept.trans (List.prefix_append _ _))

theorem everyOpen_recovers_iff {disk : Option (List Byte)} {stored : List (Entry l)}
    (consistent : Consistent disk stored) (run : List (Session l)) :
    EveryOpen Recovers disk stored run ↔
      EveryOpen (fun disk stored => ¬ Continued disk stored) disk stored run := by
  induction run generalizing disk stored with
  | nil => exact consistent.recovers_iff
  | cons s later ih =>
      rw [EveryOpen, EveryOpen, consistent.recovers_iff]
      exact and_congr_right fun fine => ih (consistent.run fine s)

/-- The cache survives exactly the runs in which what a session leaves behind the stored entries
never begins with an entry of the next number. -/
theorem survives_iff (run : List (Session l)) :
    EveryOpen Recovers none [] run ↔
      EveryOpen (fun disk stored => ¬ Continued disk stored) none [] run :=
  everyOpen_recovers_iff (.anew fun _ none => by cases none) run

/-! ## A torn entry under a shorter one -/

/-- `LinearDiskCache<u32, u8>` -/
def byteLayout : Layout := ⟨4, 1, Vector.replicate 40 0, by decide, by decide⟩

/-- Its value ends with the bytes of an empty entry of the number 2. -/
def tornEntry : Entry byteLayout :=
  ⟨16, [1, 0, 0, 0], [0, 0, 0, 0, 0, 0, 0, 0, 3, 0, 0, 0, 2, 0, 0, 0], rfl, rfl⟩

def shortEntry : Entry byteLayout := ⟨0, [2, 0, 0, 0], [], rfl, rfl⟩

/-- The first session loses its last byte. After the second the reader is given an entry that was
never appended. -/
theorem invents_entry :
    ¬ EveryOpen Recovers none [] [⟨[tornEntry], 48 + 27⟩, ⟨[shortEntry], 12⟩] := by
  intro survives
  have reported := survives.2.2.reported
  revert reported
  decide +kernel

end Phocoena.LinearDiskCache
