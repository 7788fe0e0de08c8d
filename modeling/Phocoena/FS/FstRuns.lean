import Phocoena.FS.HostFileSystem

/-! # The FST after a restart

Calls give every entry a name that fits, so that what `SaveFst` writes is what `LoadFst` reads, as
long as no entry lies too deep. What is read of other bytes is written again without the parts of
the entries that have no meaning.
-/

namespace Phocoena.FS

open StringUtil NandPaths

variable {H : Type}

/-! ## Paths -/

/-- A C string of which no component is longer than a file name. -/
structure IsPath (path : Bytes) : Prop where
  nonzero : 0 ∉ path
  short : ∀ part, part <:+: path → slash ∉ part → part.length ≤ MaxFilenameLength

theorem IsPath.name {path part : Bytes} (is_path : IsPath path) (inside : part <:+: path)
    (whole : slash ∉ part) : IsName part :=
  ⟨is_path.short part inside whole, fun zero => is_path.nonzero (inside.subset zero)⟩

theorem IsPath.mono {path part : Bytes} (is_path : IsPath path) (inside : part <:+: path) :
    IsPath part :=
  ⟨fun zero => is_path.nonzero (inside.subset zero),
    fun piece inner => is_path.short piece (inner.trans inside)⟩

theorem getlines_inside {line str : Bytes} (whole : slash ∉ line) :
    ∀ part ∈ getlines slash line str, part <:+: line ++ str ∧ slash ∉ part := by
  induction str generalizing line with
  | nil =>
      intro part member
      rw [getlines] at member
      split at member
      · cases member
      · cases List.mem_singleton.mp member
        exact ⟨(List.prefix_append _ _).isInfix, whole⟩
  | cons c str ih =>
      intro part member
      rw [getlines] at member
      split at member
      · next separator =>
          cases member with
          | head => exact ⟨(List.prefix_append _ _).isInfix, whole⟩
          | tail _ later =>
              obtain ⟨inside, free⟩ := ih List.not_mem_nil part later
              have suffix : str <:+ line ++ c :: str := ⟨line ++ [c], by simp⟩
              exact ⟨inside.trans suffix.isInfix, free⟩
      · next other =>
          have free : slash ∉ line ++ [c] := by
            intro found
            rcases List.mem_append.mp found with found | found
            · exact whole found
            · exact other (List.mem_singleton.mp found).symm
          have inner := ih free part member
          rwa [List.append_assoc] at inner

theorem IsPath.components {path : Bytes} (is_path : IsPath path) :
    ∀ component ∈ splitString (path.drop 1) slash, IsName component := by
  intro component member
  obtain ⟨inside, whole⟩ := getlines_inside List.not_mem_nil component member
  exact is_path.name (inside.trans (List.drop_suffix 1 path).isInfix) whole

theorem slash_notMem_file_name (path : Bytes) : slash ∉ (splitPathAndBasename path).2 := by
  have before : slash ∉ path.reverse.take (path.reverse.findIdx (· = slash)) := by
    intro member
    obtain ⟨i, less, eq⟩ := List.mem_take_iff_getElem.mp member
    have other := List.not_of_lt_findIdx (Nat.lt_of_lt_of_le less (Nat.min_le_left _ _))
    rw [eq, decide_eq_true rfl] at other
    cases other
  rw [List.take_reverse, List.mem_reverse] at before
  have bound := @List.findIdx_le_length _ (· = slash) path.reverse
  rw [List.length_reverse] at bound
  rw [splitPathAndBasename, lastSeparator]
  intro member
  by_cases found : path.reverse.findIdx (· = slash) < path.length
  · have same : path.length - 1 - path.reverse.findIdx (· = slash) + 1
        = path.length - path.reverse.findIdx (· = slash) := by
      omega
    rw [same] at member
    exact before member
  · rw [Nat.sub_eq_zero_of_le (Nat.le_of_not_lt found), List.drop_zero] at before
    exact before (List.mem_of_mem_drop member)

theorem IsPath.split {path : Bytes} (is_path : IsPath path) :
    IsPath (splitPathAndBasename path).1 ∧ IsName (splitPathAndBasename path).2 :=
  ⟨is_path.mono (List.take_prefix _ _).isInfix,
    is_path.name (List.drop_suffix _ _).isInfix (slash_notMem_file_name path)⟩

/-! ## Names in the tree -/

/-- Every entry has a name that fits. -/
def Named (t : FstEntry) : Prop := t.All fun node _ => IsName node.name

theorem findChild_some {children : List FstEntry} {name : Bytes} {child : FstEntry} {i : Nat}
    (found : findChild children name = some (child, i)) : children[i]? = some child := by
  have member := List.mem_of_find?_eq_some found
  exact List.mem_zipIdx_iff_getElem?.mp member

theorem named_descend {entry : FstEntry} {components : List Bytes} (named : Named entry)
    (names : ∀ c ∈ components, IsName c) : Named (descend entry components).1 := by
  induction components generalizing entry with
  | nil => exact named
  | cons component components ih =>
      have later : ∀ c ∈ components, IsName c := fun c member => names c (.tail _ member)
      rw [descend]
      split
      · next child i found =>
          have member := List.mem_of_getElem? (findChild_some found)
          refine .node (Tree.All.label named) fun c inside => ?_
          rcases List.mem_or_eq_of_mem_set inside with old | new
          · exact Tree.All.child named old
          · rw [new]
            exact ih (Tree.All.child named member) later
      · refine .node (Tree.All.label named) fun c inside => ?_
        rcases List.mem_append.mp inside with old | new
        · exact Tree.All.child named old
        · cases List.mem_singleton.mp new
          have fallback : Named (fallbackEntry component) :=
            .node (names component List.mem_cons_self) fun _ none => by cases none
          exact ih fallback later

theorem named_setIsFile {entry : FstEntry} (is_file : Bool) (named : Named entry) :
    Named (setIsFile is_file entry) := by
  refine .node (Tree.All.label named) fun c inside => ?_
  cases is_file with
  | true => cases inside
  | false => exact Tree.All.child named inside

theorem named_eraseChild {entry : FstEntry} (name : Bytes) (named : Named entry) :
    Named (eraseChild name entry) := by
  rw [eraseChild]
  split
  · next i found =>
      exact .node (Tree.All.label named)
        fun c inside => Tree.All.child named (List.mem_of_mem_eraseIdx inside)
  · exact named

theorem named_getFstEntryForPath (io : HostFunctions H) {fs : HostFileSystem H} {path : Bytes}
    (named : Named fs.m_root_entry) (is_path : IsPath path) :
    Named (getFstEntryForPath io fs path).1.m_root_entry := by
  rw [getFstEntryForPath]
  split
  · exact named
  split
  · exact named
  split
  · exact named
  · exact Tree.All.modifyAt (fun t => named_setIsFile _) (named_descend named is_path.components) _

/-! ## Calls -/

/-- Every entry of the new tree has a name that fits. -/
def KeepsNames (o : Outcome H) : Prop := ∀ r, o = some r → Named r.2.m_root_entry

theorem KeepsNames.returned {code : ResultCode} {fs : HostFileSystem H}
    (named : Named fs.m_root_entry) : KeepsNames (some (code, fs)) := by
  intro r same
  cases same
  exact named

theorem KeepsNames.branch {c : Prop} [Decidable c] {o o' : Outcome H} (yes : KeepsNames o)
    (no : KeepsNames o') : KeepsNames (if c then o else o') := by
  split
  · exact yes
  · exact no

theorem KeepsNames.undefined : KeepsNames (H := H) none := fun _ same => by cases same

theorem KeepsNames.through {α : Type} {o : Option α} {f : α → Outcome H}
    (each : ∀ a, o = some a → KeepsNames (f a)) : KeepsNames (o.bind f) := by
  cases o with
  | none => exact .undefined
  | some a => exact each a rfl

/-- A node with other data, and children from elsewhere. -/
theorem Named.modify {t : FstEntry} {f : FstEntry → FstEntry} (named : Named t)
    (keeps : ∀ t, Named t → Named (f t)) (address : List Nat) : Named (t.modifyAt f address) :=
  Tree.All.modifyAt keeps named address

theorem keepsNames_create (io : HostFunctions H) {fs : HostFileSystem H} {path : Bytes}
    (named : Named fs.m_root_entry) (is_path : IsPath path) (uid : BitVec 32) (gid : BitVec 16)
    (attr : Byte) (modes : Modes) (is_file : Bool) :
    KeepsNames (createFileOrDirectory io fs uid gid path attr modes is_file) := by
  have parents := named_getFstEntryForPath io named is_path.split.1
  rw [createFileOrDirectory]
  refine .branch (.returned named) ?_
  refine .branch (.returned named) ?_
  simp only
  split
  · next found => exact .returned (by rw [found] at parents; exact parents)
  next fs₁ parent found =>
  rw [found] at parents
  refine .through fun _ _ => ?_
  refine .branch (.returned parents) ?_
  refine .branch (.returned parents) ?_
  split
  · exact .returned parents
  next host _ =>
  have children := @named_getFstEntryForPath H io { fs₁ with host := host } path parents is_path
  split
  · exact .undefined
  next fs₂ child found =>
  rw [found] at children
  refine .returned (children.modify (fun _ _ => ?_) child)
  exact .node is_path.split.2 fun _ inside => by cases inside

theorem keepsNames_delete (io : HostFunctions H) {fs : HostFileSystem H} {path : Bytes}
    (named : Named fs.m_root_entry) (is_path : IsPath path) (uid : BitVec 32) (gid : BitVec 16) :
    KeepsNames (delete io fs uid gid path) := by
  have parents := named_getFstEntryForPath io named is_path.split.1
  rw [delete]
  refine .branch (.returned named) ?_
  simp only
  split
  · next found => exact .returned (by rw [found] at parents; exact parents)
  next fs₁ parent found =>
  rw [found] at parents
  have erased := parents.modify (fun _ => named_eraseChild (splitPathAndBasename path).2) parent
  refine .through fun _ _ => ?_
  refine .branch (.returned parents) ?_
  refine .branch (.returned parents) ?_
  refine .branch (.returned erased) ?_
  split
  · exact .returned erased
  · exact .returned parents

theorem keepsNames_moveEntry (io : HostFunctions H) {fs : HostFileSystem H} {new_path : Bytes}
    {new_name : Bytes} (named : Named fs.m_root_entry) (is_path : IsPath new_path)
    (is_name : IsName new_name) (before : FstEntry) (old_parent : List Nat) (old_name : Bytes)
    (room : Bool) :
    KeepsNames (rename.moveEntry io before fs old_parent old_name new_path new_name room) := by
  have found_named := named_getFstEntryForPath io named is_path
  rw [rename.moveEntry]
  split
  · exact .undefined
  next fs₁ new_entry found =>
  rw [found] at found_named
  split
  · exact .undefined
  have renamed := found_named.modify (f := fun entry =>
    .node { entry.label with name := new_name } entry.children)
    (fun _ old => .node is_name fun _ inside => Tree.All.child old inside) new_entry
  refine .through fun parent at_parent => .returned ?_
  split
  · next child _ found_child =>
    have children := Tree.All.child (Tree.All.atAddress renamed at_parent)
      (List.mem_of_getElem? (findChild_some found_child))
    refine Named.modify (renamed.modify (fun _ old => ?_) new_entry)
      (fun _ => named_eraseChild old_name) old_parent
    exact .node (Tree.All.label old) fun _ inside => Tree.All.child children inside
  · exact renamed

theorem keepsNames_rename (io : HostFunctions H) {fs : HostFileSystem H}
    {old_path new_path : Bytes} (named : Named fs.m_root_entry) (old_is_path : IsPath old_path)
    (new_is_path : IsPath new_path) (uid : BitVec 32) (gid : BitVec 16) (room : Bool) :
    KeepsNames (rename io fs uid gid old_path new_path room) := by
  have first := named_getFstEntryForPath io named old_is_path.split.1
  have second := named_getFstEntryForPath io first new_is_path.split.1
  rw [rename]
  refine .branch (.returned named) ?_
  simp only
  split
  · refine .branch .undefined ?_
    refine .through fun _ _ => .through fun _ _ => ?_
    refine .branch (.returned second) ?_
    have third := named_getFstEntryForPath io second old_is_path
    split
    · next found => exact .returned (by rw [found] at third; exact third)
    next fs₁ address found =>
    rw [found] at third
    refine .through fun _ _ => ?_
    refine .branch (.returned third) ?_
    refine .branch (.returned third) ?_
    split
    · exact .returned third
    split
    · exact .returned third
    next host _ =>
    exact @keepsNames_moveEntry H io { fs₁ with host := host } new_path _ third new_is_path
      new_is_path.split.2 _ _ _ _
  · exact .returned second

theorem keepsNames_setMetadata (io : HostFunctions H) {fs : HostFileSystem H} {path : Bytes}
    (named : Named fs.m_root_entry) (is_path : IsPath path) (caller_uid uid : BitVec 32)
    (gid : BitVec 16) (attr : Byte) (modes : Modes) :
    KeepsNames (setMetadata io fs caller_uid path uid gid attr modes) := by
  have found_named := named_getFstEntryForPath io named is_path
  rw [setMetadata]
  split
  · exact .returned named
  split
  · next found => exact .returned (by rw [found] at found_named; exact found_named)
  next fs₁ address found =>
  rw [found] at found_named
  refine .through fun _ _ => ?_
  simp only
  split
  · exact .returned found_named
  split
  · exact .returned found_named
  split
  · exact .returned found_named
  split
  · refine .returned (found_named.modify (fun _ old => ?_) address)
    exact .node (Tree.All.label old) fun _ inside => Tree.All.child old inside
  · exact .returned found_named

/-- A call with paths whose components fit gives every entry a name that fits. -/
theorem keepsNames_run (io : HostFunctions H) {fs : HostFileSystem H}
    (named : Named fs.m_root_entry) (c : Call) (paths : ∀ path ∈ c.paths, IsPath path) : KeepsNames (c.run io fs) := by
  cases c with
  | CreateFile uid gid path attr modes =>
      exact keepsNames_create io named (paths path List.mem_cons_self) uid gid attr modes true
  | CreateDirectory uid gid path attr modes =>
      exact keepsNames_create io named (paths path List.mem_cons_self) uid gid attr modes false
  | Delete uid gid path => exact keepsNames_delete io named (paths path List.mem_cons_self) uid gid
  | Rename uid gid old_path new_path room =>
      exact keepsNames_rename io named (paths old_path List.mem_cons_self)
        (paths new_path (.tail _ List.mem_cons_self)) uid gid room
  | SetMetadata caller_uid path uid gid attr modes =>
      exact keepsNames_setMetadata io named (paths path List.mem_cons_self) caller_uid uid gid attr
        modes

/-! ## The restart -/

theorem named_reaches {io : HostFunctions H} {host : H} {root_path : Bytes}
    {fs : HostFileSystem H}
    (run : Reaches (step io) (fun c _ => ∀ path ∈ c.paths, IsPath path)
      (HostFileSystem.fresh host root_path) fs) : Named fs.m_root_entry := by
  refine run.invariant (I := fun fs => Named fs.m_root_entry) ?_ ?_
  · exact .node ⟨by decide, by decide⟩ fun _ none => by cases none
  · intro c fs fs' named paths next
    obtain ⟨r, ran, next⟩ := Option.bind_eq_some_iff.mp next
    split at next
    · cases next
      exact keepsNames_run io named c paths r ran
    · cases next

/-- No entry is more than `MaxPathDepth` levels below the root, and no directory has so many
children that their number is cut off. -/
def Loadable (t : FstEntry) : Prop := t.Depth MaxPathDepth ∧ t.All fun _ n => n < 2 ^ 32

/-- The FST that is written is the one that is read. -/
theorem loadFst_saveFst {t : FstEntry} (named : Named t) (loadable : Loadable t)
    (m_root_entry : FstEntry) : loadFst m_root_entry (saveFst t) = t := by
  have inverse (node : FstNode) (n : Nat) (rest : List Byte)
      (fits : IsName node.name ∧ n < 2 ^ 32) :
      decodeEntry (encodeEntry node n ++ rest) = some ((node, n), rest) :=
    decodeEntry_encodeEntry fits.1 fits.2 rest
  have read := Tree.read_write inverse (Tree.All.and named loadable.2) loadable.1 []
  rw [List.append_nil] at read
  rw [loadFst, saveFst, read]
  rfl

/-- What `LoadFst` makes of any bytes: it keeps the tree it has, or takes one whose bytes are those
of the entries at the beginning, without the parts that have no meaning. -/
theorem loadFst_cases (m_root_entry : FstEntry) (file : List Byte) :
    loadFst m_root_entry file = m_root_entry ∨
      ∃ (entries : List SerializedFstEntry) (rest : List Byte),
        file = entries.flatMap layout.encode ++ rest ∧
        saveFst (loadFst m_root_entry file)
          = entries.flatMap fun entry => layout.encode entry.normalized := by
  rw [loadFst]
  cases reads : Tree.read decodeEntry (MaxPathDepth + 1) file with
  | none => exact .inl rfl
  | some r =>
      have record (input : List Byte) (node : FstNode) (n : Nat) (rest : List Byte)
          (read : decodeEntry input = some ((node, n), rest)) :
          ∃ entry : SerializedFstEntry, input = layout.encode entry ++ rest ∧
            encodeEntry node n = layout.encode entry.normalized :=
        encodeEntry_of_decodeEntry read
      obtain ⟨entries, bytes, written⟩ := @Tree.read_records _ _ _ encodeEntry decodeEntry
        layout.encode (fun entry => layout.encode entry.normalized) record _ _ r.2 r.1 reads
      exact .inr ⟨entries, r.2, bytes, written⟩

/-- The metadata survives a restart. -/
theorem fst_survives (io : HostFunctions H) (host : H) (root_path : Bytes) :
    (∀ fs, Reaches (step io) (fun c _ => ∀ path ∈ c.paths, IsPath path)
        (HostFileSystem.fresh host root_path) fs → Loadable fs.m_root_entry →
      ∀ m_root_entry, loadFst m_root_entry (saveFst fs.m_root_entry) = fs.m_root_entry) ∧
    ∀ m_root_entry file, loadFst m_root_entry file = m_root_entry ∨
      ∃ (entries : List SerializedFstEntry) (rest : List Byte),
        file = entries.flatMap layout.encode ++ rest ∧
        saveFst (loadFst m_root_entry file)
          = entries.flatMap fun entry => layout.encode entry.normalized :=
  ⟨fun _ run loadable => loadFst_saveFst (named_reaches run) loadable, loadFst_cases⟩

/-! ## On a small host -/

/-- A host that is the list of its files and directories. -/
def listed : HostFunctions (List (Bytes × Bool)) where
  Exists host path := host.any fun e => e.1 = path
  IsFile host path := host.any fun e => e.1 = path && e.2
  IsDirectory host path := host.any fun e => e.1 = path && !e.2
  GetSize _ _ := 0
  CreateEmptyFile host path := some ((path, true) :: host)
  CreateDir host path := some ((path, false) :: host)
  Delete host path := host.filter fun e => e.1 ≠ path
  DeleteDirRecursively host path :=
    host.filter fun e => e.1 ≠ path && !(path ++ [slash]).isPrefixOf e.1
  Rename host old_path new_path :=
    some (host.map fun e => if e.1 = old_path then (new_path, e.2) else e)

instance (path : Bytes) : Decidable (IsPath path) :=
  decidable_of_iff (0 ∉ path ∧ ∀ tail ∈ path.tails, ∀ part ∈ tail.inits, slash ∉ part →
      part.length ≤ MaxFilenameLength) <| by
    constructor
    · rintro ⟨nonzero, short⟩
      refine ⟨nonzero, fun part inside => ?_⟩
      obtain ⟨tail, first, last⟩ := List.infix_iff_prefix_suffix.mp inside
      exact short tail ((List.mem_tails _ _).mpr last) part ((List.mem_inits _ _).mpr first)
    · rintro ⟨nonzero, short⟩
      refine ⟨nonzero, fun tail last part first => short part ?_⟩
      exact ((List.mem_inits _ _).mp first).isInfix.trans ((List.mem_tails _ _).mp last).isInfix

def allModes : Modes := ⟨Mode.ReadWrite, Mode.ReadWrite, Mode.ReadWrite⟩

/-- `"/a"`, `"/a/a"` and so on -/
def nestedPath (components : Nat) : Bytes := (List.replicate components [slash, 0x61]).flatten

/-- The tree of a directory `"/a"`. -/
def oneDirectory : FstEntry :=
  .node resetFst.label [.node ⟨[0x61], ⟨0, 0, 0, allModes, false⟩⟩ []]

theorem fst_survives_oneDirectory : loadFst resetFst (saveFst oneDirectory) = oneDirectory := by
  have made : step listed (.CreateDirectory 0 0 (nestedPath 1) 0 allModes) (.fresh [] [])
      = some ⟨oneDirectory, [], List.replicate 16 ⟨false, []⟩, [(nestedPath 1, false)],
        saveFst oneDirectory⟩ := by
    with_unfolding_all rfl
  refine (fst_survives listed [] []).1 _ (Reaches.refl.tail ?_ made) ⟨?_, ?_⟩ resetFst
  · decide
  · intro c member
    cases List.mem_singleton.mp member
    exact fun _ none => by cases none
  · refine .node (by decide) fun c member => ?_
    cases List.mem_singleton.mp member
    exact .node (by decide) fun _ none => by cases none

/-- Directories one in the other, as many as there may be, and a file in the last. -/
def deepFile : List Call :=
  (List.range MaxPathDepth).map (fun n => Call.CreateDirectory 0 0 (nestedPath (n + 1)) 0 allModes)
    ++ [Call.CreateFile 0 0 (nestedPath (MaxPathDepth + 1)) 0 allModes]

/-- The bytes of a root entry whose unknown property is not 0. -/
def unknownProperty : List Byte :=
  layout.encode ⟨setName [slash], 5, 0, 0, allModes, 0, 0, 1, 0⟩

/-- The FST with the file in it is not read again, and the unknown property is not written. -/
theorem fst_not_always_survives :
    (∃ fs, Reaches (step listed) (fun c _ => ∀ path ∈ c.paths, IsPath path)
      (HostFileSystem.fresh [] []) fs ∧
      loadFst resetFst (saveFst fs.m_root_entry) ≠ fs.m_root_entry) ∧
    (loadFst resetFst unknownProperty ≠ resetFst ∧
      ¬ saveFst (loadFst resetFst unknownProperty) <+: unknownProperty) := by
  refine ⟨?_, ?_, by decide +kernel⟩
  · have runs : (runActions (fun c fs => if ∀ path ∈ c.paths, IsPath path then step listed c fs
        else none) deepFile (HostFileSystem.fresh [] [])).map (fun fs =>
        (fs.m_root_entry.children.length,
          (loadFst resetFst (saveFst fs.m_root_entry)).children.length)) = some (1, 0) := by
      decide +kernel
    obtain ⟨fs, run, counts⟩ := Option.map_eq_some_iff.mp runs
    refine ⟨fs, .of_checked run, fun same => ?_⟩
    rw [same] at counts
    cases (Prod.mk.inj counts).1.symm.trans (Prod.mk.inj counts).2
  · intro same
    have uids := congrArg (fun entry : FstEntry => entry.label.data.uid) same
    revert uids
    decide +kernel

end Phocoena.FS
