import Phocoena.JitCommon.JitCache
import Phocoena.Lib.Fallible
import Mathlib.Data.List.Nodup

/-! # The exits of the blocks

What the operations on the exits change and what they leave as it is. An exit that jumps to a block
jumps to one that is there, for the address and the features of the exit.
-/

namespace Phocoena.JitCommon

namespace JitBaseBlockCache

variable {c c' : JitBaseBlockCache} {m : Machine} {b b' d : JitBlock} {id : Nat}

/-! ## Pointers -/

/-- No two blocks stand at the same address. -/
def Distinct (c : JitBaseBlockCache) : Prop := (c.block_map.map (·.self)).Nodup

theorem eq_of_self (distinct : c.Distinct) (member : b ∈ c.block_map) (member' : b' ∈ c.block_map)
    (same : b.self = b'.self) : b = b' :=
  List.inj_on_of_nodup_map distinct member member' same

theorem deref_of_mem (distinct : c.Distinct) (member : b ∈ c.block_map) :
    c.deref b.self = some b := by
  cases found : c.deref b.self with
  | none =>
      have := List.find?_eq_none.mp found b member
      simp at this
  | some b' =>
      have here := List.mem_of_find?_eq_some found
      have same : b'.self = b.self := by simpa using List.find?_some found
      rw [eq_of_self distinct here member same]

theorem mem_of_deref (found : c.deref id = some b) : b ∈ c.block_map ∧ b.self = id :=
  ⟨List.mem_of_find?_eq_some found, by simpa using List.find?_some found⟩

/-! ## What the exits do not change -/

/-- The block without the state of its exits. -/
def bare (b : JitBlock) : JitBlock :=
  { b with linkData := b.linkData.map fun e => ⟨e.exitAddress, false, none⟩ }

@[simp] theorem bare_self (b : JitBlock) : (bare b).self = b.self := rfl
@[simp] theorem bare_normalEntry (b : JitBlock) : (bare b).normalEntry = b.normalEntry := rfl
@[simp] theorem bare_feature_flags (b : JitBlock) : (bare b).feature_flags = b.feature_flags := rfl
@[simp] theorem bare_effectiveAddress (b : JitBlock) :
    (bare b).effectiveAddress = b.effectiveAddress := rfl
@[simp] theorem bare_fast_block_map_index (b : JitBlock) :
    (bare b).fast_block_map_index = b.fast_block_map_index := rfl
@[simp] theorem bare_physical_addresses (b : JitBlock) :
    (bare b).physical_addresses = b.physical_addresses := rfl

/-- Only the state of exits may be different in the second cache. -/
structure SameButExits (c c' : JitBaseBlockCache) : Prop where
  blocks : c'.block_map.map bare = c.block_map.map bare
  rest : { c' with block_map := [] } = { c with block_map := [] }

theorem SameButExits.refl (c : JitBaseBlockCache) : SameButExits c c := ⟨rfl, rfl⟩

theorem SameButExits.trans {c'' : JitBaseBlockCache} (first : SameButExits c c')
    (second : SameButExits c' c'') : SameButExits c c'' :=
  ⟨second.blocks.trans first.blocks, second.rest.trans first.rest⟩

theorem SameButExits.symm (same : SameButExits c c') : SameButExits c' c :=
  ⟨same.blocks.symm, same.rest.symm⟩

section
variable (same : SameButExits c c')
include same

theorem SameButExits.links_to : c'.links_to = c.links_to := congrArg (·.links_to) same.rest
theorem SameButExits.block_range_map : c'.block_range_map = c.block_range_map :=
  congrArg (·.block_range_map) same.rest
theorem SameButExits.valid_block : c'.valid_block = c.valid_block :=
  congrArg (·.valid_block) same.rest
theorem SameButExits.large : c'.large_entry_points_map = c.large_entry_points_map :=
  congrArg (·.large_entry_points_map) same.rest
theorem SameButExits.m_entry_points_ptr : c'.m_entry_points_ptr = c.m_entry_points_ptr :=
  congrArg (·.m_entry_points_ptr) same.rest
theorem SameButExits.fallback : c'.m_fast_block_map_fallback = c.m_fast_block_map_fallback :=
  congrArg (·.m_fast_block_map_fallback) same.rest

theorem SameButExits.selfs : c'.block_map.map (·.self) = c.block_map.map (·.self) := by
  have := congrArg (List.map (·.self)) same.blocks
  simpa [List.map_map, Function.comp_def] using this

theorem SameButExits.distinct (distinct : c.Distinct) : c'.Distinct := by
  rw [Distinct, same.selfs]
  exact distinct

/-- Each block is still there, with other states of its exits. -/
theorem SameButExits.mem (member : b ∈ c.block_map) : ∃ b' ∈ c'.block_map, bare b' = bare b := by
  have listed : bare b ∈ c'.block_map.map bare := same.blocks ▸ List.mem_map_of_mem member
  exact List.mem_map.mp listed

end

theorem exit_of_bare (same : bare b' = bare b) {e : LinkData} (member : e ∈ b.linkData) :
    ∃ e' ∈ b'.linkData, e'.exitAddress = e.exitAddress := by
  have exits : b'.linkData.map (·.exitAddress) = b.linkData.map (·.exitAddress) := by
    have := congrArg (fun b => b.linkData.map (·.exitAddress)) same
    simpa [bare, List.map_map, Function.comp_def] using this
  have listed : e.exitAddress ∈ b'.linkData.map (·.exitAddress) :=
    exits ▸ List.mem_map_of_mem member
  exact List.mem_map.mp listed

theorem modify_mem {f : JitBlock → JitBlock} : b' ∈ (c.modify id f).block_map ↔
    ∃ b ∈ c.block_map, (if b.self = id then f b else b) = b' := List.mem_map

/-- Changes of the states of exits. -/
theorem modify_exits {g : JitBlock → LinkData → LinkData}
    (exits : ∀ b e, (g b e).exitAddress = e.exitAddress) :
    SameButExits c (c.modify id fun b => { b with linkData := b.linkData.map (g b) }) := by
  refine ⟨?_, rfl⟩
  simp only [modify, List.map_map]
  refine List.map_congr_left fun b _ => ?_
  by_cases here : b.self = id
  · simp [bare, here, exits, List.map_map, Function.comp_def]
  · simp [here]

theorem linkExit_exitAddress (flags : Nat) (e : LinkData) :
    (c.linkExit m flags e).exitAddress = e.exitAddress := by
  unfold linkExit
  split
  · rfl
  · split <;> rfl

theorem unlinkExit_exitAddress (address : Nat) (e : LinkData) :
    (unlinkExit address e).exitAddress = e.exitAddress := by
  unfold unlinkExit
  split <;> rfl

/-! ## Links -/

/-- The exit of a block with these features is known under its address if it jumps to a block, and
that block is one for the address and the features. -/
def Sound (c : JitBaseBlockCache) (self feature_flags : Nat) (e : LinkData) : Prop :=
  ∀ t, e.target = some t → self ∈ c.links_to e.exitAddress ∧ ∃ d ∈ c.block_map, d.self = t ∧
    d.effectiveAddress = e.exitAddress ∧ d.feature_flags = feature_flags

/-- All exits of the block are known. -/
def Registered (c : JitBaseBlockCache) (b : JitBlock) : Prop :=
  ∀ e ∈ b.linkData, b.self ∈ c.links_to e.exitAddress

structure Linked (c : JitBaseBlockCache) : Prop where
  known : ∀ a, ∀ id ∈ c.links_to a, ∃ b ∈ c.block_map, b.self = id ∧
    (∃ e ∈ b.linkData, e.exitAddress = a) ∧ c.Registered b
  sound : ∀ b ∈ c.block_map, ∀ e ∈ b.linkData, c.Sound b.self b.feature_flags e

section
variable (same : SameButExits c c')
include same

theorem SameButExits.registered (alike : bare b' = bare b) (registered : c.Registered b) :
    c'.Registered b' := by
  intro e' member
  have ⟨e, member', address⟩ := exit_of_bare alike.symm member
  have self : b'.self = b.self := congrArg (·.self) alike
  rw [same.links_to, self, ← address]
  exact registered e member'

theorem SameButExits.known (known : ∀ a, ∀ id ∈ c.links_to a, ∃ b ∈ c.block_map, b.self = id ∧
    (∃ e ∈ b.linkData, e.exitAddress = a) ∧ c.Registered b) :
    ∀ a, ∀ id ∈ c'.links_to a, ∃ b ∈ c'.block_map, b.self = id ∧
      (∃ e ∈ b.linkData, e.exitAddress = a) ∧ c'.Registered b := by
  intro a id listed
  rw [same.links_to] at listed
  obtain ⟨b, member, self, ⟨e, exit, address⟩, registered⟩ := known a id listed
  obtain ⟨b', member', alike⟩ := same.mem member
  obtain ⟨e', exit', address'⟩ := exit_of_bare alike exit
  have self' : b'.self = b.self := congrArg (·.self) alike
  exact ⟨b', member', self'.trans self, ⟨e', exit', address'.trans address⟩,
    same.registered alike registered⟩

theorem SameButExits.sound {self flags : Nat} {e : LinkData} (sound : c.Sound self flags e) :
    c'.Sound self flags e := by
  intro t jumps
  obtain ⟨listed, d, member, here, address, features⟩ := sound t jumps
  obtain ⟨d', member', alike⟩ := same.mem member
  have self' : d'.self = d.self := congrArg (·.self) alike
  have address' : d'.effectiveAddress = d.effectiveAddress := congrArg (·.effectiveAddress) alike
  have features' : d'.feature_flags = d.feature_flags := congrArg (·.feature_flags) alike
  exact ⟨same.links_to ▸ listed, d', member', self'.trans here, address'.trans address,
    features'.trans features⟩

end

/-- A change of the exits of one block, each of which stays sound. -/
theorem Linked.modify (linked : c.Linked) {g : JitBlock → LinkData → LinkData}
    (exits : ∀ b e, (g b e).exitAddress = e.exitAddress)
    (sound : ∀ b ∈ c.block_map, b.self = id → ∀ e ∈ b.linkData,
      c.Sound b.self b.feature_flags (g b e)) :
    (c.modify id fun b => { b with linkData := b.linkData.map (g b) }).Linked := by
  have same : SameButExits c (c.modify id _) := modify_exits exits
  refine ⟨same.known linked.known, fun b' member e' exit' => same.sound ?_⟩
  obtain ⟨b, member', rfl⟩ := modify_mem.mp member
  by_cases here : b.self = id
  · simp only [if_pos here] at exit' ⊢
    obtain ⟨e, exit, rfl⟩ := List.mem_map.mp exit'
    exact sound b member' here e exit
  · simp only [if_neg here] at exit' ⊢
    exact linked.sound b member' e' exit'

theorem GetBlockFromStartAddress_spec {addr flags : Nat}
    (found : c.GetBlockFromStartAddress m addr flags = some d) :
    d ∈ c.block_map ∧ d.effectiveAddress = addr ∧ d.feature_flags = flags := by
  have any : ∀ t, (c.block_map.find? fun b => decide (b.physicalAddress = t ∧
      b.effectiveAddress = addr ∧ b.feature_flags = flags)) = some d →
      d ∈ c.block_map ∧ d.effectiveAddress = addr ∧ d.feature_flags = flags := by
    intro t here
    have meets := List.find?_some here
    simp only [decide_eq_true_eq] at meets
    exact ⟨List.mem_of_find?_eq_some here, meets.2⟩
  unfold GetBlockFromStartAddress at found
  simp only at found
  split at found
  · split at found
    · exact any _ found
    · simp at found
  · exact any _ found

theorem linkExit_sound {e : LinkData} (registered : b.self ∈ c.links_to e.exitAddress)
    (sound : c.Sound b.self b.feature_flags e) :
    c.Sound b.self b.feature_flags (c.linkExit m b.feature_flags e) := by
  unfold linkExit
  split
  · exact sound
  · split
    next d found =>
      intro t jumps
      obtain rfl : d.self = t := by simpa [WriteLinkBlock] using jumps
      have ⟨member, address, features⟩ := GetBlockFromStartAddress_spec found
      exact ⟨registered, d, member, rfl, address, features⟩
    · exact sound

theorem LinkBlockExits_spec (distinct : c.Distinct) (linked : c.Linked) (member : b ∈ c.block_map)
    (registered : c.Registered b) :
    ∃ c', c.LinkBlockExits m b.self = some c' ∧ SameButExits c c' ∧ c'.Linked := by
  refine ⟨_, by rw [LinkBlockExits, deref_of_mem distinct member]; rfl,
    modify_exits (g := fun _ => c.linkExit m b.feature_flags) fun _ => linkExit_exitAddress _,
    linked.modify (g := fun _ => c.linkExit m b.feature_flags) (fun _ => linkExit_exitAddress _) ?_⟩
  intro b' member' self e exit
  obtain rfl := eq_of_self distinct member' member self
  exact linkExit_sound (registered e exit) (linked.sound b' member' e exit)

/-- Linking the exits of a block and those of the blocks that jump to its address. -/
theorem LinkBlock_spec (distinct : c.Distinct) (linked : c.Linked) (member : b ∈ c.block_map)
    (registered : c.Registered b) :
    ∃ c', c.LinkBlock m b.self = some c' ∧ SameButExits c c' ∧ c'.Linked := by
  obtain ⟨c₁, own, same₁, linked₁⟩ := LinkBlockExits_spec (m := m) distinct linked member registered
  obtain ⟨b₁, member₁, alike⟩ := same₁.mem member
  have self : b₁.self = b.self := congrArg (·.self) alike
  have address : b₁.effectiveAddress = b.effectiveAddress := congrArg (·.effectiveAddress) alike
  have found : c₁.deref b.self = some b₁ := self ▸ deref_of_mem (same₁.distinct distinct) member₁
  obtain ⟨c', rest, -, same', linked'⟩ := foldlM_succeeds (f := linkSource m b₁)
    (I := fun l s => (∀ id ∈ l, id ∈ s.links_to b.effectiveAddress) ∧ SameButExits c₁ s ∧ s.Linked)
    (l := c₁.links_to b₁.effectiveAddress) (s := c₁) (by
      rintro id l s ⟨listed, same, linked⟩
      obtain ⟨b2, member2, rfl, _, registered2⟩ := linked.known _ id (listed id (by simp))
      have distinct' := same.distinct (same₁.distinct distinct)
      rw [linkSource, deref_of_mem distinct' member2, Option.bind_some]
      split
      · obtain ⟨s', stepped, same', linked'⟩ := LinkBlockExits_spec (m := m) distinct' linked member2
          registered2
        refine ⟨s', stepped, fun id member => ?_, same.trans same', linked'⟩
        rw [same'.links_to]
        exact listed id (by simp [member])
      · exact ⟨s, rfl, fun id member => listed id (by simp [member]), same, linked⟩)
    ⟨fun id member => address ▸ member, .refl _, linked₁⟩
  refine ⟨c', ?_, same₁.trans same', linked'⟩
  rw [LinkBlock, own, Option.bind_some, found, Option.bind_some, rest]

/-! ## Unlinking -/

/-- No exit jumps to the block any more. -/
def NoExitTo (c : JitBaseBlockCache) (id : Nat) : Prop :=
  ∀ x ∈ c.block_map, ∀ e ∈ x.linkData, e.target ≠ some id

theorem unlinkExit_sound {self flags address : Nat} {e : LinkData} (sound : c.Sound self flags e) :
    c.Sound self flags (unlinkExit address e) := by
  unfold unlinkExit
  split
  · intro t jumps
    simp [WriteLinkBlock] at jumps
  · exact sound

/-- While the exits of other blocks are unlinked from a block, only those of the blocks that are
left still jump to it, and its own exits jump nowhere. -/
structure Unlinking (c : JitBaseBlockCache) (b : JitBlock) (l : List Nat)
    (s : JitBaseBlockCache) : Prop where
  same : SameButExits c s
  linked : s.Linked
  listed : ∀ id ∈ l, id ∈ c.links_to b.effectiveAddress
  others : ∀ x ∈ s.block_map, ∀ e ∈ x.linkData, e.target = some b.self → x.self ∈ l
  own : ∀ x ∈ s.block_map, x.self = b.self → ∀ e ∈ x.linkData, e.target = none

/-- An exit that jumps to the block has its address and its features. -/
theorem Unlinking.exit_to {l : List Nat} {s : JitBaseBlockCache} (unlinking : Unlinking c b l s)
    (distinct : c.Distinct) (member : b ∈ c.block_map) {x : JitBlock} (here : x ∈ s.block_map)
    {e : LinkData} (exit : e ∈ x.linkData) (jumps : e.target = some b.self) :
    e.exitAddress = b.effectiveAddress ∧ x.feature_flags = b.feature_flags := by
  obtain ⟨_, d, there, self, address, features⟩ := unlinking.linked.sound x here e exit _ jumps
  obtain ⟨b', member', alike⟩ := unlinking.same.mem member
  have self' : b'.self = b.self := congrArg (·.self) alike
  obtain rfl := eq_of_self (unlinking.same.distinct distinct) there member' (self.trans self'.symm)
  have address' : d.effectiveAddress = b.effectiveAddress := congrArg (·.effectiveAddress) alike
  have features' : d.feature_flags = b.feature_flags := congrArg (·.feature_flags) alike
  exact ⟨address.symm.trans address', features.symm.trans features'⟩

theorem Unlinking.step (distinct : c.Distinct) (member : b ∈ c.block_map) {id : Nat}
    {l : List Nat} {s : JitBaseBlockCache} (unlinking : Unlinking c b (id :: l) s) :
    ∃ s', unlinkSource b s id = some s' ∧ Unlinking c b l s' := by
  obtain ⟨source, there, rfl, _⟩ := unlinking.linked.known _ id
    (unlinking.same.links_to ▸ unlinking.listed id (by simp))
  have distinct' := unlinking.same.distinct distinct
  rw [unlinkSource, deref_of_mem distinct' there, Option.map_some]
  refine ⟨_, rfl, ?_⟩
  have listed : ∀ id ∈ l, id ∈ c.links_to b.effectiveAddress := fun id later =>
    unlinking.listed id (by simp [later])
  split
  next different =>
    refine ⟨unlinking.same, unlinking.linked, listed, fun x here e exit jumps => ?_, unlinking.own⟩
    obtain first | later := List.mem_cons.mp (unlinking.others x here e exit jumps)
    · obtain rfl := eq_of_self distinct' here there first
      exact absurd (unlinking.exit_to distinct member here exit jumps).2 different
    · exact later
  · have exits : ∀ (_ : JitBlock) e, (unlinkExit b.effectiveAddress e).exitAddress =
      e.exitAddress := fun _ => unlinkExit_exitAddress _
    have same' : SameButExits s (s.modify source.self _) := modify_exits exits
    refine ⟨unlinking.same.trans same', unlinking.linked.modify exits fun x here _ e exit =>
      unlinkExit_sound (unlinking.linked.sound x here e exit), listed, ?_, ?_⟩
    · intro x' here' e' exit' jumps
      obtain ⟨x, here, rfl⟩ := modify_mem.mp here'
      by_cases first : x.self = source.self
      · simp only [if_pos first] at exit'
        obtain ⟨e, exit, rfl⟩ := List.mem_map.mp exit'
        rw [unlinkExit] at jumps
        split at jumps
        · simp [WriteLinkBlock] at jumps
        · exact absurd (unlinking.exit_to distinct member here exit jumps).1 (by assumption)
      · simp only [if_neg first] at exit' ⊢
        exact (List.mem_cons.mp (unlinking.others x here e' exit' jumps)).resolve_left first
    · intro x' here' self e' exit'
      obtain ⟨x, here, rfl⟩ := modify_mem.mp here'
      by_cases first : x.self = source.self
      · simp only [if_pos first] at exit' self
        obtain ⟨e, exit, rfl⟩ := List.mem_map.mp exit'
        rw [unlinkExit]
        split
        · rfl
        · exact unlinking.own x here self e exit
      · simp only [if_neg first] at exit' self
        exact unlinking.own x here self e' exit'

theorem UnlinkBlock_spec (distinct : c.Distinct) (linked : c.Linked) (member : b ∈ c.block_map) :
    ∃ c', c.UnlinkBlock b.self = some c' ∧ Unlinking c b [] c' := by
  have exits : ∀ (_ : JitBlock) e, (WriteLinkBlock e none).exitAddress = e.exitAddress :=
    fun _ _ => rfl
  have start : Unlinking c b (c.links_to b.effectiveAddress) (c.modify b.self fun b =>
      { b with linkData := b.linkData.map (WriteLinkBlock · none) }) := by
    have same : SameButExits c (c.modify b.self _) := modify_exits exits
    have linked' : (c.modify b.self _).Linked := linked.modify exits fun x _ _ e _ t jumps => by
      simp [WriteLinkBlock] at jumps
    refine ⟨same, linked', fun _ => id, fun x here e exit jumps => ?_, ?_⟩
    · obtain ⟨listed, d, there, self, address, _⟩ := linked'.sound x here e exit _ jumps
      obtain ⟨b', member', alike⟩ := same.mem member
      have self' : b'.self = b.self := congrArg (·.self) alike
      obtain rfl := eq_of_self (same.distinct distinct) there member' (self.trans self'.symm)
      have address' : d.effectiveAddress = b.effectiveAddress :=
        congrArg (·.effectiveAddress) alike
      rw [← address'.symm.trans address] at listed
      exact listed
    · intro x' here' self e' exit'
      obtain ⟨x, here, rfl⟩ := modify_mem.mp here'
      by_cases own : x.self = b.self
      · simp only [if_pos own] at exit'
        obtain ⟨e, _, rfl⟩ := List.mem_map.mp exit'
        rfl
      · simp only [if_neg own] at self
        exact absurd self own
  obtain ⟨c', ran, done⟩ := foldlM_succeeds (f := unlinkSource b) (I := Unlinking c b)
    (fun id l s unlinking => unlinking.step distinct member) start
  exact ⟨c', by rw [UnlinkBlock, deref_of_mem distinct member]; exact ran, done⟩

/-! ## The table of the exits -/

theorem mem_insertBlock {x : Nat} {blocks : List Nat} :
    x ∈ insertBlock id blocks ↔ x = id ∨ x ∈ blocks := by
  unfold insertBlock
  split
  next here =>
    constructor
    · exact .inr
    · rintro (rfl | there)
      · exact here
      · exact there
  · exact List.mem_cons

theorem mem_eraseBlock {x : Nat} {blocks : List Nat} :
    x ∈ eraseBlock id blocks ↔ x ∈ blocks ∧ x ≠ id := by
  simp [eraseBlock]

theorem mem_addLinks {x a : Nat} {links : Nat → List Nat} {exits : List LinkData} :
    x ∈ addLinks id links exits a ↔ x ∈ links a ∨ x = id ∧ ∃ e ∈ exits, e.exitAddress = a := by
  induction exits generalizing links with
  | nil => simp [addLinks]
  | cons e exits ih =>
      have step : addLinks id links (e :: exits) = addLinks id (Function.update links e.exitAddress
          (insertBlock id (links e.exitAddress))) exits := rfl
      rw [step, ih]
      by_cases here : a = e.exitAddress
      · subst here
        simp only [Function.update_self, mem_insertBlock, List.mem_cons, exists_eq_or_imp]
        tauto
      · have other : e.exitAddress ≠ a := Ne.symm here
        simp [Function.update_of_ne here, other]

theorem mem_removeLinks {x a : Nat} {links : Nat → List Nat} {exits : List LinkData} :
    x ∈ removeLinks id links exits a ↔
      x ∈ links a ∧ ¬ (x = id ∧ ∃ e ∈ exits, e.exitAddress = a) := by
  induction exits generalizing links with
  | nil => simp [removeLinks]
  | cons e exits ih =>
      have step : removeLinks id links (e :: exits) = removeLinks id
          (Function.update links e.exitAddress (eraseBlock id (links e.exitAddress))) exits := rfl
      rw [step, ih]
      by_cases here : a = e.exitAddress
      · subst here
        simp only [Function.update_self, mem_eraseBlock, List.mem_cons, exists_eq_or_imp]
        tauto
      · have other : e.exitAddress ≠ a := Ne.symm here
        simp [Function.update_of_ne here, other]

theorem Linked.congr (linked : c.Linked) (blocks : c'.block_map = c.block_map)
    (links : c'.links_to = c.links_to) : c'.Linked := by
  obtain ⟨known, sound⟩ := linked
  constructor
  · simpa only [Registered, blocks, links] using known
  · simpa only [Sound, blocks, links] using sound

/-- A block that nothing leads to: it is not known for any exit, and no exit jumps to it. -/
structure Detached (c : JitBaseBlockCache) (id : Nat) : Prop where
  unknown : ∀ a, id ∉ c.links_to a
  unlinked : c.NoExitTo id

/-- What destroying a block leaves of the rest of the cache. -/
theorem DestroyBlock_spec (distinct : c.Distinct) (linked : c.Linked) (member : b ∈ c.block_map) :
    ∃ c', c.DestroyBlock b.self = some c' ∧ c'.Linked ∧ c'.Detached b.self ∧
      (∀ a, ∀ id ∈ c'.links_to a, id ∈ c.links_to a) ∧
      SameButExits { c.dropFastEntry b with links_to := c'.links_to } c' := by
  have blocks : (c.dropFastEntry b).block_map = c.block_map := by
    unfold dropFastEntry
    split <;> split <;> rfl
  have links : (c.dropFastEntry b).links_to = c.links_to := by
    unfold dropFastEntry
    split <;> split <;> rfl
  have distinct' : (c.dropFastEntry b).Distinct := by rw [Distinct, blocks]; exact distinct
  have member' : b ∈ (c.dropFastEntry b).block_map := blocks ▸ member
  obtain ⟨s, ran, unlinking⟩ := UnlinkBlock_spec distinct' (linked.congr blocks links) member'
  have listed : s.links_to = c.links_to := unlinking.same.links_to.trans links
  have kept : ∀ x ∈ s.block_map, x.self ≠ b.self → ∀ a, x.self ∈ s.links_to a →
      x.self ∈ removeLinks b.self s.links_to b.linkData a := fun x _ other a there =>
    mem_removeLinks.mpr ⟨there, fun ⟨own, _⟩ => other own⟩
  refine ⟨{ s with links_to := removeLinks b.self s.links_to b.linkData }, ?_, ⟨?_, ?_⟩, ⟨?_, ?_⟩,
    ?_, ?_⟩
  · rw [DestroyBlock, deref_of_mem distinct member, Option.bind_some, ran, Option.map_some]
  · intro a id there
    obtain ⟨before, removed⟩ := mem_removeLinks.mp there
    obtain ⟨x, here, rfl, exit, registered⟩ := unlinking.linked.known a id before
    refine ⟨x, here, rfl, exit, fun e member => ?_⟩
    by_cases own : x.self = b.self
    · -- its exits are the ones that were removed
      obtain ⟨e, exit, address⟩ := exit
      obtain ⟨x', here', alike⟩ := unlinking.same.mem member'
      have self' : x'.self = b.self := congrArg (·.self) alike
      obtain rfl := eq_of_self (unlinking.same.distinct distinct') here here'
        (own.trans self'.symm)
      obtain ⟨e', exit', address'⟩ := exit_of_bare alike.symm exit
      exact absurd ⟨own, e', exit', address'.trans address⟩ removed
    · exact kept x here own _ (registered e member)
  · intro x here e exit t jumps
    obtain ⟨there, d, found, self, address, features⟩ := unlinking.linked.sound x here e exit t jumps
    refine ⟨?_, d, found, self, address, features⟩
    by_cases own : x.self = b.self
    · rw [unlinking.own x here own e exit] at jumps
      simp at jumps
    · exact kept x here own _ there
  · intro a there
    obtain ⟨before, removed⟩ := mem_removeLinks.mp there
    obtain ⟨x, here, self, ⟨e, exit, address⟩, _⟩ := linked.known a b.self (listed ▸ before)
    obtain rfl := eq_of_self distinct here member self
    exact removed ⟨rfl, e, exit, address⟩
  · intro x here e exit jumps
    have := unlinking.others x here e exit jumps
    simp at this
  · intro a id there
    exact listed ▸ (mem_removeLinks.mp there).1
  · exact ⟨unlinking.same.blocks, congrArg (fun c => { c with
      links_to := removeLinks b.self s.links_to b.linkData }) unlinking.same.rest⟩

theorem eraseP_eq_filter {l : List JitBlock} (distinct : (l.map (·.self)).Nodup) :
    l.eraseP (fun b => decide (b.self = id)) = l.filter fun b => decide (b.self ≠ id) := by
  induction l with
  | nil => rfl
  | cons b l ih =>
      have ⟨first, rest⟩ := List.nodup_cons.mp distinct
      by_cases here : b.self = id
      · subst here
        have others : ∀ x ∈ l, decide (x.self ≠ b.self) = true := fun x member => by
          have : x.self ≠ b.self := fun same => first (List.mem_map.mpr ⟨x, member, same⟩)
          simp [this]
        rw [List.eraseP_cons_of_pos (by simp), List.filter_cons_of_neg (by simp),
          List.filter_eq_self.mpr others]
      · simp [here, ih rest]

theorem mem_free (distinct : c.Distinct) :
    b ∈ (c.free id).block_map ↔ b ∈ c.block_map ∧ b.self ≠ id := by
  simp [free, eraseP_eq_filter distinct]

theorem free_distinct (distinct : c.Distinct) : (c.free id).Distinct :=
  distinct.sublist (List.Sublist.map _ (List.eraseP_sublist))

/-- A block that nothing leads to can be freed. -/
theorem Linked.free (linked : c.Linked) (distinct : c.Distinct) (detached : c.Detached id) :
    (c.free id).Linked := by
  constructor
  · intro a other there
    obtain ⟨x, here, rfl, exit, registered⟩ := linked.known a other there
    refine ⟨x, (mem_free distinct).mpr ⟨here, fun own => ?_⟩, rfl, exit, registered⟩
    exact detached.unknown a (own ▸ there)
  · intro x here e exit t jumps
    obtain ⟨here, _⟩ := (mem_free distinct).mp here
    obtain ⟨there, d, found, rfl, spec⟩ := linked.sound x here e exit t jumps
    refine ⟨there, d, (mem_free distinct).mpr ⟨found, fun own => ?_⟩, rfl, spec⟩
    exact detached.unlinked x here e exit (own ▸ jumps)

end JitBaseBlockCache

end Phocoena.JitCommon
