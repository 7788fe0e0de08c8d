import Mathlib.Data.List.Basic

/-! # Trees with labelled nodes

A node has a label and any number of children, in order. Nodes are named by their address, the
indices on the way to them.
-/

namespace Phocoena

inductive Tree (α : Type*) where
  | node (label : α) (children : List (Tree α))

namespace Tree

variable {α β ρ : Type*}

def label : Tree α → α
  | node label _ => label

def children : Tree α → List (Tree α)
  | node _ children => children

theorem node_eta (t : Tree α) : node t.label t.children = t := by
  cases t
  rfl

/-- A property of the label and of the number of children, for every node. -/
inductive All (P : α → Nat → Prop) : Tree α → Prop where
  | node {a : α} {ts : List (Tree α)} :
    P a ts.length → (∀ t ∈ ts, All P t) → All P (node a ts)

/-- No node is more than that many edges away from the root. -/
def Depth : Nat → Tree α → Prop
  | 0, t => t.children = []
  | n + 1, t => ∀ c ∈ t.children, Depth n c

section All

variable {P : α → Nat → Prop} {t : Tree α}

theorem All.label (all : t.All P) : P t.label t.children.length := by
  cases all with
  | node own _ => exact own

theorem All.child (all : t.All P) {c : Tree α} (member : c ∈ t.children) : c.All P := by
  cases all with
  | node _ below => exact below c member

theorem All.and {Q : α → Nat → Prop} (all : t.All P) (all' : t.All Q) :
    t.All fun a n => P a n ∧ Q a n := by
  induction all with
  | node own _ ih => exact .node ⟨own, all'.label⟩ fun c member => ih c member (all'.child member)

end All

/-! ## Addresses -/

/-- The node at an address. -/
def atAddress : List Nat → Tree α → Option (Tree α)
  | [], t => some t
  | i :: address, t => t.children[i]?.bind (atAddress address)

/-- Another node in the place of the one at an address. -/
def modifyAt (f : Tree α → Tree α) : List Nat → Tree α → Tree α
  | [], t => f t
  | i :: address, t => node t.label (t.children.modify i (modifyAt f address))

theorem All.atAddress {P : α → Nat → Prop} {t c : Tree α} {address : List Nat} (all : t.All P)
    (here : t.atAddress address = some c) : c.All P := by
  induction address generalizing t with
  | nil =>
      cases here
      exact all
  | cons i address ih =>
      obtain ⟨child, found, here⟩ := Option.bind_eq_some_iff.mp here
      exact ih (all.child (List.mem_of_getElem? found)) here

theorem All.modifyAt {P : α → Nat → Prop} {t : Tree α} {f : Tree α → Tree α}
    (keeps : ∀ t : Tree α, t.All P → (f t).All P) (all : t.All P) (address : List Nat) :
    (t.modifyAt f address).All P := by
  induction address generalizing t with
  | nil => exact keeps t all
  | cons i address ih =>
      refine .node ?_ fun c member => ?_
      · rw [List.length_modify]
        exact all.label
      · obtain ⟨j, inside, rfl⟩ := List.getElem_of_mem member
        rw [List.length_modify] at inside
        rw [List.getElem_modify]
        have old := all.child (List.getElem_mem inside)
        split
        · exact ih old
        · exact old

/-! ## Preorder

A tree is written node by node, the children behind their parent, each node with the number of its
children; the reader stops at a tree that has too many levels. -/

mutual

def write (encode : α → Nat → List β) : Tree α → List β
  | node a ts => encode a ts.length ++ writeAll encode ts

def writeAll (encode : α → Nat → List β) : List (Tree α) → List β
  | [] => []
  | t :: ts => write encode t ++ writeAll encode ts

end

theorem write_eq (encode : α → Nat → List β) (t : Tree α) :
    t.write encode = encode t.label t.children.length ++ writeAll encode t.children := by
  cases t
  rw [write]
  rfl

/-- That many trees one behind the other. -/
def readAll (read : List β → Option (Tree α × List β)) :
    Nat → List β → Option (List (Tree α) × List β)
  | 0, input => some ([], input)
  | n + 1, input => do
    let (t, input) ← read input
    let (ts, input) ← readAll read n input
    return (t :: ts, input)

def read (decode : List β → Option ((α × Nat) × List β)) :
    Nat → List β → Option (Tree α × List β)
  | 0, _ => none
  | levels + 1, input => do
    let ((a, n), input) ← decode input
    let (ts, input) ← readAll (read decode levels) n input
    return (node a ts, input)

section Preorder

variable {encode : α → Nat → List β} {decode : List β → Option ((α × Nat) × List β)}

/-- What was written is read, if the labels are and the tree is not too deep. -/
theorem read_write {P : α → Nat → Prop}
    (inverse : ∀ a n rest, P a n → decode (encode a n ++ rest) = some ((a, n), rest))
    {levels : Nat} {t : Tree α} (all : t.All P) (depth : t.Depth levels) (rest : List β) :
    read decode (levels + 1) (t.write encode ++ rest) = some (t, rest) := by
  induction levels generalizing t rest with
  | zero =>
      have leaf : t.children = [] := depth
      have own := all.label
      rw [leaf] at own
      rw [write_eq, leaf, writeAll, List.append_nil, read, inverse _ _ _ own]
      have whole := t.node_eta
      rw [leaf] at whole
      rw [← whole]
      rfl
  | succ levels ih =>
      have several (ts : List (Tree α)) (each : ∀ c ∈ ts, c ∈ t.children) :
          readAll (read decode (levels + 1)) ts.length (writeAll encode ts ++ rest)
            = some (ts, rest) := by
        induction ts with
        | nil => rfl
        | cons c ts more =>
            have member := each c List.mem_cons_self
            rw [writeAll, List.append_assoc, List.length_cons, readAll,
              ih (all.child member) (depth c member)]
            simp only [Option.bind_eq_bind, Option.bind_some,
              more fun d later => each d (List.mem_cons_of_mem c later)]
            rfl
      rw [write_eq, List.append_assoc, read, inverse _ _ _ all.label]
      simp only [Option.bind_eq_bind, Option.bind_some, several t.children fun c member => member]
      rw [t.node_eta]
      rfl

/-- What is read was written as records that decode to the labels. -/
theorem read_records {raw norm : ρ → List β}
    (record : ∀ input a n rest, decode input = some ((a, n), rest) →
      ∃ r, input = raw r ++ rest ∧ encode a n = norm r)
    {levels : Nat} {input rest : List β} {t : Tree α}
    (reads : read decode levels input = some (t, rest)) :
    ∃ rs : List ρ, input = rs.flatMap raw ++ rest ∧ t.write encode = rs.flatMap norm := by
  induction levels generalizing input rest t with
  | zero => cases reads
  | succ levels ih =>
      have several {n : Nat} {input rest : List β} {ts : List (Tree α)}
          (reads : readAll (read decode levels) n input = some (ts, rest)) :
          ts.length = n ∧ ∃ rs : List ρ, input = rs.flatMap raw ++ rest ∧
            writeAll encode ts = rs.flatMap norm := by
        induction n generalizing input ts with
        | zero =>
            cases reads
            exact ⟨rfl, [], rfl, rfl⟩
        | succ n more =>
            obtain ⟨⟨c, input'⟩, one, reads⟩ := Option.bind_eq_some_iff.mp reads
            obtain ⟨⟨cs, input''⟩, others, reads⟩ := Option.bind_eq_some_iff.mp reads
            cases reads
            obtain ⟨rs, bytes, written⟩ := ih one
            obtain ⟨length, rs', bytes', written'⟩ := more others
            refine ⟨congrArg (· + 1) length, rs ++ rs', ?_, ?_⟩
            · rw [bytes, bytes', List.flatMap_append, List.append_assoc]
            · rw [writeAll, written, written', List.flatMap_append]
      obtain ⟨⟨⟨a, n⟩, input'⟩, one, reads⟩ := Option.bind_eq_some_iff.mp reads
      obtain ⟨⟨ts, input''⟩, others, reads⟩ := Option.bind_eq_some_iff.mp reads
      cases reads
      obtain ⟨r, bytes, written⟩ := record _ _ _ _ one
      obtain ⟨length, rs, bytes', written'⟩ := several others
      refine ⟨r :: rs, ?_, ?_⟩
      · rw [bytes, bytes', List.flatMap_cons, List.append_assoc]
      · rw [write, length, written, written', List.flatMap_cons]

end Preorder

end Tree

end Phocoena
