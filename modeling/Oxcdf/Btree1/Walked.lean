import Oxcdf.Btree1.Stored
import Oxcdf.ChunkIndex.Numbering

/-! What a walk makes of a stored tree. It comes to the leaves from right to left; the
chunks are sorted afterwards. -/

set_option autoImplicit false

namespace Oxcdf.Btree1

open Foundation Foundation.Buffer Foundation.Format Foundation.Explore
open BtreeV2 (Placed)

/-- What a node of some depth holds: chunks or symbol table nodes, or the nodes below it. -/
def Body (κ : Type) : Nat → Type
  | 0 => Page κ Nat
  | depth + 1 => Page κ (Placed (Body κ depth))

abbrev StoredNode (κ : Type) (depth : Nat) : Type := Placed (Body κ depth)

namespace Body

variable {κ : Type}

/-- The leaves below a node, from left to right. -/
def leaves : (depth : Nat) → StoredNode κ depth → List (Page κ Nat)
  | 0, node => [node.body]
  | depth + 1, node => (Page.children node.body).flatMap (leaves depth)

/-- What the leaves hold, from left to right. -/
def entries (depth : Nat) (node : StoredNode κ depth) : List (κ × Nat) :=
  (leaves depth node).flatMap Page.entries

/-- Where the node and those below it stand. -/
def addresses : (depth : Nat) → StoredNode κ depth → List Nat
  | 0, node => [node.address]
  | depth + 1, node => node.address :: (Page.children node.body).flatMap (addresses depth)

/-- The same nodes as the walks come to them. -/
def visitOrder : (depth : Nat) → StoredNode κ depth → List Nat
  | 0, node => [node.address]
  | depth + 1, node => node.address :: (Page.children node.body).reverse.flatMap (visitOrder depth)

/-- The file holds a node and those below it. -/
def Stands {rank : Nat} (view : View) (form : Form view.sizes rank κ) :
    (depth : Nat) → StoredNode κ depth → Prop
  | 0, node => Page.Stands 0 id node.body view form node.address
  | depth + 1, node => Page.Stands (depth + 1) Placed.address node.body view form node.address ∧
      ∀ child ∈ Page.children node.body, Stands view form depth child

/-- A stored tree: no two nodes stand at one address. -/
structure Held {rank : Nat} (view : View) (form : Form view.sizes rank κ) (depth : Nat)
    (root : StoredNode κ depth) : Prop where
  stands : Stands view form depth root
  apart : (addresses depth root).Nodup

theorem visitOrder_perm {depth : Nat} (node : StoredNode κ depth) :
    (visitOrder depth node).Perm (addresses depth node) := by
  induction depth with
  | zero => exact List.Perm.refl _
  | succ depth ih =>
    apply List.Perm.cons
    exact (List.reverse_perm _).flatMap fun child _ => ih child

variable {α : Type} {rank : Nat} {view : View} {form : Form view.sizes rank κ}
  {visit : Nat → Code (List α × List Nat)} {found : Page κ Nat → List α}

/-- A tree is explored from right to left. -/
theorem explores
    (leaf : ∀ (a : Nat) (page : Page κ Nat), page.Stands 0 id view form a → visit a = .ok (found page, []))
    (inner : ∀ (a level : Nat) (page : Page κ (StoredNode κ level)),
      page.Stands (level + 1) Placed.address view form a → visit a = .ok ([], page.children.map Placed.address))
    {depth : Nat} {node : StoredNode κ depth} (stands : Stands view form depth node) :
    Explores visit [node.address] (visitOrder depth node) ((leaves depth node).reverse.flatMap found) := by
  induction depth with
  | zero => exact Explores.node (leaf node.address node.body stands) Explores.done
  | succ depth ih =>
    obtain ⟨root, children⟩ := stands
    have below : Explores visit ((Page.children node.body).reverse.map Placed.address) _ _ :=
      Explores.flatMap fun child member => ih (children child (List.mem_reverse.mp member))
    have turned : (leaves (depth + 1) node).reverse.flatMap found =
        (Page.children node.body).reverse.flatMap fun child => (leaves depth child).reverse.flatMap found := by
      simp [leaves, List.reverse_flatMap, List.flatMap_assoc]
    rw [List.map_reverse, ← List.append_nil (List.reverse _)] at below
    rw [turned]
    exact Explores.node (inner node.address depth node.body root) below

end Body

section Pair

variable {κ : Type} {rank : Nat} {sizes : Sizes} (form : Form sizes rank κ) (low middle high : κ)
  (one other : Nat)

/-- The length of a node with so many children. -/
def pageLen (children : Nat) : Nat := headerLen sizes + ((children + 1) * form.width + children * sizes.offset)

def leftPage : Page κ Nat := ⟨none, some (pageLen form 2 + pageLen form 1), [(low, one)], middle⟩

def rightPage : Page κ Nat := ⟨some (pageLen form 2), none, [(middle, other)], high⟩

def leftLeaf : StoredNode κ 0 := ⟨pageLen form 2, leftPage form low middle one⟩

def rightLeaf : StoredNode κ 0 := ⟨pageLen form 2 + pageLen form 1, rightPage form middle high other⟩

def rootPage : Page κ (StoredNode κ 0) :=
  ⟨none, none, [(low, leftLeaf form low middle one), (middle, rightLeaf form middle high other)], high⟩

/-- Two leaves with one entry each, below a root at the start of the file. -/
def pair : StoredNode κ 1 := ⟨0, rootPage form low middle high one other⟩

def encodePair : Bytes :=
  (rootPage form low middle high one other).encode form 1 Placed.address ++
    ((leftPage form low middle one).encode form 0 id ++ (rightPage form middle high other).encode form 0 id)

/-- The keys can be stored, and so can the addresses. -/
structure PairFits : Prop where
  low : form.Fits low
  middle : form.Fits middle
  high : form.Fits high
  one : one < undefinedForWidth sizes.offset
  other : other < undefinedForWidth sizes.offset
  place : pageLen form 2 + pageLen form 1 < undefinedForWidth sizes.offset

variable {form low middle high one other}

theorem encode_length {β : Type} {level : Nat} {addressOf : β → Nat} {page : Page κ β}
    (fits : page.Fits form level addressOf) :
    (page.encode form level addressOf).length = pageLen form page.entries.length := by
  rw [Page.encode, List.length_append, Page.encodeHeader_length, Page.encodeBody_length fits, pageLen]

theorem pageLen_pos (children : Nat) : 0 < pageLen form children := by
  unfold pageLen headerLen
  omega

theorem PairFits.left (fits : PairFits form low middle high one other) :
    (leftPage form low middle one).Fits form 0 id where
  level := by decide
  entries := by simp [leftPage]
  left := nofun
  right := fun _ same => Option.some.inj same ▸ fits.place
  keys := by simp [leftPage, fits.low]
  last := fits.middle
  children := by simp [leftPage, Page.children, fits.one]

theorem PairFits.right (fits : PairFits form low middle high one other) :
    (rightPage form middle high other).Fits form 0 id where
  level := by decide
  entries := by simp [rightPage]
  left := fun _ same => Option.some.inj same ▸ lt_of_le_of_lt (Nat.le_add_right _ _) fits.place
  right := nofun
  keys := by simp [rightPage, fits.middle]
  last := fits.high
  children := by simp [rightPage, Page.children, fits.other]

theorem PairFits.root (fits : PairFits form low middle high one other) :
    (rootPage form low middle high one other).Fits form 1 Placed.address where
  level := by decide
  entries := by simp [rootPage]
  left := nofun
  right := nofun
  keys := by simp [rootPage, fits.low, fits.middle]
  last := fits.high
  children := by
    have place := fits.place
    simp [rootPage, Page.children, leftLeaf, rightLeaf]
    omega

theorem encodePair_length (fits : PairFits form low middle high one other) :
    (encodePair form low middle high one other).length =
      pageLen form 2 + (pageLen form 1 + pageLen form 1) := by
  simp only [encodePair, List.length_append, encode_length fits.root, encode_length fits.left,
    encode_length fits.right]
  rfl

/-- A file that starts with the two leaves and their root holds the tree. -/
theorem pair_held {view : View} {form : Form view.sizes rank κ} (fits : PairFits form low middle high one other)
    (base : view.baseAddress = 0) {rest : Bytes}
    (file : view.file.bytes = encodePair form low middle high one other ++ rest) :
    Body.Held view form 1 (pair form low middle high one other) := by
  have bounded := view.file.bounded
  rw [file, List.length_append, encodePair_length fits] at bounded
  rw [encodePair, List.append_assoc, List.append_assoc] at file
  have inside : isizeMax < wordSize := isizeMax_lt_wordSize
  have header (children : Nat) : headerLen view.sizes ≤ pageLen form children := Nat.le_add_right _ _
  have two := header 2
  have single := header 1
  obtain ⟨root, left, right, -⟩ := View.holds_in_turn base file
  rw [encode_length fits.root] at left
  rw [List.length_append, encode_length fits.root, encode_length fits.left] at right
  constructor
  · refine ⟨⟨fits.root, root, ?_⟩, ?_⟩
    · change 0 + headerLen view.sizes < wordSize
      omega
    · intro child member
      have named : child = leftLeaf form low middle one ∨ child = rightLeaf form middle high other := by
        simpa [pair, rootPage, Page.children] using member
      rcases named with rfl | rfl
      · refine ⟨fits.left, left, ?_⟩
        change pageLen form 2 + headerLen view.sizes < wordSize
        omega
      · refine ⟨fits.right, right, ?_⟩
        change pageLen form 2 + pageLen form 1 + headerLen view.sizes < wordSize
        omega
  · have first := @pageLen_pos κ rank view.sizes form 2
    have second := @pageLen_pos κ rank view.sizes form 1
    change [0, pageLen form 2, pageLen form 2 + pageLen form 1].Nodup
    simp
    omega

end Pair

section Chunks

variable {build : Build} {view : View} {rank : Nat}

/-- The chunks that a leaf names. -/
def records (page : Page ChunkKey Nat) : List ChunkRecord :=
  page.entries.map fun entry => entry.1.record entry.2

def lowKey : ChunkKey := ⟨8, 1, [0]⟩
def middleKey : ChunkKey := ⟨6, 0, [4]⟩
def highKey : ChunkKey := ⟨0, 0, [8]⟩

theorem chunkKeys_fit : PairFits (chunkForm ⟨8, 8⟩ 1) lowKey middleKey highKey 4096 8192 where
  low := ⟨by decide, by decide, by decide, by decide⟩
  middle := ⟨by decide, by decide, by decide, by decide⟩
  high := ⟨by decide, by decide, by decide, by decide⟩
  one := by decide
  other := by decide
  place := by decide

def twoChunks : View where
  file := ⟨encodePair (chunkForm ⟨8, 8⟩ 1) lowKey middleKey highKey 4096 8192,
    by rw [encodePair_length chunkKeys_fit]; decide⟩
  baseAddress := 0
  sizes := ⟨8, 8⟩

end Chunks

end Oxcdf.Btree1
