import StackMachine.Proofs.Heap.Requests

set_option autoImplicit false

/-! # Blocks handed out by a heap

A `Ledger` keeps, beside a heap, the blocks handed out since the last reset. One request leaves it
balanced (`Ledger.Balanced.after`), and so do all (`Ledger.Balanced.run`), whatever is stored in
between.
-/

namespace StackMachine.Heap

/-! ## Ledgers -/

/-- A block that was handed out: the position the answer named, and what was asked for. -/
structure Block where
  base : Int
  allocation : Allocation
  deriving DecidableEq, Repr

namespace Block

/-- The number of bytes of the block. -/
def size (b : Block) : Nat := b.allocation.size

/-- The position lies in the block. -/
def Covers (b : Block) (i : Int) : Prop := b.base ≤ i ∧ i < b.base + b.size

/-- The first block ends where the second one starts, or before. -/
def Before (b b' : Block) : Prop := b.base + b.size ≤ b'.base

theorem Before.disjoint {b b' : Block} (h : b.Before b') (i : Int) :
    ¬ (b.Covers i ∧ b'.Covers i) := by
  rintro ⟨h₁, h₂⟩
  unfold Covers at h₁ h₂
  unfold Before at h
  omega

end Block

/-- A heap and the blocks it handed out since the last reset, the first one first. -/
structure Ledger where
  heap : Heap
  blocks : List Block := []
  deriving DecidableEq, Repr

namespace Ledger

/-- A fresh heap. -/
def opened (capacity : Nat) : Ledger where
  heap := zeroed capacity

/-- The blocks handed out once the request was answered. -/
def note (blocks : List Block) : Request → Except Fault Answer → List Block
  | .reset, _ => []
  | .allocation a, .ok answer => blocks ++ [⟨answer.base, a⟩]
  | _, _ => blocks

/-- The ledger after a request. -/
def after (l : Ledger) (r : Request) : Ledger where
  heap := (r.perform l.heap).2
  blocks := note l.blocks r (r.perform l.heap).1

/-- The ledger after requests, one after another. -/
def run (l : Ledger) (requests : List Request) : Ledger := requests.foldl after l

/-- The blocks fill the heap up to the cursor, one behind another. -/
structure Balanced (l : Ledger) : Prop where
  admissible : l.heap.Admissible
  cursor : l.heap.cursor = (l.blocks.map Block.size).sum
  inside : ∀ b ∈ l.blocks, 0 ≤ b.base ∧ b.base + b.size ≤ l.heap.cursor
  ordered : l.blocks.Pairwise Block.Before

variable {l : Ledger}

theorem Balanced.opened {capacity : Nat} (hcap : capacity ≤ Config.maxHeapSize) :
    (Ledger.opened capacity).Balanced where
  admissible := .zeroed hcap
  cursor := rfl
  inside := nofun
  ordered := List.Pairwise.nil

/-- A new block lies behind the others and ends at the cursor. -/
theorem Balanced.extend (hl : l.Balanced) {a : Allocation} {answer : Answer}
    (hbase : answer.base = l.heap.cursor) (room : a.size ≤ l.heap.remaining) :
    (Ledger.mk (l.heap.place a.content) (l.blocks ++ [⟨answer.base, a⟩])).Balanced where
  admissible := place_admissible hl.admissible (by rw [Allocation.length_content]; exact room)
  cursor := by
    show l.heap.cursor + a.content.length = _
    rw [hl.cursor, Allocation.length_content, List.map_append, List.sum_append]
    rfl
  inside := by
    intro b hb
    show 0 ≤ b.base ∧ b.base + b.size ≤ ((l.heap.cursor + a.content.length : Nat) : Int)
    rw [Allocation.length_content]
    rcases List.mem_append.mp hb with hb | hb
    · have := hl.inside b hb
      omega
    · rw [List.mem_singleton] at hb
      subst hb
      simp only [hbase, Block.size]
      omega
  ordered := by
    refine List.pairwise_append.mpr ⟨hl.ordered, List.pairwise_singleton _ _, ?_⟩
    intro b hb b' hb'
    rw [List.mem_singleton] at hb'
    subst hb'
    show b.base + b.size ≤ answer.base
    rw [hbase]
    exact (hl.inside b hb).2

/-- A request that is no allocation and no reset changes neither the cursor nor the blocks. -/
theorem Balanced.access (hl : l.Balanced) {r : Request} (halloc : ∀ a, r ≠ .allocation a)
    (hreset : r ≠ .reset) : (l.after r).Balanced := by
  have hcursor : (l.after r).heap.cursor = l.heap.cursor := Request.cursor_perform halloc hreset
  have hblocks : (l.after r).blocks = l.blocks := by
    cases r with
    | allocation a => exact absurd rfl (halloc a)
    | reset => exact absurd rfl hreset
    | _ => rfl
  constructor
  · exact hl.admissible.of_bounded r.perform_bounded
  · rw [hcursor, hblocks]
    exact hl.cursor
  · rw [hcursor, hblocks]
    exact hl.inside
  · rw [hblocks]
    exact hl.ordered

/-- **One request leaves the ledger balanced.** -/
theorem Balanced.after (hl : l.Balanced) (r : Request) : (l.after r).Balanced := by
  cases r with
  | reset =>
      have ha : l.heap.reset.Admissible :=
        hl.admissible.of_bounded (Request.perform_bounded .reset)
      exact ⟨ha, rfl, nofun, List.Pairwise.nil⟩
  | allocation a =>
      rw [Ledger.after, Request.perform, a.perform_eq hl.admissible]
      cases hf : a.fault? l.heap.remaining with
      | some fault => exact hl
      | none =>
          have hroom := (Allocation.fault?_eq_none_iff.mp hf).2
          exact hl.extend (a.base_answer hl.admissible) hroom
  | load8 | load32 | store8 | store32 | objectLength | arrayGet | arraySet | readText =>
      exact hl.access (fun _ => nofun) nofun

/-- **So do requests in any order and number.** -/
theorem Balanced.run (hl : l.Balanced) (requests : List Request) : (l.run requests).Balanced := by
  induction requests generalizing l with
  | nil => exact hl
  | cons r requests ih => exact ih (hl.after r)

@[simp] theorem capacity_run (requests : List Request) :
    (l.run requests).heap.capacity = l.heap.capacity := by
  induction requests generalizing l with
  | nil => rfl
  | cons r requests ih => exact (ih (l := l.after r)).trans r.perform_bounded.capacity

/-- Only a reset moves the cursor back. -/
theorem Balanced.cursor_le (hl : l.Balanced) {r : Request} (hr : r ≠ .reset) :
    l.heap.cursor ≤ (r.perform l.heap).2.cursor := by
  by_cases halloc : ∀ a, r ≠ .allocation a
  · exact Nat.le_of_eq (Request.cursor_perform halloc hr).symm
  · obtain ⟨a, rfl⟩ := Classical.not_forall_not.mp halloc
    rw [Request.perform, a.perform_eq hl.admissible]
    cases a.fault? l.heap.remaining with
    | some fault => exact Nat.le_refl _
    | none => exact Nat.le_add_right _ _

/-- **Allocating is safe after any requests.** The blocks handed out since the last reset lie in
the heap, one behind another, and fill it up to the cursor, which only a reset moves back. A plain
block is zero when it is handed out. An allocation is refused exactly when the heap has too little
room or the length is negative, and then the heap stays as it is. -/
theorem allocates_safely {capacity : Nat} (hcap : capacity ≤ Config.maxHeapSize)
    (requests : List Request) :
    let l := (Ledger.opened capacity).run requests
    (∀ b ∈ l.blocks, 0 ≤ b.base ∧ b.base + b.size ≤ capacity) ∧
      l.blocks.Pairwise Block.Before ∧
      l.blocks.Pairwise (fun b b' => ∀ i, ¬ (b.Covers i ∧ b'.Covers i)) ∧
      l.heap.cursor = (l.blocks.map Block.size).sum ∧
      l.heap.capacity = capacity ∧ l.heap.cursor + l.heap.remaining = capacity ∧
      (∀ r, r ≠ Request.reset → l.heap.cursor ≤ (r.perform l.heap).2.cursor) ∧
      (∀ size, l.heap.remaining < size →
        allocate size l.heap = .error (.heapOverflow size l.heap.remaining) l.heap) ∧
      (∀ size, size ≤ l.heap.remaining → ∃ h', allocate size l.heap = .ok l.heap.cursor h' ∧
        ∀ i < size, h'.bytes[l.heap.cursor + i]? = some 0) ∧
      (∀ length, (∃ fault h', allocateArray length l.heap = .error fault h') ↔
        length.toInt < 0 ∨ l.heap.remaining < 4 * length.toInt + 4) ∧
      (∀ text, (∃ fault h', allocateText text l.heap = .error fault h') ↔
        l.heap.remaining < (textBytes text).length + 5) ∧
      ∀ (a : Allocation) fault h', a.perform l.heap = (.error fault, h') → h' = l.heap := by
  intro l
  have hl : l.Balanced := (Balanced.opened hcap).run requests
  have ha : l.heap.Admissible := hl.admissible
  have hcapacity : l.heap.capacity = capacity :=
    (capacity_run requests).trans (Array.size_replicate)
  have hsum := ha.cursor_add_remaining
  refine ⟨fun b hb => ?_, hl.ordered, hl.ordered.imp Block.Before.disjoint, hl.cursor, hcapacity,
    hcapacity ▸ hsum, fun r => hl.cursor_le, fun size => allocate_eq_error ha, fun size room => ?_,
    allocateArray_refused_iff ha, allocateText_refused_iff ha, fun a _ _ => a.eq_of_refused ha⟩
  · have := hl.inside b hb
    omega
  · refine ⟨_, allocate_eq_ok ha room, fun i hi => ?_⟩
    have hzeros : Holds (l.heap.place (List.replicate size 0)).bytes l.heap.cursor
        (List.replicate size 0) :=
      holds_overwrite (by rw [List.length_replicate]; show _ ≤ l.heap.capacity; omega)
    rw [hzeros i (by rwa [List.length_replicate]), List.getElem?_replicate, if_pos hi]

/-- Three blocks of a heap with bytes stored behind the cursor, and a refused array. -/
theorem allocates_safely_behind_stores :
    let requests : List Request := [.store32 20 (-1), .store32 1 (-1), .allocation (.block 3),
      .allocation (.array 2), .store8 16 255, .allocation (.text "hi"), .allocation (.array 1)]
    let l := (Ledger.opened 24).run requests
    24 ≤ Config.maxHeapSize ∧ l.blocks = [⟨0, .block 3⟩, ⟨3, .array 2⟩, ⟨15, .text "hi"⟩] ∧
      l.blocks.Pairwise (fun b b' => ∀ i, ¬ (b.Covers i ∧ b'.Covers i)) ∧
      l.heap.cursor = (l.blocks.map Block.size).sum ∧
      l.heap.cursor + l.heap.remaining = 24 ∧ l.heap.remaining = 2 ∧
      (∃ fault h', allocateArray 0 l.heap = .error fault h') := by
  intro requests l
  have hcap : 24 ≤ Config.maxHeapSize := by decide
  have hroom : l.heap.remaining = 2 := rfl
  obtain ⟨-, -, hdisjoint, hcursor, -, hsum, -, -, -, harray, -, -⟩ :=
    allocates_safely hcap requests
  refine ⟨hcap, rfl, hdisjoint, hcursor, hsum, hroom, (harray 0).mpr (Or.inr ?_)⟩
  rw [hroom]
  decide

end Ledger

end StackMachine.Heap
