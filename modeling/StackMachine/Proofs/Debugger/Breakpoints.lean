import Mathlib.Data.List.Basic
import StackMachine.Debugger.Breakpoint

set_option autoImplicit false

/-! # Breakpoints as a finite map

What is known of a table is which breakpoint stands at which address (`BreakpointTable.find?`). Each
change of a table is described by what it does to this map, at the address that it is about and at
all others. The list behind the map stays in increasing order of addresses, so it has each
breakpoint of the map once. `BreakpointTable.IsMap` collects these laws, and they hold of a table
after any sequence of changes (`BreakpointTable.isMap_build`).
-/

namespace StackMachine.BreakpointTable

/-- A change of a table: a request of the host, or a pause that is counted. -/
inductive Change where
  | request (r : Request)
  | hit (address : Nat)
  deriving DecidableEq, Repr

/-- The table after a change. -/
def change (t : BreakpointTable) : Change → BreakpointTable
  | .request r => (t.serve r).2
  | .hit address => t.recordHit address

/-- The table after changes of the empty one. -/
def build (changes : List Change) : BreakpointTable := changes.foldl change {}

/-- The change is about the breakpoint at an address. -/
def Change.Concerns (address : Nat) : Change → Prop
  | .request (.set a) | .request (.remove a) | .request (.setEnabled a _) | .hit a => a = address
  | .request .clear => True

variable (t : BreakpointTable) (address address' : Nat)

/-! ## The map -/

theorem contains_eq_isSome : t.contains address = (t.find? address).isSome := rfl

theorem address_of_find? {b : Breakpoint} (h : t.find? address = some b) : b.address = address := by
  have hfound := List.find?_some h
  simpa using hfound

/-- A change of one breakpoint shows at its address only. -/
theorem find?_update {f : Breakpoint → Breakpoint} (hf : ∀ b, (f b).address = b.address) :
    (t.update address f).find? address' =
      if address' = address then (t.find? address').map f else t.find? address' := by
  have hkeep : ((fun b : Breakpoint => decide (b.address = address')) ∘
      fun b => if b.address = address then f b else b) =
        fun b : Breakpoint => decide (b.address = address') := by
    funext b
    by_cases hb : b.address = address <;> simp [hb, hf]
  have hmap : (t.update address f).find? address' =
      (t.find? address').map fun b => if b.address = address then f b else b := by
    unfold find? update
    rw [List.find?_map, hkeep]
  rw [hmap]
  cases hfind : t.find? address' with
  | none => simp
  | some b =>
      have hb := t.address_of_find? address' hfind
      by_cases heq : address' = address
      · simp [hb, heq]
      · simp [hb, heq]

/-- A breakpoint that is put among others is found, and so are the others. -/
theorem find?_insert {b : Breakpoint} {entries : List Breakpoint}
    (h : ∀ b' ∈ entries, b'.address ≠ b.address) :
    (insert b entries).find? (·.address = address') =
      if address' = b.address then some b else entries.find? (·.address = address') := by
  induction entries with
  | nil =>
      by_cases heq : address' = b.address
      · simp [insert, heq]
      · simp [insert, heq, Ne.symm heq]
  | cons b' rest ih =>
      have hb' : b'.address ≠ b.address := h b' List.mem_cons_self
      have hrest := ih fun c hc => h c (List.mem_cons_of_mem _ hc)
      unfold insert
      by_cases hlt : b.address < b'.address
      · rw [if_pos hlt, List.find?_cons]
        by_cases heq : address' = b.address
        · simp [heq]
        · simp [heq, Ne.symm heq]
      · rw [if_neg hlt, List.find?_cons, hrest, List.find?_cons]
        by_cases heq : address' = b.address
        · simp [heq, hb']
        · simp [heq]

/-- The breakpoint that is set is there and enabled, with its hits if it was there before. -/
theorem find?_set :
    (t.set address).find? address' =
      if address' = address then
        some { (t.find? address).getD { address := address } with enabled := true }
      else t.find? address' := by
  unfold set
  cases hfind : t.find? address with
  | some b =>
      rw [contains_eq_isSome, hfind, Option.isSome_some, if_pos rfl, find?_update]
      · by_cases heq : address' = address
        · simp [heq, hfind]
        · simp [heq]
      · intro b'
        rfl
  | none =>
      have habsent : ∀ b ∈ t.entries, b.address ≠ address := by
        intro b hb
        have hnone := List.find?_eq_none.mp hfind b hb
        simpa using hnone
      rw [contains_eq_isSome, hfind, Option.isSome_none, if_neg Bool.false_ne_true]
      exact find?_insert address' habsent

theorem find?_remove :
    (t.remove address).find? address' =
      if address' = address then none else t.find? address' := by
  unfold find? remove
  rw [List.find?_filter]
  by_cases heq : address' = address
  · simp [heq]
  · rw [if_neg heq]
    congr 1
    funext b
    by_cases hb : b.address = address' <;> simp [hb, heq]

theorem find?_setEnabled (enabled : Bool) :
    (t.setEnabled address enabled).find? address' =
      if address' = address then (t.find? address').map fun b => { b with enabled }
      else t.find? address' :=
  t.find?_update address address' fun _ => rfl

theorem find?_recordHit :
    (t.recordHit address).find? address' =
      if address' = address then (t.find? address').map fun b => { b with hits := b.hits + 1 }
      else t.find? address' :=
  t.find?_update address address' fun _ => rfl

/-- **A change about one address leaves the breakpoints at all others alone.** -/
theorem find?_change_elsewhere {c : Change} (h : ¬ c.Concerns address) :
    (t.change c).find? address = t.find? address := by
  cases c with
  | hit a => rw [change, find?_recordHit, if_neg (Ne.symm h)]
  | request r =>
      cases r with
      | set a => rw [change, serve, find?_set, if_neg (Ne.symm h)]
      | remove a => rw [change, serve, find?_remove, if_neg (Ne.symm h)]
      | setEnabled a enabled => rw [change, serve, find?_setEnabled, if_neg (Ne.symm h)]
      | clear => exact absurd trivial h

/-! ## The order -/

/-- The breakpoints are in increasing order of their addresses. -/
def Increasing : Prop := t.entries.Pairwise fun b b' => b.address < b'.address

variable {t}

theorem Increasing.update (h : t.Increasing) {f : Breakpoint → Breakpoint}
    (hf : ∀ b, (f b).address = b.address) : (t.update address f).Increasing := by
  have hkeep : ∀ b : Breakpoint,
      (if b.address = address then f b else b).address = b.address := by
    intro b
    by_cases hb : b.address = address
    · rw [if_pos hb, hf]
    · rw [if_neg hb]
  unfold Increasing BreakpointTable.update
  rw [List.pairwise_map]
  simp only [hkeep]
  exact h

theorem mem_insert {b b' : Breakpoint} {entries : List Breakpoint} :
    b' ∈ insert b entries ↔ b' = b ∨ b' ∈ entries := by
  induction entries with
  | nil => simp [insert]
  | cons first rest ih =>
      unfold insert
      split
      · simp
      · simp only [List.mem_cons, ih, or_left_comm]

/-- A breakpoint is put behind those at smaller addresses and before those at larger ones. -/
theorem pairwise_insert {b : Breakpoint} {entries : List Breakpoint}
    (h : entries.Pairwise fun b b' => b.address < b'.address)
    (habsent : ∀ b' ∈ entries, b'.address ≠ b.address) :
    (insert b entries).Pairwise fun b b' => b.address < b'.address := by
  induction entries with
  | nil => simp [insert]
  | cons first rest ih =>
      obtain ⟨hfirst, hrest⟩ := List.pairwise_cons.mp h
      unfold insert
      by_cases hlt : b.address < first.address
      · rw [if_pos hlt]
        refine List.pairwise_cons.mpr ⟨?_, h⟩
        intro b' hb'
        rcases List.mem_cons.mp hb' with rfl | hb'
        · exact hlt
        · exact Nat.lt_trans hlt (hfirst b' hb')
      · rw [if_neg hlt]
        refine List.pairwise_cons.mpr
          ⟨?_, ih hrest fun b' hb' => habsent b' (List.mem_cons_of_mem _ hb')⟩
        intro b' hb'
        have hne := habsent first List.mem_cons_self
        rcases mem_insert.mp hb' with rfl | hb'
        · omega
        · exact hfirst b' hb'

theorem Increasing.set (h : t.Increasing) : (t.set address).Increasing := by
  unfold BreakpointTable.set
  by_cases hfind : t.contains address = true
  · rw [if_pos hfind]
    exact h.update address fun _ => rfl
  · rw [if_neg hfind]
    refine pairwise_insert h ?_
    intro b hb
    have hnone : t.find? address = none := by simpa [contains] using hfind
    simpa using List.find?_eq_none.mp hnone b hb

/-- **Every change keeps the order.** -/
theorem Increasing.change (h : t.Increasing) (c : Change) : (t.change c).Increasing := by
  cases c with
  | hit a => exact h.update a fun _ => rfl
  | request r =>
      cases r with
      | set a => exact h.set a
      | remove a => exact List.Pairwise.filter _ h
      | setEnabled a enabled => exact h.update a fun _ => rfl
      | clear => exact List.Pairwise.nil

/-- So the breakpoints that are listed are those of the map. -/
theorem Increasing.mem_iff (h : t.Increasing) (b : Breakpoint) :
    b ∈ t.entries ↔ t.find? b.address = some b := by
  constructor
  · intro hb
    obtain ⟨before, after, hsplit⟩ := List.append_of_mem hb
    refine List.find?_eq_some_iff_append.mpr ⟨by simp, before, after, hsplit, ?_⟩
    intro b' hb'
    have hpairs : t.entries.Pairwise fun b b' => b.address < b'.address := h
    rw [hsplit, List.pairwise_append] at hpairs
    have hlt := hpairs.2.2 b' hb' b List.mem_cons_self
    simp only [Bool.not_eq_true', decide_eq_false_iff_not]
    omega
  · exact List.mem_of_find?_eq_some

/-! ## The laws -/

variable (t)

/-- The laws of a finite map from addresses to breakpoints. -/
structure IsMap : Prop where
  increasing : t.entries.Pairwise fun b b' => b.address < b'.address
  listed : ∀ b, b ∈ t.entries ↔ t.find? b.address = some b
  elsewhere : ∀ (c : Change) (address : Nat), ¬ c.Concerns address →
    (t.change c).find? address = t.find? address
  set_new : ∀ address, t.find? address = none →
    (t.serve (.set address)).1 = some true ∧
      (t.serve (.set address)).2.find? address = some { address, enabled := true, hits := 0 }
  set_existing : ∀ address b, t.find? address = some b →
    (t.serve (.set address)).1 = some false ∧
      (t.serve (.set address)).2.find? address = some { b with enabled := true }
  remove : ∀ address,
    (t.serve (.remove address)).1 = some (t.find? address).isSome ∧
      (t.serve (.remove address)).2.find? address = none
  setEnabled : ∀ address enabled,
    (t.serve (.setEnabled address enabled)).1 = some (t.find? address).isSome ∧
      (t.serve (.setEnabled address enabled)).2.find? address =
        (t.find? address).map fun b => { b with enabled }
  clear : ∀ address, (t.serve .clear).2.find? address = none
  hit : ∀ address, (t.recordHit address).find? address =
    (t.find? address).map fun b => { b with hits := b.hits + 1 }

variable {t}

theorem Increasing.isMap (h : t.Increasing) : t.IsMap where
  increasing := h
  listed := h.mem_iff
  elsewhere c address hc := t.find?_change_elsewhere address hc
  set_new address hnone := by
    constructor
    · simp [serve, contains, hnone]
    · simp [serve, find?_set, hnone]
  set_existing address b hsome := by
    constructor
    · simp [serve, contains, hsome]
    · simp [serve, find?_set, hsome]
  remove address := ⟨rfl, by simp [serve, find?_remove]⟩
  setEnabled address enabled := ⟨rfl, by simp [serve, find?_setEnabled]⟩
  clear address := rfl
  hit address := by simp [find?_recordHit]

/-- **After any sequence of changes, the table is a finite map.** -/
theorem isMap_build (changes : List Change) : (build changes).IsMap := by
  have hincreasing : (build changes).Increasing :=
    List.foldlRecOn changes change List.Pairwise.nil fun _ h c _ => h.change c
  exact hincreasing.isMap

end StackMachine.BreakpointTable
