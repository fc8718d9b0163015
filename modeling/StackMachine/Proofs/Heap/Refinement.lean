import StackMachine.Proofs.Heap.Ledger
import StackMachine.Proofs.Heap.Store

set_option autoImplicit false

/-! # A heap as a store of objects

As long as addresses are used as they were handed out since the last reset (`Ledger.Permits`), a
heap and a store answer one request alike (`Refines.serve`), and then all
(`Refines.run`). So the objects of a heap never touch each other.
-/

namespace StackMachine.Heap

/-! ## Addresses used as they were handed out -/

namespace Ledger

/-- The address is that of an array allocated since the last reset. -/
def IsArray (l : Ledger) (address : Word) : Prop :=
  ∃ length, ⟨address.toInt, .array length⟩ ∈ l.blocks

/-- The address is that of a text allocated since the last reset. -/
def IsText (l : Ledger) (address : Word) : Prop :=
  ∃ t, ⟨address.toInt, .text t⟩ ∈ l.blocks

/-- The request is an allocation or a reset, or uses an object as what it was allocated. -/
def Permits (l : Ledger) : Request → Prop
  | .allocation _ | .reset => True
  | .objectLength address => l.IsArray address ∨ l.IsText address
  | .arrayGet address _ | .arraySet address _ _ => l.IsArray address
  | .readText address => l.IsText address
  | .load8 _ | .load32 _ | .store8 _ _ | .store32 _ _ => False

/-- Each request is permitted when it is made. -/
def PermitsAll (l : Ledger) : List Request → Prop
  | [] => True
  | r :: requests => l.Permits r ∧ (l.after r).PermitsAll requests

/-- The answers to requests, one after another. -/
def answers (l : Ledger) : List Request → List (Except Fault Answer)
  | [] => []
  | r :: requests => (r.perform l.heap).1 :: (l.after r).answers requests

end Ledger

/-! ## Requests to both -/

namespace Allocation

/-- The object is one that the allocation made, with any elements. -/
def Makes : Allocation → Object → Prop
  | array length, .array elements => length.toInt = elements.length
  | text t, .text t' => t = t'
  | _, _ => False

variable {a : Allocation} {o : Object}

theorem makes_object? (hvalid : a.invalid? = none) (ho : a.object? = some o) : a.Makes o := by
  cases a with
  | block size => cases ho
  | array length =>
      cases ho
      have hlength := Word.index?_eq_some_iff.mp (index?_of_valid hvalid)
      show length.toInt = (List.replicate length.toInt.toNat (0 : Word)).length
      rw [List.length_replicate]
      exact hlength
  | text t => cases ho; rfl

theorem Makes.set {elements : List Word} (h : a.Makes (.array elements)) (i : Nat) (value : Word) :
    a.Makes (.array (elements.set i value)) := by
  cases a with
  | block size => exact h
  | array length =>
      show length.toInt = (elements.set i value).length
      rw [List.length_set]
      exact h
  | text t => exact h

theorem content_eq (hvalid : a.invalid? = none) (ho : a.object? = some o) :
    a.content = o.bytes := by
  cases a with
  | block size => cases ho
  | array length => cases ho; exact Object.arrayContent_eq (index?_of_valid hvalid)
  | text t => cases ho; rfl

end Allocation

/-- The store represents the heap and has the objects that the heap handed out. -/
structure Refines (l : Ledger) (s : Store) : Prop where
  represents : Represents l.heap s
  covers : ∀ {address a}, ⟨address.toInt, a⟩ ∈ l.blocks → a.object?.isSome →
    ∃ o, s.objects address = some o ∧ a.Makes o

namespace Refines

variable {l : Ledger} {s : Store}

theorem opened {capacity : Nat} (hcap : capacity ≤ Config.maxHeapSize) :
    Refines (Ledger.opened capacity) (Store.empty capacity) where
  represents := .empty hcap
  covers := nofun

/-- A plain block is no object. -/
theorem grow (hr : Refines l s) {size : Nat} (room : size ≤ l.heap.remaining) (base : Int) :
    Refines ⟨l.heap.place (List.replicate size 0), l.blocks ++ [⟨base, .block size⟩]⟩
      { s with used := s.used + size } where
  represents := by
    have hlength : (List.replicate size (0 : UInt8)).length = size := List.length_replicate
    have hgrow := hr.represents.grow (Nat.le_trans (Nat.le_of_eq hlength) room)
    rwa [hlength] at hgrow
  covers := by
    intro address a hmem hobject
    rcases List.mem_append.mp hmem with hmem | hmem
    · exact hr.covers hmem hobject
    · obtain ⟨-, rfl⟩ := Block.mk.inj (List.mem_singleton.mp hmem)
      cases hobject

/-- A new object has an address that no object had. -/
theorem create (hr : Refines l s) {a : Allocation} {o : Object} (hmakes : a.Makes o)
    (room : o.bytes.length ≤ l.heap.remaining) :
    Refines ⟨l.heap.place o.bytes, l.blocks ++ [⟨l.heap.cursor, a⟩]⟩
      ({ s with used := s.used + o.bytes.length }.put (Word.ofIndex s.used) o) where
  represents := hr.represents.create room
  covers := by
    have hadmissible := hr.represents.admissible
    intro address a' hmem hobject
    rcases List.mem_append.mp hmem with hmem | hmem
    · obtain ⟨o', ho', hmakes'⟩ := hr.covers hmem hobject
      have hne : address ≠ Word.ofIndex s.used := by
        rintro rfl
        rw [hr.represents.fresh] at ho'
        cases ho'
      exact ⟨o', (Store.objects_put_of_ne o hne).trans ho', hmakes'⟩
    · obtain ⟨hbase, rfl⟩ := Block.mk.inj (List.mem_singleton.mp hmem)
      have haddress : address = Word.ofIndex s.used := by
        rw [hr.represents.used, ← Int32.toInt_inj, hbase,
          Word.toInt_ofIndex (hadmissible.lt_positions hadmissible.cursor_le)]
      rw [haddress]
      exact ⟨o, Store.objects_put _ _ _, hmakes⟩

/-- Allocating gives the same answer and leaves heap and store alike. -/
theorem allocate (hr : Refines l s) (a : Allocation) :
    (s.allocate a).1 = (a.perform l.heap).1 ∧
      Refines (l.after (.allocation a)) (s.allocate a).2 := by
  have ha := hr.represents.admissible
  rw [Ledger.after, Request.perform, Store.allocate, hr.represents.remaining_eq, a.perform_eq ha]
  cases hf : a.fault? l.heap.remaining with
  | some fault => exact ⟨rfl, hr⟩
  | none =>
      obtain ⟨hvalid, room⟩ := Allocation.fault?_eq_none_iff.mp hf
      dsimp only [Ledger.note]
      rw [a.base_answer ha]
      refine ⟨by rw [hr.represents.used], ?_⟩
      cases ho : a.object? with
      | none =>
          cases a with
          | block size => exact hr.grow room _
          | array length => cases ho
          | text t => cases ho
      | some o =>
          have hcontent := Allocation.content_eq hvalid ho
          rw [← a.length_content, hcontent] at room ⊢
          exact hr.create (Allocation.makes_object? hvalid ho) room

/-- Changing an element of an array changes the array in the store. -/
theorem setElement (hr : Refines l s) {address index : Word} {elements : List Word} {i : Nat}
    (ho : s.objects address = some (.array elements))
    (hi : Object.position elements index = .ok i) (value : Word) :
    ∃ h', Heap.arraySet address index value l.heap = .ok () h' ∧
      Refines ⟨h', l.blocks⟩ (s.put address (.array (elements.set i value))) := by
  obtain ⟨n, hn, hat⟩ := hr.represents.lies ho
  have hset := hat.arraySet hr.represents.admissible hn index value
  rw [hi] at hset
  have hlt := (Object.position_eq_ok_iff.mp hi).2
  refine ⟨_, hset, hr.represents.setElement ho hn hlt, ?_⟩
  intro address' a' hmem hobject
  obtain ⟨o', ho', hmakes'⟩ := hr.covers hmem hobject
  by_cases heq : address' = address
  · subst heq
    cases ho.symm.trans ho'
    exact ⟨_, Store.objects_put _ _ _, hmakes'.set i value⟩
  · exact ⟨o', (Store.objects_put_of_ne _ heq).trans ho', hmakes'⟩

theorem arraySet_eq_error (hr : Refines l s) {address index : Word} {elements : List Word}
    {fault : Fault} (ho : s.objects address = some (.array elements))
    (hi : Object.position elements index = .error fault) (value : Word) :
    Heap.arraySet address index value l.heap = .error fault l.heap := by
  obtain ⟨n, hn, hat⟩ := hr.represents.lies ho
  rw [hat.arraySet hr.represents.admissible hn index value, hi]

theorem isArray (hr : Refines l s) {address : Word} (h : l.IsArray address) :
    ∃ elements, s.objects address = some (.array elements) := by
  obtain ⟨length, hmem⟩ := h
  obtain ⟨o, ho, hmakes⟩ := hr.covers hmem rfl
  cases o with
  | array elements => exact ⟨elements, ho⟩
  | text t => cases hmakes

theorem isText (hr : Refines l s) {address : Word} (h : l.IsText address) :
    ∃ t, s.objects address = some (.text t) := by
  obtain ⟨t, hmem⟩ := h
  obtain ⟨o, ho, hmakes⟩ := hr.covers hmem rfl
  cases o with
  | array elements => cases hmakes
  | text t => exact ⟨t, ho⟩

theorem objectLength (hr : Refines l s) {address : Word} {o : Object}
    (ho : s.objects address = some o) : l.heap.objectLength address = .ok o.length := by
  obtain ⟨n, hn, hat⟩ := hr.represents.lies ho
  exact hat.objectLength hr.represents.admissible hn

theorem arrayGet (hr : Refines l s) {address : Word} {elements : List Word}
    (ho : s.objects address = some (.array elements)) (index : Word) :
    l.heap.arrayGet address index =
      (Object.position elements index).map fun i => elements.getD i 0 := by
  obtain ⟨n, hn, hat⟩ := hr.represents.lies ho
  exact hat.arrayGet hr.represents.admissible hn index

theorem readText (hr : Refines l s) {address : Word} {t : String}
    (ho : s.objects address = some (.text t)) :
    l.heap.readText address = .ok (Object.reading t) := by
  obtain ⟨n, hn, hat⟩ := hr.represents.lies ho
  exact hat.readText hr.represents.admissible hn

theorem isObject (hr : Refines l s) {address : Word} (h : l.IsArray address ∨ l.IsText address) :
    ∃ o, s.objects address = some o := by
  rcases h with h | h
  · obtain ⟨elements, ho⟩ := hr.isArray h
    exact ⟨_, ho⟩
  · obtain ⟨t, ho⟩ := hr.isText h
    exact ⟨_, ho⟩

/-- **Heap and store answer a permitted request alike.** -/
theorem serve (hr : Refines l s) {r : Request} (hp : l.Permits r) :
    ∃ s', s.serve r = some ((r.perform l.heap).1, s') ∧ Refines (l.after r) s' := by
  cases r with
  | allocation a =>
      obtain ⟨hanswer, hafter⟩ := hr.allocate a
      refine ⟨(s.allocate a).2, ?_, hafter⟩
      rw [Store.serve, Request.perform, ← hanswer]
  | objectLength address =>
      obtain ⟨o, ho⟩ := hr.isObject hp
      refine ⟨s, ?_, hr⟩
      rw [Store.serve, Request.perform, ho, hr.objectLength ho]
      rfl
  | arrayGet address index =>
      obtain ⟨elements, ho⟩ := hr.isArray hp
      refine ⟨s, ?_, hr⟩
      rw [Store.serve, Request.perform, ho, hr.arrayGet ho]
      dsimp only
      cases Object.position elements index <;> rfl
  | arraySet address index value =>
      obtain ⟨elements, ho⟩ := hr.isArray hp
      rw [Ledger.after, Store.serve, Request.perform, ho]
      dsimp only
      cases hi : Object.position elements index with
      | ok i =>
          obtain ⟨h', hset, hafter⟩ := hr.setElement ho hi value
          rw [answered_of_ok hset]
          exact ⟨_, rfl, hafter⟩
      | error fault =>
          rw [answered_of_error (hr.arraySet_eq_error ho hi value)]
          exact ⟨s, rfl, hr⟩
  | readText address =>
      obtain ⟨t, ho⟩ := hr.isText hp
      refine ⟨s, ?_, hr⟩
      rw [Store.serve, Request.perform, ho, hr.readText ho]
      rfl
  | reset =>
      refine ⟨Store.empty s.capacity, rfl, ?_⟩
      rw [hr.represents.capacity]
      exact .opened hr.represents.admissible.capacity_le
  | load8 address => cases hp
  | load32 address => cases hp
  | store8 address value => cases hp
  | store32 address value => cases hp

/-- **So they answer all requests alike.** -/
theorem run (hr : Refines l s) {requests : List Request} (hp : l.PermitsAll requests) :
    s.answers requests = some (l.answers requests) ∧ ∃ s', Refines (l.run requests) s' := by
  induction requests generalizing l s with
  | nil => exact ⟨rfl, s, hr⟩
  | cons r requests ih =>
      obtain ⟨s₁, hserve, hafter⟩ := hr.serve hp.1
      obtain ⟨hanswers, hrun⟩ := ih hafter hp.2
      refine ⟨?_, hrun⟩
      rw [Store.answers, hserve, Option.bind_eq_bind, Option.bind_some]
      dsimp only
      rw [hanswers]
      rfl

/-! ### What an object's user sees -/

/-- A new object has an address of its own. -/
theorem fresh (hr : Refines l s) {a : Allocation} {address : Word} {h' : Heap}
    (hp : a.perform l.heap = (.ok (.word address), h')) :
    ¬ (l.IsArray address ∨ l.IsText address) := by
  intro hobject
  obtain ⟨o, ho⟩ := hr.isObject hobject
  have haddress : a.answer l.heap.cursor = .word address := by
    rw [a.perform_eq hr.represents.admissible] at hp
    cases hf : a.fault? l.heap.remaining with
    | some fault => rw [hf] at hp; cases hp
    | none => rw [hf] at hp; exact (Except.ok.inj (Prod.mk.inj hp).1)
  have hused : address = Word.ofIndex s.used := by
    rw [hr.represents.used]
    cases a with
    | block size => cases haddress
    | array length => exact (Answer.word.inj haddress).symm
    | text t => exact (Answer.word.inj haddress).symm
  rw [hused, hr.represents.fresh] at ho
  cases ho

/-- The elements of an array: as many as were asked for, and an access outside fails. -/
theorem array_access (hr : Refines l s) {address length : Word}
    (hmem : ⟨address.toInt, .array length⟩ ∈ l.blocks) (index : Word) :
    l.heap.objectLength address = .ok length ∧
      (0 ≤ index.toInt ∧ index.toInt < length.toInt →
        (∃ w, l.heap.arrayGet address index = .ok w) ∧
        ∀ value, ∃ h', Heap.arraySet address index value l.heap = .ok () h') ∧
      (¬ (0 ≤ index.toInt ∧ index.toInt < length.toInt) →
        l.heap.arrayGet address index = .error (.indexOutOfBounds index length) ∧
        ∀ value, Heap.arraySet address index value l.heap =
          .error (.indexOutOfBounds index length) l.heap) := by
  obtain ⟨o, ho, hmakes⟩ := hr.covers hmem rfl
  cases o with
  | text t => cases hmakes
  | array elements =>
      have hlength : length.toInt = elements.length := hmakes
      have hword : Word.ofIndex elements.length = length := by
        rw [Word.ofIndex, ← hlength, Int32.ofInt_toInt]
      have hget := hr.arrayGet ho index
      refine ⟨?_, fun hinside => ?_, fun houtside => ?_⟩
      · rw [hr.objectLength ho, Object.length, hword]
      · rw [hlength] at hinside
        have hi : Object.position elements index = .ok index.toInt.toNat := if_pos hinside
        rw [hi] at hget
        refine ⟨⟨_, hget⟩, fun value => ?_⟩
        obtain ⟨h', hset, -⟩ := hr.setElement ho hi value
        exact ⟨h', hset⟩
      · rw [hlength] at houtside
        have hi : Object.position elements index = .error (.indexOutOfBounds index length) := by
          rw [Object.position, if_neg houtside, hword]
        rw [hi] at hget
        exact ⟨hget, hr.arraySet_eq_error ho hi⟩

/-- Changing an element changes no other object, and no length. -/
theorem arraySet_frame (hr : Refines l s) {address index value : Word} {h' : Heap}
    (harray : l.IsArray address) (hset : Heap.arraySet address index value l.heap = .ok () h') :
    (∀ other, l.IsArray other ∨ l.IsText other →
        h'.objectLength other = l.heap.objectLength other) ∧
      (∀ other, l.IsArray other → other ≠ address →
        ∀ j, h'.arrayGet other j = l.heap.arrayGet other j) ∧
      ∀ other, l.IsText other → h'.readText other = l.heap.readText other := by
  obtain ⟨elements, ho⟩ := hr.isArray harray
  cases hi : Object.position elements index with
  | error fault =>
      rw [hr.arraySet_eq_error ho hi] at hset
      cases hset
  | ok i =>
      obtain ⟨h₁, hset₁, hafter⟩ := hr.setElement ho hi value
      cases hset₁.symm.trans hset
      have hother : ∀ {other o}, other ≠ address → s.objects other = some o →
          (s.put address (.array (elements.set i value))).objects other = some o :=
        fun hne ho' => (Store.objects_put_of_ne _ hne).trans ho'
      refine ⟨fun other hobject => ?_, fun other hother' hne j => ?_, fun other htext => ?_⟩
      · by_cases heq : other = address
        · subst heq
          rw [hr.objectLength ho, hafter.objectLength (Store.objects_put _ _ _), Object.length,
            List.length_set, Object.length]
        · obtain ⟨o, ho'⟩ := hr.isObject hobject
          rw [hr.objectLength ho', hafter.objectLength (hother heq ho')]
      · obtain ⟨elements', ho'⟩ := hr.isArray hother'
        rw [hr.arrayGet ho', hafter.arrayGet (hother hne ho')]
      · obtain ⟨t, ho'⟩ := hr.isText htext
        have hne : other ≠ address := by
          rintro rfl
          cases ho.symm.trans ho'
        rw [hr.readText ho', hafter.readText (hother hne ho')]

end Refines

/-- **A heap is used as a store of objects.** When addresses are used as they were handed out
since the last reset, both answer all requests alike. So a new object has an address of its own,
an array keeps its length and serves exactly the indices below it, changing an element changes
nothing else, and a text is read byte by byte, hence as itself exactly when it is ASCII. -/
theorem Store.answers_as_heap {capacity : Nat} (hcap : capacity ≤ Config.maxHeapSize)
    {requests : List Request} (hp : (Ledger.opened capacity).PermitsAll requests) :
    (Store.empty capacity).answers requests = some ((Ledger.opened capacity).answers requests) ∧
      let l := (Ledger.opened capacity).run requests
      (∀ (a : Allocation) address h', a.perform l.heap = (.ok (.word address), h') →
        ¬ (l.IsArray address ∨ l.IsText address)) ∧
      (∀ address length, ⟨address.toInt, .array length⟩ ∈ l.blocks → ∀ index,
        l.heap.objectLength address = .ok length ∧
        (0 ≤ index.toInt ∧ index.toInt < length.toInt →
          (∃ w, l.heap.arrayGet address index = .ok w) ∧
          ∀ value, ∃ h', arraySet address index value l.heap = .ok () h') ∧
        (¬ (0 ≤ index.toInt ∧ index.toInt < length.toInt) →
          l.heap.arrayGet address index = .error (.indexOutOfBounds index length) ∧
          ∀ value, arraySet address index value l.heap =
            .error (.indexOutOfBounds index length) l.heap)) ∧
      (∀ address index value h', l.IsArray address →
        arraySet address index value l.heap = .ok () h' →
        (∀ other, l.IsArray other ∨ l.IsText other →
          h'.objectLength other = l.heap.objectLength other) ∧
        (∀ other, l.IsArray other → other ≠ address →
          ∀ j, h'.arrayGet other j = l.heap.arrayGet other j) ∧
        ∀ other, l.IsText other → h'.readText other = l.heap.readText other) ∧
      (∀ address t, ⟨address.toInt, .text t⟩ ∈ l.blocks →
        l.heap.readText address =
          .ok (String.ofList ((textBytes t).map fun b => Char.ofNat b.toNat)) ∧
        (l.heap.readText address = .ok t ↔ ∀ c ∈ t.toList, c.toNat < 128)) := by
  obtain ⟨hanswers, s, hr⟩ := (Refines.opened hcap).run hp
  refine ⟨hanswers, fun a address h' => hr.fresh, fun address length hmem => hr.array_access hmem,
    fun address index value h' => hr.arraySet_frame, fun address t hmem => ?_⟩
  obtain ⟨o, ho, hmakes⟩ := hr.covers hmem rfl
  cases o with
  | array elements => cases hmakes
  | text t' =>
      cases hmakes
      have hread := hr.readText ho
      refine ⟨hread, ?_⟩
      rw [hread, Except.ok.injEq]
      exact Object.reading_eq_iff

/-- An array and a text beside each other, an index too large, and an array after a reset. -/
theorem Store.answers_as_heap_across_reset :
    let requests : List Request := [.allocation (.array 2), .allocation (.text "hé"),
      .arraySet 0 1 (-2), .arrayGet 0 1, .arrayGet 0 2, .objectLength 12, .readText 12, .reset,
      .allocation (.array 1), .arrayGet 0 0]
    40 ≤ Config.maxHeapSize ∧ (Ledger.opened 40).PermitsAll requests ∧
      (Store.empty 40).answers requests = some [.ok (.word 0), .ok (.word 12), .ok .done,
        .ok (.word (-2)), .error (.indexOutOfBounds 2 2), .ok (.word 3), .ok (.text "hÃ©"),
        .ok .done, .ok (.word 0), .ok (.word 0)] := by
  intro requests
  have hcap : 40 ≤ Config.maxHeapSize := by decide
  have hp : (Ledger.opened 40).PermitsAll requests :=
    ⟨trivial, trivial, ⟨2, by decide +kernel⟩, ⟨2, by decide +kernel⟩, ⟨2, by decide +kernel⟩,
      Or.inr ⟨"hé", by decide +kernel⟩, ⟨"hé", by decide +kernel⟩, trivial, trivial,
      ⟨1, by decide +kernel⟩, trivial⟩
  refine ⟨hcap, hp, (Store.answers_as_heap hcap hp).1.trans ?_⟩
  rfl

end StackMachine.Heap
