import Mathlib.Data.List.Nodup
import StackMachine.Debugger.Watch

set_option autoImplicit false

/-! # Watches by their names

No two watches of a list have the same name, whatever a host asks for
(`WatchList.Distinct.serve`). So a name stands for one place in the list: adding a watch under a
name that is taken fills this place anew, and removing the name closes it (`WatchList.IsKeyed`).
-/

namespace StackMachine.WatchList

/-- What a host can ask of a list of watches. -/
inductive Request where
  | add (watch : Watch)
  | remove (name : String)
  | clear
  deriving DecidableEq, Repr

/-- The list after a request. -/
def serve (l : WatchList) : Request → WatchList
  | .add watch => l.add watch
  | .remove name => l.remove name
  | .clear => {}

/-- The names of the watches in order. -/
def names (l : WatchList) : List String := l.watches.map Watch.name

/-- No two watches have the same name. -/
def Distinct (l : WatchList) : Prop := l.names.Nodup

variable {l : WatchList}

theorem contains_iff {name : String} : l.contains name = true ↔ name ∈ l.names := by
  simp [contains, names, List.any_eq_true]

/-- A watch that takes the place of another of its name leaves the names as they are. -/
theorem names_replace (watches : List Watch) (watch : Watch) :
    (watches.map fun w => if w.name = watch.name then watch else w).map Watch.name =
      watches.map Watch.name := by
  rw [List.map_map, List.map_inj_left]
  intro w _
  by_cases hw : w.name = watch.name
  · simp [hw]
  · simp [hw]

/-- A watch takes the place of no watch of another name. -/
theorem replace_of_ne {watches : List Watch} {watch : Watch}
    (h : ∀ w ∈ watches, w.name ≠ watch.name) :
    (watches.map fun w => if w.name = watch.name then watch else w) = watches := by
  have hkeep : ∀ w ∈ watches, (if w.name = watch.name then watch else w) = id w := by
    intro w hw
    rw [if_neg (h w hw)]
    rfl
  rw [List.map_congr_left hkeep, List.map_id]

/-- Removing a name leaves the watches of other names. -/
theorem filter_of_ne {watches : List Watch} {name : String} (h : ∀ w ∈ watches, w.name ≠ name) :
    watches.filter (·.name ≠ name) = watches := by
  refine List.filter_eq_self.mpr fun w hw => ?_
  simpa using h w hw

theorem Distinct.add (h : l.Distinct) (watch : Watch) : (l.add watch).Distinct := by
  unfold Distinct names WatchList.add
  by_cases hname : l.contains watch.name = true
  · rw [if_pos hname, names_replace]
    exact h
  · rw [if_neg hname, List.map_append]
    refine List.Nodup.append h (List.nodup_singleton _) ?_
    rw [List.map_singleton, List.disjoint_singleton]
    exact fun hmem => hname (contains_iff.mpr hmem)

theorem Distinct.remove (h : l.Distinct) (name : String) : (l.remove name).Distinct :=
  List.Nodup.sublist (List.filter_sublist.map _) h

/-- **Every request keeps the names distinct.** -/
theorem Distinct.serve (h : l.Distinct) (r : Request) : (l.serve r).Distinct := by
  cases r with
  | add watch => exact h.add watch
  | remove name => exact h.remove name
  | clear => exact List.nodup_nil

/-- A name that is found at one place is found nowhere else. -/
theorem Distinct.ne_of_append (h : l.Distinct) {before after : List Watch} {old : Watch}
    (hl : l.watches = before ++ old :: after) : ∀ w ∈ before ++ after, w.name ≠ old.name := by
  have hnames : (before.map Watch.name ++ old.name :: after.map Watch.name).Nodup := by
    have hnodup : (l.watches.map Watch.name).Nodup := h
    rw [hl, List.map_append, List.map_cons] at hnodup
    exact hnodup
  have hnotin : old.name ∉ before.map Watch.name ++ after.map Watch.name :=
    (List.nodup_cons.mp (List.perm_middle.nodup_iff.mp hnames)).1
  intro w hw heq
  refine hnotin ?_
  rw [← heq, ← List.map_append]
  exact List.mem_map_of_mem hw

/-- The names of a list of watches are its keys. -/
structure IsKeyed (l : WatchList) : Prop where
  distinct : (l.watches.map Watch.name).Nodup
  add_new : ∀ watch : Watch, watch.name ∉ l.watches.map Watch.name →
    (l.serve (.add watch)).watches = l.watches ++ [watch]
  add_existing : ∀ (before after : List Watch) (old watch : Watch),
    l.watches = before ++ old :: after → old.name = watch.name →
    (l.serve (.add watch)).watches = before ++ watch :: after
  remove_absent : ∀ name, name ∉ l.watches.map Watch.name →
    (l.serve (.remove name)).watches = l.watches
  remove_existing : ∀ (before after : List Watch) (old : Watch),
    l.watches = before ++ old :: after →
    (l.serve (.remove old.name)).watches = before ++ after
  clear : (l.serve .clear).watches = []

/-- **In a list with distinct names, a name is a key.** -/
theorem Distinct.isKeyed (h : l.Distinct) : l.IsKeyed where
  distinct := h
  add_new watch hnew := by
    have hcontains : ¬ l.contains watch.name = true := fun hc => hnew (contains_iff.mp hc)
    rw [WatchList.serve, WatchList.add, if_neg hcontains]
  add_existing before after old watch hl hname := by
    have hcontains : l.contains watch.name = true := by
      rw [contains_iff, names, hl, ← hname]
      simp
    have hothers := h.ne_of_append hl
    rw [hname] at hothers
    obtain ⟨hbefore, hafter⟩ := List.forall_mem_append.mp hothers
    rw [WatchList.serve, WatchList.add, if_pos hcontains]
    show (l.watches.map fun w => if w.name = watch.name then watch else w) = _
    rw [hl, List.map_append, List.map_cons, if_pos hname, replace_of_ne hbefore,
      replace_of_ne hafter]
  remove_absent name habsent := by
    show l.watches.filter (·.name ≠ name) = _
    refine filter_of_ne fun w hw heq => ?_
    rw [← heq] at habsent
    exact habsent (List.mem_map_of_mem hw)
  remove_existing before after old hl := by
    obtain ⟨hbefore, hafter⟩ := List.forall_mem_append.mp (h.ne_of_append hl)
    show l.watches.filter (·.name ≠ old.name) = _
    rw [hl, List.filter_append, List.filter_cons_of_neg (by simp), filter_of_ne hbefore,
      filter_of_ne hafter]
  clear := rfl

end StackMachine.WatchList
