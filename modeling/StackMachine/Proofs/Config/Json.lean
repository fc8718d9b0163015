import StackMachine.Config.Json
import StackMachine.Proofs.Json.Spacing
import StackMachine.Proofs.Machine.Host

set_option autoImplicit false

/-! # Configurations read from JSON

An object that names fields of a usable configuration is read as this configuration as long as
it names every field that differs from its default (`Config.parse_members`): reading a member sets
one field (`Config.assign?_member`), so reading several sets these fields whatever their order. A
configuration that is read is usable and its numbers fit 64 bits (`Config.parse_sound`).
-/

namespace StackMachine.Config

open Json

/-! ## Usable configurations -/

theorem check_eq_ok_iff {c c' : Config} : c.check = .ok c' ↔ c.problem? = none ∧ c = c' := by
  unfold check
  cases c.problem? <;> simp

/-- Every number of the configuration fits 64 bits. -/
structure Representable (c : Config) : Prop where
  maxStackDepth : c.maxStackDepth < sizeBound
  maxCallDepth : c.maxCallDepth < sizeBound
  slotsPerFrame : c.slotsPerFrame < sizeBound
  globalSlots : c.globalSlots < sizeBound
  heapSize : c.heapSize < sizeBound
  instructionBudget : ∀ budget, c.instructionBudget = some budget → budget < sizeBound
  maxTraceLength : c.maxTraceLength < sizeBound

theorem representable_default : Representable {} := by
  constructor <;> decide

/-! ## Members -/

/-- The fields of a configuration with their values. -/
def members (c : Config) : List (String × Scalar) :=
  [("max_stack_depth", .integer c.maxStackDepth), ("max_call_depth", .integer c.maxCallDepth),
    ("slots_per_frame", .integer c.slotsPerFrame), ("global_slots", .integer c.globalSlots),
    ("heap_size", .integer c.heapSize),
    ("instruction_budget", c.instructionBudget.elim .null fun budget => .integer budget),
    ("trace_instructions", .bool c.traceInstructions),
    ("max_trace_len", .integer c.maxTraceLength)]

/-- The members are fields of the configuration in any order, each at most once, and at least
those that differ from the defaults. -/
structure Lists (c : Config) (chosen : List (String × Scalar)) : Prop where
  subset : chosen ⊆ c.members
  once : (chosen.map Prod.fst).Nodup
  complete : ∀ m ∈ c.members, m ∉ members {} → m ∈ chosen

/-- The named fields of one configuration over the other fields of another. -/
def overlay (names : List String) (c d : Config) : Config where
  maxStackDepth := if "max_stack_depth" ∈ names then c.maxStackDepth else d.maxStackDepth
  maxCallDepth := if "max_call_depth" ∈ names then c.maxCallDepth else d.maxCallDepth
  slotsPerFrame := if "slots_per_frame" ∈ names then c.slotsPerFrame else d.slotsPerFrame
  globalSlots := if "global_slots" ∈ names then c.globalSlots else d.globalSlots
  heapSize := if "heap_size" ∈ names then c.heapSize else d.heapSize
  instructionBudget :=
    if "instruction_budget" ∈ names then c.instructionBudget else d.instructionBudget
  traceInstructions :=
    if "trace_instructions" ∈ names then c.traceInstructions else d.traceInstructions
  maxTraceLength := if "max_trace_len" ∈ names then c.maxTraceLength else d.maxTraceLength

theorem overlay_overlay (name : String) (names : List String) (c d : Config) :
    overlay names c (overlay [name] c d) = overlay (name :: names) c d := by
  have hite {α : Type} (field : String) (x y : α) :
      (if field ∈ names then x else if field ∈ [name] then x else y) =
        if field ∈ name :: names then x else y := by
    simp only [List.mem_cons, List.not_mem_nil, or_false]
    split_ifs <;> simp_all
  simp only [overlay, hite]

theorem natural?_natCast {n : Nat} (h : n < sizeBound) : natural? (.integer n) = some n := by
  have hcast : (n : Int) < (sizeBound : Int) := Int.ofNat_lt.mpr h
  rw [natural?, if_pos ⟨Int.natCast_nonneg n, hcast⟩, Int.toNat_natCast]

theorem optional?_of_natural? {value : Scalar} {n : Nat} (h : natural? value = some n) :
    optional? value = some (some n) := by
  cases value with
  | null => cases h
  | bool b => cases h
  | integer i => rw [optional?, h, Option.map_some]; exact nofun

/-- A number in decimal is taken for what every value with this number is taken for. The fields
are opened at an unknown value only: opened at a number they would be compared with `2 ^ 64` by
counting. -/
theorem reads_number {n : Nat} (h : n < sizeBound) {read : Scalar → Option Config} {c : Config}
    (hread : ∀ value, natural? value = some n → read value = some c) :
    read (.integer n) = some c :=
  hread _ (natural?_natCast h)

theorem exists_field {c : Config} (hc : c.Representable) {m : String × Scalar}
    (hm : m ∈ c.members) :
    ∃ field ∈ fields, field.name = m.1 ∧ ∀ d, field.assign d m.2 = some (overlay [m.1] c d) := by
  simp only [members, List.mem_cons, List.not_mem_nil, or_false] at hm
  rcases hm with rfl | rfl | rfl | rfl | rfl | rfl | rfl | rfl
  · refine ⟨fields[0], List.getElem_mem _, rfl, fun d => ?_⟩
    exact reads_number hc.maxStackDepth fun _ => congrArg (Option.map _)
  · refine ⟨fields[1], List.getElem_mem _, rfl, fun d => ?_⟩
    exact reads_number hc.maxCallDepth fun _ => congrArg (Option.map _)
  · refine ⟨fields[2], List.getElem_mem _, rfl, fun d => ?_⟩
    exact reads_number hc.slotsPerFrame fun _ => congrArg (Option.map _)
  · refine ⟨fields[3], List.getElem_mem _, rfl, fun d => ?_⟩
    exact reads_number hc.globalSlots fun _ => congrArg (Option.map _)
  · refine ⟨fields[4], List.getElem_mem _, rfl, fun d => ?_⟩
    exact reads_number hc.heapSize fun _ => congrArg (Option.map _)
  · refine ⟨fields[5], List.getElem_mem _, rfl, fun d => ?_⟩
    have hset : overlay ["instruction_budget"] c d =
        { d with instructionBudget := c.instructionBudget } := rfl
    rw [hset]
    cases hbudget : c.instructionBudget with
    | none => rfl
    | some budget =>
        refine reads_number (hc.instructionBudget budget hbudget) fun value hvalue => ?_
        exact congrArg (Option.map _) (optional?_of_natural? hvalue)
  · exact ⟨fields[6], List.getElem_mem _, rfl, fun d => rfl⟩
  · refine ⟨fields[7], List.getElem_mem _, rfl, fun d => ?_⟩
    exact reads_number hc.maxTraceLength fun _ => congrArg (Option.map _)

/-- No two fields have the same name. -/
theorem assign?_name {field : Field} (h : field ∈ fields) (c : Config) (value : Scalar) :
    c.assign? field.name value = field.assign c value := by
  have hfind : fields.find? (·.name = field.name) = some field := by
    simp only [fields, List.mem_cons, List.not_mem_nil, or_false] at h
    rcases h with rfl | rfl | rfl | rfl | rfl | rfl | rfl | rfl <;> rfl
  rw [assign?, hfind, Option.bind_some]

/-- Reading a member sets its field. -/
theorem assign?_member {c : Config} (hc : c.Representable) {m : String × Scalar}
    (hm : m ∈ c.members) (d : Config) : d.assign? m.1 m.2 = some (overlay [m.1] c d) := by
  obtain ⟨field, hfield, hname, hassign⟩ := exists_field hc hm
  rw [← hname, assign?_name hfield, hassign, hname]

/-- Reading members sets their fields. -/
theorem foldlM_members {c : Config} (hc : c.Representable) {chosen : List (String × Scalar)}
    (hsubset : chosen ⊆ c.members) (d : Config) :
    chosen.foldlM (fun c (name, value) => c.assign? name value) d =
      some (overlay (chosen.map Prod.fst) c d) := by
  induction chosen generalizing d with
  | nil => rfl
  | cons m chosen ih =>
      obtain ⟨hm, hlater⟩ := List.cons_subset.mp hsubset
      rw [List.foldlM_cons]
      -- later members lie over what has been read so far
      show (d.assign? m.1 m.2).bind _ = _
      rw [assign?_member hc hm, Option.bind_some, ih hlater, overlay_overlay, List.map_cons]

/-- Fields that are not listed have their default values. -/
theorem overlay_default {c : Config} {chosen : List (String × Scalar)} (h : c.Lists chosen) :
    overlay (chosen.map Prod.fst) c {} = c := by
  have hfield {α : Type} {name : String} {x y : α} (value : Scalar)
      (hm : (name, value) ∈ c.members) (hdefault : (name, value) ∈ members {} → y = x) :
      (if name ∈ chosen.map Prod.fst then x else y) = x := by
    split_ifs with hname
    · rfl
    · -- a field that differs from its default is listed
      refine hdefault (by_contra fun hm' => hname ?_)
      exact List.mem_map_of_mem (h.complete _ hm hm')
  unfold overlay
  congr 1
  · exact hfield (.integer c.maxStackDepth) (by simp [members]) (by simp [members]; omega)
  · exact hfield (.integer c.maxCallDepth) (by simp [members]) (by simp [members]; omega)
  · exact hfield (.integer c.slotsPerFrame) (by simp [members]) (by simp [members]; omega)
  · exact hfield (.integer c.globalSlots) (by simp [members]) (by simp [members]; omega)
  · exact hfield (.integer c.heapSize) (by simp [members]) (by simp [members]; omega)
  · refine hfield (c.instructionBudget.elim .null fun budget => .integer budget)
      (by simp [members]) ?_
    cases c.instructionBudget <;> simp [members]
  · exact hfield (.bool c.traceInstructions) (by simp [members]) (by simp [members])
  · exact hfield (.integer c.maxTraceLength) (by simp [members]) (by simp [members]; omega)

/-! ## Documents -/

section

variable {α β : Type} {p : β → Prop}

/-- What every step of a fold keeps, the whole fold keeps. -/
theorem foldlM_preserves {f : β → α → Option β} {items : List α}
    (hstep : ∀ a ∈ items, ∀ b b', p b → f b a = some b' → p b') {b b' : β} (hb : p b)
    (h : items.foldlM f b = some b') : p b' := by
  induction items generalizing b with
  | nil =>
      cases h
      exact hb
  | cons a items ih =>
      rw [List.foldlM_cons] at h
      obtain ⟨middle, hfirst, hlater⟩ := Option.bind_eq_some_iff.mp h
      have hmiddle := hstep a List.mem_cons_self b middle hb hfirst
      exact ih (fun a ha => hstep a (List.mem_cons_of_mem _ ha)) hmiddle hlater

end

theorem natural?_lt {value : Scalar} {n : Nat} (h : natural? value = some n) : n < sizeBound := by
  unfold natural? at h
  split at h
  · split_ifs at h with hi
    cases h
    omega
  · cases h

theorem optional?_lt {value : Scalar} {n : Nat} (h : optional? value = some (some n)) :
    n < sizeBound := by
  unfold optional? at h
  split at h
  · cases h
  · obtain ⟨n', hn, heq⟩ := Option.map_eq_some_iff.mp h
    cases heq
    exact natural?_lt hn

/-- Reading a field keeps the numbers of a configuration small. -/
theorem Representable.assign {c c' : Config} (hc : c.Representable) {field : Field}
    (hfield : field ∈ fields) {value : Scalar} (h : field.assign c value = some c') :
    c'.Representable := by
  simp only [fields, List.mem_cons, List.not_mem_nil, or_false] at hfield
  rcases hfield with rfl | rfl | rfl | rfl | rfl | rfl | rfl | rfl <;>
    obtain ⟨n, hn, rfl⟩ := Option.map_eq_some_iff.mp h
  · exact { hc with maxStackDepth := natural?_lt hn }
  · exact { hc with maxCallDepth := natural?_lt hn }
  · exact { hc with slotsPerFrame := natural?_lt hn }
  · exact { hc with globalSlots := natural?_lt hn }
  · exact { hc with heapSize := natural?_lt hn }
  · refine { hc with instructionBudget := fun budget hbudget => ?_ }
    -- `null` takes the budget away, so there is no number to bound
    cases n with
    | none => cases hbudget
    | some n =>
        cases hbudget
        exact optional?_lt hn
  · exact { hc with }
  · exact { hc with maxTraceLength := natural?_lt hn }

theorem ofDocument?_representable {document : Document} {c : Config}
    (h : ofDocument? document = some c) : c.Representable := by
  cases document with
  | object members =>
      obtain ⟨-, h⟩ := Option.ite_none_right_eq_some.mp h
      refine foldlM_preserves (fun m _ c c' hc hread => ?_) representable_default h
      obtain ⟨field, hfind, hassign⟩ := Option.bind_eq_some_iff.mp hread
      exact hc.assign (List.mem_of_find?_eq_some hfind) hassign
  | array items =>
      obtain ⟨-, h⟩ := Option.ite_none_right_eq_some.mp h
      refine foldlM_preserves (fun m hm c c' hc hread => ?_) representable_default h
      exact hc.assign (List.of_mem_zip hm).1 hread

theorem parse_eq_ok_iff {text : String} {c : Config} :
    parse text = .ok c ↔
      (Document.parse? text).bind ofDocument? = some c ∧ c.problem? = none := by
  unfold parse check
  cases (Document.parse? text).bind ofDocument? with
  | none => simp
  | some c' =>
      cases hproblem : c'.problem? with
      | none =>
          simp only [hproblem, Except.ok.injEq, Option.some.injEq, iff_self_and]
          rintro rfl
          exact hproblem
      | some problem =>
          simp only [hproblem, reduceCtorEq, Option.some.injEq, false_iff, not_and]
          rintro rfl
          simp [hproblem]

/-- **A usable configuration is read back from every object that names the fields that differ
from the defaults**, whatever their order and whatever blanks stand between the tokens. -/
theorem parse_members {c : Config} (hcheck : c.check = .ok c) (hc : c.Representable)
    {chosen : List (String × Scalar)} (hchosen : c.Lists chosen) {text : String}
    (htext : Spaced (objectTokens chosen) text.toList) : parse text = .ok c := by
  refine parse_eq_ok_iff.mpr ⟨?_, (check_eq_ok_iff.mp hcheck).1⟩
  rw [parse?_object htext, Option.bind_some, ofDocument?, if_pos hchosen.once,
    foldlM_members hc hchosen.subset, overlay_default hchosen]

/-- **A configuration that is read is usable** and its numbers fit 64 bits. -/
theorem parse_sound {text : String} {c : Config} (h : parse text = .ok c) :
    c.Representable ∧ c.problem? = none := by
  obtain ⟨hread, hproblem⟩ := parse_eq_ok_iff.mp h
  obtain ⟨document, -, hdocument⟩ := Option.bind_eq_some_iff.mp hread
  exact ⟨ofDocument?_representable hdocument, hproblem⟩

/-- **Configurations survive being written as JSON, and only usable ones are read.** The product
of the frames and their slots is compared as an exact number, so it is below `2 ^ 64` as well. -/
theorem json_round_trip :
    (∀ (c : Config) (chosen : List (String × Scalar)) (text : String),
      c.check = .ok c → c.Representable → c.Lists chosen →
        Spaced (objectTokens chosen) text.toList → parse text = .ok c) ∧
    ∀ (text : String) (c : Config), parse text = .ok c →
      c.Representable ∧
      (c.maxStackDepth ≠ 0 ∧ c.maxCallDepth ≠ 0 ∧ c.slotsPerFrame ≠ 0 ∧ c.globalSlots ≠ 0) ∧
      c.heapSize ≤ 2 ^ 24 ∧ c.globalSlots ≤ 2 ^ 20 ∧
      c.maxCallDepth * c.slotsPerFrame ≤ 2 ^ 22 ∧
      Machine.create c = .ok (Machine.ofConfig c) := by
  constructor
  · intro c chosen text hcheck hc hchosen htext
    exact parse_members hcheck hc hchosen htext
  · intro text c h
    obtain ⟨hc, hproblem⟩ := parse_sound h
    obtain ⟨hstack, hcalls, hslots, hglobals, hheap, hglobals', hlocals⟩ :=
      problem?_eq_none_iff.mp hproblem
    exact ⟨hc, ⟨hstack, hcalls, hslots, hglobals⟩, hheap, hglobals', hlocals,
      Machine.create_eq_ok_iff.mpr ⟨hproblem, rfl⟩⟩

/-- Two fields out of order, with blanks of all kinds around the tokens. -/
theorem json_round_trip_out_of_order :
    let text :=
      " \n\x7b\"trace_instructions\" :true,\t\"instruction_budget\": 500\r\n\x7d "
    let config : Config := { instructionBudget := some 500, traceInstructions := true }
    parse text = .ok config ∧ Machine.create config = .ok (Machine.ofConfig config) := by
  intro text config
  have hlists : config.Lists
      [("trace_instructions", .bool true), ("instruction_budget", .integer 500)] :=
    ⟨by decide, by decide, by decide⟩
  have hlayout : text.toList =
      [' ', '\n'] ++ (Token.openObject.chars ++
      ([] ++ ((Token.text "trace_instructions").chars ++
      ([' '] ++ (Token.colon.chars ++
      ([] ++ ((Token.scalar (.bool true)).chars ++
      ([] ++ (Token.comma.chars ++
      (['\t'] ++ ((Token.text "instruction_budget").chars ++
      ([] ++ (Token.colon.chars ++
      ([' '] ++ ((Token.scalar (.integer 500)).chars ++
      (['\r', '\n'] ++ (Token.closeObject.chars ++ [' ']))))))))))))))))) := by decide
  have htext : Spaced (objectTokens
      [("trace_instructions", .bool true), ("instruction_budget", .integer 500)]) text.toList := by
    rw [hlayout]
    iterate 9 refine Spaced.token (by decide) ?_
    exact Spaced.done (by decide)
  have hread := json_round_trip.1 config _ text (by decide) ⟨by decide, by decide, by decide,
    by decide, by decide, by decide, by decide⟩ hlists htext
  exact ⟨hread, (json_round_trip.2 text config hread).2.2.2.2.2⟩

-- The product of these two numbers is `2 ^ 64`, which is zero in 64 bits.
example : parse "\x7b\"max_call_depth\":4294967296,\"slots_per_frame\":4294967296\x7d" =
    .error (.invalid .tooManyLocals) := by
  decide +kernel

end StackMachine.Config
