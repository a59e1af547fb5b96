import Lox.Visitor
import Mathlib.Data.List.Induction

/-!
# Visits go to the nearest definition

Up a chain of classes the definition of a kind is the nearest layer that handles the kind or hides
its handler (`Nearest`). It is found through names: different kinds have methods of different names
(`Kind.beq_method`), so the nearest attribute with the name of a method is the nearest definition of
its kind (`nearest?_eq_some_iff`).

The table of a class holds all the names or none. The invariant is `Sound`: the table is full just
if a class of the chain is not abstract, and then every kind has a definition, since that class was
not refused. Each extension keeps it (`Sound.extend`), so it holds of every class that can be
defined (`Accepted.sound`). What a visit does follows from it (`visits_nearest`).
-/

namespace Lox

/-- Kinds with the same tag are the same. -/
theorem Kind.tag_inj {j k : Kind} (h : j.tag = k.tag) : j = k := by
  have back (k : Kind) : ofTag? k.tag = some k := by cases k <;> decide
  exact Option.some.inj (by rw [← back j, h, back k])

/-- The names of methods are compared as their kinds are. -/
theorem Kind.beq_method (j k : Kind) : (j.method == k.method) = (j == k) := by
  rw [Bool.eq_iff_iff, beq_iff_eq, beq_iff_eq]
  refine ⟨fun h => Kind.tag_inj (String.ext ?_), congrArg _⟩
  simpa [Kind.method] using congrArg String.toList h

/-! ## Layers -/

namespace Layer

variable (l : Layer) (j k : Kind)

/-- A layer handles a kind unless it hides the handler, too. -/
def Handles : Prop := k ∈ l.handlers ∧ k ∉ l.hidden

/-- A layer hides the handlers of a kind. -/
def Hides : Prop := k ∈ l.hidden

/-- A layer says what becomes of the nodes of a kind. -/
def Defines : Prop := l.Handles k ∨ l.Hides k

/-- What a layer has under the name of a method follows from the kind of the method. -/
theorem attribute?_method : l.attribute? k.method =
    if k ∈ l.hidden then some .nothing
    else if k ∈ l.handlers then some (.handler k) else none := by
  have found : l.handlers.find? (· == k) = if k ∈ l.handlers then some k else none := by
    cases found : l.handlers.find? (· == k) with
    | none =>
      rw [if_neg]
      exact fun mem => List.find?_eq_none.1 found k mem (beq_self_eq_true k)
    | some i =>
      obtain rfl : i = k := eq_of_beq (List.find?_some (p := (· == k)) found)
      rw [if_pos (List.mem_of_find?_eq_some found)]
  simp only [attribute?, Kind.beq_method, List.any_beq', List.contains_eq_mem, decide_eq_true_eq,
    found]
  split
  · rfl
  · split <;> rfl

/-- Under the name of a method there is nothing to call just if the layer hides the handlers. -/
theorem attribute?_eq_nothing_iff : l.attribute? k.method = some .nothing ↔ l.Hides k := by
  rw [attribute?_method, Hides]
  grind

/-- Under the name of a method there is a handler just if the layer handles the kind of the method,
and this is the kind that the handler is for. -/
theorem attribute?_eq_handler_iff :
    l.attribute? k.method = some (.handler j) ↔ j = k ∧ l.Handles k := by
  rw [attribute?_method, Handles]
  grind

/-- The name of a method is missing just if the layer does not define the kind. -/
theorem attribute?_eq_none_iff : l.attribute? k.method = none ↔ ¬ l.Defines k := by
  rw [attribute?_method, Defines, Handles, Hides]
  grind

end Layer

namespace VisitorClass

variable {c c' : VisitorClass} {l m : Layer} {chain : List Layer} {k : Kind} {i : Nat}

/-! ## Chains -/

/-- The class some steps up a chain is the nearest one that defines a kind. -/
structure Nearest (chain : List Layer) (k : Kind) (i : Nat) (m : Layer) : Prop where
  /-- It is the class so many steps up. -/
  step : chain[i]? = some m
  /-- It defines the kind. -/
  defines : m.Defines k
  /-- No class before it does. -/
  first : ∀ j < i, ∀ l, chain[j]? = some l → ¬ l.Defines k

/-- A kind for which a chain has nothing to call: there is no definition of it, or the nearest one
hides the handlers. -/
def Unhandled (chain : List Layer) (k : Kind) : Prop :=
  (∀ m ∈ chain, ¬ m.Defines k) ∨ ∃ i m, Nearest chain k i m ∧ m.Hides k

/-- The first class of a chain is the nearest that defines a kind if it defines it. -/
theorem nearest_zero : Nearest (l :: chain) k 0 m ↔ m = l ∧ l.Defines k := by
  constructor
  · rintro ⟨step, defines, -⟩
    obtain rfl : l = m := by simpa using step
    exact ⟨rfl, defines⟩
  · rintro ⟨rfl, defines⟩
    exact ⟨rfl, defines, fun j before => absurd before (Nat.not_lt_zero j)⟩

/-- A class further up is the nearest that defines a kind if the first one does not define it. -/
theorem nearest_succ : Nearest (l :: chain) k (i + 1) m ↔ ¬ l.Defines k ∧ Nearest chain k i m := by
  constructor
  · rintro ⟨step, defines, first⟩
    refine ⟨first 0 (Nat.succ_pos i) l rfl, step, defines, fun j before l' found => ?_⟩
    exact first (j + 1) (Nat.succ_lt_succ before) l' found
  · rintro ⟨passed, step, defines, first⟩
    refine ⟨step, defines, fun j before l' found => ?_⟩
    cases j with
    | zero =>
      obtain rfl : l = l' := by simpa using found
      exact passed
    | succ j => exact first j (Nat.lt_of_succ_lt_succ before) l' found

/-- The nearest attribute with the name of a method is that of the nearest class that defines the
kind. -/
theorem nearest?_eq_some_iff {a : Attribute} : nearest? chain k.method = some (i, a) ↔
    ∃ m, Nearest chain k i m ∧ m.attribute? k.method = some a := by
  induction chain generalizing i with
  | nil => exact iff_of_false nofun fun ⟨m, h, _⟩ => by cases h.step
  | cons l chain ih =>
    have absent := l.attribute?_eq_none_iff k
    rw [nearest?]
    cases own : l.attribute? k.method with
    | some b =>
      have defines : l.Defines k := not_not.1 (mt absent.2 (by simp [own]))
      cases i with
      | zero => simp [nearest_zero, defines, own]
      | succ i => simp [nearest_succ, defines]
    | none =>
      have passed := absent.1 own
      cases i with
      | zero => simp [nearest_zero, passed]
      | succ i => simpa [nearest_succ, passed] using ih

/-- No attribute has the name of a method if no class of the chain defines the kind. -/
theorem nearest?_eq_none_iff :
    nearest? chain k.method = none ↔ ∀ m ∈ chain, ¬ m.Defines k := by
  induction chain with
  | nil => simp [nearest?]
  | cons l chain ih =>
    rw [nearest?, List.forall_mem_cons, ← l.attribute?_eq_none_iff k]
    cases own : l.attribute? k.method with
    | some b => simp
    | none => simpa using ih

/-- There is something to call for a kind if the nearest class that defines it handles it. -/
theorem calls_iff : calls chain k.method = true ↔ ∃ i m, Nearest chain k i m ∧ m.Handles k := by
  rw [calls]
  constructor
  · intro found
    split at found
    · rename_i i j nearest
      obtain ⟨m, h, own⟩ := nearest?_eq_some_iff.1 nearest
      exact ⟨i, m, h, ((m.attribute?_eq_handler_iff j k).1 own).2⟩
    · cases found
  · rintro ⟨i, m, h, handles⟩
    have own := (m.attribute?_eq_handler_iff k k).2 ⟨rfl, handles⟩
    rw [nearest?_eq_some_iff.2 ⟨m, h, own⟩]

/-- There is nothing to call for a kind that is unhandled. -/
theorem calls_eq_false_iff : calls chain k.method = false ↔ Unhandled chain k := by
  rw [calls, Unhandled, ← nearest?_eq_none_iff]
  constructor
  · intro found
    cases nearest : nearest? chain k.method with
    | none => exact .inl rfl
    | some p =>
      obtain ⟨i, _ | _⟩ := p
      · simp [nearest] at found
      · obtain ⟨m, h, own⟩ := nearest?_eq_some_iff.1 nearest
        exact .inr ⟨i, m, h, (m.attribute?_eq_nothing_iff k).1 own⟩
  · rintro (absent | ⟨i, m, h, hides⟩)
    · rw [absent]
    · rw [nearest?_eq_some_iff.2 ⟨m, h, (m.attribute?_eq_nothing_iff k).2 hides⟩]

/-- The kinds that are missing are those that are unhandled. -/
theorem mem_missing : k ∈ missing chain ↔ Unhandled chain k := by
  rw [missing, List.mem_filter, Bool.not_eq_true', calls_eq_false_iff]
  exact and_iff_right (Kind.mem_all k)

/-! ## Classes -/

/-- The table with all names lists each kind with the name of its method. -/
theorem lookup_methods (k : Kind) : methods.lookup k = some k.method := by cases k <;> rfl

/-- A class that is not abstract is refused because of the kinds that are unhandled. -/
theorem extend_eq_error_iff {ks : List Kind} (concrete : l.abstract = false) :
    c.extend l = .error ks ↔ missing (l :: c.layers) = ks ∧ ks ≠ [] := by
  rw [extend, concrete]
  cases missing (l :: c.layers) with
  | nil => simp [eq_comm]
  | cons k ks => grind

/-- A class that is not abstract is accepted, with all names in its table, if it handles every
kind. -/
theorem extend_eq_ok_iff (concrete : l.abstract = false) :
    c.extend l = .ok c' ↔ missing (l :: c.layers) = [] ∧ c' = ⟨l :: c.layers, methods⟩ := by
  rw [extend, concrete]
  cases missing (l :: c.layers) with
  | nil => simp [eq_comm]
  | cons k ks => simp

/-- An abstract class is accepted, with the table of the class that it extends. -/
theorem extend_of_abstract (abstract : l.abstract = true) :
    c.extend l = .ok ⟨l :: c.layers, c.table⟩ := by
  rw [extend, if_pos abstract]

/-- Where nothing is missing the nearest class that defines a kind handles it. -/
theorem exists_handles (complete : missing chain = []) (k : Kind) :
    ∃ i m, Nearest chain k i m ∧ m.Handles k := by
  refine calls_iff.1 (Bool.of_not_eq_false fun silent => ?_)
  exact List.not_mem_nil (complete ▸ mem_missing.2 (calls_eq_false_iff.1 silent))

/-- Classes that can be defined: the first one of all, and those that extend one and are
accepted. -/
inductive Accepted : VisitorClass → Prop
  | root : Accepted root
  | extend {c c' : VisitorClass} {l : Layer} : Accepted c → c.extend l = .ok c' → Accepted c'

/-- The table of a class holds all names or none. -/
structure Sound (c : VisitorClass) : Prop where
  /-- It is empty if all classes of the chain are abstract. -/
  empty : (∀ m ∈ c.layers, m.abstract = true) → c.table = []
  /-- It is full if one is not. Then every kind has a definition. -/
  full : (∃ m ∈ c.layers, m.abstract = false) →
    c.table = methods ∧ ∀ k, ∃ m ∈ c.layers, m.Defines k

/-- Extensions keep the table full or empty. -/
theorem Sound.extend (h : Sound c) (accepted : c.extend l = .ok c') : Sound c' := by
  cases abstract : l.abstract with
  | false =>
    obtain ⟨complete, rfl⟩ := (extend_eq_ok_iff abstract).1 accepted
    refine ⟨fun all => ?_, fun _ => ⟨rfl, fun k => ?_⟩⟩
    · -- A class that is not abstract is not among classes that all are.
      cases abstract.symm.trans (all l (List.mem_cons_self ..))
    · obtain ⟨i, m, nearest, -⟩ := exists_handles complete k
      exact ⟨m, List.mem_of_getElem? nearest.step, nearest.defines⟩
  | true =>
    obtain rfl := Except.ok.inj ((extend_of_abstract abstract).symm.trans accepted)
    refine ⟨fun all => h.empty fun m mem => all m (List.mem_cons_of_mem l mem), ?_⟩
    rintro ⟨m, mem, concrete⟩
    rcases List.mem_cons.1 mem with rfl | mem
    · cases abstract.symm.trans concrete
    · obtain ⟨table, defined⟩ := h.full ⟨m, mem, concrete⟩
      refine ⟨table, fun k => ?_⟩
      obtain ⟨n, mem', defines⟩ := defined k
      exact ⟨n, List.mem_cons_of_mem l mem', defines⟩

/-- The table of a class that can be defined is full or empty. -/
theorem Accepted.sound (h : Accepted c) : Sound c := by
  induction h with
  | root => exact ⟨fun _ => rfl, fun ⟨m, mem, _⟩ => absurd mem List.not_mem_nil⟩
  | extend _ accepted ih => exact ih.extend accepted

/-- The classes that come of a list of definitions are among those that can be defined. -/
theorem accepted_of_mem_defineAll {ds : List ClassDefinition}
    (mem : .accepted c ∈ ClassDefinition.defineAll ds) : Accepted c := by
  -- By induction from the last definition, since each one refers to those before it.
  induction ds using List.reverseRecOn generalizing c with
  | nil => cases mem
  | append_singleton ds d ih =>
    rw [ClassDefinition.defineAll, List.foldl_append, List.foldl_cons, List.foldl_nil,
      ← ClassDefinition.defineAll, List.mem_append, List.mem_singleton] at mem
    rcases mem with mem | last
    · exact ih mem
    · -- The class that the last one extends is the first of all or was defined before.
      rw [ClassDefinition.define] at last
      split at last
      · rename_i base found
        have earlier : Accepted base := by
          cases number : d.base with
          | none =>
            rw [number] at found
            obtain rfl : VisitorClass.root = base := by simpa using found
            exact .root
          | some n =>
            rw [number] at found
            exact ih (List.mem_of_getElem? found)
        split at last
        · obtain rfl := Defined.accepted.inj last
          exact earlier.extend ‹_›
        · cases last
      · cases last

/-- A visit calls the handler of the nearest class that defines the kind, if this handles it. -/
theorem dispatch_of_handles (full : c.table = methods) (nearest : Nearest c.layers k i m)
    (handles : m.Handles k) : c.dispatch k = .ok (i, k) := by
  have own := (m.attribute?_eq_handler_iff k k).2 ⟨rfl, handles⟩
  rw [dispatch, full, lookup_methods]
  simp only [nearest?_eq_some_iff.2 ⟨m, nearest, own⟩]

/-- A visit fails if the nearest class that defines the kind hides its handlers. -/
theorem dispatch_of_hides (full : c.table = methods) (nearest : Nearest c.layers k i m)
    (hides : m.Hides k) : c.dispatch k = .error .hidden := by
  have own := (m.attribute?_eq_nothing_iff k).2 hides
  rw [dispatch, full, lookup_methods]
  simp only [nearest?_eq_some_iff.2 ⟨m, nearest, own⟩]

/-- No visit gets anywhere while the table is empty. -/
theorem dispatch_of_empty (empty : c.table = []) (k : Kind) : c.dispatch k = .error .unlisted := by
  rw [dispatch, empty, List.lookup_nil]

/-- A kind that is defined in a chain has a nearest definition. -/
theorem exists_nearest (defined : ∃ m ∈ chain, m.Defines k) : ∃ i m, Nearest chain k i m := by
  obtain ⟨m, mem, defines⟩ := defined
  cases found : nearest? chain k.method with
  | none => exact absurd defines (nearest?_eq_none_iff.1 found m mem)
  | some p =>
    obtain ⟨n, nearest, -⟩ := nearest?_eq_some_iff.1 found
    exact ⟨p.1, n, nearest⟩

/-- **Visits go to the nearest definition.** Take any class that can be defined and any layer to
extend it by.

If the new class is not abstract it is refused just if the chain has some kind for which there is no
definition or the nearest one hides the handlers; it is refused because of these kinds. If it is
accepted, then a visit to a node of any kind calls the handler of the nearest class that defines
this kind.

If the new class is abstract it is accepted. If some class above it is not abstract, every kind has
a definition, and a visit calls the handler of the nearest class that defines the kind, or fails
with a type error just if this class hides the handlers. If all classes above it are abstract, each
visit fails with a type error. -/
theorem visits_nearest (accepted : Accepted c) (l : Layer) :
    (l.abstract = false →
      ((∃ ks, c.extend l = .error ks) ↔ ∃ k, Unhandled (l :: c.layers) k) ∧
      (∀ ks, c.extend l = .error ks →
        ks.Sublist Kind.all ∧ ∀ k, k ∈ ks ↔ Unhandled (l :: c.layers) k) ∧
      ∀ c', c.extend l = .ok c' → c'.layers = l :: c.layers ∧
        ∀ k, ∃ i m, Nearest c'.layers k i m ∧ m.Handles k ∧ c'.dispatch k = .ok (i, k)) ∧
    (l.abstract = true →
      ∃ c', c.extend l = .ok c' ∧ c'.layers = l :: c.layers ∧
        ((∃ m ∈ c.layers, m.abstract = false) →
          ∀ k, ∃ i m, Nearest c'.layers k i m ∧
            (m.Handles k ∧ c'.dispatch k = .ok (i, k) ∨
              m.Hides k ∧ c'.dispatch k = .error .hidden)) ∧
        ((∀ m ∈ c.layers, m.abstract = true) → ∀ k, c'.dispatch k = .error .unlisted)) := by
  refine ⟨fun concrete => ⟨?_, fun ks refused => ?_, fun c' ok => ?_⟩, fun abstract => ?_⟩
  · simp only [extend_eq_error_iff concrete, ← mem_missing, exists_eq_left', ne_eq,
      List.eq_nil_iff_forall_not_mem, not_forall, not_not]
  · obtain ⟨rfl, -⟩ := (extend_eq_error_iff concrete).1 refused
    exact ⟨List.filter_sublist, fun k => mem_missing⟩
  · obtain ⟨complete, rfl⟩ := (extend_eq_ok_iff concrete).1 ok
    refine ⟨rfl, fun k => ?_⟩
    obtain ⟨i, m, nearest, handles⟩ := exists_handles complete k
    exact ⟨i, m, nearest, handles, dispatch_of_handles rfl nearest handles⟩
  · -- The table of an abstract class is that of the class it extends: full below one that is not
    -- abstract, and else empty.
    have sound := accepted.sound
    refine ⟨_, extend_of_abstract abstract, rfl, fun some k => ?_, fun all => ?_⟩
    · obtain ⟨full, defined⟩ := sound.full some
      obtain ⟨n, mem, defines⟩ := defined k
      obtain ⟨i, m, nearest⟩ := exists_nearest ⟨n, List.mem_cons_of_mem l mem, defines⟩
      refine ⟨i, m, nearest, ?_⟩
      rcases nearest.defines with handles | hides
      · exact .inl ⟨handles, dispatch_of_handles full nearest handles⟩
      · exact .inr ⟨hides, dispatch_of_hides full nearest hides⟩
    · exact dispatch_of_empty (sound.empty all)

/-- A layer that handles every kind. -/
def everything : Layer := ⟨"Everything", Kind.all, [], false⟩

/-- An abstract layer that hides the handlers of literals and handles loops. -/
def muted : Layer := ⟨"Muted", [.whileLoop], [.literal], true⟩

/-- An abstract class below one that handles every kind calls the nearest handlers, except for the
kind whose handlers it hides. -/
theorem visits_nearest_muted :
    Accepted ⟨[everything], methods⟩ ∧ muted.abstract = true ∧
      (∃ m ∈ [everything], m.abstract = false) ∧ muted.Hides .literal ∧
      ∃ c', extend ⟨[everything], methods⟩ muted = .ok c' ∧ c'.layers = [muted, everything] ∧
        ∀ k, ∃ i m, Nearest c'.layers k i m ∧
          (m.Handles k ∧ c'.dispatch k = .ok (i, k) ∨
            m.Hides k ∧ c'.dispatch k = .error .hidden) := by
  have accepted : Accepted ⟨[everything], methods⟩ :=
    .extend .root ((extend_eq_ok_iff rfl).2 ⟨by decide +kernel, rfl⟩)
  have some : ∃ m ∈ [everything], m.abstract = false := ⟨everything, List.mem_singleton_self _, rfl⟩
  obtain ⟨c', ok, layers, below, -⟩ := (visits_nearest accepted muted).2 rfl
  exact ⟨accepted, rfl, some, List.mem_singleton_self _, c', ok, layers, below some⟩

/-- A class that extends the abstract one is refused because of the kind that it hides. -/
example : extend ⟨[muted, everything], methods⟩ ⟨"Low", [], [], false⟩ = .error [.literal] := by
  decide +kernel

end VisitorClass

end Lox
