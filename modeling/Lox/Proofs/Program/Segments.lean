import Lox.Proofs.Program.Boundary
import Lox.Proofs.Reading.Blame
import Lox.Proofs.Reading.Termination

/-!
# Runs come to an end and part the tokens

The steps of a run take one part of the tokens after the other, from the first token to the end.
Each part holds a token at least and gives one statement or one error, and the token to blame for an
error is one of its part or the next one (`run_segments`).

Like a loop, a run and the recovery in it are driven by clocks that are no part of what they mean.
So it is also said that the steps are those of a run without a clock, as in `Follows`.
-/

namespace Lox

/-- The part of the tokens that a step of a run takes, and what it gives. -/
structure Segment where
  /-- How many tokens come before it. -/
  start : Nat
  /-- How many tokens come up to its end. -/
  stop : Nat
  /-- A statement or an error. -/
  outcome : Stmt ⊕ SyntaxError

namespace Segment

/-- The statement of a part, if it gives one. -/
def statement? (part : Segment) : Option Stmt := part.outcome.getLeft?

/-- The error of a part, if it gives one. -/
def error? (part : Segment) : Option SyntaxError := part.outcome.getRight?

end Segment

/-- The parts that the steps of a run take, one after the other. -/
def Run.segments (start : Nat) : Run → List Segment
  | .finished _ | .interrupted _ _ _ => []
  | .yielded s after rest => ⟨start, after.position, .inl s⟩ :: rest.segments after.position
  | .skipped e _ after rest => ⟨start, after.position, .inr e⟩ :: rest.segments after.position

/-- Parts that follow each other without a gap from one place to another. None of them is empty. -/
def Covers (start stop : Nat) : List Segment → Prop
  | [] => start = stop
  | part :: parts => part.start = start ∧ start < part.stop ∧ Covers part.stop stop parts

/-- There are no more parts than there are places to cover. -/
theorem Covers.length_le {start stop : Nat} {parts : List Segment} (h : Covers start stop parts) :
    start + parts.length ≤ stop := by
  induction parts generalizing start with
  | nil => exact Nat.le_of_eq h
  | cons part parts ih =>
    obtain ⟨-, more, rest⟩ := h
    have := ih rest
    rw [List.length_cons]
    omega

namespace Window

variable {w w' : Window} {ts : List Token}

/-- What a window shows is the first of the tokens ahead and the mark of the end after them. -/
theorem head?_ahead_ending (w : Window) : (w.ahead ++ [w.ending]).head? = some w.current := by
  cases start : w.atEnd with
  | true => rw [ahead_eq_nil.2 start, List.nil_append, List.head?_cons, current_of_atEnd start]
  | false => rw [List.head?_append, head?_ahead start, Option.some_or]

/-- A token that is read, or the one that comes after those, has its place among the tokens ahead
and the mark of the end. -/
theorem Reads.exists_getElem? {t : Token} (h : w.Reads ts w') (clear : w.feed.fault = none)
    (mem : t ∈ ts ++ [w'.current]) : ∃ i ≤ ts.length, (w.ahead ++ [w.ending])[i]? = some t := by
  obtain ⟨ahead, ending, -⟩ := h.ahead clear
  obtain ⟨i, found⟩ := List.mem_iff_getElem?.1 mem
  obtain ⟨shown, more, eq⟩ := List.exists_cons_of_ne_nil (l := w'.ahead ++ [w'.ending]) (by simp)
  have same : shown = w'.current := by
    have first := w'.head?_ahead_ending
    rw [eq, List.head?_cons] at first
    exact Option.some.inj first
  -- So the tokens ahead begin with those that are read and the next one.
  have split : w.ahead ++ [w.ending] = (ts ++ [w'.current]) ++ more := by
    rw [ahead, ← ending, List.append_assoc, eq, same, List.append_assoc, List.singleton_append]
  obtain ⟨inside, -⟩ := List.getElem?_eq_some_iff.1 found
  refine ⟨i, ?_, ?_⟩
  · rw [List.length_append, List.length_singleton] at inside
    omega
  · rw [split, List.getElem?_append_left inside, found]

end Window

/-! ## What holds of every run -/

section

variable {limit : Int} {w : Window} {r : Run} {all read : List Token}

/-- The parts of a run cover the tokens that it starts in front of. -/
theorem Follows.covers (h : Follows limit w r) (behind : w.Behind all read) :
    Covers w.position all.length (r.segments w.position) := by
  induction h generalizing read with
  | @finished w atEnd =>
    have last : read = all := by rw [← behind.split, Window.ahead_eq_nil.2 atEnd, List.append_nil]
    rw [Run.segments, Covers, behind.position, last]
  | @yielded w after s ts rest some reads ok more ih =>
    exact ⟨rfl, reads.position_lt some, ih (behind.reads reads)⟩
  | @skipped w failed after e ts us rest reads broken recovers more ih =>
    have both := reads.append recovers.reads
    exact ⟨rfl, both.position_lt recovers.ne_nil, ih (behind.reads both)⟩

/-- A run yields the statements of its parts and records their errors. -/
theorem Follows.outcomes (h : Follows limit w r) (start : Nat) :
    r.statements = (r.segments start).filterMap Segment.statement? ∧
      r.errors = (r.segments start).filterMap Segment.error? := by
  induction h generalizing start with
  | finished => exact ⟨rfl, rfl⟩
  | @yielded w after s ts rest some reads ok more ih =>
    obtain ⟨statements, errors⟩ := ih after.position
    exact ⟨congrArg (s :: ·) statements, errors⟩
  | @skipped w failed after e ts us rest reads broken recovers more ih =>
    obtain ⟨statements, errors⟩ := ih after.position
    exact ⟨statements, congrArg (e :: ·) errors⟩

/-- The token to blame for an error is in its part, or the next one after it. -/
theorem Follows.blames (h : Follows limit w r) (behind : w.Behind all read) :
    ∀ part ∈ r.segments w.position, ∀ e ∈ part.error?,
      ∃ p, part.start ≤ p ∧ p ≤ part.stop ∧ (all ++ [w.ending])[p]? = some e.found := by
  induction h generalizing read with
  | finished => exact List.forall_mem_nil _
  | @yielded w after s ts rest some reads ok more ih =>
    have others := ih (behind.reads reads)
    rw [(reads.ahead behind.clear).2.1] at others
    -- This part has no error, and the mark of the end is still the same behind it.
    have none : Segment.error? ⟨w.position, after.position, .inl s⟩ = none := rfl
    exact List.forall_mem_cons.2 ⟨by simp [none], others⟩
  | @skipped w failed after e ts us rest reads broken recovers more ih =>
    have both := reads.append recovers.reads
    have others := ih (behind.reads both)
    rw [(both.ahead behind.clear).2.1] at others
    refine List.forall_mem_cons.2 ⟨fun e' mem => ?_, others⟩
    obtain rfl := Option.some.inj mem
    -- The token was read before the rule broke off or is the next one; recovery goes on from there.
    obtain ⟨ts', reads', among⟩ := (Rule.blames_declaration limit limit.toNat).among broken
    obtain rfl := reads.tokens_eq reads'
    obtain ⟨i, early, found⟩ := reads.exists_getElem? behind.clear among
    have moved := both.position
    rw [List.length_append] at moved
    refine ⟨w.position + i, Nat.le_add_right .., by simp only; omega, ?_⟩
    rw [← behind.split, behind.position, List.append_assoc,
      List.getElem?_append_right (Nat.le_add_right ..), Nat.add_sub_cancel_left, found]

end

/-- Each part gives a statement or an error, and not both. -/
theorem length_outcomes (parts : List Segment) :
    (parts.filterMap Segment.statement?).length + (parts.filterMap Segment.error?).length =
      parts.length := by
  induction parts with
  | nil => rfl
  | cons part parts ih =>
    obtain ⟨start, stop, s | e⟩ := part
    · simp only [List.filterMap_cons, Segment.statement?, Segment.error?, Sum.getLeft?,
        Sum.getRight?, List.length_cons]
      omega
    · simp only [List.filterMap_cons, Segment.statement?, Segment.error?, Sum.getLeft?,
        Sum.getRight?, List.length_cons]
      omega

/-- Take any limit and any tokens. The loops of all rules come to an end, and so does the run that
reads the tokens as a program. The parts that its steps take cover the tokens before the first mark
of the end; none of them is empty. Each part gives a statement that is yielded or an error that is
recorded, in this order, and not both. The token to blame for an error stands in its part or next
after it. So there are no more statements and errors than tokens. -/
theorem run_segments (limit : Int) (ts : List Token) :
    (∀ levels, Rule.LoopsEnd limit levels) ∧
      ∃ w r, Window.open? (.ofList ts) = .ok w ∧ (Feed.ofList ts).run limit = .ok r ∧
        Follows limit w r ∧ Covers 0 (ts.takeWhile (!·.isEof)).length (r.segments 0) ∧
        r.statements = (r.segments 0).filterMap Segment.statement? ∧
        r.errors = (r.segments 0).filterMap Segment.error? ∧
        (∀ part ∈ r.segments 0, ∀ e ∈ part.error?, ∃ p, part.start ≤ p ∧ p ≤ part.stop ∧
          (ts.takeWhile (!·.isEof) ++ [(ts.dropWhile (!·.isEof)).headD .eof])[p]? =
            some e.found) ∧
        r.statements.length + r.errors.length ≤ (ts.takeWhile (!·.isEof)).length := by
  obtain ⟨w, opened, clear, ahead, ending, previous, position, depth⟩ := Window.exists_open ts
  have behind : w.Behind (ts.takeWhile (!·.isEof)) [] := ⟨clear, ahead, position, previous, depth⟩
  have follows := follows_run limit clear
  -- A part is blamed or yielded at its place in the row, counted from where the window opens.
  have covers := follows.covers behind
  have blames := follows.blames behind
  obtain ⟨statements, errors⟩ := follows.outcomes 0
  rw [position] at covers blames
  rw [ending] at blames
  refine ⟨Rule.loopsEnd limit, w, run limit w, opened, run_of_open opened limit, follows, covers,
    statements, errors, blames, ?_⟩
  have few := covers.length_le
  rw [statements, errors, length_outcomes]
  omega

end Lox
