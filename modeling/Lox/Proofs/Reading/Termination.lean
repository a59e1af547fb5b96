import Lox.Proofs.Reading.Law

/-!
# Loops come to an end

The clock that drives a loop is no part of what a loop means. `Turns` is a loop without a clock: one
turn after the other, up to a turn that gives no further state or breaks off. Every loop in the
rules is such a finite row of turns from every state and every window on (`loopsEnd`), because a
turn that goes on has read a token. Apart from loops the rules only call each other with fewer
levels.
-/

namespace Lox.Rule

open Grammar

variable {α σ : Type}

/-- Turns from a state and a window on, one after the other, and what they come to in the end. -/
inductive Turns (turn : σ → Rule (Option σ)) :
    σ → Window → EStateM.Result Interrupt Window σ → Prop
  /-- A turn gives no further state. -/
  | stop {s : σ} {w w' : Window} : turn s w = .ok none w' → Turns turn s w (.ok s w')
  /-- A turn breaks off. -/
  | broken {s : σ} {w w' : Window} {e : Interrupt} :
    turn s w = .error e w' → Turns turn s w (.error e w')
  /-- A turn goes on, and further turns follow. -/
  | go {s s' : σ} {w w' : Window} {r : EStateM.Result Interrupt Window σ} :
    turn s w = .ok (some s') w' → Turns turn s' w' r → Turns turn s w r

/-- A loop comes to an end from every state and every window on, and where its clock takes it is
where its turns lead. -/
def Ends (turn : σ → Rule (Option σ)) : Prop := ∀ s w, Turns turn s w (loop turn s w)

/-- A loop ends if each turn that goes on reads a token. -/
theorem Reads.ends {turn : σ → Rule (Option σ)} (reads : Reads turn) : Ends turn := by
  intro s w
  -- What is left to be read goes down with each turn.
  induction n : w.unread using Nat.strongRecOn generalizing s w with
  | ind n ih =>
    cases first : turn s w with
    | error e w' =>
      rw [loop_eq reads, bind_of_error first]
      exact .broken first
    | ok next w' =>
      cases next with
      | none =>
        rw [loop_stop reads first]
        exact .stop first
      | some s' =>
        -- The rest of the clock still outlasts what is left, so it may be wound up again.
        rw [loop_go reads first]
        exact .go first (ih _ (n ▸ reads s w s' w' first) s' w' rfl)

/-- The loops of the rules end that read phrases with a number of levels. -/
structure LoopsEnd (limit : Int) (levels : Nat) : Prop where
  /-- Chains of the operators of a tier, between operands that belong to the tighter tiers. -/
  chains : ∀ looser tier tighter, looser ++ tier :: tighter = tiers →
    Ends (chainTurn tier (ladder tighter (unary limit levels)))
  /-- Lists of arguments. -/
  arguments : Ends (argumentsTurn (expression limit levels))
  /-- Calls and property names after an expression. -/
  trailers : Ends (trailersTurn (expression limit levels))
  /-- Lists of parameters. -/
  parameters : Ends parametersTurn
  /-- Declarations in a block. -/
  declarations : Ends (itemsTurn (declaration limit levels))
  /-- Methods in a class whose bodies are such blocks. -/
  methods : Ends (itemsTurn (function "method" (block (declaration limit levels))))
  /-- Methods in a class where no level is left for their bodies. -/
  bodiless : Ends (itemsTurn (function "method" (fail (.tooDeep limit))))

/-- At every level all loops end. -/
theorem loopsEnd (limit : Int) (levels : Nat) : LoopsEnd limit levels where
  chains := by
    intro looser tier tighter eq
    -- The tiers below one are a part of all of them.
    have notEof : ∀ tier ∈ tiers, .eof ∉ tier.operators := by decide
    rw [← eq] at notEof
    have tight : Local (ladder tighter (unary limit levels)) :=
      locality.ladder (fun t mem => notEof t (by simp [mem])) (locality.levels limit levels).1
    exact (reads_chainTurn (notEof tier (by simp)) tight.sound).ends
  arguments := (reads_argumentsTurn (recognizes_expression limit levels).sound).ends
  trailers := (reads_trailersTurn (recognizes_expression limit levels).sound).ends
  parameters := reads_parametersTurn.ends
  declarations :=
    (reads_itemsTurn (recognizes_declaration limit levels).sound (begins_declaration levels)).ends
  methods := by
    have blocks := recognizes_block (recognizes_declaration limit levels)
      (begins_declaration levels)
    exact (reads_itemsTurn (recognizes_function "method" blocks).sound begins_functionOver).ends
  bodiless := by
    have none : RecognizesAfter .leftBrace (fun _ => (fail (.tooDeep limit) : Rule (List Stmt)))
        (fun _ => Nothing) :=
      recognizesAfter_fail _
    exact (reads_itemsTurn (recognizes_function "method" none).sound begins_functionOver).ends

end Lox.Rule
