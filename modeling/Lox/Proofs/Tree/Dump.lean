import Lox.Proofs.Decimal.Display
import Lox.Proofs.Text.Quoted
import Lox.Proofs.Tree.Erased

/-!
# Dumps read back

The dump of a tree shows the tree: its nodes, its values, and of its tokens the texts and, where
they are asked for, the lines. So two trees with the same dump are the same as far as a dump shows
them (`Datum.dump_append_inj`). The proof reads two dumps at once, from the left. What stands behind
a part of a dump always starts with a closer, so the end of the part is known.
-/

namespace Lox

open Lexeme (isDigit)

/-! ## Texts that end -/

/-- A character that can stand right behind a part of a dump. -/
def Datum.isCloser (c : Char) : Bool := c == ',' || c == ')' || c == ']'

/-- What stands behind a part of a dump starts with a closer. -/
def Datum.Closed (rest : List Char) : Prop := ∃ c cs, rest = c :: cs ∧ isCloser c = true

namespace Datum

/-- Of two equal texts, both of which start with characters of a class and go on with none of it,
the parts are equal. -/
theorem append_inj_of_class {p : Char → Bool} {a b r s : List Char} (all : ∀ c ∈ a, p c = true)
    (all' : ∀ c ∈ b, p c = true) (stop : ∀ c ∈ r.head?, p c = false)
    (stop' : ∀ c ∈ s.head?, p c = false) (same : a ++ r = b ++ s) : a = b ∧ r = s := by
  obtain ⟨taken, left⟩ := Lexeme.span_append r all stop
  obtain ⟨taken', left'⟩ := Lexeme.span_append s all' stop'
  rw [same] at taken left
  exact ⟨taken.symm.trans taken', left.symm.trans left'⟩

/-- Of two equal texts without closers before the first one, the parts before it are equal. -/
theorem append_inj_of_closed {a b r s : List Char} (free : ∀ c ∈ a, isCloser c = false)
    (free' : ∀ c ∈ b, isCloser c = false) (closed : Closed r) (closed' : Closed s)
    (same : a ++ r = b ++ s) : a = b ∧ r = s := by
  obtain ⟨c, cs, rfl, close⟩ := closed
  obtain ⟨c', cs', rfl, close'⟩ := closed'
  refine append_inj_of_class (p := fun c => !isCloser c) ?_ ?_ ?_ ?_ same
  · simpa using free
  · simpa using free'
  · simpa using close
  · simpa using close'

/-! ## Values -/

/-- A character belongs to a value that is dumped without quotes. -/
def IsBarePart (c : Char) : Prop := isCloser c = false ∧ ¬ Text.IsQuote c

/-- The parts of a displayed number are no closers and no quotes. -/
theorem isBarePart_of_isDisplayPart {c : Char} (part : Binary64.IsDisplayPart c) :
    IsBarePart c := by
  rcases part with digit | other
  · refine ⟨Bool.eq_false_iff.2 fun close => ?_, fun quote => ?_⟩
    · simp only [isCloser, Bool.or_eq_true, beq_iff_eq] at close
      obtain (rfl | rfl) | rfl := close <;> exact absurd digit (by decide)
    · obtain rfl | rfl := quote <;> exact absurd digit (by decide)
  · have none : ∀ c ∈ ['.', 'e', '+', '-', 'i', 'n', 'f'], IsBarePart c := by
      simp [IsBarePart, isCloser, Text.IsQuote]
    exact none c other

end Datum

namespace Literal

/-- The dump of a literal's value. -/
def dumped (value : Literal) : List Char := value.toDatum.dump false

/-- The dump of a value does not depend on whether lines are asked for. -/
@[simp] theorem dump_toDatum (lines : Bool) (value : Literal) :
    value.toDatum.dump lines = value.dumped := by
  cases value <;> rfl

/-- A value is dumped without quotes. -/
def IsBare : Literal → Prop
  | text _ => False
  | nil | bool _ | number _ => True

/-- The dump of a value without quotes has no closers and no quotes in it. -/
theorem isBarePart_dumped {value : Literal} (legible : value.Legible) (bare : value.IsBare) :
    ∀ c ∈ value.dumped, Datum.IsBarePart c := by
  cases value with
  | nil =>
    show ∀ c ∈ ['N', 'o', 'n', 'e'], Datum.IsBarePart c
    simp [Datum.IsBarePart, Datum.isCloser, Text.IsQuote]
  | bool b =>
    cases b
    · show ∀ c ∈ ['F', 'a', 'l', 's', 'e'], Datum.IsBarePart c
      simp [Datum.IsBarePart, Datum.isCloser, Text.IsQuote]
    · show ∀ c ∈ ['T', 'r', 'u', 'e'], Datum.IsBarePart c
      simp [Datum.IsBarePart, Datum.isCloser, Text.IsQuote]
  | number x =>
    exact fun c mem => Datum.isBarePart_of_isDisplayPart
      (Binary64.isDisplayPart_display legible c mem)
  | text s => cases bare

/-- A number is not displayed as a word that starts with a character of another kind. -/
theorem display_ne_word {x : Binary64} (plain : x.Plain) {c : Char} (cs : List Char)
    (other : ¬ Binary64.IsDisplayPart c) : x.display ≠ c :: cs := by
  intro same
  refine other (Binary64.isDisplayPart_display plain c ?_)
  rw [same]
  exact List.mem_cons_self ..

/-- Values that are dumped alike without quotes are the same. -/
theorem eq_of_dumped {value value' : Literal} (legible : value.Legible) (legible' : value'.Legible)
    (bare : value.IsBare) (bare' : value'.IsBare) (same : value.dumped = value'.dumped) :
    value = value' := by
  have capitals : ∀ c ∈ ['N', 'T', 'F'], ¬ Binary64.IsDisplayPart c := by
    simp [Binary64.IsDisplayPart, isDigit]
  -- Only numbers are not told from the others by evaluation.
  cases value with
  | nil =>
    cases value' with
    | nil => rfl
    | bool b => cases b <;> exact absurd same (by decide)
    | number y => exact absurd same.symm (display_ne_word legible' _ (capitals 'N' (by decide)))
    | text s => cases bare'
  | bool b =>
    cases value' with
    | nil => cases b <;> exact absurd same (by decide)
    | bool b' => cases b <;> cases b' <;> first | rfl | exact absurd same (by decide)
    | number y =>
      cases b
      · exact absurd same.symm (display_ne_word legible' _ (capitals 'F' (by decide)))
      · exact absurd same.symm (display_ne_word legible' _ (capitals 'T' (by decide)))
    | text s => cases bare'
  | number x =>
    cases value' with
    | nil => exact absurd same (display_ne_word legible _ (capitals 'N' (by decide)))
    | bool b =>
      cases b
      · exact absurd same (display_ne_word legible _ (capitals 'F' (by decide)))
      · exact absurd same (display_ne_word legible _ (capitals 'T' (by decide)))
    | number y => exact congrArg number (Binary64.display_inj legible legible' same)
    | text s => cases bare'
  | text s => cases bare

/-- A value without quotes is not dumped like one with quotes. -/
theorem dumped_append_ne {value : Literal} (legible : value.Legible) (bare : value.IsBare)
    (s : List Char) {rest after : List Char} (closed : Datum.Closed rest) :
    value.dumped ++ rest ≠ Text.quotedChars s ++ after := by
  intro same
  have parts := isBarePart_dumped legible bare
  obtain ⟨quote, cs, isQuote, quoted⟩ := Text.quotedChars_eq_cons s
  obtain ⟨c, cs', rfl, close⟩ := closed
  rw [quoted] at same
  generalize value.dumped = seen at same parts
  cases seen with
  | nil =>
    obtain rfl := (List.cons.inj same).1
    obtain rfl | rfl := isQuote <;> exact absurd close (by decide)
  | cons d ds =>
    obtain rfl := (List.cons.inj same).1
    exact (parts d (List.mem_cons_self ..)).2 isQuote

/-- The dump of a literal's value shows the value and where it ends. -/
theorem dumped_append_inj {value value' : Literal} (legible : value.Legible)
    (legible' : value'.Legible) {r s : List Char} (closed : Datum.Closed r)
    (closed' : Datum.Closed s) (same : value.dumped ++ r = value'.dumped ++ s) :
    value = value' ∧ r = s := by
  -- A value without quotes ends where a closer comes; a text ends with its quote.
  by_cases bare : value.IsBare
  · by_cases bare' : value'.IsBare
    · obtain ⟨seen, rest⟩ := Datum.append_inj_of_closed
        (fun c mem => (isBarePart_dumped legible bare c mem).1)
        (fun c mem => (isBarePart_dumped legible' bare' c mem).1) closed closed' same
      exact ⟨eq_of_dumped legible legible' bare bare' seen, rest⟩
    · cases value' with
      | text t => exact absurd same (dumped_append_ne legible bare _ closed)
      | nil | bool | number => exact absurd trivial bare'
  · cases value with
    | nil | bool | number => exact absurd trivial bare
    | text t =>
      cases value' with
      | text t' =>
        obtain ⟨text, rest⟩ := Text.quotedChars_append_inj same
        exact ⟨congrArg Literal.text (String.toList_inj.1 text), rest⟩
      | nil | bool | number =>
        exact absurd same.symm (dumped_append_ne legible' trivial _ closed')

end Literal

/-! ## Tokens -/

namespace Datum

/-- A token as far as a dump shows it. -/
def seenToken (lines : Bool) (t : Token) : Token :=
  ⟨.eof, t.lexeme, if lines then t.line else Option.none, Option.none⟩

/-- The dump of a token is its text and perhaps its line. -/
theorem ofToken_eq {lines : Bool} {t : Token} {text : String} (lexeme : t.lexeme = some text) :
    ofToken lines t = Text.quotedChars text.toList ++
      match (seenToken lines t).line with
      | some n => '@' :: (toString n).toList
      | Option.none => [] := by
  obtain ⟨type, lexeme', line, literal⟩ := t
  obtain rfl : lexeme' = some text := lexeme
  cases lines <;> cases line <;> simp [ofToken, seenToken, Text.quotedOption, Text.quoted]

/-- The text of a line is its digits, behind a minus sign if there is one. -/
theorem toList_line (n : Int) : (toString n).toList =
    if 0 ≤ n then Decimal.digitsOf n.toNat else '-' :: Decimal.digitsOf (-n).toNat := by
  rw [Int.toString_eq_repr, Int.repr_eq_if]
  split
  · rw [Nat.repr_eq_ofList_toDigits, String.toList_ofList, Decimal.digitsOf]
  · simp [Nat.repr_eq_ofList_toDigits, Decimal.digitsOf]

/-- The text of a line has no closers in it. -/
theorem isCloser_line (n : Int) : ∀ c ∈ (toString n).toList, isCloser c = false := by
  have digits (m : Nat) : ∀ c ∈ Decimal.digitsOf m, isCloser c = false := fun c mem =>
    (isBarePart_of_isDisplayPart (.inl (Decimal.isDigit_digitsOf m c mem))).1
  rw [toList_line]
  split
  · exact digits _
  · rw [List.forall_mem_cons]
    exact ⟨by decide, digits _⟩

/-- Lines with the same text are the same. -/
theorem eq_of_line {n m : Int} (same : (toString n).toList = (toString m).toList) : n = m := by
  have unsigned {k l : Nat} : Decimal.digitsOf k ≠ '-' :: Decimal.digitsOf l := fun same =>
    absurd (Decimal.isDigit_digitsOf k '-' (by rw [same]; exact List.mem_cons_self ..)) (by decide)
  have number {k l : Nat} (same : Decimal.digitsOf k = Decimal.digitsOf l) : k = l := by
    rw [← Decimal.ofDigits_digitsOf k, same, Decimal.ofDigits_digitsOf]
  rw [toList_line, toList_line] at same
  split at same <;> split at same
  · have := number same
    omega
  · exact absurd same unsigned
  · exact absurd same.symm unsigned
  · have := number (List.cons.inj same).2
    omega

/-- A line that may be missing shows in the dump of a token, and so does its end. -/
theorem line_append_inj {line line' : Option Int} {r s : List Char} (closed : Closed r)
    (closed' : Closed s)
    (same : (match line with | some n => '@' :: (toString n).toList | Option.none => []) ++ r =
      (match line' with | some n => '@' :: (toString n).toList | Option.none => []) ++ s) :
    line = line' ∧ r = s := by
  -- What comes behind a token starts with a closer, so not with the sign of a line.
  have mark {rest after : List Char} (closed : Closed rest) : rest ≠ '@' :: after := by
    obtain ⟨c, cs, rfl, close⟩ := closed
    rintro ⟨⟩
    exact absurd close (by decide)
  cases line with
  | none =>
    cases line' with
    | none => exact ⟨rfl, same⟩
    | some m => exact absurd same (mark closed)
  | some n =>
    cases line' with
    | none => exact absurd same.symm (mark closed')
    | some m =>
      obtain ⟨text, rest⟩ := append_inj_of_closed (isCloser_line n) (isCloser_line m) closed closed'
        (List.cons.inj same).2
      exact ⟨congrArg some (eq_of_line text), rest⟩

/-- The dump of a token shows its text and its line, and where it ends. -/
theorem ofToken_append_inj {lines : Bool} {t u : Token} {text text' : String}
    (lexeme : t.lexeme = some text) (lexeme' : u.lexeme = some text') {r s : List Char}
    (closed : Closed r) (closed' : Closed s)
    (same : ofToken lines t ++ r = ofToken lines u ++ s) :
    seenToken lines t = seenToken lines u ∧ r = s := by
  rw [ofToken_eq lexeme, ofToken_eq lexeme', List.append_assoc, List.append_assoc] at same
  obtain ⟨chars, behind⟩ := Text.quotedChars_append_inj same
  obtain ⟨line, rest⟩ := line_append_inj closed closed' behind
  obtain rfl : text = text' := String.toList_inj.1 chars
  refine ⟨?_, rest⟩
  simp only [seenToken, Token.mk.injEq, true_and, and_true] at line ⊢
  exact ⟨lexeme.trans lexeme'.symm, line⟩

/-! ## Trees -/

/-- A datum is built like the trees of the language: values stand in literals, tokens have texts and
no values, and nodes have as many fields as their kind has names. -/
inductive Regular : Datum → Prop
  | none : Regular .none
  | token {t : Token} {text : String} :
    t.lexeme = some text → t.literal = Option.none → Regular (.token t)
  | tuple {items : List Datum} : (∀ d ∈ items, Regular d) → Regular (.tuple items)
  | literal {value : Literal} : value.Legible → Regular (.node .literal [value.toDatum])
  | node {kind : Kind} {fields : List Datum} :
    kind ≠ .literal → fields.length = kind.fields.length → (∀ d ∈ fields, Regular d) →
    Regular (.node kind fields)

mutual

/-- A datum as far as a dump shows it: of its tokens the texts and perhaps the lines. -/
def seen (lines : Bool) : Datum → Datum
  | token t => .token (seenToken lines t)
  | tuple items => .tuple (seenAll lines items)
  | list items => .list (seenAll lines items)
  | node kind fields => .node kind (seenAll lines fields)
  | none => .none
  | bool b => .bool b
  | number x => .number x
  | text s => .text s
  | bare => .bare

/-- Some data as far as a dump shows them. -/
def seenAll (lines : Bool) : List Datum → List Datum
  | [] => []
  | d :: ds => seen lines d :: seenAll lines ds

end

/-- Each of some data is shown. -/
theorem seenAll_eq_map (lines : Bool) (ds : List Datum) :
    seenAll lines ds = ds.map (seen lines) := by
  induction ds with
  | nil => rfl
  | cons d ds ih => rw [seenAll, ih, List.map_cons]

/-- Each of some data is dumped. -/
theorem dumpAll_eq_map (lines : Bool) (ds : List Datum) :
    dumpAll lines ds = ds.map (dump lines) := by
  induction ds with
  | nil => rfl
  | cons d ds ih => rw [dumpAll, ih, List.map_cons]

/-- Each field of a node is dumped behind its name. -/
theorem dumpFields_eq_map (lines : Bool) (names : List String) (ds : List Datum) :
    dumpFields lines names ds =
      (names.zip ds).map fun field => field.1.toList ++ '=' :: dump lines field.2 := by
  induction names generalizing ds with
  | nil => cases ds <;> simp [dumpFields]
  | cons name names ih =>
    cases ds with
    | nil => simp [dumpFields]
    | cons d ds => rw [dumpFields, ih, List.zip_cons_cons, List.map_cons]

/-- What a dump starts with tells which datum it is a dump of. -/
inductive Form
  | none | token | tuple | node
  deriving DecidableEq

/-- The form of a datum that is built like a tree. -/
def form : Datum → Form
  | token _ => .token
  | tuple _ => .tuple
  | node _ _ => .node
  | _ => .none

/-- The form that the first character of a dump tells. -/
def formOf (c : Char) : Option Form :=
  if isCloser c then Option.none
  else if c = 'N' then some .none
  else if c = '\'' ∨ c = '"' then some .token
  else if c = '[' then some .tuple
  else some .node

/-- The name of a kind starts with a letter that only nodes start with. -/
theorem title_eq_cons (kind : Kind) :
    ∃ c cs, kind.title.toList = c :: cs ∧ formOf c = some .node := by
  cases kind <;> exact ⟨_, _, rfl, rfl⟩

/-- The name of a kind has no parenthesis in it. -/
theorem ne_of_mem_title (kind : Kind) : ∀ c ∈ kind.title.toList, (c != '(') = true := by
  cases kind <;> exact List.all_eq_true.1 rfl

/-- A dump starts with a character that tells its form. -/
theorem dump_eq_cons (lines : Bool) {d : Datum} (regular : d.Regular) :
    ∃ c cs, dump lines d = c :: cs ∧ formOf c = some d.form := by
  cases regular with
  | none => exact ⟨'N', "one".toList, rfl, rfl⟩
  | token lexeme =>
    obtain ⟨quote, cs, isQuote, quoted⟩ := Text.quotedChars_eq_cons _
    rw [dump_token, ofToken_eq lexeme, quoted]
    refine ⟨quote, _, rfl, ?_⟩
    obtain rfl | rfl := isQuote <;> rfl
  | tuple => exact ⟨'[', _, rfl, rfl⟩
  | literal => exact ⟨'L', _, rfl, rfl⟩
  | node =>
    obtain ⟨c, cs, title, tells⟩ := title_eq_cons _
    rw [dump_node, title]
    exact ⟨c, _, rfl, tells⟩

/-- What comes of the text behind the first of some items. -/
def afterItem (close : List Char) : List (List Char) → List Char
  | [] => close
  | items => ',' :: ' ' :: (commas items ++ close)

/-- The text of some items is that of the first one and what comes behind it. -/
theorem commas_cons (item : List Char) (items : List (List Char)) (close : List Char) :
    commas (item :: items) ++ close = item ++ afterItem close items := by
  cases items with
  | nil => simp [commas, afterItem]
  | cons next items => simp [commas, afterItem]

/-- A closer stands behind each item. -/
theorem closed_afterItem {close : List Char} (closed : Closed close) (items : List (List Char)) :
    Closed (afterItem close items) := by
  cases items with
  | nil => exact closed
  | cons next items => exact ⟨',', _, rfl, rfl⟩

/-- If each item shows what it is and where it ends, then so do items with commas between them, up
to a closer that none of them starts with. -/
theorem commas_append_inj {α β : Type} {item : α → List Char} (sees : α → β) {close : Char}
    (closer : isCloser close = true) (other : close ≠ ',') {as bs : List α} {r s : List Char}
    (starts : ∀ b ∈ bs, ∀ t u, item b ++ t ≠ close :: u)
    (starts' : ∀ a ∈ as, ∀ t u, item a ++ t ≠ close :: u)
    (inj : ∀ a ∈ as, ∀ b ∈ bs, ∀ t u, Closed t → Closed u → item a ++ t = item b ++ u →
      sees a = sees b ∧ t = u)
    (same : commas (as.map item) ++ close :: r = commas (bs.map item) ++ close :: s) :
    as.map sees = bs.map sees ∧ r = s := by
  have closed (rest : List Char) : Closed (close :: rest) := ⟨close, rest, rfl, closer⟩
  -- By induction on both rows: the items at the front end at the same place.
  induction as generalizing bs with
  | nil =>
    cases bs with
    | nil => exact ⟨rfl, (List.cons.inj same).2⟩
    | cons b bs =>
      rw [List.map_cons, commas_cons] at same
      exact absurd same.symm (starts b (List.mem_cons_self ..) _ _)
  | cons a as ih =>
    rw [List.map_cons, commas_cons] at same
    cases bs with
    | nil => exact absurd same (starts' a (List.mem_cons_self ..) _ _)
    | cons b bs =>
      rw [List.map_cons, commas_cons] at same
      obtain ⟨first, behind⟩ := inj a (List.mem_cons_self ..) b (List.mem_cons_self ..) _ _
        (closed_afterItem (closed r) _) (closed_afterItem (closed s) _) same
      -- Both rows end here, or both go on behind a comma.
      have rest : commas (as.map item) ++ close :: r = commas (bs.map item) ++ close :: s := by
        cases as with
        | nil =>
          cases bs with
          | nil => exact behind
          | cons b' bs => exact absurd (List.cons.inj behind).1 other
        | cons a' as =>
          cases bs with
          | nil => exact absurd (List.cons.inj behind).1.symm other
          | cons b' bs => exact (List.cons.inj (List.cons.inj behind).2).2
      obtain ⟨others, end_⟩ := ih (fun b mem => starts b (List.mem_cons_of_mem _ mem))
        (fun a mem => starts' a (List.mem_cons_of_mem _ mem))
        (fun a mem b mem' => inj a (List.mem_cons_of_mem _ mem) b (List.mem_cons_of_mem _ mem'))
        rest
      exact ⟨by rw [List.map_cons, List.map_cons, first, others], end_⟩

/-- Kinds with the same name are the same. -/
theorem eq_of_title {kind kind' : Kind} (same : kind.title = kind'.title) : kind = kind' := by
  have distinct : ∀ k ∈ Kind.all, ∀ l ∈ Kind.all, k.title = l.title → k = l := by decide +kernel
  exact distinct kind kind.mem_all kind' kind'.mem_all same

/-- The name of a kind shows the kind and where it ends. -/
theorem title_append_inj {kind kind' : Kind} {r s : List Char}
    (same : kind.title.toList ++ '(' :: r = kind'.title.toList ++ '(' :: s) :
    kind = kind' ∧ r = s := by
  obtain ⟨titles, behind⟩ := append_inj_of_class (ne_of_mem_title kind) (ne_of_mem_title kind')
    (by simp) (by simp) same
  exact ⟨eq_of_title (String.toList_inj.1 titles), (List.cons.inj behind).2⟩

/-- The names of fields have no equals sign in them, and no parenthesis. -/
theorem ne_of_mem_fields {kind : Kind} {name : String} (mem : name ∈ kind.fields) :
    ∀ c ∈ name.toList, (c != '=') = true ∧ c ≠ ')' := by
  have all : Kind.all.all (·.fields.all (·.toList.all fun c => c != '=' && c != ')')) = true := by
    decide +kernel
  have letters := List.all_eq_true.1 (List.all_eq_true.1 (List.all_eq_true.1 all kind kind.mem_all)
    name mem)
  intro c inside
  have letter := letters c inside
  rw [Bool.and_eq_true] at letter
  exact ⟨letter.1, bne_iff_ne.1 letter.2⟩

/-- A field behind its name does not start with a parenthesis. -/
theorem field_append_ne {kind : Kind} {name : String} (mem : name ∈ kind.fields)
    (text t u : List Char) : name.toList ++ '=' :: text ++ t ≠ ')' :: u := by
  have letters := ne_of_mem_fields mem
  cases chars : name.toList with
  | nil => simp
  | cons c cs =>
    rw [chars] at letters
    have := (letters c (List.mem_cons_self ..)).2
    simp [this]

/-- If each field of two nodes of a kind shows what it is and where it ends, then so do all of them,
behind their names. -/
theorem dumpFields_append_inj {lines : Bool} {kind : Kind} {ds ds' : List Datum}
    (length : ds.length = kind.fields.length) (length' : ds'.length = kind.fields.length)
    (inj : ∀ d ∈ ds, ∀ d' ∈ ds', ∀ t u, Closed t → Closed u →
      dump lines d ++ t = dump lines d' ++ u → seen lines d = seen lines d' ∧ t = u)
    {r s : List Char}
    (same : commas (dumpFields lines kind.fields ds) ++ ')' :: r =
      commas (dumpFields lines kind.fields ds') ++ ')' :: s) :
    seenAll lines ds = seenAll lines ds' ∧ r = s := by
  rw [dumpFields_eq_map, dumpFields_eq_map] at same
  obtain ⟨fields, rest⟩ := commas_append_inj (fun field : String × Datum => seen lines field.2)
    rfl (by decide)
    (fun field mem t u => field_append_ne (List.of_mem_zip mem).1 _ t u)
    (fun field mem t u => field_append_ne (List.of_mem_zip mem).1 _ t u)
    (fun field mem field' mem' t u closed closed' same => by
      obtain ⟨name, datum⟩ := List.of_mem_zip mem
      obtain ⟨name', datum'⟩ := List.of_mem_zip mem'
      simp only [List.append_assoc, List.cons_append] at same
      obtain ⟨-, values⟩ := append_inj_of_class (fun c mem => (ne_of_mem_fields name c mem).1)
        (fun c mem => (ne_of_mem_fields name' c mem).1) (by simp) (by simp) same
      exact inj _ datum _ datum' t u closed closed' (List.cons.inj values).2)
    same
  -- Both rows have as many data as there are names, so no datum is lost.
  have values {es : List Datum} (length : es.length = kind.fields.length) :
      (kind.fields.zip es).map (fun field => seen lines field.2) = seenAll lines es := by
    rw [seenAll_eq_map, ← Function.comp_def, ← List.map_map, List.map_snd_zip (Nat.le_of_eq length)]
  rw [values length, values length'] at fields
  exact ⟨fields, rest⟩

/-- Data of different forms have dumps that start differently. -/
theorem form_eq_of_dump {lines : Bool} {d d' : Datum} (regular : d.Regular) (regular' : d'.Regular)
    {r s : List Char} (same : dump lines d ++ r = dump lines d' ++ s) : d.form = d'.form := by
  obtain ⟨c, cs, starts, tells⟩ := dump_eq_cons lines regular
  obtain ⟨c', cs', starts', tells'⟩ := dump_eq_cons lines regular'
  rw [starts, starts', List.cons_append, List.cons_append] at same
  rw [(List.cons.inj same).1, tells'] at tells
  exact (Option.some.inj tells).symm

/-- No datum that is built like a tree has a dump that starts with a closer. -/
theorem dump_append_ne {lines : Bool} {d : Datum} (regular : d.Regular) {close : Char}
    (closer : isCloser close = true) (t u : List Char) : dump lines d ++ t ≠ close :: u := by
  obtain ⟨c, cs, starts, tells⟩ := dump_eq_cons lines regular
  rw [starts]
  rintro ⟨⟩
  simp [formOf, closer] at tells

/-- The dump of a node behind its name. -/
theorem dump_node_append (lines : Bool) (kind : Kind) (fields : List Datum) (r : List Char) :
    dump lines (.node kind fields) ++ r =
      kind.title.toList ++ '(' :: (commas (dumpFields lines kind.fields fields) ++ ')' :: r) := by
  simp

/-- The dump of a tuple behind its bracket. -/
theorem dump_tuple_append (lines : Bool) (items : List Datum) (r : List Char) :
    dump lines (.tuple items) ++ r = '[' :: (commas (items.map (dump lines)) ++ ']' :: r) := by
  simp [dumpAll_eq_map]

/-- The fields of a literal are its value behind the name. -/
theorem dumpFields_literal (lines : Bool) (value : Literal) :
    commas (dumpFields lines Kind.literal.fields [value.toDatum]) =
      "value=".toList ++ value.dumped := by
  simp [Kind.fields, dumpFields, commas]

/-- The dump of a datum that is built like a tree shows the datum and where it ends. -/
theorem dump_append_inj {lines : Bool} {d d' : Datum} (regular : d.Regular) (regular' : d'.Regular)
    {r s : List Char} (closed : Closed r) (closed' : Closed s)
    (same : dump lines d ++ r = dump lines d' ++ s) : seen lines d = seen lines d' ∧ r = s := by
  -- The first character tells the form of both data. Then they are of one form, and their parts are
  -- cut off one after the other.
  induction regular generalizing d' r s with
  | none =>
    have form := form_eq_of_dump .none regular' same
    cases regular' with
    | none => exact ⟨rfl, List.append_cancel_left same⟩
    | token | tuple | literal | node => cases form
  | token lexeme plain =>
    have form := form_eq_of_dump (.token lexeme plain) regular' same
    cases regular' with
    | token lexeme' =>
      obtain ⟨token, rest⟩ := ofToken_append_inj lexeme lexeme' closed closed' same
      exact ⟨congrArg Datum.token token, rest⟩
    | none | tuple | literal | node => cases form
  | tuple regular ih =>
    have form := form_eq_of_dump (.tuple regular) regular' same
    cases regular' with
    | tuple regular' =>
      rw [dump_tuple_append, dump_tuple_append] at same
      obtain ⟨items, rest⟩ := commas_append_inj (seen lines) rfl (by decide)
        (fun b mem => dump_append_ne (regular' b mem) rfl)
        (fun a mem => dump_append_ne (regular a mem) rfl)
        (fun a mem b mem' t u closed closed' => ih a mem (regular' b mem') closed closed')
        (List.cons.inj same).2
      rw [seen, seen, seenAll_eq_map, seenAll_eq_map]
      exact ⟨congrArg Datum.tuple items, rest⟩
    | none | token | literal | node => cases form
  | literal legible =>
    have form := form_eq_of_dump (.literal legible) regular' same
    cases regular' with
    | literal legible' =>
      rw [dump_node_append, dump_node_append, dumpFields_literal, dumpFields_literal,
        List.append_assoc, List.append_assoc] at same
      have values := List.append_cancel_left (title_append_inj same).2
      obtain ⟨rfl, rest⟩ := Literal.dumped_append_inj legible legible' ⟨')', _, rfl, rfl⟩
        ⟨')', _, rfl, rfl⟩ values
      exact ⟨rfl, (List.cons.inj rest).2⟩
    | node other =>
      rw [dump_node_append, dump_node_append] at same
      exact absurd (title_append_inj same).1.symm other
    | none | token | tuple => cases form
  | node other length regular ih =>
    have form := form_eq_of_dump (.node other length regular) regular' same
    cases regular' with
    | literal =>
      rw [dump_node_append, dump_node_append] at same
      exact absurd (title_append_inj same).1 other
    | node other' length' regular' =>
      rw [dump_node_append, dump_node_append] at same
      obtain ⟨rfl, behind⟩ := title_append_inj same
      obtain ⟨fields, rest⟩ := dumpFields_append_inj length length'
        (fun d mem d' mem' t u closed closed' => ih d mem (regular' d' mem') closed closed') behind
      rw [seen, seen]
      exact ⟨congrArg (Datum.node _) fields, rest⟩
    | none | token | tuple => cases form

/-- Rows of data that are built like trees are the same as far as their dumps show them, if the
dumps of the rows are equal. -/
theorem seenAll_eq_of_dump {lines : Bool} {ds ds' : List Datum} (regular : ∀ d ∈ ds, d.Regular)
    (regular' : ∀ d ∈ ds', d.Regular) (same : dump lines (.list ds) = dump lines (.list ds')) :
    seenAll lines ds = seenAll lines ds' := by
  have tuples : dump lines (.tuple ds) ++ [')'] = dump lines (.tuple ds') ++ [')'] :=
    congrArg (· ++ [')']) same
  have closed : Closed [')'] := ⟨')', [], rfl, rfl⟩
  obtain ⟨shows, -⟩ := dump_append_inj (.tuple regular) (.tuple regular') closed closed tuples
  exact Datum.tuple.inj shows

end Datum

end Lox
