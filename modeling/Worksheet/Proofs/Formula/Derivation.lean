import Worksheet.Formula.Grammar
import Worksheet.Proofs.Formula.Expression

/-!
# The language behind the local looks

`Grammar.Derives` is the language of formulas by its four rules.  `Grammar.fault?` finds
nothing wrong with exactly the lists of tokens in it (`fault?_eq_none_iff_derives`), and
then there is a tree that they spell (`Accepts.exists_spelling`).

## Strategy

Between the looks and the rules stands `Grammar.Accepts`, a reader from left to right
that remembers two things only: whether an operand has to come next, and how many
parentheses are open.  The looks at the ends, the neighbours and the parentheses together
are this reader.  What a rule derives takes the reader from wanting an operand to not
wanting one, at the same depth and whatever comes behind (`Derives.accepts_append`).
Conversely, what the reader accepts is split at the first place where a factor, a product
or a sum is complete; inside parentheses the rest is shorter, and the induction is on that
length.
-/

namespace Worksheet.Grammar

open Expression (Level Spelling)

/-! ## The rules -/

/-- The lists of tokens that are formulas. -/
inductive Derives : List Token → Prop where
  | number (value : Float) : Derives [.number value]
  | name (stored : String) : Derives [.name stored]
  | group {tokens : List Token} (inner : Derives tokens) :
      Derives (.opening :: (tokens ++ [.closing]))
  | binary (op : Operator) {left right : List Token} (first : Derives left)
      (last : Derives right) : Derives (left ++ .operator op :: right)

/-- A tree is spelled by a formula, at every level. -/
theorem derives_of_spelling {level : Level} {tokens : List Token} {tree : Expression}
    (hspelling : Spelling level tokens tree) : Derives tokens := by
  induction hspelling with
  | number value => exact .number value
  | name stored => exact .name stored
  | group _ ih => exact .group ih
  | ofFactor _ ih => exact ih
  | times _ _ _ ihfirst ihlast => exact .binary _ ihfirst ihlast
  | ofProduct _ ih => exact ih
  | plus _ _ _ ihfirst ihlast => exact .binary _ ihfirst ihlast

/-! ## The reader -/

/-- Whether the tokens can be read to their end, where `wantsOperand` says that an operand
has to come next and `depth` parentheses are open. -/
def Accepts : (wantsOperand : Bool) → (depth : Nat) → List Token → Prop
  | wantsOperand, depth, [] => wantsOperand = false ∧ depth = 0
  | wantsOperand, depth, .number _ :: rest => wantsOperand = true ∧ Accepts false depth rest
  | wantsOperand, depth, .name _ :: rest => wantsOperand = true ∧ Accepts false depth rest
  | wantsOperand, depth, .operator _ :: rest => wantsOperand = false ∧ Accepts true depth rest
  | wantsOperand, depth, .opening :: rest => wantsOperand = true ∧ Accepts true (depth + 1) rest
  | wantsOperand, depth, .closing :: rest =>
      wantsOperand = false ∧ 0 < depth ∧ Accepts false (depth - 1) rest

variable {tokens : List Token} {depth : Nat}

/-- The looks at the neighbours, the end and the parentheses are the reader behind some
token. -/
theorem faults_behind_iff (before : Token) (index place : Nat) {opened closed : Nat}
    (hclosed : closed ≤ opened) :
    (neighboursFault? index (before :: tokens) = none ∧
      (∃ last, (before :: tokens).getLast? = some last ∧ last.endsOperand = true) ∧
      parenthesesFault? place opened closed tokens = none) ↔
    Accepts (!before.endsOperand) (opened - closed) tokens := by
  induction tokens generalizing before index place opened closed with
  | nil =>
      have hbalance : opened = closed ↔ opened - closed = 0 := by omega
      simp [neighboursFault?, parenthesesFault?, Accepts, hbalance]
  | cons token tokens ih =>
      have hpair : pairFault? index before token = none ↔
          token.startsOperand = !before.endsOperand := by
        unfold pairFault?
        cases before.endsOperand <;> cases token.startsOperand <;> simp
      have hneighbours : neighboursFault? index (before :: token :: tokens) = none ↔
          token.startsOperand = (!before.endsOperand) ∧
            neighboursFault? (index + 1) (token :: tokens) = none := by
        rw [neighboursFault?, Option.or_eq_none_iff, hpair]
      rw [hneighbours, List.getLast?_cons_cons, and_assoc]
      cases token with
      | number value =>
          simp only [parenthesesFault?, ih (.number value) (index + 1) (place + 1) hclosed, Accepts]
          exact and_congr_left fun _ => eq_comm
      | name stored =>
          simp only [parenthesesFault?, ih (.name stored) (index + 1) (place + 1) hclosed, Accepts]
          exact and_congr_left fun _ => eq_comm
      | operator op =>
          simp only [parenthesesFault?, ih (.operator op) (index + 1) (place + 1) hclosed, Accepts]
          exact and_congr_left fun _ => eq_comm
      | opening =>
          have hdepth : opened + 1 - closed = opened - closed + 1 := by omega
          have hrest := ih .opening (index + 1) (place + 1) (Nat.le_succ_of_le hclosed)
          simp only [parenthesesFault?, hrest, Accepts, hdepth]
          exact and_congr_left fun _ => eq_comm
      | closing =>
          simp only [parenthesesFault?, Accepts]
          by_cases hopen : opened < closed + 1
          · have hnone : ¬ 0 < opened - closed := by omega
            simp [hopen, hnone]
          · have hdepth : opened - (closed + 1) = opened - closed - 1 := by omega
            have hsome : 0 < opened - closed := by omega
            have hrest := ih .closing (index + 1) (place + 1) (Nat.not_lt.mp hopen)
            simp only [if_neg hopen, hrest, hsome, true_and, hdepth]
            exact and_congr_left fun _ => eq_comm

theorem fault?_eq_none_iff_accepts : fault? tokens = none ↔ Accepts true 0 tokens := by
  cases tokens with
  | nil => simp [fault?, endsFault?, Accepts]
  | cons first rest =>
      have hends : endsFault? (first :: rest) = none ↔ first.startsOperand = true ∧
          ∃ last, (first :: rest).getLast? = some last ∧ last.endsOperand = true := by
        cases hlast : (first :: rest).getLast? with
        | none => simp at hlast
        | some last =>
            simp only [endsFault?, List.head?_cons, hlast]
            cases hstart : first.startsOperand <;> cases hend : last.endsOperand <;> simp [hend]
      have hbehind {opened closed : Nat} (hclosed : closed ≤ opened) :=
        @faults_behind_iff rest first 0 1 opened closed hclosed
      rw [fault?, Option.or_eq_none_iff, Option.or_eq_none_iff, hends, and_assoc,
        and_left_comm (a := ∃ last, _)]
      cases first with
      | number value =>
          have hrest := hbehind (Nat.le_refl 0)
          simpa [parenthesesFault?, Accepts, Token.startsOperand, Token.endsOperand] using hrest
      | name stored =>
          have hrest := hbehind (Nat.le_refl 0)
          simpa [parenthesesFault?, Accepts, Token.startsOperand, Token.endsOperand] using hrest
      | operator op => simp [Accepts, Token.startsOperand]
      | opening =>
          have hrest := hbehind (Nat.zero_le 1)
          simpa [parenthesesFault?, Accepts, Token.startsOperand, Token.endsOperand] using hrest
      | closing => simp [Accepts, Token.startsOperand]

/-! ## What the rules derive is accepted -/

/-- Where the reader wants an operand it may read a formula, and then goes on at the same
depth. -/
theorem Derives.accepts_append (hderives : Derives tokens) {rest : List Token}
    (hrest : Accepts false depth rest) : Accepts true depth (tokens ++ rest) := by
  induction hderives generalizing depth rest with
  | number value => exact ⟨rfl, hrest⟩
  | name stored => exact ⟨rfl, hrest⟩
  | group _ ih =>
      have hclosing : Accepts false (depth + 1) (.closing :: rest) :=
        ⟨rfl, Nat.succ_pos depth, hrest⟩
      rw [List.cons_append, List.append_assoc]
      exact ⟨rfl, ih hclosing⟩
  | binary op _ _ ihfirst ihlast =>
      rw [List.append_assoc]
      exact ihfirst ⟨rfl, ihlast hrest⟩

/-! ## What is accepted is spelled by a tree -/

/-- Whether an operator goes on with an operand at some level. -/
def joins : Level → Operator → Bool
  | .sum, _ => true
  | .product, op => op.isMultiplicative
  | .factor, _ => false

/-- Whether the tokens behind an operand at some level go on with it. -/
def goesOn (level : Level) : List Token → Bool
  | .operator op :: _ => joins level op
  | _ => false

theorem exists_operator_of_goesOn {level : Level} {rest : List Token}
    (hgoes : goesOn level rest = true) :
    ∃ op later, rest = .operator op :: later ∧ joins level op = true := by
  unfold goesOn at hgoes
  split at hgoes
  · exact ⟨_, _, rfl, hgoes⟩
  · cases hgoes

/-- Whether the tokens start with the spelling of a tree at some level, as long as it may
be, with a rest that the reader accepts. -/
def Splits (level : Level) (depth : Nat) (tokens : List Token) : Prop :=
  ∃ read rest tree, tokens = read ++ rest ∧ Spelling level read tree ∧
    Accepts false depth rest ∧ goesOn level rest = false

theorem splits_factor (haccepts : Accepts true depth tokens)
    (hinner : ∀ inner : List Token, inner.length < tokens.length →
      Accepts true (depth + 1) inner → Splits .sum (depth + 1) inner) :
    Splits .factor depth tokens := by
  have hdone : ∀ rest, goesOn .factor rest = false := by
    intro rest
    cases hgoes : goesOn .factor rest with
    | false => rfl
    | true =>
        obtain ⟨_, _, -, hjoins⟩ := exists_operator_of_goesOn hgoes
        cases hjoins
  cases tokens with
  | nil => cases haccepts.1
  | cons first rest =>
      cases first with
      | number value =>
          exact ⟨[.number value], rest, _, rfl, .number value, haccepts.2, hdone rest⟩
      | name stored => exact ⟨[.name stored], rest, _, rfl, .name stored, haccepts.2, hdone rest⟩
      | operator op => cases haccepts.1
      | closing => cases haccepts.1
      | opening =>
          obtain ⟨read, after, tree, rfl, hspelling, hafter, hend⟩ :=
            hinner rest (Nat.lt_succ_self _) haccepts.2
          -- A sum that does not go on is closed, for a parenthesis is open.
          cases after with
          | nil => cases hafter.2
          | cons next after =>
              cases next with
              | closing =>
                  exact ⟨.opening :: (read ++ [.closing]), after, tree, by simp,
                    .group hspelling, hafter.2.2, hdone after⟩
              | operator op => cases hend
              | number value => cases hafter.1
              | name stored => cases hafter.1
              | opening => cases hafter.1

/-- An operand at some level goes on as long as operands of the next tighter level
follow. -/
theorem splits_append {level tighter : Level}
    (hjoin : ∀ {op : Operator} {before after : List Token} {left right : Expression},
      joins level op = true → joins tighter op = false → Spelling level before left →
        Spelling tighter after right →
          Spelling level (before ++ .operator op :: after) (.binary op left right))
    {read rest : List Token} {tree : Expression} (hread : Spelling level read tree)
    (hrest : Accepts false depth rest) (htight : goesOn tighter rest = false)
    (hoperand : ∀ later : List Token, later.length < rest.length →
      Accepts true depth later → Splits tighter depth later) :
    Splits level depth (read ++ rest) := by
  induction hlength : rest.length using Nat.strongRecOn generalizing read rest tree with
  | _ length ih =>
      subst hlength
      cases hgoes : goesOn level rest with
      | false => exact ⟨read, rest, tree, rfl, hread, hrest, hgoes⟩
      | true =>
          obtain ⟨op, later, rfl, hop⟩ := exists_operator_of_goesOn hgoes
          obtain ⟨more, after, operand, rfl, hmore, hafter, hend⟩ :=
            hoperand later (Nat.lt_succ_self _) hrest.2
          have hlt : after.length < (Token.operator op :: (more ++ after)).length := by
            simp only [List.length_cons, List.length_append]
            omega
          have hlonger := hjoin hop htight hread hmore
          have hsplits := ih after.length hlt hlonger hafter hend
            (fun last hlast => hoperand last (Nat.lt_trans hlast hlt)) rfl
          rwa [List.append_assoc, List.cons_append] at hsplits

/-- Where the reader wants an operand it finds a sum. -/
theorem splits_sum (haccepts : Accepts true depth tokens) : Splits .sum depth tokens := by
  induction hlength : tokens.length using Nat.strongRecOn generalizing tokens depth with
  | _ length ih =>
      subst hlength
      have hfactor : ∀ later : List Token, later.length ≤ tokens.length →
          Accepts true depth later → Splits .factor depth later := by
        intro later hle hlater
        exact splits_factor hlater fun inner hlt hinner =>
          ih inner.length (Nat.lt_of_lt_of_le hlt hle) hinner rfl
      have hproduct : ∀ later : List Token, later.length ≤ tokens.length →
          Accepts true depth later → Splits .product depth later := by
        intro later hle hlater
        obtain ⟨read, rest, tree, rfl, hread, hrest, hend⟩ := hfactor later hle hlater
        rw [List.length_append] at hle
        exact splits_append (fun hop _ => .times hop) (.ofFactor hread) hrest hend
          fun last hlast => hfactor last (by omega)
      obtain ⟨read, rest, tree, heq, hread, hrest, hend⟩ :=
        hproduct tokens (Nat.le_refl _) haccepts
      have hle : rest.length ≤ tokens.length := by simp [heq]
      have hsplits : Splits .sum depth (read ++ rest) :=
        splits_append (fun _ hop => .plus hop) (.ofProduct hread) hrest hend
          fun last hlast => hproduct last (by omega)
      rwa [← heq] at hsplits

/-- What the reader accepts as a whole is the spelling of a tree. -/
theorem exists_spelling_of_accepts (haccepts : Accepts true 0 tokens) :
    ∃ tree, Spelling .sum tokens tree := by
  obtain ⟨read, rest, tree, rfl, hread, hrest, hend⟩ := splits_sum haccepts
  cases rest with
  | nil => exact ⟨tree, by simpa using hread⟩
  | cons next rest =>
      cases next with
      | operator op => cases hend
      | closing => exact absurd hrest.2.1 (Nat.lt_irrefl 0)
      | number value => cases hrest.1
      | name stored => cases hrest.1
      | opening => cases hrest.1

/-- The looks find nothing wrong with exactly the lists of tokens that the rules derive. -/
theorem fault?_eq_none_iff_derives : fault? tokens = none ↔ Derives tokens := by
  rw [fault?_eq_none_iff_accepts]
  constructor
  · intro haccepts
    obtain ⟨tree, hspelling⟩ := exists_spelling_of_accepts haccepts
    exact derives_of_spelling hspelling
  · intro hderives
    have haccepts : Accepts true 0 (tokens ++ []) := hderives.accepts_append ⟨rfl, rfl⟩
    rwa [List.append_nil] at haccepts

end Worksheet.Grammar
