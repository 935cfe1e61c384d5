import Worksheet.Proofs.Formula.Derivation

/-!
# Two stacks compute the tree

`Evaluation.ofTokens` never builds a tree, yet it computes the one that the tokens spell
(`Formula.evaluation_eq`): the same number or the same error, and the same names asked
for in the same order.  So it never runs out of operands or parentheses.

## Strategy

The tokens of an operand at some level are taken in one after the other, on top of
whatever the stacks hold.  A factor ends as a single operand would, with the product that
waits for it completed; a product just adds its value; a sum may leave one operator
pending, and adds its value once that is applied, by the next sum, by the closing
parenthesis or at the end (`CompletesSum`).  Which operators the latter two find on top is
what keeps the levels apart: no product waits below a product, and no operator at all
waits below a sum.
-/

namespace Worksheet

namespace Evaluation

variable {lookup : String → Option Float} {tokens : List Token} {tree : Expression}

/-- Whether the operator on top of the pending ones, if there is one, is not of a kind. -/
def NotOnTop (kind : Operator → Bool) (pending : List Pending) : Prop :=
  ∀ op rest, pending = .operator op :: rest → kind op = false

theorem reduce_of_notOnTop {kind : Operator → Bool} {state : Stacks}
    (htop : NotOnTop kind state.pending) : reduce kind state = pure state := by
  obtain ⟨values, pending⟩ := state
  cases pending with
  | nil => rfl
  | cons first rest =>
      cases first with
      | opening => rfl
      | operator op => simp [reduce, htop op rest rfl]

theorem pop_operator (op : Operator) (left right : Float) (values : List Float)
    (pending : List Pending) :
    pop ⟨right :: left :: values, .operator op :: pending⟩ =
      (ExceptT.mk (pure (op.apply left right)) : Run Float) >>= fun value =>
        pure ⟨value :: values, pending⟩ := by
  simp [pop, applyTop, applyTop.liftExcept]

theorem reduce_operator {kind : Operator → Bool} {op : Operator} (hop : kind op = true)
    (values : List Float) (pending : List Pending) :
    reduce kind ⟨values, .operator op :: pending⟩ = pop ⟨values, .operator op :: pending⟩ := by
  simp [reduce, hop]

/-- The stacks with one more value. -/
def Stacks.push (state : Stacks) (value : Float) : Stacks :=
  { state with values := value :: state.values }

/-- Whether something completes a sum that is taken in on top of the stacks: where the sum
leaves an operator pending, it applies that, and where not, it does nothing. -/
structure CompletesSum (complete : Stacks → Run Stacks) (state : Stacks) : Prop where
  notOnTop : NotOnTop (fun _ => true) state.pending
  operator : ∀ op, isAdditive op = true → ∀ left right,
    complete ⟨right :: left :: state.values, .operator op :: state.pending⟩ =
      pop ⟨right :: left :: state.values, .operator op :: state.pending⟩
  value : ∀ value, complete (state.push value) = pure (state.push value)

/-- The next sum and a closing parenthesis complete what stands before them. -/
theorem completesSum_reduce {state : Stacks} (htop : NotOnTop (fun _ => true) state.pending) :
    CompletesSum (reduce isAdditive) state where
  notOnTop := htop
  operator _ hop _ _ := reduce_operator hop _ _
  value _ := reduce_of_notOnTop fun op rest hpending => nomatch htop op rest hpending

/-- The end completes the outermost sum. -/
theorem completesSum_pop : CompletesSum pop {} where
  notOnTop _ _ hpending := nomatch hpending
  operator _ _ _ _ := rfl
  value _ := rfl

/-- What becomes of the stacks when the spelling of a tree is taken in.  At the level of
sums it is said of the stacks once the sum has been completed. -/
def TakesIn (lookup : String → Option Float) (tokens : List Token) (tree : Expression) :
    Expression.Level → Prop
  | .factor => ∀ state,
      tokens.foldlM (step lookup) state = tree.evaluation lookup >>= operand state
  | .product => ∀ state : Stacks, NotOnTop Operator.isMultiplicative state.pending →
      tokens.foldlM (step lookup) state =
        tree.evaluation lookup >>= fun value => pure (state.push value)
  | .sum => ∀ state complete, CompletesSum complete state →
      tokens.foldlM (step lookup) state >>= complete =
        tree.evaluation lookup >>= fun value => pure (state.push value)

theorem takesIn_group (hinner : TakesIn lookup tokens tree .sum) :
    TakesIn lookup (.opening :: (tokens ++ [.closing])) tree .factor := by
  intro state
  have hsum := hinner { state with pending := .opening :: state.pending } _
    (completesSum_reduce (by simp [NotOnTop]))
  obtain ⟨close, hclosing, hopened⟩ : ∃ close : Stacks → Run Stacks,
      (∀ inside, step lookup inside .closing = reduce isAdditive inside >>= close) ∧
        ∀ values pending, close ⟨values, .opening :: pending⟩ =
          reduce Operator.isMultiplicative ⟨values, pending⟩ :=
    ⟨_, fun _ => rfl, fun _ _ => rfl⟩
  calc (Token.opening :: (tokens ++ [.closing])).foldlM (step lookup) state
      = tokens.foldlM (step lookup) { state with pending := .opening :: state.pending } >>=
          fun inside => step lookup inside .closing := by
        simp [step]
    _ = tree.evaluation lookup >>= operand state := by
        simp only [hclosing]
        rw [← bind_assoc, hsum, bind_assoc]
        simp only [pure_bind, Stacks.push, hopened]
        rfl

theorem takesIn_times {op : Operator} {before after : List Token} {left right : Expression}
    (hop : op.isMultiplicative = true) (hfirst : TakesIn lookup before left .product)
    (hlast : TakesIn lookup after right .factor) :
    TakesIn lookup (before ++ .operator op :: after) (.binary op left right) .product := by
  intro state htop
  have hoperator : ∀ state, step lookup state (.operator op) =
      pure { state with pending := .operator op :: state.pending } := fun _ => by
    simp [step, hop]
  simp only [List.foldlM_append, List.foldlM_cons, hfirst state htop, bind_assoc, pure_bind,
    hoperator, hlast _, Expression.evaluation]
  refine bind_congr fun leftValue => bind_congr fun rightValue => ?_
  exact (reduce_operator hop _ _).trans
    (pop_operator op leftValue rightValue state.values state.pending)

theorem takesIn_plus {op : Operator} {before after : List Token} {left right : Expression}
    (hop : op.isMultiplicative = false) (hfirst : TakesIn lookup before left .sum)
    (hlast : TakesIn lookup after right .product) :
    TakesIn lookup (before ++ .operator op :: after) (.binary op left right) .sum := by
  intro state complete hcomplete
  have hadditive : isAdditive op = true := by simp [isAdditive, hop]
  have hoperator : ∀ state, step lookup state (.operator op) =
      reduce isAdditive state >>= fun state =>
        pure { state with pending := .operator op :: state.pending } := fun _ => by
    simp [step, hop]
  have hproduct : ∀ value, after.foldlM (step lookup)
      ⟨value :: state.values, .operator op :: state.pending⟩ =
        right.evaluation lookup >>= fun rightValue =>
          pure ⟨rightValue :: value :: state.values, .operator op :: state.pending⟩ :=
    fun value => hlast _ fun other rest hpending => by
      cases hpending
      exact hop
  -- The operator first applies the one that waits, which ends the sum on its left.
  calc (before ++ .operator op :: after).foldlM (step lookup) state >>= complete
      = (before.foldlM (step lookup) state >>= reduce isAdditive) >>= fun state =>
          after.foldlM (step lookup) { state with pending := .operator op :: state.pending } >>=
            complete := by
        simp only [List.foldlM_append, List.foldlM_cons, hoperator, bind_assoc, pure_bind]
    _ = left.evaluation lookup >>= fun leftValue => right.evaluation lookup >>= fun rightValue =>
          complete ⟨rightValue :: leftValue :: state.values, .operator op :: state.pending⟩ := by
        rw [hfirst state _ (completesSum_reduce hcomplete.notOnTop)]
        simp only [bind_assoc, pure_bind, Stacks.push, hproduct]
    _ = (Expression.binary op left right).evaluation lookup >>= fun value =>
          pure (state.push value) := by
        simp only [hcomplete.operator op hadditive, pop_operator, Expression.evaluation,
          bind_assoc]
        rfl

/-- What becomes of the stacks is the same for all spellings of a tree at a level. -/
theorem takesIn_of_spelling {level : Expression.Level}
    (hspelling : Expression.Spelling level tokens tree) : TakesIn lookup tokens tree level := by
  induction hspelling with
  | number value =>
      intro state
      simp [step, Expression.evaluation]
  | name stored =>
      intro state
      simp [step, Expression.evaluation]
  | group _ ih => exact takesIn_group ih
  | ofFactor _ ih =>
      intro state htop
      rw [ih state]
      exact bind_congr fun value => reduce_of_notOnTop htop
  | times hop _ _ ihfirst ihlast => exact takesIn_times hop ihfirst ihlast
  | ofProduct _ ih =>
      intro state complete hcomplete
      have hnone : NotOnTop Operator.isMultiplicative state.pending :=
        fun op rest hpending => nomatch hcomplete.notOnTop op rest hpending
      rw [ih state hnone, bind_assoc]
      simp only [pure_bind]
      exact bind_congr hcomplete.value
  | plus hop _ _ ihfirst ihlast => exact takesIn_plus hop ihfirst ihlast

/-- The two stacks compute the tree that the tokens spell. -/
theorem ofTokens_of_spelling (hspelling : Expression.Spelling .sum tokens tree) :
    ofTokens lookup tokens = tree.evaluation lookup := by
  have htakes : TakesIn lookup tokens tree .sum := takesIn_of_spelling hspelling
  have hsum := htakes {} pop completesSum_pop
  unfold ofTokens finish
  rw [← bind_assoc, hsum]
  simp [Stacks.push]

end Evaluation

/-! ## Why a formula has no number -/

namespace Evaluation

/-- A run of two steps fails in the first step, or in the second one after it. -/
theorem error_of_bind {α β : Type} {first : Run α} {next : α → Run β} {asked : List String}
    {cause : EvalError} (herror : ((first >>= next).run.run asked).1 = .error cause) :
    (first.run.run asked).1 = .error cause ∨
      ∃ value later, ((next value).run.run later).1 = .error cause := by
  rw [run_bind] at herror
  rcases hfirst : first.run.run asked with ⟨other | value, later⟩
  · rw [hfirst] at herror
    cases herror
    exact Or.inl rfl
  · rw [hfirst] at herror
    exact Or.inr ⟨value, later, herror⟩

end Evaluation

theorem Operator.error_of_apply {op : Operator} {left right : Float} {cause : EvalError}
    (herror : op.apply left right = .error cause) : cause = .divisionByZero := by
  cases op with
  | plus => cases herror
  | minus => cases herror
  | times => cases herror
  | divide =>
      simp only [apply] at herror
      split at herror <;> cases herror
      rfl

/-- Computing a tree fails at a name that the lookup does not define or at a division by
zero. -/
theorem Expression.error_of_evaluation {tree : Expression} {lookup : String → Option Float}
    {asked : List String} {cause : EvalError}
    (herror : ((tree.evaluation lookup).run.run asked).1 = .error cause) :
    (∃ name, lookup name = none ∧ cause = .undefined name) ∨ cause = .divisionByZero := by
  induction tree generalizing asked with
  | number value => cases herror
  | name stored =>
      cases hlookup : lookup stored with
      | some value =>
          have hfound : Evaluation.ask lookup stored =
              (modify (stored :: ·) >>= fun _ => pure value) := by
            simp only [Evaluation.ask, hlookup]
          rw [evaluation, hfound] at herror
          cases herror
      | none =>
          have hmissing : Evaluation.ask lookup stored =
              (modify (stored :: ·) >>= fun _ => throw (.undefined stored)) := by
            simp only [Evaluation.ask, hlookup]
          rw [evaluation, hmissing] at herror
          cases herror
          exact Or.inl ⟨stored, hlookup, rfl⟩
  | binary op left right ihleft ihright =>
      rcases Evaluation.error_of_bind herror with hleft | ⟨leftValue, later, hnext⟩
      · exact ihleft hleft
      rcases Evaluation.error_of_bind hnext with hright | ⟨rightValue, last, happly⟩
      · exact ihright hright
      · exact Or.inr (Operator.error_of_apply happly)

namespace Formula

/-- A formula spells a tree. -/
theorem exists_spelling (f : Formula) :
    ∃ tree, Expression.Spelling .sum f.tokens tree :=
  Grammar.exists_spelling_of_accepts (Grammar.fault?_eq_none_iff_accepts.mp f.grammatical)

end Formula

end Worksheet
