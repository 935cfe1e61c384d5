import Worksheet.Formula.Evaluation

/-!
# Expressions

The meaning of a formula is the tree that its tokens spell.  `Expression.Spelling`
gives the trees by levels, as one would write them down for a reader:

```text
sum      =  product { (+|-) product }
product  =  factor { (*|/) factor }
factor   =  number | name | ( sum )
```

Operators of one level associate to the left, so a longer sum has the shorter one as
its left operand.  `Expression.evaluation` computes a tree: the left operand, the right
operand, then the operator.
-/

namespace Worksheet

/-- An arithmetic expression as a tree. -/
inductive Expression where
  | number (value : Float)
  | name (stored : String)
  | binary (op : Operator) (left right : Expression)
  deriving Repr, DecidableEq, Inhabited

namespace Expression

/-- The run that computes a tree, up to the first failure. -/
def evaluation (lookup : String → Option Float) : Expression → Evaluation.Run Float
  | number value => pure value
  | name stored => Evaluation.ask lookup stored
  | binary op left right => do
      let leftValue ← left.evaluation lookup
      let rightValue ← right.evaluation lookup
      ExceptT.mk (pure (op.apply leftValue rightValue))

/-- The number of a tree. -/
def evaluate (tree : Expression) (lookup : String → Option Float) : Except EvalError Float :=
  ((tree.evaluation lookup).run.run []).1

/-- The names that computing a tree asks for, in order and with repetitions, up to the
one that has no number. -/
def asked (tree : Expression) (lookup : String → Option Float) : List String :=
  ((tree.evaluation lookup).run.run []).2.reverse

/-! ## How a tree is spelled -/

/-- The levels of precedence, from the loosest to the tightest. -/
inductive Level where
  | sum
  | product
  | factor
  deriving Repr, DecidableEq, Inhabited

/-- The tokens that spell a tree at some level. -/
inductive Spelling : Level → List Token → Expression → Prop where
  | number (value : Float) : Spelling .factor [.number value] (.number value)
  | name (stored : String) : Spelling .factor [.name stored] (.name stored)
  | group {tokens : List Token} {tree : Expression} (inner : Spelling .sum tokens tree) :
      Spelling .factor (.opening :: (tokens ++ [.closing])) tree
  | ofFactor {tokens : List Token} {tree : Expression} (only : Spelling .factor tokens tree) :
      Spelling .product tokens tree
  | times {op : Operator} {before after : List Token} {left right : Expression}
      (multiplicative : op.isMultiplicative = true) (first : Spelling .product before left)
      (last : Spelling .factor after right) :
      Spelling .product (before ++ .operator op :: after) (.binary op left right)
  | ofProduct {tokens : List Token} {tree : Expression} (only : Spelling .product tokens tree) :
      Spelling .sum tokens tree
  | plus {op : Operator} {before after : List Token} {left right : Expression}
      (additive : op.isMultiplicative = false) (first : Spelling .sum before left)
      (last : Spelling .product after right) :
      Spelling .sum (before ++ .operator op :: after) (.binary op left right)

end Expression

end Worksheet
