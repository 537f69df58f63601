/-!
The operators on vectors and the names of operations as they stand in messages.
-/
namespace TypedVectors

inductive Arithmetic where
  | add
  | subtract
  | multiply
  | divide
  | power
  | floorMod
  | floorDiv
  deriving DecidableEq

inductive Comparison where
  | less
  | lessOrEqual
  | greater
  | greaterOrEqual
  | equal
  | unequal
  deriving DecidableEq

inductive Connective where
  | and
  | or
  deriving DecidableEq

/-- The operators that take two vectors. -/
inductive Operator where
  | arithmetic (operator : Arithmetic)
  | comparison (operator : Comparison)
  | connective (operator : Connective)
  deriving DecidableEq

namespace Operator

def all : List Operator :=
  [Arithmetic.add, .subtract, .multiply, .divide, .power, .floorMod, .floorDiv].map .arithmetic ++
    [Comparison.less, .lessOrEqual, .greater, .greaterOrEqual, .equal, .unequal].map .comparison ++
    [Connective.and, .or].map .connective

def symbol : Operator → String
  | arithmetic .add => "+"
  | arithmetic .subtract => "-"
  | arithmetic .multiply => "*"
  | arithmetic .divide => "/"
  | arithmetic .power => "^"
  | arithmetic .floorMod => "%%"
  | arithmetic .floorDiv => "%/%"
  | comparison .less => "<"
  | comparison .lessOrEqual => "<="
  | comparison .greater => ">"
  | comparison .greaterOrEqual => ">="
  | comparison .equal => "=="
  | comparison .unequal => "!="
  | connective .and => "&"
  | connective .or => "|"

/-- The operator written as the given symbol. -/
def ofSymbol? (symbol : String) : Option Operator := all.find? (·.symbol == symbol)

end Operator

/-- The operations that refuse character vectors. -/
inductive Operation where
  | binary (operator : Operator)
  | round
  | negate
  | complement
  deriving DecidableEq

/-- An operation as it stands in messages. -/
def Operation.text : Operation → String
  | binary (.connective operator) => "logical operator " ++ (Operator.connective operator).symbol
  | binary operator => "binary operator " ++ operator.symbol
  | round => "roundTo"
  | negate => "unary operator -"
  | complement => "unary operator !"

end TypedVectors
