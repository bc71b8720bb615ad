import QueryParity.Catalog

/-!
# The standard catalog

Integer arithmetic and shifts, the logical connectives, ordering of integers and of date-times,
wildcard matches, the change to the zone `UTC`, the conversion of booleans to integers, and for
every type equality and null tests.
-/

namespace QueryParity.Catalog

/-- Operators that exist for every type. -/
def nullTests (type : ValueType) : List Descriptor :=
  [.binary "Equal" type type .bool .equal,
    .binary "NotEqual" type type .bool .notEqual,
    .unary "IsNull" type .bool .isNull,
    .unary "IsNotNull" type .bool .isNotNull]

/-- The declared operators of the standard catalog. -/
def standardDescriptors : List Descriptor :=
  [.binary "Add" .int .int .int .add,
    .binary "Subtract" .int .int .int .subtract,
    .binary "Multiply" .int .int .int .multiply,
    .binary "Divide" .int .int .int .divide,
    .binary "Modulo" .int .int .int .modulo,
    .binary "LeftShift" .int .int .int .leftShift,
    .binary "RightShift" .int .int .int .rightShift,
    .binary "And" .bool .bool .bool .and,
    .binary "Or" .bool .bool .bool .or,
    .binary "AndAlso" .bool .bool .bool .andAlso,
    .binary "OrElse" .bool .bool .bool .orElse,
    .binary "LessThan" .int .int .bool .lessThan,
    .binary "LessThanOrEqual" .int .int .bool .lessThanOrEqual,
    .binary "GreaterThan" .int .int .bool .greaterThan,
    .binary "GreaterThanOrEqual" .int .int .bool .greaterThanOrEqual,
    .binary "LessThan" .dateTime .dateTime .bool .lessThan,
    .binary "GreaterThan" .dateTime .dateTime .bool .greaterThan,
    .binary "Like" .string .string .bool .like,
    .unary "Not" .bool .bool .not,
    .unary "Not" .int .int .not,
    .unary "Negate" .int .int .negate,
    .unary "AtTimeZone" .dateTime .dateTime .atUtc,
    .unary "Convert" .bool .int (.convert .int)] ++ ValueType.all.flatMap nullTests

/-- The standard catalog, which is accepted. -/
def standard : Except ConfigError Catalog := ofDescriptors standardDescriptors

end QueryParity.Catalog
