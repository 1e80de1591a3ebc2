import SceneSelect.Text.Span

/-!
# `Path/Fault.lean` — what can be wrong with the text of a path

A fault is a cause and the byte position it is reported at. The wording stands in one place,
`SyntaxCause.message`.
-/

set_option autoImplicit false

namespace SceneSelect.Path

/-- Why a text is not a path. -/
inductive SyntaxCause where
  | unexpectedClose
  | unclosedOpen
  | emptySegment
  | textAfterFilters
  | siblingWithMode
  | siblingUnclosed (delimiter : Char)
  | siblingOutOfRange
  | siblingZero
  | wildcardTagNotAlone
  | missingIdentity
  | missingKey
  | unmatchedSymbol (symbol : Char)
  | orJoin
  | unknownJoin (word : List Char)
  | emptyFilter
  | secondChildIndex
  | indexNotAlone
  | childIndexOnSibling
  | badChildIndex (body : List Char)
  | badLastOffset (text : List Char)
  | indexOutOfRange (text : List Char)
  | missingOperator (text : List Char)
  | missingName
  | unknownFilter (body : List Char)
  /-- a fault that someone else found, in their words -/
  | reported (message : String)
deriving DecidableEq, Repr

/-- The wording of a cause. -/
def SyntaxCause.message : SyntaxCause → String
  | .unexpectedClose => "unexpected ']'"
  | .unclosedOpen => "unclosed '['"
  | .emptySegment => "empty path segment"
  | .textAfterFilters => "unexpected text after filters"
  | .siblingWithMode => "sibling step cannot take a matching mode"
  | .siblingUnclosed delimiter => s!"expected '{delimiter}' to close sibling offset"
  | .siblingOutOfRange => "sibling offset out of range"
  | .siblingZero => "sibling offset must be non-zero"
  | .wildcardTagNotAlone => "wildcard tag must stand alone"
  | .missingIdentity => "expected identity after '.'"
  | .missingKey => "expected key after '#'"
  | .unmatchedSymbol symbol => s!"unmatched symbol '{symbol}'"
  | .orJoin => "OR filter joins are not supported"
  | .unknownJoin word => "unsupported filter join ']" ++ String.ofList word ++ "['"
  | .emptyFilter => "empty filter"
  | .secondChildIndex => "only one child-index filter is allowed per segment"
  | .indexNotAlone => "index filter cannot be combined with other filters"
  | .childIndexOnSibling => "child-index filter cannot be used on a sibling step"
  | .badChildIndex body => "invalid child-index filter '" ++ String.ofList body ++ "'"
  | .badLastOffset text => "invalid last() offset '" ++ String.ofList text ++ "'"
  | .indexOutOfRange text => "index '" ++ String.ofList text ++ "' out of range"
  | .missingOperator text => "expected comparison operator in '" ++ String.ofList text ++ "'"
  | .missingName => "expected filter name before operator"
  | .unknownFilter body => "unrecognized filter '" ++ String.ofList body ++ "'"
  | .reported message => message

/-- A cause, and the byte position in the path at which it was found. -/
structure SyntaxFault where
  cause : SyntaxCause
  position : Nat
deriving DecidableEq, Repr

/-- The wording of a fault with its position. -/
def SyntaxFault.message (f : SyntaxFault) : String :=
  f.cause.message ++ " near byte " ++ toString f.position

/-- The outcome of reading a piece of a path. -/
abbrev Reading (α : Type) := Except SyntaxFault α

end SceneSelect.Path
