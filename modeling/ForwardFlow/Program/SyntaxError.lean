namespace ForwardFlow

/-- What is wrong with one line of the text of a body. -/
inductive SyntaxError
  | outsideBlock
  | duplicateBlock (label : String)
  | malformedDecl
  | invalidVarName (name : String)
  | keywordVarName (name : String)
  | unknownType (text : String)
  | duplicateVar (name : String)
  | unknownBlock (label : String)
  | unknownLine (text : String)
  | malformedAssignment
  | undeclaredVar (name : String)
  | malformedCall (text : String)
  | unknownOperator (text : String)
  | malformedExpr (text : String)
deriving DecidableEq, Repr

def SyntaxError.message : SyntaxError → String
  | .outsideBlock => "statement outside of a block"
  | .duplicateBlock label => s!"block `{label}` defined twice"
  | .malformedDecl => "expected `var <name>: <type>`"
  | .invalidVarName name => s!"invalid variable name `{name}`"
  | .keywordVarName name => s!"`{name}` is a keyword and cannot name a variable"
  | .unknownType text => s!"unknown type `{text}`"
  | .duplicateVar name => s!"variable `{name}` declared twice"
  | .unknownBlock label => s!"unknown block `{label}`"
  | .unknownLine text => s!"cannot parse `{text}`"
  | .malformedAssignment => "expected `<var> = <expr>`"
  | .undeclaredVar name => s!"undeclared variable `{name}`"
  | .malformedCall text => s!"malformed call `{text}`"
  | .unknownOperator text => s!"unknown operator `{text}`"
  | .malformedExpr text => s!"cannot parse expression `{text}`"

/-- Why a text is not the text of a body: a line of it is wrong, or it has no block at all. -/
inductive ParseError
  | line (number : Nat) (error : SyntaxError)
  | noBlocks (name : String)
deriving DecidableEq, Repr

def ParseError.message : ParseError → String
  | .line number error => s!"line {number}: {error.message}"
  | .noBlocks name => s!"function `{name}` has no blocks"

end ForwardFlow
