import Variants.Register

/-!
# Errors

Everything that can be wrong with a document, an expression, a filter or a
rendering.  Three wrappers add the key, filter or value at hand; `rootCause`
looks below them.
-/

namespace Variants

inductive Error where
  | malformedDeclaration (key : String)
  | malformedBrackets (name marker : String)
  | ambiguousBrackets (name marker existing : String)
  | duplicateDimension (name : String)
  | unterminated (key dimension : String)
  | trailingGarbage (key : String)
  | invalidInitializer (dimension key : String)
  | domainRedeclared (dimension key : String)
  | missingDomain (dimension key : String)
  | rootNotMapping
  | commaInExpression (expression : String)
  | registerCount (expression : String)
  | malformedFilter (filter : String)
  | unknownDimension (dimension : String)
  | unknownRegister (dimension : String) (register : Register)
  | unresolved (dimension : String) (register : Register) (value : String)
  | emptyInterpolation (dimension : String) (register : Register)
  | keyIntoScalar (key : String)
  | inKey (key : String) (cause : Error)
  | inFilter (filter : String) (cause : Error)
  | inInterpolation (value : String) (cause : Error)
  deriving DecidableEq, Repr, Inhabited

namespace Error

def rootCause : Error → Error
  | .inKey _ cause => cause.rootCause
  | .inFilter _ cause => cause.rootCause
  | .inInterpolation _ cause => cause.rootCause
  | error => error

def message : Error → String
  | .malformedDeclaration key =>
      s!"Dimension definition error: '{key}' must be of the form 'name/brackets' " ++
        "with a non-empty name"
  | .malformedBrackets name marker =>
      s!"Dimension definition error: brackets string must be symmetrical ({name}:{marker})"
  | .ambiguousBrackets name marker existing =>
      s!"Dimension definition error: brackets ambiguous ({name}:{marker}), " ++
        s!"already used by '{existing}'"
  | .duplicateDimension name =>
      s!"Dimension definition error: '{name}' is declared more than once"
  | .unterminated key dimension =>
      s!"Parse error: unterminated annotation of dimension '{dimension}' in key '{key}'"
  | .trailingGarbage key => s!"Parse error: garbage at the end of the key '{key}'"
  | .invalidInitializer dimension key =>
      s!"Dimension '{dimension}': initializer '{key}' must be a list of values or a mapping"
  | .domainRedeclared dimension key =>
      s!"Dimension '{dimension}': initializer '{key}' assigns a domain to values " ++
        "that already have one"
  | .missingDomain dimension key =>
      s!"Dimension '{dimension}': values below '{key}' are not assigned to any domain"
  | .rootNotMapping => "Document root must be a mapping"
  | .commaInExpression expression => s!"Expression error: comma not allowed ('{expression}')"
  | .registerCount expression =>
      s!"Expression error: initializer key must name exactly one register ('{expression}')"
  | .malformedFilter filter =>
      s!"Filter error: incorrect format, expected 'dimension=expression' ('{filter}')"
  | .unknownDimension dimension => s!"Filter error: dimension '{dimension}' is unknown"
  | .unknownRegister dimension register =>
      s!"Register {register.text} not found on dimension '{dimension}'"
  | .unresolved dimension register value =>
      s!"Domain or value not found: '{value}', dimension: '{dimension}', " ++
        s!"register: {register.text}"
  | .emptyInterpolation dimension register =>
      s!"Empty value for dimension '{dimension}' ({register.text})"
  | .keyIntoScalar key => s!"Key '{key}' cannot be merged into a value that is not a mapping"
  | .inKey key cause => s!"{cause.message}\nkey: '{key}'"
  | .inFilter filter cause => s!"{cause.message}\nfilter: '{filter}'"
  | .inInterpolation value cause =>
      s!"String interpolation error for value '{value}'\n{cause.message}"

def messages : Error → List String
  | .inKey key cause => (Error.inKey key cause).message :: cause.messages
  | .inFilter filter cause => (Error.inFilter filter cause).message :: cause.messages
  | .inInterpolation value cause =>
      (Error.inInterpolation value cause).message :: cause.messages
  | error => [error.message]

end Error

end Variants
