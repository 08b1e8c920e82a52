/-
`Matcher.lean` -- the matchers that the engine runs for a target version.

Each version has its own list, in a fixed order, so that reports of one version stay comparable. A
version outside the list is scanned with the matchers of version 7.

A label comes from the command line or from a configuration, and it is any text. It is shown in the
report as it was given, while the matchers are those of the version that it means, so the two are
kept apart: a label is read into a version in one place, and what is asked of the engine is worked
out from the version alone.
-/
import UpgradeScan.Path
import UpgradeScan.Text.Blank

set_option autoImplicit false

namespace UpgradeScan

/-- The kinds of code pattern that the engine looks for. -/
inductive Matcher where
  | array
  | arrayDimension
  | arrayGlobal
  | classConstant
  | className
  | classNamePattern
  | constant
  | constructorArgument
  | functionCall
  | global
  | interfaceMethodChanged
  | annotatedMethod
  | methodArgumentDropped
  | methodArgumentDroppedStatic
  | methodArgumentRequired
  | methodArgumentRequiredStatic
  | methodArgumentUnused
  | methodArgumentUnusedStatic
  | methodCall
  | methodCallStatic
  | annotatedProperty
  | propertyExistsStatic
  | propertyProtected
  | propertyPublic
  deriving DecidableEq, Repr

/-- The name by which the engine knows a matcher. -/
def Matcher.id : Matcher → String
  | .array => "ArrayMatcher"
  | .arrayDimension => "ArrayDimensionMatcher"
  | .arrayGlobal => "ArrayGlobalMatcher"
  | .classConstant => "ClassConstantMatcher"
  | .className => "ClassNameMatcher"
  | .classNamePattern => "ClassNamePatternMatcher"
  | .constant => "ConstantMatcher"
  | .constructorArgument => "ConstructorArgumentMatcher"
  | .functionCall => "FunctionCallMatcher"
  | .global => "GlobalMatcher"
  | .interfaceMethodChanged => "InterfaceMethodChangedMatcher"
  | .annotatedMethod => "MethodAnnotationMatcher"
  | .methodArgumentDropped => "MethodArgumentDroppedMatcher"
  | .methodArgumentDroppedStatic => "MethodArgumentDroppedStaticMatcher"
  | .methodArgumentRequired => "MethodArgumentRequiredMatcher"
  | .methodArgumentRequiredStatic => "MethodArgumentRequiredStaticMatcher"
  | .methodArgumentUnused => "MethodArgumentUnusedMatcher"
  | .methodArgumentUnusedStatic => "MethodArgumentUnusedStaticMatcher"
  | .methodCall => "MethodCallMatcher"
  | .methodCallStatic => "MethodCallStaticMatcher"
  | .annotatedProperty => "PropertyAnnotationMatcher"
  | .propertyExistsStatic => "PropertyExistsStaticMatcher"
  | .propertyProtected => "PropertyProtectedMatcher"
  | .propertyPublic => "PropertyPublicMatcher"

/-- The core versions that can be the target of an upgrade. -/
inductive Version where
  | v7
  | v8
  | v9
  | v10
  deriving DecidableEq, Repr, Inhabited

namespace Version

/-- The version that a label means; 7 for a label that means none. -/
def ofLabel (s : String) : Version :=
  let t := Text.trimmed s
  if t = "10" then .v10 else if t = "9" then .v9 else if t = "8" then .v8 else .v7

/-- The label of a version. -/
def label : Version → String
  | .v7 => "7"
  | .v8 => "8"
  | .v9 => "9"
  | .v10 => "10"

/-- The matchers of a version, in the order in which the engine gets them. -/
def matchers : Version → List Matcher
  | .v10 =>
    [.arrayDimension, .arrayGlobal, .classConstant, .className, .constant, .constructorArgument,
      .functionCall, .interfaceMethodChanged, .annotatedMethod, .methodArgumentDropped,
      .methodArgumentDroppedStatic, .methodArgumentRequired, .methodArgumentRequiredStatic,
      .methodArgumentUnused, .methodCall, .methodCallStatic, .annotatedProperty,
      .propertyExistsStatic, .propertyProtected, .propertyPublic]
  | .v9 =>
    [.arrayDimension, .arrayGlobal, .classConstant, .className, .constant, .functionCall,
      .interfaceMethodChanged, .annotatedMethod, .methodArgumentDropped,
      .methodArgumentDroppedStatic, .methodArgumentRequired, .methodArgumentRequiredStatic,
      .methodArgumentUnused, .methodCall, .methodCallStatic, .annotatedProperty,
      .propertyExistsStatic, .propertyProtected, .propertyPublic]
  | .v8 =>
    [.arrayDimension, .arrayGlobal, .className, .constant, .methodArgumentDropped,
      .methodArgumentDroppedStatic, .methodArgumentRequired, .methodArgumentUnused, .methodCall,
      .methodCallStatic, .propertyPublic]
  | .v7 =>
    [.array, .arrayDimension, .arrayGlobal, .classConstant, .className, .classNamePattern,
      .constant, .global, .methodArgumentDropped, .methodArgumentRequired,
      .methodArgumentUnusedStatic, .methodCall, .methodCallStatic, .propertyProtected,
      .propertyPublic]

end Version

/-- What the engine is told to look for: the matchers of a version and the directory with
their configuration. -/
structure Ruleset where
  version : Version
  matchers : List Matcher
  config : Path
  deriving DecidableEq, Repr, Inhabited

namespace Ruleset

/-- The ruleset of the version that a label means, configured below `base`. -/
def select (label : String) (base : Path) : Ruleset :=
  let v := Version.ofLabel label
  ⟨v, v.matchers, base.join ⟨v.label⟩⟩

/-- The names of the matchers. -/
def ids (r : Ruleset) : List String := r.matchers.map Matcher.id

end Ruleset

end UpgradeScan
