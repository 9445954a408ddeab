import FrontendSurvey.Hygiene.Tally

set_option autoImplicit false

namespace FrontendSurvey

inductive Advice where
  | replaceAny
  | avoidTsIgnore
  | avoidDoubleBang
  | useTypedProps
  | useDynamicImport
  | useIntersectionObserver
  | splitBrainFile
  deriving DecidableEq, Repr

namespace Advice

def all : List Advice :=
  [replaceAny, avoidTsIgnore, avoidDoubleBang, useTypedProps, useDynamicImport,
    useIntersectionObserver, splitBrainFile]

def message : Advice → String
  | replaceAny => "Replace `any` with generics or discriminated unions."
  | avoidTsIgnore =>
    "Avoid `@ts-ignore`; prefer proper typing or `@ts-expect-error` with rationale."
  | avoidDoubleBang =>
    "Avoid `!!`; narrow types via guards, `in`, or user-defined type predicates."
  | useTypedProps => "Use `defineProps<T>()` for typed props in SFCs."
  | useDynamicImport =>
    "Consider dynamic `import()` for code-splitting large routes/components."
  | useIntersectionObserver =>
    "Use `IntersectionObserver` for lazy rendering of lists/images when appropriate."
  | splitBrainFile =>
    "Brain file is getting large - consider modularizing scanners into `ADD/scanners/*`."

def applies (t : Tally) (brainLines : Option Nat) (lineLimit : Nat) : Advice → Bool
  | replaceAny => t.types.any > 0
  | avoidTsIgnore => t.types.tsIgnore > 0
  | avoidDoubleBang => t.types.nonNull > 0
  | useTypedProps => t.typing.propsTyped == 0
  | useDynamicImport => !t.perf.dynamicImport
  | useIntersectionObserver => !t.perf.intersectionObserver
  | splitBrainFile => brainLines.any (· > lineLimit)

def forTally (t : Tally) (brainLines : Option Nat) (lineLimit : Nat) : List Advice :=
  all.filter (applies t brainLines lineLimit)

end Advice

end FrontendSurvey
