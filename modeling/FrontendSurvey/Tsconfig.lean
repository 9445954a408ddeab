import FrontendSurvey.Json.Basic

set_option autoImplicit false

namespace FrontendSurvey

structure Tsconfig where
  path : String
  base : Option String
  strict : Option Bool
  noUnusedLocals : Option Bool
  noUnusedParameters : Option Bool
  noFallthroughCasesInSwitch : Option Bool
  noUncheckedSideEffectImports : Option Bool
  skipLibCheck : Option Bool
  useDefineForClassFields : Option Bool
  moduleResolution : Option String
  types : Option (List String)
  deriving DecidableEq, Repr

namespace Tsconfig

def ofDocument (path : String) (document : Json) : Tsconfig :=
  let options := (document.field? "compilerOptions").getD .null
  let flag := fun key => (options.field? key).bind Json.flag?
  { path := path
    base := (document.field? "extends").bind Json.text?
    strict := flag "strict"
    noUnusedLocals := flag "noUnusedLocals"
    noUnusedParameters := flag "noUnusedParameters"
    noFallthroughCasesInSwitch := flag "noFallthroughCasesInSwitch"
    noUncheckedSideEffectImports := flag "noUncheckedSideEffectImports"
    skipLibCheck := flag "skipLibCheck"
    useDefineForClassFields := flag "useDefineForClassFields"
    moduleResolution := (options.field? "moduleResolution").bind Json.text?
    -- entries that are no texts are left out
    types := ((options.field? "types").bind Json.items?).map (·.filterMap Json.text?) }

def toJson (t : Tsconfig) : Json :=
  .obj (("path", .str t.path) :: Json.fieldIfAny "extends" .str t.base ++
    Json.fieldIfAny "strict" .bool t.strict ++
    Json.fieldIfAny "noUnusedLocals" .bool t.noUnusedLocals ++
    Json.fieldIfAny "noUnusedParameters" .bool t.noUnusedParameters ++
    Json.fieldIfAny "noFallthroughCasesInSwitch" .bool t.noFallthroughCasesInSwitch ++
    Json.fieldIfAny "noUncheckedSideEffectImports" .bool t.noUncheckedSideEffectImports ++
    Json.fieldIfAny "skipLibCheck" .bool t.skipLibCheck ++
    Json.fieldIfAny "useDefineForClassFields" .bool t.useDefineForClassFields ++
    Json.fieldIfAny "moduleResolution" .str t.moduleResolution ++
    Json.fieldIfAny "types" .strings t.types)

def ofJson? (j : Json) : Option Tsconfig := do
  let path ← j.required "path" Json.text?
  let base ← j.optional "extends" Json.text?
  let strict ← j.optional "strict" Json.flag?
  let noUnusedLocals ← j.optional "noUnusedLocals" Json.flag?
  let noUnusedParameters ← j.optional "noUnusedParameters" Json.flag?
  let noFallthroughCasesInSwitch ← j.optional "noFallthroughCasesInSwitch" Json.flag?
  let noUncheckedSideEffectImports ← j.optional "noUncheckedSideEffectImports" Json.flag?
  let skipLibCheck ← j.optional "skipLibCheck" Json.flag?
  let useDefineForClassFields ← j.optional "useDefineForClassFields" Json.flag?
  let moduleResolution ← j.optional "moduleResolution" Json.text?
  let types ← j.optional "types" (Json.list? Json.text?)
  some ⟨path, base, strict, noUnusedLocals, noUnusedParameters, noFallthroughCasesInSwitch,
    noUncheckedSideEffectImports, skipLibCheck, useDefineForClassFields, moduleResolution, types⟩

end Tsconfig

end FrontendSurvey
