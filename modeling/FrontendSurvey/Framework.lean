import FrontendSurvey.Source.Component

set_option autoImplicit false

namespace FrontendSurvey

structure Framework where
  plugin : Option String
  tags : List String
  detected : Bool
  misconfigured : Bool
  deriving DecidableEq, Repr

namespace Framework

def isFrameworkTag (tag : String) : Bool :=
  -- a capital V and another capital letter
  match tag.toList with
  | 'V' :: c :: _ => c.isUpper
  | _ => false

def tagsOf (components : List Component) : List String :=
  ((components.flatMap (·.tags)).filter isFrameworkTag).eraseDups

def ofFindings (plugin : Option String) (tags : List String) : Framework where
  plugin := plugin
  tags := tags
  detected := plugin.isSome
  misconfigured := plugin.isNone && !tags.isEmpty

def toJson (f : Framework) : Json :=
  .obj [("pluginPath", Json.orNull .str f.plugin), ("usedTags", .strings f.tags),
    ("pluginDetected", .bool f.detected), ("misconfigured", .bool f.misconfigured)]

def ofJson? (j : Json) : Option Framework := do
  let plugin ← j.optional "pluginPath" Json.text?
  let tags ← j.required "usedTags" (Json.list? Json.text?)
  let detected ← j.required "pluginDetected" Json.flag?
  let misconfigured ← j.required "misconfigured" Json.flag?
  some ⟨plugin, tags, detected, misconfigured⟩

end Framework

end FrontendSurvey
