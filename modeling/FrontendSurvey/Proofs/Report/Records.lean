import FrontendSurvey.Report
import FrontendSurvey.Proofs.Json.Records

set_option autoImplicit false

namespace FrontendSurvey

open Json (FitsWord ReadsBack within_obj_of_fields fieldsWithin_fieldIfAny)

structure TypeSignals.Fits (s : TypeSignals) : Prop where
  any : FitsWord s.any
  tsIgnore : FitsWord s.tsIgnore
  tsExpectError : FitsWord s.tsExpectError
  nonNull : FitsWord s.nonNull
  asConst : FitsWord s.asConst
  satisfies : FitsWord s.satisfies
  readonly : FitsWord s.readonly
  enum : FitsWord s.enum
  interface : FitsWord s.interface
  typeAlias : FitsWord s.typeAlias
  genericAngles : FitsWord s.genericAngles
  union : FitsWord s.union
  intersection : FitsWord s.intersection

theorem TypeSignals.readsBack {s : TypeSignals} (fits : s.Fits) (n : Nat) :
    ReadsBack (n + 1) toJson ofJson? s where
  within := by
    apply within_obj_of_fields
    simp [fits.any, fits.tsIgnore, fits.tsExpectError, fits.nonNull, fits.asConst, fits.satisfies,
      fits.readonly, fits.enum, fits.interface, fits.typeAlias, fits.genericAngles, fits.union,
      fits.intersection]
  read := by
    simp [toJson, ofJson?, Json.required, fits.any, fits.tsIgnore, fits.tsExpectError,
      fits.nonNull, fits.asConst, fits.satisfies, fits.readonly, fits.enum, fits.interface,
      fits.typeAlias, fits.genericAngles, fits.union, fits.intersection]

theorem PerfSignals.readsBack (s : PerfSignals) (n : Nat) :
    ReadsBack (n + 1) toJson ofJson? s where
  within := by
    apply within_obj_of_fields
    simp
  read := by simp [toJson, ofJson?, Json.required]

theorem Component.readsBack (c : Component) (n : Nat) : ReadsBack (n + 2) toJson ofJson? c where
  within := by
    apply within_obj_of_fields
    simp
  read := by simp [toJson, ofJson?, Json.required]

structure Code.Fits (c : Code) : Prop where
  exports : FitsWord c.exports
  types : c.types.Fits

theorem Code.readsBack {c : Code} (fits : c.Fits) (n : Nat) :
    ReadsBack (n + 2) toJson ofJson? c where
  within := by
    apply within_obj_of_fields
    simp [fits.exports, (TypeSignals.readsBack fits.types n).within,
      (PerfSignals.readsBack c.perf n).within]
  read := by
    simp [toJson, ofJson?, Json.required, fits.exports, (TypeSignals.readsBack fits.types n).read,
      (PerfSignals.readsBack c.perf n).read]

structure Brain.Fits (b : Brain) : Prop where
  bytes : FitsWord b.bytes
  lines : FitsWord b.lines
  longestLine : FitsWord b.longestLine
  functions : FitsWord b.functions
  todos : FitsWord b.todos
  fixmes : FitsWord b.fixmes
  types : b.types.Fits

theorem Brain.readsBack {b : Brain} (fits : b.Fits) (n : Nat) :
    ReadsBack (n + 2) toJson ofJson? b where
  within := by
    apply within_obj_of_fields
    simp [fits.bytes, fits.lines, fits.longestLine, fits.functions, fits.todos, fits.fixmes,
      (TypeSignals.readsBack fits.types n).within]
  read := by
    simp [toJson, ofJson?, Json.required, fits.bytes, fits.lines, fits.longestLine, fits.functions,
      fits.todos, fits.fixmes, (TypeSignals.readsBack fits.types n).read]

theorem Tsconfig.readsBack (t : Tsconfig) (n : Nat) : ReadsBack (n + 2) toJson ofJson? t where
  within := by
    apply within_obj_of_fields
    simp [fieldsWithin_fieldIfAny]
  read := by
    simp [toJson, ofJson?, Json.required, Json.optional, Json.atMostOne?_ifAny]

structure Typing.Fits (t : Typing) : Prop where
  scriptSetupTs : FitsWord t.scriptSetupTs
  propsTyped : FitsWord t.propsTyped
  propsRuntime : FitsWord t.propsRuntime

theorem Typing.readsBack {t : Typing} (fits : t.Fits) (n : Nat) :
    ReadsBack (n + 1) toJson ofJson? t where
  within := by
    apply within_obj_of_fields
    simp [fits.scriptSetupTs, fits.propsTyped, fits.propsRuntime]
  read := by
    simp [toJson, ofJson?, Json.required, fits.scriptSetupTs, fits.propsTyped, fits.propsRuntime]

theorem Framework.readsBack (f : Framework) (n : Nat) : ReadsBack (n + 2) toJson ofJson? f where
  within := by
    apply within_obj_of_fields
    simp [Json.within_orNull]
  read := by
    simp [toJson, ofJson?, Json.required, Json.optional, Json.atMostOne?_orNull]

structure Summary.Fits (s : Summary) : Prop where
  componentsScanned : FitsWord s.componentsScanned
  filesScanned : FitsWord s.filesScanned
  types : s.types.Fits
  typing : s.typing.Fits
  score : s.score < 256
  brain : ∀ b ∈ s.brain, b.Fits

theorem Summary.readScore?_count {n : Nat} (fits : n < 256) :
    readScore? (Json.count n) = some n := by
  have wide : FitsWord n := Nat.lt_trans fits (by decide)
  simp [readScore?, Json.count?_count wide, fits]

theorem Summary.readsBack {s : Summary} (fits : s.Fits) (n : Nat) :
    ReadsBack (n + 4) toJson ofJson? s where
  within := by
    have tsconfigs := ReadsBack.list fun t (_ : t ∈ s.tsconfigs) => t.readsBack n
    have brain := Json.within_orNull (n := n + 3) fun b (member : b ∈ s.brain) =>
      (Brain.readsBack (fits.brain b member) (n + 1)).within
    have score : FitsWord s.score := Nat.lt_trans fits.score (by decide)
    apply within_obj_of_fields
    simp [fits.componentsScanned, fits.filesScanned, tsconfigs.within, brain, score,
      (TypeSignals.readsBack fits.types (n + 2)).within, (s.perf.readsBack (n + 2)).within,
      (Typing.readsBack fits.typing (n + 2)).within, (s.framework.readsBack (n + 1)).within]
  read := by
    have tsconfigs := ReadsBack.list fun t (_ : t ∈ s.tsconfigs) => t.readsBack n
    have brain : Json.atMostOne? Brain.ofJson? [Json.orNull Brain.toJson s.brain] = some s.brain :=
      Json.atMostOne?_orNull rfl fun b member =>
        (Brain.readsBack (fits.brain b member) n).read
    simp [toJson, ofJson?, Json.required, Json.optional, fits.componentsScanned, fits.filesScanned,
      tsconfigs.read, brain, readScore?_count fits.score,
      (TypeSignals.readsBack fits.types n).read, (s.perf.readsBack n).read,
      (Typing.readsBack fits.typing n).read, (s.framework.readsBack n).read]

theorem ScanWindow.readsBack {w : ScanWindow} (fits : FitsWord w.millis) (n : Nat) :
    ReadsBack (n + 1) toJson ofJson? w where
  within := by
    apply within_obj_of_fields
    simp [fits]
  read := by simp [toJson, ofJson?, Json.required, fits]

structure Report.Fits (r : Report) : Prop where
  summary : r.summary.Fits
  code : ∀ c ∈ r.code, c.Fits
  scan : FitsWord r.scan.millis

theorem Report.readsBack {r : Report} (fits : r.Fits) (n : Nat) :
    ReadsBack (n + 5) toJson ofJson? r := by
  have components := ReadsBack.list fun c (_ : c ∈ r.components) => c.readsBack (n + 1)
  have code := ReadsBack.list fun c member => Code.readsBack (fits.code c member) (n + 1)
  have summary := Summary.readsBack fits.summary n
  have scan := ScanWindow.readsBack fits.scan (n + 3)
  constructor
  · apply within_obj_of_fields
    simp [components.within, code.within, summary.within, scan.within]
  · simp [toJson, ofJson?, Json.required, components.read, code.read, summary.read, scan.read]

end FrontendSurvey
