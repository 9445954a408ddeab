import FrontendSurvey.Proofs.Hygiene.Totals
import FrontendSurvey.Proofs.Survey.Coverage
import FrontendSurvey.Proofs.Text.FirstSeen

set_option autoImplicit false

namespace FrontendSurvey

namespace Advice

def Due (s : Summary) (lineLimit : Nat) : Advice → Prop
  | replaceAny => 0 < s.types.any
  | avoidTsIgnore => 0 < s.types.tsIgnore
  | avoidDoubleBang => 0 < s.types.nonNull
  | useTypedProps => s.typing.propsTyped = 0
  | useDynamicImport => s.perf.dynamicImport = false
  | useIntersectionObserver => s.perf.intersectionObserver = false
  | splitBrainFile => ∃ brain, s.brain = some brain ∧ lineLimit < brain.lines

theorem mem_all (advice : Advice) : advice ∈ all := by
  cases advice <;> decide

theorem nodup_messages : (all.map message).Nodup := by
  decide +kernel

theorem message_injective {advice other : Advice} (same : advice.message = other.message) :
    advice = other :=
  List.inj_on_of_nodup_map nodup_messages (mem_all advice) (mem_all other) same

theorem message_mem_iff {t : Tally} {brainLines : Option Nat} {lineLimit : Nat} {advice : Advice} :
    advice.message ∈ (forTally t brainLines lineLimit).map message ↔
      applies t brainLines lineLimit advice = true := by
  rw [List.mem_map]
  constructor
  · rintro ⟨other, member, same⟩
    obtain rfl := message_injective same
    exact (List.mem_filter.1 member).2
  · intro hit
    exact ⟨advice, List.mem_filter.2 ⟨mem_all advice, hit⟩, rfl⟩

end Advice

structure Summary.Folds (s : Summary) (components : List Component) (code : List Code)
    (lineLimit : Nat) : Prop where
  componentsScanned : s.componentsScanned = components.length
  filesScanned : s.filesScanned = code.length
  types : ∀ counter ∈ TypeSignals.counters, counter s.types = (code.map (counter ·.types)).sum
  perf : ∀ flag ∈ PerfSignals.flags, flag s.perf = code.any (flag ·.perf)
  scriptSetupTs : s.typing.scriptSetupTs = components.countP (·.scriptSetupTs)
  propsTyped : s.typing.propsTyped = components.countP (·.propsTyped)
  propsRuntime : s.typing.propsRuntime = components.countP (·.propsRuntime)
  tags : Text.FirstSeen Framework.isFrameworkTag s.framework.tags (components.flatMap (·.tags))
  misconfigured : s.framework.misconfigured = true ↔
    s.framework.tags ≠ [] ∧ s.framework.plugin = none
  score : s.score = Hygiene.score s.types s.typing.propsTyped
  due : ∀ advice : Advice, advice.message ∈ s.suggestions ↔ advice.Due s lineLimit
  once : s.suggestions.Nodup
  ordered : s.suggestions.Sublist (Advice.all.map (·.message))

namespace Survey

variable {d : Disk} {s : Settings} {scan : ScanWindow} {a : Analysis}

theorem folds_summarize (d : Disk) (s : Settings) (components : List Component) (code : List Code)
    (keys : List String) (brain : Option Brain) :
    (summarize d s components code keys brain).Folds components code s.lineLimit where
  componentsScanned := rfl
  filesScanned := rfl
  types counter member := by
    rw [summarize, Tally.ofFiles, TypeSignals.counter_total member, List.map_map]
    rfl
  perf flag member := by
    rw [summarize, Tally.ofFiles, PerfSignals.flag_unions member, List.any_map]
    rfl
  scriptSetupTs := rfl
  propsTyped := rfl
  propsRuntime := rfl
  tags := Text.firstSeen_eraseDups Framework.isFrameworkTag (components.flatMap Component.tags)
  misconfigured := by
    simp [summarize, Framework.detect, Framework.ofFindings, and_comm]
  score := rfl
  due advice := by
    refine Advice.message_mem_iff.trans ?_
    cases advice
    case splitBrainFile => cases brain <;> simp [Advice.applies, Advice.Due, summarize]
    all_goals simp [Advice.applies, Advice.Due, summarize]
  once := Advice.nodup_messages.sublist (List.filter_sublist.map _)
  ordered := List.filter_sublist.map _

theorem summarize_perm {components : List Component} {code other : List Code}
    (keys : List String) (brain : Option Brain) (perm : code.Perm other) :
    summarize d s components code keys brain = summarize d s components other keys brain := by
  rw [summarize, summarize, Tally.ofFiles_perm perm, perm.length_eq]

theorem summary_folds (analyzed : analyze d s scan = .ok a) :
    a.report.summary.Folds a.report.components a.report.code s.lineLimit ∧
      ∀ code, code.Perm a.report.code →
        summarize d s a.report.components code a.report.summary.envKeys a.report.summary.brain =
          a.report.summary := by
  obtain ⟨r⟩ := reading_of_analyze analyzed
  rw [r.result]
  exact ⟨folds_summarize d s r.components r.code r.keys r.brain,
    fun code perm => summarize_perm r.keys r.brain perm⟩

theorem summary_folds_linked :
    ∃ a, analyze linked flat ⟨"", "", 0⟩ = .ok a ∧
      a.report.summary.Folds a.report.components a.report.code flat.lineLimit ∧
        ∀ code, code.Perm a.report.code →
          summarize linked flat a.report.components code a.report.summary.envKeys
            a.report.summary.brain = a.report.summary := by
  obtain ⟨a, analyzed⟩ := analyze_linked ⟨"", "", 0⟩
  exact ⟨a, analyzed, summary_folds analyzed⟩

end Survey

end FrontendSurvey
