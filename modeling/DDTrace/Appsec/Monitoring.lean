import DDTrace.Tracer.Span

/-!
# The monitoring tags of the WAF listeners

Both WAF listeners tag the handler operation with what the WAF measured (`addWAFMonitoringTags`)
and, once per listener, with what the ruleset loaded (`addRulesMonitoringTags`) and the manual keep
tag.
-/

namespace DDTrace.Appsec

def eventRulesVersionTag : String := "_dd.appsec.event_rules.version"
def eventRulesErrorsTag : String := "_dd.appsec.event_rules.errors"
def eventRulesLoadedTag : String := "_dd.appsec.event_rules.loaded"
def eventRulesFailedTag : String := "_dd.appsec.event_rules.error_count"
def wafDurationTag : String := "_dd.appsec.waf.duration"
def wafDurationExtTag : String := "_dd.appsec.waf.duration_ext"
def wafTimeoutTag : String := "_dd.appsec.waf.timeouts"
def wafVersionTag : String := "_dd.appsec.waf.version"

/-- What a WAF context measured of its run: `TotalRuntime()` and `TotalTimeouts()`. -/
structure Measurement where
  overallRuntimeNs : Nat
  internalRuntimeNs : Nat
  timeouts : Nat

/-- The fields of `waf.RulesetInfo` the listener reads. -/
structure RulesetInfo where
  version : String
  loaded : Nat
  failed : Nat
  errors : List (String × List String)

/-- The tags `addWAFMonitoringTags` adds. -/
def wafMonitoringTags (rulesVersion : String) (overallRuntimeNs internalRuntimeNs timeouts : Nat) :
    List (TagKey × TagValue) :=
  [(.name eventRulesVersionTag, .str rulesVersion),
    (.name wafTimeoutTag, .float (Float.ofNat timeouts)),
    (.name wafDurationTag, .float (Float.ofNat internalRuntimeNs / 1e3)),
    (.name wafDurationExtTag, .float (Float.ofNat overallRuntimeNs / 1e3))]

/-- The tags `addRulesMonitoringTags` adds. `marshal` is `json.Marshal` of the errors, with `none`
for the nil map that replaces an empty one; the tag is empty when it fails. -/
def rulesMonitoringTags (marshal : Option (List (String × List String)) → Option String)
    (wafVersion : String) (rInfo : RulesetInfo) : List (TagKey × TagValue) :=
  [(.name eventRulesErrorsTag,
      .str ((marshal (if rInfo.errors = [] then none else some rInfo.errors)).getD "")),
    (.name eventRulesLoadedTag, .float (Float.ofNat rInfo.loaded)),
    (.name eventRulesFailedTag, .float (Float.ofNat rInfo.failed)),
    (.name wafVersionTag, .str wafVersion)]

/-- The tags the function given to `monitorRulesOnce.Do` adds: the rules monitoring tags, then
`ext.ManualKeep` set to `samplernames.AppSec`. -/
def rulesOnceTags (marshal : Option (List (String × List String)) → Option String)
    (wafVersion : String) (rInfo : RulesetInfo) : List (TagKey × TagValue) :=
  rulesMonitoringTags marshal wafVersion rInfo ++ [(.ext .manualKeep, .ext .samplerAppSec)]

/-- Only the function given to `monitorRulesOnce.Do` adds the manual keep tag. -/
@[simp] theorem any_wafMonitoringTags (rulesVersion : String) (o i t : Nat) :
    (wafMonitoringTags rulesVersion o i t).any (·.1 == .ext .manualKeep) = false := by
  simp [wafMonitoringTags]

@[simp] theorem any_rulesOnceTags (marshal : Option (List (String × List String)) → Option String)
    (wafVersion : String) (rInfo : RulesetInfo) :
    (rulesOnceTags marshal wafVersion rInfo).any (·.1 == .ext .manualKeep) = true := by
  simp [rulesOnceTags]

end DDTrace.Appsec
