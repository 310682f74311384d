import Conveyance.Lib.Glob
import Conveyance.Protocol.Message
import Mathlib.Data.List.TakeWhile

/-!
# The phone's tier policy (conveyance-protocol, policy.rs)

Which requests need fresh authentication: DELETE in any casing, destinations not
among the recent approvals, and what the phone's own rules name by patterns with
`*`. The matcher walks both strings with one place to come back to; `GlobScan` is
its four variables, with the bounds the loop keeps.

The loop compares before it looks for a `*`, so a `*` of the pattern that stands at
a `*` of the value is taken for that character. `scan_iff` says what is accepted, and
where no `*` of the value is in the way that is what the patterns mean.
-/

namespace Conveyance.Protocol

open Lib Lib.Glob

/-! ## Policy -/

/-- An absent pattern admits everything. -/
structure HighRiskRule where
  matchService : Option String
  matchMethod : Option String
  matchEndpoint : Option String
  requiredTier : UInt8
deriving DecidableEq

structure PhoneApprovalPolicy where
  highRisk : List HighRiskRule
deriving DecidableEq

structure ApprovedDestination where
  service : String
  endpoint : String
deriving DecidableEq

inductive Tier3Reason where
  | deleteMethod
  | novelDestination
  | configuredRule
deriving DecidableEq

structure ApprovalTierDecision where
  tier : UInt8
  reasons : List Tier3Reason
deriving DecidableEq

inductive PolicyError where
  | parse (text : String)
  | invalidRule
deriving DecidableEq

def destinationHistoryLimit : Nat := 30

def eqIgnoreAsciiCase (a b : String) : Bool :=
  a.toList.map Char.toLower = b.toList.map Char.toLower

/-! ## The matcher -/

/-- The variables of `glob_matches`' loop. -/
structure GlobScan (pattern value : List Char) where
  p : Nat
  v : Nat
  star : Option Nat
  retry : Nat
  p_le : p ≤ pattern.length
  v_le : v ≤ value.length
  retry_le : retry ≤ v
  star_lt : ∀ i ∈ star, i < pattern.length

namespace GlobScan

variable {pattern value : List Char}

def init : GlobScan pattern value := ⟨0, 0, none, 0, Nat.zero_le _, Nat.zero_le _, le_rfl, by simp⟩

/-- The two characters are equal. -/
def advance (s : GlobScan pattern value) (hp : s.p < pattern.length) (hv : s.v < value.length) :
    GlobScan pattern value :=
  { s with
    p := s.p + 1, v := s.v + 1, p_le := hp, v_le := hv, retry_le := Nat.le_succ_of_le s.retry_le }

/-- A `*` to come back to. -/
def remember (s : GlobScan pattern value) (hp : s.p < pattern.length) : GlobScan pattern value :=
  { s with
    p := s.p + 1, star := some s.p, retry := s.v, p_le := hp, retry_le := le_rfl
    star_lt := by
      rintro i ⟨⟩
      exact hp }

/-- Back to the last `*`, which takes one character more. -/
def goBack (s : GlobScan pattern value) (starAt : Nat) (hstar : s.star = some starAt)
    (hv : s.v < value.length) : GlobScan pattern value :=
  { s with
    p := starAt + 1, v := s.retry + 1, retry := s.retry + 1, p_le := s.star_lt starAt hstar
    v_le := s.retry_le.trans_lt hv, retry_le := le_rfl }

/-- The loop, and the trailing stars after it. -/
def scan (s : GlobScan pattern value) : Bool :=
  if hv : s.v < value.length then
    if hsame : ∃ hp : s.p < pattern.length, pattern[s.p] = value[s.v] then
      scan (s.advance hsame.1 hv)
    else if hstar : ∃ hp : s.p < pattern.length, pattern[s.p] = '*' then
      scan (s.remember hstar.1)
    else
      match hlast : s.star with
      | some starAt => scan (s.goBack starAt hlast hv)
      | none => false
  else ((pattern.drop s.p).dropWhile (· = '*')).isEmpty
termination_by (value.length - s.retry) * (pattern.length + 1) + (pattern.length - s.p)
decreasing_by
  · have hp := hsame.1
    simp only [advance]
    omega
  · have hp := hstar.1
    have hretry : (value.length - s.v) * (pattern.length + 1) ≤
        (value.length - s.retry) * (pattern.length + 1) :=
      Nat.mul_le_mul_right _ (Nat.sub_le_sub_left s.retry_le _)
    simp only [remember]
    omega
  · have hretry : value.length - s.retry = (value.length - (s.retry + 1)) + 1 := by
      have := s.retry_le
      omega
    simp only [goBack, hretry, Nat.succ_mul]
    omega

end GlobScan

def globMatches (pattern value : String) : Bool :=
  (@GlobScan.init pattern.toList value.toList).scan

namespace HighRiskRule

/-- `pattern.is_none_or(|pattern| glob_matches(pattern, value))`. -/
def admits (pattern : Option String) (value : String) : Bool :=
  match pattern with
  | none => true
  | some pattern => globMatches pattern value

def matchesRequest (rule : HighRiskRule) (request : ApprovalRequest) : Bool :=
  admits rule.matchService request.service && admits rule.matchMethod request.method &&
    admits rule.matchEndpoint request.endpoint

end HighRiskRule

namespace PhoneApprovalPolicy

/-- `validate`: tiers 1 to 3, and something to match. -/
def validate (policy : PhoneApprovalPolicy) : Bool :=
  policy.highRisk.all fun rule =>
    (1 ≤ rule.requiredTier && rule.requiredTier ≤ 3) &&
      (rule.matchService.isSome || rule.matchMethod.isSome || rule.matchEndpoint.isSome)

/-- `fromStr` is the TOML reader; an error is its text. -/
def parse (fromStr : String → Except String PhoneApprovalPolicy) (text : String) :
    Except PolicyError PhoneApprovalPolicy := do
  let policy ← (fromStr text).mapError .parse
  if policy.validate then .ok policy else .error .invalidRule

/-- The destination is among the recent approvals, newest first. -/
def seen (request : ApprovalRequest) (recentApprovals : List ApprovedDestination) : Bool :=
  (recentApprovals.take destinationHistoryLimit).any fun entry =>
    entry.service = request.service && entry.endpoint = request.endpoint

/-- Any reason asks for tier 3. -/
def evaluate (policy : PhoneApprovalPolicy) (request : ApprovalRequest)
    (recentApprovals : List ApprovedDestination) : ApprovalTierDecision :=
  let reasons :=
    (if eqIgnoreAsciiCase request.method "DELETE" then [.deleteMethod] else []) ++
    (if seen request recentApprovals then [] else [.novelDestination]) ++
    (if policy.highRisk.any fun rule => rule.matchesRequest request && rule.requiredTier = 3 then
      [.configuredRule] else [])
  ⟨if reasons.isEmpty then 2 else 3, reasons⟩

end PhoneApprovalPolicy

/-! ## What the matcher accepts -/

namespace GlobScan

variable {pattern value : List Char}

/-- Since the last `*`, pattern and value were equal. -/
def Aligned (s : GlobScan pattern value) : Prop :=
  ∀ i ∈ s.star, ∃ lit, pattern.drop (i + 1) = lit ++ pattern.drop s.p ∧
    value.drop s.retry = lit ++ value.drop s.v

/-- What is left to be shown: that the rest matches, from here or, with a `*` to
come back to, after some more characters for it. -/
def Ahead (s : GlobScan pattern value) : Prop :=
  match s.star with
  | none => Literally '*' (pattern.drop s.p) (value.drop s.v)
  | some i => ∃ rest, rest <:+ value.drop s.retry ∧ Literally '*' (pattern.drop (i + 1)) rest

variable {s : GlobScan pattern value}

theorem ahead_none (h : s.star = none) :
    s.Ahead ↔ Literally '*' (pattern.drop s.p) (value.drop s.v) := by
  rw [Ahead, h]

theorem ahead_some {i : Nat} (h : s.star = some i) :
    s.Ahead ↔ ∃ rest, rest <:+ value.drop s.retry ∧ Literally '*' (pattern.drop (i + 1)) rest := by
  rw [Ahead, h]

/-- Equal characters are taken off both sides. -/
theorem advance_spec (h : s.Aligned) (hp : s.p < pattern.length) (hv : s.v < value.length)
    (hsame : pattern[s.p] = value[s.v]) :
    (s.advance hp hv).Aligned ∧ ((s.advance hp hv).Ahead ↔ s.Ahead) := by
  have hpattern := List.drop_eq_getElem_cons hp
  have hvalue := List.drop_eq_getElem_cons hv
  constructor
  · intro i hi
    obtain ⟨lit, hlit, hlit'⟩ := h i hi
    refine ⟨lit ++ [value[s.v]], ?_, ?_⟩
    · rw [hlit, hpattern, hsame, List.append_assoc]
      rfl
    · rw [advance, hlit', hvalue, List.append_assoc]
      rfl
  · cases hstar : s.star with
    | none =>
      rw [ahead_none hstar, ahead_none (s := s.advance hp hv) hstar, hpattern, hvalue, hsame]
      exact literally_same.symm
    | some i =>
      rw [ahead_some hstar, ahead_some (s := s.advance hp hv) hstar]
      rfl

/-- Coming back to an earlier `*` is not needed once there is a later one. -/
theorem remember_spec (h : s.Aligned) (hp : s.p < pattern.length) (hv : s.v < value.length)
    (hne : value[s.v] ≠ '*') (hstar : pattern[s.p] = '*') :
    (s.remember hp).Aligned ∧ ((s.remember hp).Ahead ↔ s.Ahead) := by
  have hpattern := List.drop_eq_getElem_cons hp
  have hvalue := List.drop_eq_getElem_cons hv
  rw [hstar] at hpattern
  constructor
  · rintro i ⟨⟩
    exact ⟨[], rfl, rfl⟩
  · have hafter : (s.remember hp).Ahead ↔
        Literally '*' (pattern.drop s.p) (value.drop s.v) := by
      rw [ahead_some rfl, hpattern, hvalue, literally_wildcard hne, ← hvalue]
      rfl
    rw [hafter]
    cases hlast : s.star with
    | none => exact (ahead_none hlast).symm
    | some i =>
      obtain ⟨lit, hlit, hlit'⟩ := h i hlast
      rw [ahead_some hlast, hlit, hlit']
      constructor
      · exact fun hrest => ⟨_, List.suffix_rfl, literally_append.mpr hrest⟩
      · rintro ⟨rest, hrest, hmatch⟩
        obtain ⟨u, hu, hmatch'⟩ := hmatch.overtake hrest
        rw [hpattern] at hmatch' ⊢
        obtain ⟨u', hu', hmatch''⟩ := hmatch'.after_wildcard
        rw [hvalue] at hu ⊢
        exact (literally_wildcard hne).mpr ⟨u', hu'.trans hu, hmatch''⟩

/-- The next character is neither equal nor a `*`: the rest does not match here. -/
theorem stuck_here (hv : s.v < value.length)
    (hsame : ¬ ∃ hp : s.p < pattern.length, pattern[s.p] = value[s.v])
    (hstar : ¬ ∃ hp : s.p < pattern.length, pattern[s.p] = '*') :
    ¬ Literally '*' (pattern.drop s.p) (value.drop s.v) := by
  rw [List.drop_eq_getElem_cons hv]
  refine not_literally_cons fun c hc => ?_
  rw [List.head?_drop] at hc
  obtain ⟨hp, rfl⟩ := List.getElem?_eq_some_iff.mp hc
  exact ⟨fun heq => hsame ⟨hp, heq⟩, fun heq => hstar ⟨hp, heq⟩⟩

/-- Going back to the last `*` loses no match. -/
theorem goBack_spec (h : s.Aligned) {starAt : Nat} (hlast : s.star = some starAt)
    (hv : s.v < value.length) (hstuck : ¬ Literally '*' (pattern.drop s.p) (value.drop s.v)) :
    (s.goBack starAt hlast hv).Aligned ∧ ((s.goBack starAt hlast hv).Ahead ↔ s.Ahead) := by
  constructor
  · intro i hi
    obtain rfl : starAt = i := Option.some.inj (hlast.symm.trans hi)
    exact ⟨[], rfl, rfl⟩
  · obtain ⟨lit, hlit, hlit'⟩ := h starAt hlast
    have hretry : s.retry < value.length := s.retry_le.trans_lt hv
    have hnext := List.drop_eq_getElem_cons hretry
    rw [ahead_some hlast, ahead_some (s := s.goBack starAt hlast hv) hlast]
    constructor
    · rintro ⟨rest, hrest, hmatch⟩
      refine ⟨rest, hrest.trans ?_, hmatch⟩
      rw [hnext]
      exact List.suffix_cons _ _
    · rintro ⟨rest, hrest, hmatch⟩
      rw [hnext] at hrest
      rcases List.suffix_cons_iff.mp hrest with heq | hlater
      · -- the layout that was just tried
        rw [heq, ← hnext, hlit, hlit', literally_append] at hmatch
        exact absurd hmatch hstuck
      · exact ⟨rest, hlater, hmatch⟩

theorem isEmpty_dropWhile_star {l : List Char} :
    (l.dropWhile (· = '*')).isEmpty = true ↔ ∀ c ∈ l, c = '*' := by
  simp [List.isEmpty_iff, List.dropWhile_eq_nil_iff]

/-- The value is used up: what is left of the pattern must be stars. -/
theorem finish_spec (h : s.Aligned) (hv : ¬ s.v < value.length) :
    ((pattern.drop s.p).dropWhile (· = '*')).isEmpty = true ↔ s.Ahead := by
  have hend : value.drop s.v = [] := List.drop_eq_nil_of_le (Nat.le_of_not_lt hv)
  rw [isEmpty_dropWhile_star, ← literally_nil]
  cases hlast : s.star with
  | none => rw [ahead_none hlast, hend]
  | some i =>
    obtain ⟨lit, hlit, hlit'⟩ := h i hlast
    rw [ahead_some hlast, hlit, hlit', hend]
    constructor
    · exact fun hrest => ⟨_, List.suffix_rfl, literally_append.mpr hrest⟩
    · rintro ⟨rest, hrest, hmatch⟩
      obtain ⟨u, hu, hmatch'⟩ := hmatch.overtake hrest
      rwa [List.suffix_nil.mp hu] at hmatch'

/-- The loop decides what is left to be shown. -/
theorem scan_iff (s : GlobScan pattern value) (h : s.Aligned) : s.scan = true ↔ s.Ahead := by
  fun_induction scan s with
  | case1 s hv hsame ih =>
    obtain ⟨haligned, hahead⟩ := advance_spec h hsame.1 hv hsame.2
    exact (ih haligned).trans hahead
  | case2 s hv hsame hstar ih =>
    have hne : value[s.v] ≠ '*' := fun heq => hsame ⟨hstar.1, hstar.2.trans heq.symm⟩
    obtain ⟨haligned, hahead⟩ := remember_spec h hstar.1 hv hne hstar.2
    exact (ih haligned).trans hahead
  | case3 s hv hsame hstar starAt hlast ih =>
    obtain ⟨haligned, hahead⟩ := goBack_spec h hlast hv (stuck_here hv hsame hstar)
    exact (ih haligned).trans hahead
  | case4 s hv hsame hstar hlast =>
    rw [ahead_none hlast]
    exact iff_of_false Bool.false_ne_true (stuck_here hv hsame hstar)
  | case5 s hv => exact finish_spec h hv

end GlobScan

/-- A `*` of the pattern that meets a `*` of the value stands for that one. -/
theorem globMatches_iff (pattern value : String) :
    globMatches pattern value = true ↔ Literally '*' pattern.toList value.toList := by
  rw [globMatches, GlobScan.scan_iff _ (fun i hi => by cases hi), GlobScan.ahead_none rfl]
  rfl

/-! ## What the rules mean -/

/-- The rule's present patterns all match, under a reading of patterns. -/
def HighRiskRule.Names (reading : List Char → List Char → Prop) (rule : HighRiskRule)
    (request : ApprovalRequest) : Prop :=
  (∀ pattern ∈ rule.matchService, reading pattern.toList request.service.toList) ∧
    (∀ pattern ∈ rule.matchMethod, reading pattern.toList request.method.toList) ∧
    ∀ pattern ∈ rule.matchEndpoint, reading pattern.toList request.endpoint.toList

/-- What calls for tier 3, under a reading of patterns. -/
def RequiresTier3 (reading : List Char → List Char → Prop) (policy : PhoneApprovalPolicy)
    (request : ApprovalRequest) (recentApprovals : List ApprovedDestination) : Prop :=
  eqIgnoreAsciiCase request.method "DELETE" = true ∨
    ⟨request.service, request.endpoint⟩ ∉ recentApprovals.take destinationHistoryLimit ∨
    ∃ rule ∈ policy.highRisk, rule.requiredTier = 3 ∧ rule.Names reading request

theorem HighRiskRule.admits_iff (pattern : Option String) (value : String) :
    admits pattern value = true ↔ ∀ p ∈ pattern, Literally '*' p.toList value.toList := by
  cases pattern with
  | none => simp [admits]
  | some p => simp [admits, globMatches_iff]

theorem HighRiskRule.matchesRequest_iff (rule : HighRiskRule) (request : ApprovalRequest) :
    rule.matchesRequest request = true ↔ rule.Names (Literally '*') request := by
  simp only [matchesRequest, Bool.and_eq_true, admits_iff, Names, and_assoc]

theorem PhoneApprovalPolicy.seen_iff (request : ApprovalRequest)
    (recentApprovals : List ApprovedDestination) :
    seen request recentApprovals = true ↔
      ⟨request.service, request.endpoint⟩ ∈ recentApprovals.take destinationHistoryLimit := by
  simp only [seen, List.any_eq_true, Bool.and_eq_true, decide_eq_true_eq]
  constructor
  · rintro ⟨entry, hmem, hservice, hendpoint⟩
    rw [← hservice, ← hendpoint]
    exact hmem
  · exact fun hmem => ⟨_, hmem, rfl, rfl⟩

theorem PhoneApprovalPolicy.configured_iff (policy : PhoneApprovalPolicy)
    (request : ApprovalRequest) :
    (policy.highRisk.any fun rule => rule.matchesRequest request && rule.requiredTier = 3) = true ↔
      ∃ rule ∈ policy.highRisk, rule.requiredTier = 3 ∧ rule.Names (Literally '*') request := by
  simp only [List.any_eq_true, Bool.and_eq_true, decide_eq_true_eq,
    HighRiskRule.matchesRequest_iff, and_comm]

/-- Tier 3 exactly where it is required. -/
theorem PhoneApprovalPolicy.evaluate_tier (policy : PhoneApprovalPolicy)
    (request : ApprovalRequest) (recentApprovals : List ApprovedDestination) :
    (RequiresTier3 (Literally '*') policy request recentApprovals ∧
      (policy.evaluate request recentApprovals).tier = 3) ∨
    (¬ RequiresTier3 (Literally '*') policy request recentApprovals ∧
      (policy.evaluate request recentApprovals).tier = 2) := by
  unfold RequiresTier3 evaluate
  rw [← seen_iff, ← configured_iff]
  by_cases hdelete : eqIgnoreAsciiCase request.method "DELETE" = true
  · simp [hdelete]
  · by_cases hseen : seen request recentApprovals = true
    · by_cases hrule : (policy.highRisk.any fun rule =>
        rule.matchesRequest request && rule.requiredTier = 3) = true
      · exact .inl ⟨.inr (.inr hrule), by simp [hrule]⟩
      · refine .inr ⟨by simp [hdelete, hseen, hrule], ?_⟩
        simp only [hdelete, hseen, hrule, if_true, if_false, Bool.false_eq_true]
        rfl
    · simp [hseen]

/-- What the matcher accepts, the patterns mean. -/
theorem RequiresTier3.expands {policy : PhoneApprovalPolicy} {request : ApprovalRequest}
    {recentApprovals : List ApprovedDestination}
    (h : RequiresTier3 (Literally '*') policy request recentApprovals) :
    RequiresTier3 (Expands '*') policy request recentApprovals := by
  rcases h with hdelete | hnovel | ⟨rule, hrule, htier, hservice, hmethod, hendpoint⟩
  · exact .inl hdelete
  · exact .inr (.inl hnovel)
  · refine .inr (.inr ⟨rule, hrule, htier, ?_, ?_, ?_⟩)
    · exact fun pattern hp => (hservice pattern hp).expands
    · exact fun pattern hp => (hmethod pattern hp).expands
    · exact fun pattern hp => (hendpoint pattern hp).expands

/-- **Glob rules.** A pattern and a value are matched as they should be exactly when
no expansion of the pattern to the value is lost by taking each `*` that stands
at a `*` of the value for that character, so always on values without `*`; and a
request is classified as it should be exactly when no tier-3 rule is lost so. -/
theorem glob_rules_exact (pattern value : String) (policy : PhoneApprovalPolicy)
    (request : ApprovalRequest) (recentApprovals : List ApprovedDestination) :
    ((globMatches pattern value = true ↔ Expands '*' pattern.toList value.toList) ↔
      (Expands '*' pattern.toList value.toList → Literally '*' pattern.toList value.toList)) ∧
    ('*' ∉ value.toList →
      (globMatches pattern value = true ↔ Expands '*' pattern.toList value.toList)) ∧
    ((((policy.evaluate request recentApprovals).tier = 3 ↔
          RequiresTier3 (Expands '*') policy request recentApprovals) ∧
        ((policy.evaluate request recentApprovals).tier = 2 ↔
          ¬ RequiresTier3 (Expands '*') policy request recentApprovals)) ↔
      (RequiresTier3 (Expands '*') policy request recentApprovals →
        RequiresTier3 (Literally '*') policy request recentApprovals)) := by
  refine ⟨?_, fun hvalue => ?_, ?_⟩
  · rw [globMatches_iff]
    exact ⟨fun h => h.mpr, fun h => ⟨Literally.expands, h⟩⟩
  · rw [globMatches_iff]
    exact ⟨Literally.expands, fun h => h.literally hvalue⟩
  · have hexpands : RequiresTier3 (Literally '*') policy request recentApprovals →
        RequiresTier3 (Expands '*') policy request recentApprovals := RequiresTier3.expands
    rcases policy.evaluate_tier request recentApprovals with ⟨hneeds, htier⟩ | ⟨hneeds, htier⟩
    · have h32 : (3 : UInt8) ≠ 2 := by decide
      simp only [htier, hneeds, hexpands hneeds, h32, not_true, iff_self, and_self, implies_true]
    · have h23 : (2 : UInt8) ≠ 3 := by decide
      simp only [htier, hneeds, h23, false_iff, true_iff, and_self, imp_false]

/-- A rule for every service, and a service whose name begins with `*`. -/
def everyService : PhoneApprovalPolicy := ⟨[⟨some "*", none, none, 3⟩]⟩

def starRequest : ApprovalRequest :=
  ⟨⟨.replicate 16 0⟩, .authenticatedRequest, "*x", "GET", "/", .object [], none, 1700000000⟩

/-- The rule for every service does not apply to it. -/
theorem every_service_misses_star :
    ¬ (globMatches "*" "*x" = true ↔ Expands '*' "*".toList "*x".toList) ∧
    ¬ ((everyService.evaluate starRequest [⟨"*x", "/"⟩]).tier = 3 ↔
      RequiresTier3 (Expands '*') everyService starRequest [⟨"*x", "/"⟩]) := by
  have hexpands : Expands '*' "*".toList "*x".toList := .wildcard ['*', 'x'] .nil
  have hmisses : globMatches "*" "*x" = false := by decide +kernel
  constructor
  · rw [hmisses]
    exact fun h => Bool.false_ne_true (h.mpr hexpands)
  · have htier : (everyService.evaluate starRequest [⟨"*x", "/"⟩]).tier = 2 := by decide +kernel
    have hrequires : RequiresTier3 (Expands '*') everyService starRequest [⟨"*x", "/"⟩] :=
      Or.inr (Or.inr ⟨_, List.mem_singleton_self _, rfl, by rintro _ ⟨⟩; exact hexpands,
        by rintro _ ⟨⟩, by rintro _ ⟨⟩⟩)
    rw [htier]
    exact fun h => absurd (h.mpr hrequires) (by decide)

end Conveyance.Protocol
