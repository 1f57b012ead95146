import Proctor.Agreement.Browser

/-!
# The Browser policy

Which rule of a policy a location falls under, and which reports of a navigation
the policy lets pass. `url.Parse` and `net.ParseIP` are parameters.
-/

namespace Proctor.Agreement

open Json CanonicalJson ExamPolicy List
open Bool (and_eq_true or_eq_true)
open Delivery (Fault)

/-! ## Origins and paths -/

/-- A `url.URL` with its `Hostname` and `Port`. -/
structure ParsedURL where
  scheme : Text
  hasUser : Bool
  host : Text
  hostname : Text
  port : Text
  path : Text
  rawPath : Text
deriving DecidableEq, Repr

structure URLLibrary where
  parseURL : Text → Option ParsedURL
  isIP : Text → Bool

def browserASCII (value : Text) : Bool := value.all (·.toNat < 128)

def hostLabel (label : Text) : Bool :=
  1 ≤ label.length && label.length ≤ 63 && label.head? ≠ some '-' && label.getLast? ≠ some '-' &&
    !"xn--".toList.isPrefixOf label && label.all fun c => ('a' ≤ c && c ≤ 'z') || isDigit c || c = '-'

def trimSuffix (c : Char) (value : Text) : Text :=
  if value.getLast? = some c then value.dropLast else value

def hexadecimal (label : Text) : Bool := "0x".toList.isPrefixOf label || "0X".toList.isPrefixOf label

def browserNumericHost (host : Text) : Bool :=
  match ((trimSuffix '.' host).splitOn '.').getLast? with
  | none | some [] => false
  | some label => if hexadecimal label then (label.drop 2).all fun c => (fromHex c).isSome else label.all isDigit

/-- `strconv.ParseUint` of one part in the radix its start names, for 32 bits. -/
def ipv4Number (part : Text) : Option Nat :=
  let (radix, digits) :=
    if hexadecimal part then (16, part.drop 2)
    else if part.length ≥ 2 && part.head? = some '0' then (8, part.drop 1)
    else (10, part)
  let number := digits.foldlM (fun value c => (fromHex c).bind fun digit =>
    if digit < radix then some (radix * value + digit) else none) 0
  if part = [] then none else number.filter (· < 2 ^ 32)

def canonicalBrowserIPv4 (host : Text) : Option Text := do
  let parts := host.splitOn '.'
  let parts := if parts.length > 1 && parts.getLast? = some [] then parts.dropLast else parts
  let numbers ← parts.mapM ipv4Number
  let last ← numbers.getLast?
  if numbers.length > 4 || numbers.dropLast.any (· > 255) || last ≥ 2 ^ (8 * (5 - numbers.length)) then none
  else
    let address := last + (numbers.dropLast.zipWith (fun n index => n * 2 ^ (8 * (3 - index))) (range 4)).sum
    some (intercalate ['.'] ([24, 16, 8, 0].map fun shift => Nat.toDigits 10 (address / 2 ^ shift % 256)))

def canonicalBrowserHostPortWithDefault (u : ParsedURL) (defaultPort : Text) : Option (Text × Text) := do
  let host := u.hostname.map Char.toLower
  if u.hostname = [] || size u.hostname > 253 || !browserASCII u.hostname ||
      u.hostname.getLast? = some '.' || u.host.any ("[]".toList.contains ·) ||
      u.host.getLast? = some ':' || !(host.splitOn '.').all hostLabel then none
  else
    let host ← if browserNumericHost host then canonicalBrowserIPv4 host else some host
    if u.port = [] then some (host, [])
    else
      let number ← natural u.port
      if number < 1 || number > 65535 || Nat.toDigits 10 number ≠ u.port then none
      else some (host, if u.port = defaultPort then [] else u.port)

variable (lib : Library) (urls : URLLibrary)

/-- The documents of a location read its authority by the parser. -/
def browserLibrary : Library :=
  { lib with
    canonicalBrowserHostPort := fun scheme authority defaultPort =>
      (urls.parseURL (scheme ++ "://".toList ++ authority)).bind
        (canonicalBrowserHostPortWithDefault · defaultPort) }

def canonicalizeBrowserPolicyRuleOrigin (value : Text) (httpException : Bool) : Option Text := do
  let (scheme, defaultPort) :=
    if httpException then ("http".toList, "80".toList) else ("https".toList, "443".toList)
  if size value > 2048 || !browserASCII value || invalidBrowserURLText value then none
  else
    let u ← urls.parseURL value
    if u.scheme ≠ scheme || u.host = [] || u.hasUser || value.any ("?#".toList.contains ·) ||
        (u.path ≠ [] && u.path ≠ ['/']) || u.rawPath ≠ [] then none
    else
      let (host, port) ← canonicalBrowserHostPortWithDefault u defaultPort
      some (scheme ++ "://".toList ++ browserHostPort host port)

def canonicalizeBrowserPolicyPath (value : Text) : Option Text :=
  if size value > 2048 || !browserASCII value || value.head? ≠ some '/' ||
      "//".toList.isPrefixOf value || invalidBrowserURLText value || value.any ("?#".toList.contains ·) ||
      canonicalBrowserPath value ≠ some value ||
      (value.splitOn '/').any (browserDotSegment · ≠ 0) then none
  else
    let value := if value = ['/'] then value else trimSuffix '/' value
    if value ≠ ['/'] && value.getLast? = some '/' then none else some value

/-! ## Policies -/

structure BrowserPolicy where
  enabled : Bool
  startRuleID : Text
  rules : List BrowserPolicyRule
deriving DecidableEq, Repr

def hostExact : Text := "exact"
def hostExactAndSubdomains : Text := "exact_and_subdomains"

def BrowserPolicyRule.matchKey (r : BrowserPolicyRule) : Text :=
  r.origin ++ '\x00' :: r.pathPrefix ++ '\x00' :: r.hostMatch

def BrowserPolicyRule.validate (earlier : List BrowserPolicyRule) (r : BrowserPolicyRule) : Bool :=
  validBrowserPolicyRuleID r.ruleID &&
    utf8 ((earlier.getLast?.map (·.ruleID)).getD []) < utf8 r.ruleID &&
    [hostExact, hostExactAndSubdomains].contains r.hostMatch &&
    ["record".toList, "integrity_evidence".toList].contains r.blockedNavigationOutcome &&
    canonicalizeBrowserPolicyRuleOrigin urls r.origin r.institutionHTTPException = some r.origin &&
    !((urls.parseURL r.origin).any (urls.isIP ·.hostname) && r.hostMatch ≠ hostExact) &&
    canonicalizeBrowserPolicyPath r.pathPrefix = some r.pathPrefix &&
    !(earlier.map (·.ruleID)).contains r.ruleID && !(earlier.map (·.matchKey)).contains r.matchKey

def validateRules (earlier : List BrowserPolicyRule) : List BrowserPolicyRule → Bool
  | [] => true
  | r :: rest => r.validate urls earlier && validateRules (earlier ++ [r]) rest

def BrowserPolicy.validate (p : BrowserPolicy) : Bool :=
  if !p.enabled then p.startRuleID = [] && p.rules = []
  else
    validBrowserPolicyRuleID p.startRuleID && 1 ≤ p.rules.length && p.rules.length ≤ 128 &&
      validateRules urls [] p.rules && (p.rules.map (·.ruleID)).contains p.startRuleID &&
      encodesWithin (Codec.struct <| .field "enabled" .bool <|
        .field "start_rule_id" .string <| .field "rules" browserPolicyRuleWire.slice .nil)
        (true, p.startRuleID, some p.rules, ()) browserPolicyMaximumBytes

def browserHostMatches (actual rule matching : Text) : Bool :=
  actual = rule || matching = hostExactAndSubdomains && ('.' :: rule).isSuffixOf actual

def browserPathMatches (actual start : Text) : Bool :=
  actual = start || start = ['/'] || (start ++ ['/']).isPrefixOf actual

/-- The scheme, host and port of a rule, as far as its origin can be read. -/
def BrowserPolicyRule.network (r : BrowserPolicyRule) : Text × Text × Text :=
  match urls.parseURL r.origin with
  | none => ([], [], [])
  | some u => (u.scheme, (canonicalBrowserHostPortWithDefault u
      (if u.scheme = "http" then "80" else "443")).getD ([], []))

def BrowserPolicyRule.originMatches (l : BrowserLocation) (r : BrowserPolicyRule) : Bool :=
  let (scheme, host, port) := r.network urls
  scheme = l.scheme && port = l.port && browserHostMatches l.host host r.hostMatch

def BrowserPolicyRule.applies (l : BrowserLocation) (r : BrowserPolicyRule) : Bool :=
  r.originMatches urls l && browserPathMatches l.path r.pathPrefix

def BrowserPolicyRule.hostnameLength (r : BrowserPolicyRule) : Nat :=
  size ((urls.parseURL r.origin).elim [] (·.hostname))

def browserRulePrecedes (candidate current : BrowserPolicyRule) : Bool :=
  if size candidate.pathPrefix ≠ size current.pathPrefix then
    size candidate.pathPrefix > size current.pathPrefix
  else if candidate.hostMatch ≠ current.hostMatch then candidate.hostMatch = hostExact
  else if candidate.hostnameLength urls ≠ current.hostnameLength urls then
    candidate.hostnameLength urls > current.hostnameLength urls
  else utf8 candidate.ruleID < utf8 current.ruleID

def BrowserPolicy.matchLocation (p : BrowserPolicy) (l : BrowserLocation) : Option BrowserPolicyRule :=
  if !p.enabled then none
  else (p.rules.filter (·.applies urls l)).foldl (fun selected rule =>
    if selected.all (browserRulePrecedes urls rule ·) then some rule else selected) none

/-! ## The selected rule -/

/-- The longest path first, then an exact host, then the longest hostname, then the smallest identity. -/
def BrowserPolicyRule.Precedes (r s : BrowserPolicyRule) : Prop :=
  size s.pathPrefix < size r.pathPrefix ∨ size r.pathPrefix = size s.pathPrefix ∧
    (r.hostMatch = hostExact ∧ s.hostMatch ≠ hostExact ∨ r.hostMatch = s.hostMatch ∧
      (s.hostnameLength urls < r.hostnameLength urls ∨
        r.hostnameLength urls = s.hostnameLength urls ∧ utf8 r.ruleID < utf8 s.ruleID))

def labels (host : Text) : List Text := host.splitOn '.'

def segments (path : Text) : List Text := if path = ['/'] then [] else (path.drop 1).splitOn '/'

def BrowserPolicyRule.Covers (l : BrowserLocation) (r : BrowserPolicyRule) : Prop :=
  (r.network urls).1 = l.scheme ∧ (r.network urls).2.2 = l.port ∧
    (l.host = (r.network urls).2.1 ∨ r.hostMatch = hostExactAndSubdomains ∧
      ∃ front ≠ [], labels l.host = front ++ labels (r.network urls).2.1) ∧
    segments r.pathPrefix <+: segments l.path

section Selection

variable {urls} {r s : BrowserPolicyRule} {l : BrowserLocation} {earlier rules : List BrowserPolicyRule}

theorem browserRulePrecedes_iff : browserRulePrecedes urls r s ↔ r.Precedes urls s := by
  simp only [browserRulePrecedes, BrowserPolicyRule.Precedes]
  grind

theorem precedes_trans {t : BrowserPolicyRule} (hrs : r.Precedes urls s) (hst : s.Precedes urls t) :
    r.Precedes urls t := by
  have hID : utf8 r.ruleID < utf8 s.ruleID → utf8 s.ruleID < utf8 t.ruleID → utf8 r.ruleID < utf8 t.ruleID :=
    List.lt_trans
  unfold BrowserPolicyRule.Precedes at *
  grind

theorem precedes_irrefl (r : BrowserPolicyRule) : ¬ r.Precedes urls r := by
  simp [BrowserPolicyRule.Precedes]

/-- The fold of `argmax` only ever holds a candidate. -/
theorem mem_of_foldl_argAux {α : Type} {prec : α → α → Prop} [DecidableRel prec] {candidates : List α} {m : α}
    {best : Option α} (h : candidates.foldl (argAux prec) best = some m) : m ∈ candidates ∨ best = some m := by
  induction candidates generalizing best with
  | nil => exact .inr h
  | cons x rest ih =>
    rcases ih h with hRest | hBest
    · exact .inl (mem_cons_of_mem x hRest)
    cases best with
    | none => exact .inl (by cases hBest; exact mem_cons_self)
    | some c =>
      unfold argAux at hBest
      dsimp only at hBest
      split at hBest
      · exact .inl (by cases hBest; exact mem_cons_self)
      · exact .inr hBest

theorem browserHostMatches_labels {actual host matching : Text} (h : browserHostMatches actual host matching) :
    actual = host ∨ matching = hostExactAndSubdomains ∧ ∃ front ≠ [], labels actual = front ++ labels host := by
  simp only [browserHostMatches, or_eq_true, and_eq_true, decide_eq_true_eq] at h
  refine h.imp_right fun ⟨hMatch, hEnd⟩ => ⟨hMatch, ?_⟩
  obtain ⟨front, rfl⟩ := List.isSuffixOf_iff_suffix.mp hEnd
  exact ⟨labels front, splitOn_ne_nil _ _, splitOn_append_cons_of_beq _ _ (beq_self_eq_true _)⟩

theorem browserPathMatches_segments {actual start : Text} (hStart : start.head? = some '/')
    (h : browserPathMatches actual start) : segments start <+: segments actual := by
  simp only [browserPathMatches, or_eq_true, decide_eq_true_eq] at h
  rcases h with (rfl | rfl) | hFront
  · exact prefix_rfl
  · exact nil_prefix
  obtain ⟨rest, rfl⟩ := List.isPrefixOf_iff_prefix.mp hFront
  obtain ⟨tail, rfl⟩ : ∃ tail, start = '/' :: tail := by
    cases start with
    | nil => cases hStart
    | cons c tail => exact ⟨tail, by rw [Option.some.inj hStart]⟩
  have hSplit : (tail ++ '/' :: rest).splitOn '/' = tail.splitOn '/' ++ rest.splitOn '/' :=
    splitOn_append_cons_of_beq _ _ (beq_self_eq_true _)
  unfold segments
  split
  · exact nil_prefix
  simp only [append_assoc, cons_append, nil_append, cons.injEq, append_eq_nil_iff, reduceCtorEq, and_false,
    if_false, drop_succ_cons, drop_zero]
  rw [hSplit]
  exact prefix_append _ _

theorem validateRules_ok (h : validateRules urls earlier rules)
    (hDist : (earlier.map (·.ruleID)).Nodup) :
    (∀ r ∈ rules, ∃ before, r.validate urls before) ∧ ((earlier ++ rules).map (·.ruleID)).Nodup := by
  induction rules generalizing earlier with
  | nil => exact ⟨nofun, by simpa using hDist⟩
  | cons r rest ih =>
    obtain ⟨hr, hRest⟩ := Bool.and_eq_true_iff.mp h
    have hNew : r.ruleID ∉ earlier.map (·.ruleID) := by
      simp only [BrowserPolicyRule.validate, and_eq_true, Bool.not_eq_true', List.contains_eq_mem,
        decide_eq_false_iff_not] at hr
      exact hr.1.2
    have hDist : ((earlier ++ [r]).map (·.ruleID)).Nodup := by
      rw [map_append, map_singleton]
      refine nodup_append.mpr ⟨hDist, nodup_singleton _, ?_⟩
      simpa using fun a ha hEq => hNew (mem_map.mpr ⟨a, ha, hEq⟩)
    obtain ⟨hAll, hNodup⟩ := ih hRest hDist
    exact ⟨forall_mem_cons.mpr ⟨⟨earlier, hr⟩, hAll⟩, by simpa using hNodup⟩

theorem BrowserPolicy.validate_ok {p : BrowserPolicy} (hValid : p.validate urls) (hEnabled : p.enabled) :
    (∀ r ∈ p.rules, ∃ before, r.validate urls before) ∧ (p.rules.map (·.ruleID)).Nodup := by
  simp only [BrowserPolicy.validate, hEnabled, Bool.not_true, Bool.false_eq_true, if_false, and_eq_true] at hValid
  exact validateRules_ok hValid.1.1.2 nodup_nil

theorem BrowserPolicyRule.validate_start {before : List BrowserPolicyRule} (h : r.validate urls before) :
    r.pathPrefix.head? = some '/' := by
  simp only [BrowserPolicyRule.validate, and_eq_true, decide_eq_true_eq] at h
  have hPath := h.1.1.2
  unfold canonicalizeBrowserPolicyPath at hPath
  split at hPath
  · cases hPath
  · simp_all

theorem precedes_total (hr : ∃ before, r.validate urls before) (hs : ∃ before, s.validate urls before)
    (hNe : r.ruleID ≠ s.ruleID) : r.Precedes urls s ∨ s.Precedes urls r := by
  have hID : utf8 r.ruleID < utf8 s.ruleID ∨ utf8 s.ruleID < utf8 r.ruleID := by
    by_contra hNone
    obtain ⟨hrs, hsr⟩ := not_or.mp hNone
    exact hNe (utf8_injective (List.le_antisymm (List.not_lt.mp hsr) (List.not_lt.mp hrs)))
  obtain ⟨_, hr⟩ := hr
  obtain ⟨_, hs⟩ := hs
  simp only [BrowserPolicyRule.validate, and_eq_true, List.contains_eq_mem, mem_cons, not_mem_nil, or_false,
    decide_eq_true_eq] at hr hs
  have hHosts := And.intro hr.1.1.1.1.1.1.2 hs.1.1.1.1.1.1.2
  unfold BrowserPolicyRule.Precedes
  grind

variable {p : BrowserPolicy}

theorem matchLocation_eq (hEnabled : p.enabled) : p.matchLocation urls l =
    (p.rules.filter (·.applies urls l)).foldl (argAux fun r s => browserRulePrecedes urls r s) none := by
  simp only [BrowserPolicy.matchLocation, hEnabled, Bool.not_true, Bool.false_eq_true, if_false]
  congr 1
  funext best rule
  cases best <;> rfl

theorem mem_of_matchLocation (hEnabled : p.enabled) (h : p.matchLocation urls l = some r) :
    r ∈ p.rules ∧ r.applies urls l := by
  rw [matchLocation_eq hEnabled] at h
  exact mem_filter.mp ((mem_of_foldl_argAux h).resolve_right nofun)

end Selection

theorem matchLocation_selects_least (p : BrowserPolicy) (hValid : p.validate urls) (hEnabled : p.enabled)
    (rules : List BrowserPolicyRule) (hOrder : rules.Perm p.rules) (l : BrowserLocation) :
    let selected := BrowserPolicy.matchLocation urls { p with rules } l
    (selected = none ↔ ∀ r ∈ p.rules, r.applies urls l = false) ∧
    (∀ r, selected = some r ↔ r ∈ p.rules ∧ r.applies urls l ∧
      ∀ s ∈ p.rules, s.applies urls l → s ≠ r → r.Precedes urls s) ∧
    ∀ r ∈ p.rules, r.applies urls l → r.Covers urls l := by
  intro selected
  obtain ⟨hRules, hDist⟩ := p.validate_ok hValid hEnabled
  have hFold : selected = _ := matchLocation_eq (p := { p with rules }) hEnabled
  have hLeast : ∀ r, selected = some r → r ∈ p.rules ∧ r.applies urls l ∧
      ∀ s ∈ p.rules, s.applies urls l → s ≠ r → r.Precedes urls s := by
    intro r hr
    obtain ⟨hIn, hApplies⟩ := mem_of_matchLocation (p := { p with rules }) hEnabled hr
    have hIn := hOrder.mem_iff.mp hIn
    refine ⟨hIn, hApplies, fun s hs hsApplies hNe => ?_⟩
    refine (precedes_total (hRules r hIn) (hRules s hs) fun hID => hNe ?_).resolve_right fun hsr => ?_
    · exact (inj_on_of_nodup_map hDist hIn hs hID).symm
    refine not_of_mem_foldl_argAux _ ⟨fun r h => ?_⟩ ⟨fun a b c hab hbc => ?_⟩
      (mem_filter.mpr ⟨hOrder.mem_iff.mpr hs, hsApplies⟩) (hFold ▸ hr) (browserRulePrecedes_iff.mpr hsr)
    · exact precedes_irrefl r (browserRulePrecedes_iff.mp h)
    · exact browserRulePrecedes_iff.mpr
        (precedes_trans (browserRulePrecedes_iff.mp hab) (browserRulePrecedes_iff.mp hbc))
  have hNone : selected = none ↔ ∀ r ∈ p.rules, r.applies urls l = false := by
    rw [hFold, foldl_argAux_eq_none, eq_nil_iff_forall_not_mem]
    simp [hOrder.mem_iff]
  refine ⟨hNone, fun r => ⟨hLeast r, fun ⟨hIn, hApplies, hFirst⟩ => ?_⟩, fun r hr hApplies => ?_⟩
  · cases hSelected : selected with
    | none => exact absurd hApplies (by simp [hNone.mp hSelected r hIn])
    | some s =>
      obtain ⟨hs, hsApplies, hsFirst⟩ := hLeast s hSelected
      by_contra hNe
      have hNe : s ≠ r := fun hSame => hNe (congrArg some hSame)
      exact precedes_irrefl r (precedes_trans (hFirst s hs hsApplies hNe) (hsFirst r hIn hApplies hNe.symm))
  · simp only [BrowserPolicyRule.applies, BrowserPolicyRule.originMatches, and_eq_true, decide_eq_true_eq]
      at hApplies
    obtain ⟨_, hr⟩ := hRules r hr
    exact ⟨hApplies.1.1.1, hApplies.1.1.2, browserHostMatches_labels hApplies.1.2,
      browserPathMatches_segments (BrowserPolicyRule.validate_start hr) hApplies.2⟩

/-- A parser that reads every text as one origin. -/
def oneOrigin : URLLibrary :=
  ⟨fun _ => some ⟨"https", false, "a.b", "a.b", [], [], []⟩, fun _ => false⟩

def startRule : BrowserPolicyRule :=
  ⟨"start", "https://a.b", "/x", hostExact, false, "record", false⟩

def onePolicy : BrowserPolicy := ⟨true, "start", [startRule]⟩

def oneLocation : BrowserLocation := ⟨"https", "a.b", [], "/x/y"⟩

theorem onePolicy_valid : onePolicy.validate oneOrigin := by
  decide +kernel

def innerRule : BrowserPolicyRule :=
  { startRule with ruleID := "inner", pathPrefix := "/x/y" }

def nestedPolicy : BrowserPolicy := { onePolicy with rules := [innerRule, startRule] }

/-- Both rules apply, and in either order the one with the longer path is selected. -/
theorem matchLocation_selects_least_nested :
    startRule.applies oneOrigin oneLocation ∧
    BrowserPolicy.matchLocation oneOrigin nestedPolicy oneLocation = some innerRule ∧
    BrowserPolicy.matchLocation oneOrigin { nestedPolicy with rules := [startRule, innerRule] }
      oneLocation = some innerRule := by
  have hValid : nestedPolicy.validate oneOrigin := by decide +kernel
  have hLeast : innerRule ∈ nestedPolicy.rules ∧ innerRule.applies oneOrigin oneLocation ∧
      ∀ s ∈ nestedPolicy.rules, s.applies oneOrigin oneLocation → s ≠ innerRule →
        innerRule.Precedes oneOrigin s := by
    simp only [← browserRulePrecedes_iff]
    decide +kernel
  refine ⟨by decide +kernel, ?_, ?_⟩
  · exact ((matchLocation_selects_least oneOrigin _ hValid rfl _ (.refl _) _).2.1 _).mpr hLeast
  · exact ((matchLocation_selects_least oneOrigin _ hValid rfl _ (.swap ..) _).2.1 _).mpr hLeast

/-! ## Reports of a navigation -/

/-- `MatchLocation`; `none` is its refusal of the policy or of the location. -/
def BrowserPolicy.matchValidLocation (p : BrowserPolicy) (l : BrowserLocation) :
    Option (Option BrowserPolicyRule) :=
  if p.validate urls && l.validate (browserLibrary lib urls) then some (p.matchLocation urls l) else none

def topNavigation : Text := "top_level_navigation"
def topRedirect : Text := "top_level_redirect"
def blockedNavigation : Text := "blocked_top_level_navigation"
def schemeNotAllowed : Text := "scheme_not_allowed"
def originNotAllowed : Text := "origin_not_allowed"
def pathNotAllowed : Text := "path_not_allowed"

/-- The rule of the navigation that was redirected, where it is known. -/
def redirectSource (event : BrowserActivityEvent) (p : BrowserPolicy) (prior : Option BrowserActivityEvent) :
    Except Fault (Option BrowserPolicyRule) :=
  match event.redirectFromSequence, prior with
  | some sequence, some prior =>
    match prior.location, prior.matchedRuleID with
    | some l, some ruleID =>
      if prior.sequence ≠ sequence || prior.policyRevisionID ≠ event.policyRevisionID ||
          (prior.kind ≠ topNavigation && prior.kind ≠ topRedirect) then .error .deliveryConflict
      else
        match p.matchValidLocation lib urls l with
        | some (some r) => if r.ruleID = ruleID then .ok (some r) else .error .deliveryConflict
        | _ => .error .deliveryConflict
    | _, _ => .error .deliveryConflict
  | _, _ => .ok none

def BrowserPolicy.schemeAllowed (p : BrowserPolicy) (l : BrowserLocation) : Bool :=
  l.scheme = "https" || (l.scheme = "http" && p.rules.any (·.institutionHTTPException))

/-- The rest of `ValidateBrowserPolicyEvent`, for a navigation with a location. -/
def validateNavigationEvent (event : BrowserActivityEvent) (p : BrowserPolicy) (l : BrowserLocation)
    (resolved : Bool) : Except Fault Bool :=
  if event.blockReason = some schemeNotAllowed then
    if p.schemeAllowed l then .error .deliveryConflict else .ok resolved
  else if !p.schemeAllowed l then .error .deliveryConflict
  else
    match p.matchValidLocation lib urls l with
    | none => .error .invalidInput
    | some selected =>
      if event.kind ≠ blockedNavigation then
        if selected.isSome && event.matchedRuleID = selected.map (·.ruleID) then .ok resolved
        else .error .deliveryConflict
      else if selected.isSome || event.matchedRuleID.isSome || event.blockReason.isNone then
        .error .deliveryConflict
      else
        let originMatched := p.rules.any (·.originMatches urls l)
        if (event.blockReason = some originNotAllowed && originMatched) ||
            (event.blockReason = some pathNotAllowed && !originMatched) then .error .deliveryConflict
        else .ok resolved

def validateBrowserPolicyEvent (event : BrowserActivityEvent) (p : BrowserPolicy)
    (prior : Option BrowserActivityEvent) : Except Fault Bool := do
  if !event.validateClientRecord (browserLibrary lib urls) || !p.validate urls || !p.enabled then
    .error .deliveryInvalid
  else if event.kind = "browser_opened" || event.kind = "browser_closed" then .ok true
  else
    let source ← redirectSource lib urls event p prior
    let resolved := event.redirectFromSequence.isNone || prior.isSome
    if event.blockReason = some "redirect_not_allowed".toList then
      match event.matchedRuleID, prior, source with
      | none, _, _ => .error .deliveryConflict
      | some _, none, _ => .ok false
      | some ruleID, some _, some r =>
        if r.allowRedirects || r.ruleID ≠ ruleID then .error .deliveryConflict else .ok true
      | some _, some _, none => .error .deliveryConflict
    else if source.any (!·.allowRedirects) then .error .deliveryConflict
    else if event.blockReason = some "invalid_url".toList then .ok resolved
    else
      match event.location with
      | none => .error .deliveryInvalid
      | some l => validateNavigationEvent lib urls event p l resolved

/-- What a client says of a navigation that was not redirected. -/
structure NavigationClaim where
  kind : Text
  matchedRuleID : Option Text
  blockReason : Option Text
deriving DecidableEq, Repr

/-- The event of the claim, with the stamps of another record. -/
def NavigationClaim.event (stamp : BrowserActivityEvent) (l : BrowserLocation) (c : NavigationClaim) :
    BrowserActivityEvent :=
  ⟨stamp.sequence, c.kind, stamp.policyRevisionID, stamp.clientOccurredAt, some l, c.matchedRuleID,
    c.blockReason, none⟩

/-- The one claim that the policy lets pass. -/
def BrowserPolicy.claim (p : BrowserPolicy) (l : BrowserLocation) : NavigationClaim :=
  if !p.schemeAllowed l then ⟨blockedNavigation, none, some schemeNotAllowed⟩
  else
    match p.matchLocation urls l with
    | some r => ⟨topNavigation, some r.ruleID, none⟩
    | none => ⟨blockedNavigation, none,
        some (if p.rules.any (·.originMatches urls l) then pathNotAllowed else originNotAllowed)⟩

section Claims

variable {lib urls} {p : BrowserPolicy} {l : BrowserLocation} {stamp : BrowserActivityEvent} {c : NavigationClaim}

theorem kinds_distinct :
    [topNavigation, blockedNavigation, topRedirect, "browser_opened".toList, "browser_closed".toList].Nodup := by
  decide

theorem reasons_distinct :
    [schemeNotAllowed, originNotAllowed, pathNotAllowed, "redirect_not_allowed".toList,
      "invalid_url".toList].Nodup := by
  decide

section Location

variable (hl : l.validate (browserLibrary lib urls))
include hl

theorem BrowserLocation.validate_scheme :
    l.host ≠ [] ∧ (l.scheme = "http" ∨ l.scheme = "https") := by
  unfold BrowserLocation.validate BrowserLocation.validateNetwork at hl
  grind

/-- The records a client may make of a location that was not redirected. -/
theorem claim_record (hStamp : stamp.validateClientRecord (browserLibrary lib urls)) :
    (c.event stamp l).validateClientRecord (browserLibrary lib urls) ↔
      c.kind = topNavigation ∧ c.matchedRuleID.any validBrowserPolicyRuleID ∧ c.blockReason = none ∨
      c.kind = blockedNavigation ∧ c.matchedRuleID.all validBrowserPolicyRuleID ∧
        (c.blockReason = some originNotAllowed ∨ c.blockReason = some pathNotAllowed ∨
          c.blockReason = some schemeNotAllowed ∧ c.matchedRuleID = none ∧ l.scheme = "http") := by
  obtain ⟨kind, ruleID, reason⟩ := c
  obtain ⟨hHost, hScheme⟩ := BrowserLocation.validate_scheme hl
  have hEmpty : l ≠ ⟨[], [], [], []⟩ := fun hSame => hHost (congrArg BrowserLocation.host hSame)
  have hHTTP : l.scheme = "http" →
      l.validateNetwork (browserLibrary lib urls) "http" "80" := fun h => by
    rwa [BrowserLocation.validate, if_pos h] at hl
  have hSchemes : "http".toList ≠ "https".toList ∧ browserActivitySchemePattern "http".toList ∧
      size "http".toList = 4 := by decide
  have hKinds := kinds_distinct
  have hReasons := reasons_distinct
  simp only [BrowserActivityEvent.validateClientRecord, and_eq_true] at hStamp
  obtain ⟨⟨⟨⟨⟨⟨⟨h1, h2⟩, h3⟩, h4⟩, -⟩, -⟩, -⟩, -⟩ := hStamp
  unfold BrowserActivityEvent.validateClientRecord NavigationClaim.event
  dsimp only
  rw [h1, h2, h3, h4]
  simp only [BrowserActivityEvent.validateNavigation, BrowserLocation.validateBlocked, hl, Option.any_some,
    browserBlockReasons]
  unfold topNavigation blockedNavigation topRedirect schemeNotAllowed originNotAllowed pathNotAllowed at *
  -- the texts matter only as far as they differ
  generalize "browser_opened".toList = k1, "browser_closed".toList = k2, "top_level_navigation".toList = k3,
    "top_level_redirect".toList = k4, "blocked_top_level_navigation".toList = k5, "scheme_not_allowed".toList = r1,
    "origin_not_allowed".toList = r2, "path_not_allowed".toList = r3, "redirect_not_allowed".toList = r4,
    "invalid_url".toList = r5, "http".toList = s1, "https".toList = s2 at *
  clear h1 h2 h3 h4 hl
  simp only [nodup_cons, mem_cons, not_mem_nil, not_or] at hKinds hReasons
  cases reason with
  | none =>
    -- without a reason a rule is named; a redirect would name the event it comes from
    cases ruleID with
    | none => simp
    | some id =>
      simp only [Option.any_some, Option.all_some]
      grind
  | some reason =>
    -- the location is not empty, so that its address is not an invalid one
    cases ruleID with
    | none =>
      simp only [Option.any_some, Option.all_none]
      grind
    | some id =>
      simp only [Option.any_some, Option.all_some]
      grind

end Location

section Policy

variable (hValid : p.validate urls) (hEnabled : p.enabled)
include hValid hEnabled

theorem schemeAllowed_of_matchLocation {r : BrowserPolicyRule} (h : p.matchLocation urls l = some r) :
    validBrowserPolicyRuleID r.ruleID ∧ p.schemeAllowed l := by
  obtain ⟨hr, hApplies⟩ := mem_of_matchLocation hEnabled h
  obtain ⟨_, hRule⟩ := (p.validate_ok hValid hEnabled).1 r hr
  simp only [BrowserPolicyRule.applies, BrowserPolicyRule.originMatches, and_eq_true, decide_eq_true_eq]
    at hApplies
  simp only [BrowserPolicyRule.validate, and_eq_true, decide_eq_true_eq] at hRule
  have hOrigin := hRule.1.1.1.1.2
  have hScheme := hApplies.1.1.1
  unfold canonicalizeBrowserPolicyRuleOrigin at hOrigin
  unfold BrowserPolicyRule.network at hScheme
  refine ⟨by simp only [hRule], ?_⟩
  simp only [BrowserPolicy.schemeAllowed, or_eq_true, and_eq_true, decide_eq_true_eq, any_eq_true]
  generalize "http".toList = http, "https".toList = https, "80".toList = p80, "443".toList = p443 at *
  cases hParse : urls.parseURL r.origin with
  | none => simp [hParse] at hOrigin
  | some u =>
    simp only [hParse] at hOrigin hScheme
    grind

variable (hl : l.validate (browserLibrary lib urls))
include hl

theorem claim_cases :
    (∃ r, p.matchLocation urls l = some r ∧ validBrowserPolicyRuleID r.ruleID ∧
      p.claim urls l = ⟨topNavigation, some r.ruleID, none⟩) ∨
    p.matchLocation urls l = none ∧ ∃ reason ∈ [schemeNotAllowed, originNotAllowed, pathNotAllowed],
      (reason = schemeNotAllowed → l.scheme = "http") ∧
        p.claim urls l = ⟨blockedNavigation, none, some reason⟩ := by
  unfold BrowserPolicy.claim
  cases hSelected : p.matchLocation urls l with
  | some r =>
    obtain ⟨hID, hScheme⟩ := schemeAllowed_of_matchLocation hValid hEnabled hSelected
    exact .inl ⟨r, rfl, hID, by simp [hScheme]⟩
  | none =>
    refine .inr ⟨rfl, ?_⟩
    have hReasons : originNotAllowed ≠ schemeNotAllowed ∧ pathNotAllowed ≠ schemeNotAllowed := by decide
    by_cases hScheme : p.schemeAllowed l
    · cases p.rules.any (·.originMatches urls l)
      · exact ⟨originNotAllowed, by simp, fun h => absurd h hReasons.1, by simp [hScheme]⟩
      · exact ⟨pathNotAllowed, by simp, fun h => absurd h hReasons.2, by simp [hScheme]⟩
    · refine ⟨schemeNotAllowed, mem_cons_self, fun _ => ?_, by simp [hScheme]⟩
      refine (BrowserLocation.validate_scheme hl).2.resolve_right fun hs => hScheme ?_
      rw [BrowserPolicy.schemeAllowed, hs]
      rfl

theorem claim_passes (hStamp : stamp.validateClientRecord (browserLibrary lib urls))
    (prior : Option BrowserActivityEvent) :
    (validateBrowserPolicyEvent lib urls (c.event stamp l) p prior).isOk ↔
      (c.event stamp l).validateClientRecord (browserLibrary lib urls) ∧ c = p.claim urls l := by
  by_cases hRecord : (c.event stamp l).validateClientRecord (browserLibrary lib urls)
  · have hMatch : p.matchValidLocation lib urls l = some (p.matchLocation urls l) := by
      simp only [BrowserPolicy.matchValidLocation, hValid, hl, Bool.and_self, if_true]
    have hKinds := kinds_distinct
    have hReasons := reasons_distinct
    simp only [validateBrowserPolicyEvent, hRecord, hValid, hEnabled, true_and]
    rw [claim_record hl hStamp] at hRecord
    obtain ⟨kind, ruleID, reason⟩ := c
    simp only [nodup_cons, mem_cons, not_mem_nil, not_or] at hKinds hReasons
    simp only [NavigationClaim.event, redirectSource, validateNavigationEvent, hMatch, BrowserPolicy.claim, bind,
      Except.bind, Option.any_none] at hRecord ⊢
    generalize "browser_opened".toList = k1, "browser_closed".toList = k2, "redirect_not_allowed".toList = r4,
      "invalid_url".toList = r5, p.matchLocation urls l = selected, p.rules.any (·.originMatches urls l) = matched,
      p.schemeAllowed l = allowed at *
    rcases hRecord with ⟨rfl, -, rfl⟩ | ⟨rfl, -, rfl | rfl | ⟨rfl, rfl, -⟩⟩
    · -- a navigation that names the selected rule
      cases selected with
      | none => grind [Except.toBool]
      | some r => cases ruleID <;> grind [Except.toBool]
    · -- a block for an origin that no rule has
      cases selected with
      | none => cases ruleID <;> grind [Except.toBool]
      | some r => grind [Except.toBool]
    · -- a block for a path, at an origin that some rule has
      cases selected with
      | none => cases ruleID <;> grind [Except.toBool]
      | some r => grind [Except.toBool]
    · -- a block for the scheme
      cases allowed <;> grind [Except.toBool]
  · simp [validateBrowserPolicyEvent, hRecord, Except.isOk, Except.toBool]

end Policy

end Claims

theorem navigation_has_one_claim (p : BrowserPolicy) (hValid : p.validate urls) (hEnabled : p.enabled)
    (l : BrowserLocation) (hl : l.validate (browserLibrary lib urls)) (stamp : BrowserActivityEvent)
    (hStamp : stamp.validateClientRecord (browserLibrary lib urls)) (prior : Option BrowserActivityEvent) :
    let passes := fun c : NavigationClaim => (validateBrowserPolicyEvent lib urls (c.event stamp l) p prior).isOk
    (∃! c, passes c) ∧ ∀ c, passes c →
      (∃ r, p.matchLocation urls l = some r ∧ c = ⟨topNavigation, some r.ruleID, none⟩) ∨
      p.matchLocation urls l = none ∧ ∃ reason ∈ [schemeNotAllowed, originNotAllowed, pathNotAllowed],
        c = ⟨blockedNavigation, none, some reason⟩ := by
  intro passes
  have hPasses : ∀ c, passes c ↔ _ := fun c => claim_passes hValid hEnabled hl hStamp prior
  have hOnly : ∀ c, passes c → c = p.claim urls l := fun c hc => ((hPasses c).mp hc).2
  suffices hRecord : ((p.claim urls l).event stamp l).validateClientRecord (browserLibrary lib urls) by
    refine ⟨⟨_, (hPasses _).mpr ⟨hRecord, rfl⟩, hOnly⟩, fun c hc => ?_⟩
    rcases claim_cases hValid hEnabled hl with ⟨r, hr, -, hClaim⟩ | ⟨hNone, reason, hReason, -, hClaim⟩
    · exact .inl ⟨r, hr, (hOnly c hc).trans hClaim⟩
    · exact .inr ⟨hNone, reason, hReason, (hOnly c hc).trans hClaim⟩
  rw [claim_record hl hStamp]
  rcases claim_cases hValid hEnabled hl with ⟨r, -, hID, hClaim⟩ | ⟨-, reason, hReason, hHTTP, hClaim⟩ <;> rw [hClaim]
  · exact .inl ⟨rfl, hID, rfl⟩
  simp only [mem_cons, not_mem_nil, or_false] at hReason
  rcases hReason with rfl | rfl | rfl
  · exact .inr ⟨rfl, rfl, .inr (.inr ⟨rfl, rfl, hHTTP rfl⟩)⟩
  · exact .inr ⟨rfl, rfl, .inl rfl⟩
  · exact .inr ⟨rfl, rfl, .inr (.inl rfl)⟩

def opened : BrowserActivityEvent :=
  ⟨1, "browser_opened", replicate 26 'y', ⟨⟨1000000, 0⟩, []⟩, none, none, none, none⟩

theorem navigation_has_one_claim_opened : ∃! c : NavigationClaim,
    (validateBrowserPolicyEvent
      ⟨fun _ => none, fun _ => none, fun _ => none, fun _ => [], fun _ => [], fun _ _ _ => none⟩ oneOrigin
      (c.event opened oneLocation) onePolicy none).isOk :=
  (navigation_has_one_claim _ oneOrigin onePolicy onePolicy_valid rfl oneLocation (by decide +kernel) opened
    (by decide +kernel) none).1

end Proctor.Agreement
