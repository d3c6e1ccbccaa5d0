import GtfsStream.Analytics.ScheduleDeviation

/-!
# The data-quality alerter

`DataQualityAlerter` and its `HealthcheckNotifier`. Two rules are evaluated on every window: the
share of matched pings over the last 30 minutes, and the deviations of the last hour against the
same hour of the previous week. The notifier is pinged on every window, on `/fail` while a rule is
firing. The log lines are left out, and a reason is kept as the numbers that its text shows.
-/

open GtfsStream.Analytics (MatchingStats)

namespace GtfsStream.Alerting

def matchedRatioThreshold : ℚ := 1 / 2

def matchedRatioWindowMinutes : ℕ := 30

def deviationVolumeMinRatio : ℚ := 1 / 2

def deviationVolumeMinWeekAgo : ℕ := 20

def minRatioSamples : ℕ := 3

def sampleRetentionMinutes : ℕ := matchedRatioWindowMinutes + 10

/-- The numbers in the text of a matched-ratio reason. -/
structure RatioReason where
  matched : ℕ
  total : ℕ
  threshold : ℚ
  windowMinutes : ℕ

/-- The numbers in the text of a deviation-volume reason. -/
structure VolumeReason where
  current : ℕ
  weekAgo : ℕ
  minRatio : ℚ
  completedHour : Time

inductive Alert
  | ratio (r : RatioReason)
  | volume (r : VolumeReason)

/-! ## The notifier -/

/-- The check URL without its trailing slashes; none or an empty one disables the notifier. -/
def checkUrl (url : Option String) : Option String :=
  match url with
  | none => none
  | some s =>
    let stripped := String.ofList (s.toList.reverse.dropWhile fun c ↦ c = '/').reverse
    if stripped = "" then none else some stripped

/-- A ping that was attempted: its URL, and the alerts in its message. A transport that fails is
logged and swallowed. -/
abbrev Ping := String × List Alert

def ping (url : Option String) (path : String) (message : List Alert) : List Ping :=
  match checkUrl url with
  | none => []
  | some target => [(target ++ path, message)]

/-! ## The alerter -/

/-- The arguments of the constructor, with their defaults. -/
structure Config where
  url : Option String
  matchedRatioThreshold : ℚ := Alerting.matchedRatioThreshold
  ratioWindowMinutes : ℕ := Alerting.matchedRatioWindowMinutes
  deviationMinRatio : ℚ := Alerting.deviationVolumeMinRatio
  weekAgoMinCount : ℕ := Alerting.deviationVolumeMinWeekAgo

/-- One window with pings. -/
structure Sample where
  observedAt : Time
  matched : ℕ
  total : ℕ

structure Alerter where
  ratioSamples : List Sample := []
  cumulative : MatchingStats := ⟨0, 0, 0, 0, 0⟩
  currentHour : Option Time := none
  ratioReason : Option RatioReason := none
  volumeReason : Option VolumeReason := none
  pings : List Ping := []

namespace Alerter

variable (cfg : Config) (a : Alerter) (now : Time)

/-- The reasons of the firing rules. -/
def activeAlerts : List Alert :=
  (a.ratioReason.map Alert.ratio).toList ++ (a.volumeReason.map Alert.volume).toList

def pruneRatioSamples : Alerter :=
  { a with ratioSamples := a.ratioSamples.dropWhile fun s ↦
      s.observedAt < now - minutes sampleRetentionMinutes }

/-- Rule 1. With too few samples, or none that reaches back to the start of the window, the state
is left as it is. -/
def evaluateRatioRule : Alerter :=
  let window := minutes cfg.ratioWindowMinutes
  let trailing := a.ratioSamples.filter fun s ↦ now - window ≤ s.observedAt
  match trailing with
  | [] => a
  | oldest :: _ =>
    if trailing.length < minRatioSamples then a
    else if now - oldest.observedAt < window then a
    else
      let total := (trailing.map Sample.total).sum
      let matched := (trailing.map Sample.matched).sum
      if total = 0 then a
      else if (matched : ℚ) / total < cfg.matchedRatioThreshold then
        { a with
          ratioReason := some ⟨matched, total, cfg.matchedRatioThreshold, cfg.ratioWindowMinutes⟩ }
      else { a with ratioReason := none }

/-- Rule 2, with the deviations counted between two times, or none where the query fails. -/
def evaluateVolumeRule (count : Time → Time → Option ℕ) (completedHour : Time) : Alerter :=
  let weekAgoHour := completedHour - hours (24 * 7)
  match count completedHour (completedHour + hours 1),
    count weekAgoHour (weekAgoHour + hours 1) with
  | some current, some weekAgo =>
    if weekAgo < cfg.weekAgoMinCount then a
    else if (current : ℚ) / weekAgo < cfg.deviationMinRatio then
      { a with volumeReason := some ⟨current, weekAgo, cfg.deviationMinRatio, completedHour⟩ }
    else { a with volumeReason := none }
  | _, _ => a

def maybeCloseHour (count : Time → Time → Option ℕ) : Alerter :=
  let hour := now / hours 1 * hours 1
  match a.currentHour with
  | none => { a with currentHour := some hour }
  | some current =>
    if hour ≤ current then a
    else evaluateVolumeRule cfg { a with currentHour := some hour } count current

def pingState : Alerter :=
  { a with pings := a.pings ++
      if a.activeAlerts = [] then ping cfg.url "" [] else ping cfg.url "/fail" a.activeAlerts }

/-- Feed one processed window into the rules. -/
def observeWindow (count : Time → Time → Option ℕ) (matching : Option MatchingStats) : Alerter :=
  let fed := match matching with
    | some m =>
      if 0 < m.totalPings then
        pruneRatioSamples
          { a with
            cumulative := a.cumulative + m
            ratioSamples := a.ratioSamples ++ [Sample.mk now m.matchedPings m.totalPings] } now
      else a
    | none => a
  ((fed.maybeCloseHour cfg now count).evaluateRatioRule cfg now).pingState cfg

end Alerter

end GtfsStream.Alerting
