import FlareIm.Lib.Tally
import FlareIm.Lib.Text
import FlareIm.Proto

namespace FlareIm.SendRateLimit

open Text Proto

def DEFAULT_WINDOW_MS : Nat := 1000
def DEFAULT_MAX_TRACKED_KEYS : Nat := 200000
def MIN_MAX_TRACKED_KEYS : Nat := 1024

def U32_MAX : Nat := 2 ^ 32 - 1
def U64_MAX : Nat := 2 ^ 64 - 1

-- A limit of zero disables its scope.
structure SendRateLimitConfig where
  enabled : Bool := false
  tenantPerSecond : Nat := 0
  tenantSenderPerSecond : Nat := 0
  tenantConversationPerSecond : Nat := 0
  windowMs : Nat := 0
  maxTrackedKeys : Nat := 0
  tenant_le : tenantPerSecond ≤ U32_MAX := by decide
  sender_le : tenantSenderPerSecond ≤ U32_MAX := by decide
  conversation_le : tenantConversationPerSecond ≤ U32_MAX := by decide

def SendRateLimitConfig.isEffective (config : SendRateLimitConfig) : Bool :=
  config.enabled && (0 < config.tenantPerSecond || 0 < config.tenantSenderPerSecond ||
    0 < config.tenantConversationPerSecond)

def SendRateLimitConfig.normalized (config : SendRateLimitConfig) : SendRateLimitConfig :=
  { config with
    windowMs := if config.windowMs = 0 then DEFAULT_WINDOW_MS else config.windowMs
    maxTrackedKeys := max
      (if config.maxTrackedKeys = 0 then DEFAULT_MAX_TRACKED_KEYS else config.maxTrackedKeys)
      MIN_MAX_TRACKED_KEYS }

structure WindowCounter where
  windowStartMs : Nat
  count : Nat

-- The hash map of the process, one entry a key.
abbrev Counters := List (String × WindowCounter)

-- The order in which a hash map of the process lists its keys.
structure HashOrder where
  keys : Counters → List String
  keys_perm : ∀ counters, (keys counters).Perm (counters.map (·.1))

-- The configuration is a normalized one.
structure SendRateLimiter where
  config : SendRateLimitConfig
  order : HashOrder

def SendRateLimiter.new (config : SendRateLimitConfig) (order : HashOrder) : SendRateLimiter where
  config := config.normalized
  order := order

inductive RateLimitScope where
  | tenant
  | tenantSender
  | tenantConversation

def RateLimitScope.label : RateLimitScope → String
  | .tenant => "tenant"
  | .tenantSender => "tenant_sender"
  | .tenantConversation => "tenant_conversation"

structure RateLimitCheck where
  key : String
  scope : RateLimitScope
  limit : Nat

-- An error with the code `MessageRateLimitExceeded`.
structure RateLimitError where
  reason : String
  params : List (String × String)
  deriving DecidableEq

def rateLimitError (scope : RateLimitScope) (limit windowMs : Nat) : RateLimitError where
  reason := "message send rate limit exceeded"
  params := [("scope", scope.label), ("limit_per_window", toString limit),
    ("window_ms", toString windowMs)]

-- A call of `check`, at the time the clock of the process shows. The quota is what the projection
-- gives for the tenant, zero for none.
structure Send where
  nowMs : Nat
  tenantId : String
  tenantSendQps : Nat := 0
  message : Message
  now_le : nowMs ≤ U64_MAX := by decide
  qps_le : tenantSendQps ≤ U32_MAX := by decide

def nonEmptyOr (value fallback : String) : String :=
  if trim value = "" then fallback else trim value

def SendRateLimitConfig.tenantLimit (config : SendRateLimitConfig) (tenantSendQps : Nat) : Nat :=
  if 0 < tenantSendQps then tenantSendQps else config.tenantPerSecond

def buildChecks (config : SendRateLimitConfig) (send : Send) : List RateLimitCheck :=
  if !config.enabled then []
  else
    let tenant := nonEmptyOr send.tenantId "0"
    let sender := nonEmptyOr send.message.senderId "_"
    let conversation := nonEmptyOr send.message.conversationId "_"
    let tenantLimit := config.tenantLimit send.tenantSendQps
    (if 0 < tenantLimit then [⟨"tenant:" ++ tenant, .tenant, tenantLimit⟩] else []) ++
    (if 0 < config.tenantSenderPerSecond then
      [⟨"tenant_sender:" ++ tenant ++ ":" ++ sender, .tenantSender,
        config.tenantSenderPerSecond⟩] else []) ++
    (if 0 < config.tenantConversationPerSecond then
      [⟨"tenant_conversation:" ++ tenant ++ ":" ++ conversation, .tenantConversation,
        config.tenantConversationPerSecond⟩] else [])

namespace SendRateLimiter

variable (limiter : SendRateLimiter)

def windowMs : Nat := max limiter.config.windowMs 1

def windowStart (nowMs : Nat) : Nat := nowMs / limiter.windowMs * limiter.windowMs

def oldestLiveWindow (nowMs : Nat) : Nat := nowMs - min (limiter.windowMs * 2) U64_MAX

def live (nowMs : Nat) (counters : Counters) : Counters :=
  counters.filter fun entry => limiter.oldestLiveWindow nowMs ≤ entry.2.windowStartMs

-- Old windows go first. If that is not enough, so do keys that are still in use, as the hash map
-- happens to list them.
def trimState (nowMs : Nat) (counters : Counters) : Counters :=
  let maxTrackedKeys := limiter.config.maxTrackedKeys
  if counters.length ≤ maxTrackedKeys then counters
  else
    let counters := limiter.live nowMs counters
    if counters.length ≤ maxTrackedKeys then counters
    else
      let keys := (limiter.order.keys counters).take (counters.length - maxTrackedKeys)
      counters.filter fun entry => entry.1 ∉ keys

-- What was accepted under the key in the window.
def current (windowStartMs : Nat) (counters : Counters) (key : String) : Nat :=
  let counter := Tally.valueAt key ⟨windowStartMs, 0⟩ counters
  if counter.windowStartMs = windowStartMs then counter.count else 0

def advance (windowStartMs : Nat) (counter : WindowCounter) : WindowCounter :=
  let counter := if counter.windowStartMs ≠ windowStartMs then ⟨windowStartMs, 0⟩ else counter
  { counter with count := min (counter.count + 1) U32_MAX }

def charge (windowStartMs : Nat) (checks : List RateLimitCheck) (counters : Counters) : Counters :=
  checks.foldl
    (fun counters check =>
      Tally.modify check.key ⟨windowStartMs, 0⟩ (advance windowStartMs) counters)
    counters

-- Nothing is charged before every check has passed.
def checkAtMillis (counters : Counters) (send : Send) : Counters × Except RateLimitError Unit :=
  let checks := buildChecks limiter.config send
  if checks = [] then (counters, .ok ())
  else
    let windowStartMs := limiter.windowStart send.nowMs
    let counters := limiter.trimState send.nowMs counters
    match checks.find? fun check => check.limit ≤ current windowStartMs counters check.key with
    | some check => (counters, .error (rateLimitError check.scope check.limit limiter.windowMs))
    | none => (limiter.trimState send.nowMs (charge windowStartMs checks counters), .ok ())

def check (counters : Counters) (send : Send) : Counters × Except RateLimitError Unit :=
  if !limiter.config.enabled then (counters, .ok ())
  else if !limiter.config.isEffective && send.tenantSendQps == 0 then (counters, .ok ())
  else limiter.checkAtMillis counters send

theorem check_eq_checkAtMillis (counters : Counters) (send : Send) :
    limiter.check counters send = limiter.checkAtMillis counters send := by
  have hn (h : buildChecks limiter.config send = []) :
      limiter.checkAtMillis counters send = (counters, .ok ()) := by
    rw [checkAtMillis]
    exact if_pos h
  unfold check
  split
  · rename_i hdi
    exact (hn (by rw [buildChecks, if_pos hdi])).symm
  · rename_i hen
    split
    · rename_i hil
      refine (hn ?_).symm
      simp only [SendRateLimitConfig.isEffective, Bool.and_eq_true, Bool.not_eq_true',
        Bool.and_eq_false_imp, beq_iff_eq, Bool.or_eq_false_iff, decide_eq_false_iff_not] at hil
      obtain ⟨⟨⟨ht, hs⟩, hc⟩, hq⟩ :=
        And.intro (hil.1 (by simpa using hen)) hil.2
      simp [buildChecks, SendRateLimitConfig.tenantLimit, hen, ht, hs, hc, hq]
    · rfl

-- The calls one after the other, each with its answer.
def verdicts : Counters → List Send → List (Send × Except RateLimitError Unit)
  | _, [] => []
  | counters, send :: rest =>
    (send, (limiter.checkAtMillis counters send).2) ::
      verdicts (limiter.checkAtMillis counters send).1 rest

def after (counters : Counters) (sends : List Send) : Counters :=
  sends.foldl (fun counters send => (limiter.checkAtMillis counters send).1) counters

end SendRateLimiter

end FlareIm.SendRateLimit
