import FlareIm.Lib.Fallible
import FlareIm.Lib.Replacing
import FlareIm.Lib.Text
import Mathlib.Data.String.Basic

namespace FlareIm.TenantHooks

section Items

structure HookSelectorConfig where
  tenants : List String := []
  conversationTypes : List String := []
  messageTypes : List String := []
  userIds : List String := []
  tags : List (String × String) := []

def HookSelectorConfig.matchesTenant (selector : HookSelectorConfig) (tenantId : String) : Bool :=
  selector.tenants.isEmpty || selector.tenants.any (· == tenantId)

inductive LoadBalanceStrategy where
  | roundRobin
  | random
  | consistentHash
  | leastConn

inductive HookTransportConfig where
  | grpc (endpoint serviceName registryType nameSpace : Option String)
      (loadBalance : Option LoadBalanceStrategy) (metadata : List (String × String))
  | webhook (endpoint : String) (secret : Option String) (headers : List (String × String))
  | plugin (target : String)

structure HookConfigItem where
  name : String
  version : Option String := none
  description : Option String := none
  enabled : Bool
  priority : Int32
  group : Option String := none
  timeoutMs : UInt64
  maxRetries : UInt32 := 0
  errorPolicy : String := "fail_fast"
  requireSuccess : Bool := true
  selector : HookSelectorConfig
  transport : HookTransportConfig
  metadata : List (String × String) := []

inductive HookType where
  | preSend
  | postSend
  | delivery
  | recall
  | sessionCreate
  | sessionUpdate
  | sessionDelete
  | userLogin
  | userLogout
  | userOnline
  | userOffline
  | pushPreSend
  | pushPostSend
  | pushDelivery
  | getConversationParticipants
  deriving DecidableEq

def HOOK_TYPES : List HookType :=
  [.preSend, .postSend, .delivery, .recall, .sessionCreate, .sessionUpdate, .sessionDelete,
    .userLogin, .userLogout, .userOnline, .userOffline, .pushPreSend, .pushPostSend,
    .pushDelivery, .getConversationParticipants]

def HookType.name : HookType → String
  | .preSend => "pre_send"
  | .postSend => "post_send"
  | .delivery => "delivery"
  | .recall => "recall"
  | .sessionCreate => "session_create"
  | .sessionUpdate => "session_update"
  | .sessionDelete => "session_delete"
  | .userLogin => "user_login"
  | .userLogout => "user_logout"
  | .userOnline => "user_online"
  | .userOffline => "user_offline"
  | .pushPreSend => "push_pre_send"
  | .pushPostSend => "push_post_send"
  | .pushDelivery => "push_delivery"
  | .getConversationParticipants => "get_conversation_participants"

end Items

section Config

structure HookConfig where
  preSend : List HookConfigItem := []
  postSend : List HookConfigItem := []
  delivery : List HookConfigItem := []
  «recall» : List HookConfigItem := []
  sessionCreate : List HookConfigItem := []
  sessionUpdate : List HookConfigItem := []
  sessionDelete : List HookConfigItem := []
  userLogin : List HookConfigItem := []
  userLogout : List HookConfigItem := []
  userOnline : List HookConfigItem := []
  userOffline : List HookConfigItem := []
  pushPreSend : List HookConfigItem := []
  pushPostSend : List HookConfigItem := []
  pushDelivery : List HookConfigItem := []
  getConversationParticipants : List HookConfigItem := []

namespace HookConfig

def list (config : HookConfig) : HookType → List HookConfigItem
  | .preSend => config.preSend
  | .postSend => config.postSend
  | .delivery => config.delivery
  | .recall => config.recall
  | .sessionCreate => config.sessionCreate
  | .sessionUpdate => config.sessionUpdate
  | .sessionDelete => config.sessionDelete
  | .userLogin => config.userLogin
  | .userLogout => config.userLogout
  | .userOnline => config.userOnline
  | .userOffline => config.userOffline
  | .pushPreSend => config.pushPreSend
  | .pushPostSend => config.pushPostSend
  | .pushDelivery => config.pushDelivery
  | .getConversationParticipants => config.getConversationParticipants

def ofLists (lists : HookType → List HookConfigItem) : HookConfig where
  preSend := lists .preSend
  postSend := lists .postSend
  delivery := lists .delivery
  «recall» := lists .recall
  sessionCreate := lists .sessionCreate
  sessionUpdate := lists .sessionUpdate
  sessionDelete := lists .sessionDelete
  userLogin := lists .userLogin
  userLogout := lists .userLogout
  userOnline := lists .userOnline
  userOffline := lists .userOffline
  pushPreSend := lists .pushPreSend
  pushPostSend := lists .pushPostSend
  pushDelivery := lists .pushDelivery
  getConversationParticipants := lists .getConversationParticipants

def allHooks (config : HookConfig) : List HookConfigItem :=
  HOOK_TYPES.flatMap config.list

-- The list of a type is found by the name of the type.
def push (config : HookConfig) (hookType : String) (hook : HookConfigItem) : Option HookConfig :=
  (HOOK_TYPES.find? fun type => type.name == hookType).map fun found =>
    ofLists fun type => if type = found then config.list type ++ [hook] else config.list type

def mergeOverriding (config other : HookConfig) : HookConfig :=
  ofLists fun type => (other.list type).foldl (Replacing.replaced (·.name)) (config.list type)

def hookCount (config : HookConfig) : Nat :=
  (HOOK_TYPES.map fun type => (config.list type).length).sum

def isEmpty (config : HookConfig) : Bool :=
  config.hookCount == 0

def retainTenant (config : HookConfig) (tenantId : String) : HookConfig :=
  ofLists fun type => (config.list type).filter fun hook => hook.selector.matchesTenant tenantId

def removeReserved (config reserved : HookConfig) : HookConfig :=
  ofLists fun type => (config.list type).filter fun hook =>
    !(reserved.list type).any fun kept => kept.name == hook.name

def extendKeepingExisting (config other : HookConfig) : HookConfig :=
  ofLists fun type => (other.list type).foldl
    (fun list hook => if list.any fun kept => kept.name == hook.name then list else list ++ [hook])
    (config.list type)

end HookConfig

-- Sources of a higher priority come later.
def merge (configs : List HookConfig) : HookConfig :=
  configs.foldl HookConfig.mergeOverriding {}

end Config

section Validation

structure ConfigError where
  reason : String
  details : Option String := none

inductive HookGroup where
  | validation
  | critical
  | business

inductive HookErrorPolicy where
  | failFast
  | retry
  | ignore

def toAsciiLowercase (value : String) : String := String.ofList (value.toList.map Char.toLower)

def HookErrorPolicy.parse (value : String) : Option HookErrorPolicy :=
  match String.ofList ((value.toList.filter (· ≠ '_')).map Char.toLower) with
  | "failfast" => some .failFast
  | "retry" => some .retry
  | "ignore" => some .ignore
  | _ => none

def parseHookGroup (value : String) : Option HookGroup :=
  match toAsciiLowercase value with
  | "validation" => some .validation
  | "critical" => some .critical
  | "business" => some .business
  | _ => none

def HookGroup.fromPriority (priority : Int32) : HookGroup :=
  if 100 ≤ priority then .validation else .business

def isControl (c : Char) : Bool :=
  c.toNat < 0x20 || (0x7F ≤ c.toNat && c.toNat < 0xA0)

def escapeDefault (c : Char) : List Char :=
  match c with
  | '\t' => ['\\', 't']
  | '\r' => ['\\', 'r']
  | '\n' => ['\\', 'n']
  | c => ['\\', 'u', '\x7b'] ++ Nat.toDigits 16 c.toNat ++ ['\x7d']

def loggableName (name : String) : String :=
  String.ofList (name.toList.flatMap fun c => if isControl c then escapeDefault c else [c])

def hookDetails (hook : HookConfigItem) : String := "hook=" ++ loggableName hook.name

def HookConfigItem.resolvedGroup (hook : HookConfigItem) : Except ConfigError HookGroup :=
  match (hook.group.map Text.trim).filter (· ≠ "") with
  | none => .ok (HookGroup.fromPriority hook.priority)
  | some group =>
    match parseHookGroup group with
    | some group => .ok group
    | none => .error
        ⟨"hook group must be validation, critical or business", some (hookDetails hook)⟩

def RESERVED_WEBHOOK_HEADERS : List String :=
  ["flare-signature", "x-flare-signature", "x-hook-signature", "content-type"]

def isReservedWebhookHeader (name : String) : Bool :=
  RESERVED_WEBHOOK_HEADERS.any fun reserved => toAsciiLowercase name == toAsciiLowercase reserved

def HookTransportConfig.emptySecret : HookTransportConfig → Bool
  | .webhook _ (some secret) _ => secret == ""
  | _ => false

def HookTransportConfig.reservedHeader : HookTransportConfig → Option String
  | .webhook _ _ headers => (headers.map Prod.fst).find? isReservedWebhookHeader
  | _ => none

def checkHeaders (hook : HookConfigItem) : Except ConfigError Unit :=
  match hook.transport.reservedHeader with
  | none => .ok ()
  | some header => .error
      ⟨"Webhook header " ++ header ++ " is reserved: custom headers cannot set Content-Type, " ++
        "Flare-Signature, x-flare-signature or X-Hook-Signature", some (hookDetails hook)⟩

def checkHook (hook : HookConfigItem) : Except ConfigError Unit := do
  Fallible.refuseIf (hook.transport.emptySecret = true)
    ⟨"Webhook signing secret is empty: omit \x60secret\x60 to send unsigned, or set a " ++
      "non-empty value", some (hookDetails hook)⟩
  checkHeaders hook
  Fallible.refuseIf (HookErrorPolicy.parse hook.errorPolicy = none)
    ⟨"Hook error_policy must be fail_fast, retry or ignore (case and underscores do not matter)",
      some (hookDetails hook)⟩
  Fallible.refuseIf (hook.name = "") { reason := "Hook name cannot be empty" }
  Fallible.refuseIf (hook.priority < 0 ∨ 1000 < hook.priority)
    { reason := "Hook priority must be between 0 and 1000" }
  Fallible.refuseIf (hook.timeoutMs = 0 ∨ 30000 < hook.timeoutMs)
    { reason := "Hook timeout must be between 1ms and 30000ms" }
  match hook.resolvedGroup with
  | .ok _ => .ok ()
  | .error _ => .error { reason := "Hook group must be validation, critical or business" }

def validate (config : HookConfig) : Except ConfigError Unit :=
  config.allHooks.forM checkHook

end Validation

end FlareIm.TenantHooks
