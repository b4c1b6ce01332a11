import FlareIm.Context
import FlareIm.Proto

namespace FlareIm.EventValidation

open Context Proto

variable {ctx : Ctx} {event : Event}

-- A strategy answers with its errors, none of them when the event is valid.
abbrev Strategy := Ctx → Event → List String

def allSupported : List EventType :=
  [.eventMessage, .eventMessageRecall, .eventMessageEdit, .eventMessageDelete, .eventReadReceipt,
    .eventConversationUpdate, .eventConversationDelete, .eventReaction, .eventPin, .eventUnpin,
    .eventMark, .eventUnmark, .eventMessageRetentionScheduled, .eventMessageRetentionExpired,
    .eventMessageRetentionPurged, .eventCustom, .eventMessagePluginState]

def debugName : EventType → String
  | .unspecified => "Unspecified"
  | .eventMessage => "EventMessage"
  | .eventMessageRecall => "EventMessageRecall"
  | .eventMessageEdit => "EventMessageEdit"
  | .eventMessageDelete => "EventMessageDelete"
  | .eventReadReceipt => "EventReadReceipt"
  | .eventConversationUpdate => "EventConversationUpdate"
  | .eventConversationDelete => "EventConversationDelete"
  | .eventReaction => "EventReaction"
  | .eventPin => "EventPin"
  | .eventUnpin => "EventUnpin"
  | .eventMark => "EventMark"
  | .eventUnmark => "EventUnmark"
  | .eventMessageRetentionScheduled => "EventMessageRetentionScheduled"
  | .eventMessageRetentionExpired => "EventMessageRetentionExpired"
  | .eventMessageRetentionPurged => "EventMessageRetentionPurged"
  | .eventCustom => "EventCustom"
  | .eventMessagePluginState => "EventMessagePluginState"

def eventTypeStrategy : Strategy := fun _ event =>
  match event.type with
  | .known type =>
    if type ∈ allSupported then [] else ["Event type " ++ debugName type ++ " is not allowed"]
  | .unknown code => ["Invalid event type: " ++ toString code]

def requiredFieldsStrategy : Strategy := fun _ event =>
  (if event.conversationId = "" then ["conversation_id is required for event"] else []) ++
    if event.eventId = "" then ["event_id is required for event"] else []

def MAX_PLUGIN_STATE_VALUES_BYTES : Nat := 8 * 1024

def isEntityChar (c : Char) : Bool :=
  ('a' ≤ c && c ≤ 'z') || ('A' ≤ c && c ≤ 'Z') || ('0' ≤ c && c ≤ '9') || c == '.' || c == '_' ||
    c == '-' || c == ':'

def entityOk (entity : String) : Bool :=
  entity != "" && entity.utf8ByteSize ≤ 128 && entity.toList.all isEntityChar

def pluginStateOk (state : PluginStateEvent) : Bool :=
  state.serverMsgId != "" && state.pluginId != "" && state.pluginId.utf8ByteSize ≤ 128 &&
    entityOk state.entity && state.version != 0 && state.version ≤ 2 ^ 63 - 1 &&
    state.valuesJson.utf8ByteSize ≤ MAX_PLUGIN_STATE_VALUES_BYTES

-- Plugin state comes from its publisher only, and its type and payload go together.
def pluginStateStrategy : Strategy := fun ctx event =>
  let isPluginState := event.type == .known .eventMessagePluginState
  let fromSystem := ctx.claims.any isPluginStatePublisher
  match event.payload, isPluginState with
  | some (.pluginState state), true =>
    if !fromSystem then ["plugin state is published by the system only"]
    else if pluginStateOk state then []
    else ["invalid plugin state event"]
  | some (.pluginState _), false => ["plugin state type and payload disagree"]
  | _, true => ["plugin state type and payload disagree"]
  | _, false => []

def defaultComposite : List Strategy :=
  [eventTypeStrategy, requiredFieldsStrategy, pluginStateStrategy]

-- The first strategy with an error ends the validation.
def runStrategies (ctx : Ctx) (event : Event) : List Strategy → List String
  | [] => []
  | strategy :: rest =>
    match strategy ctx event with
    | [] => runStrategies ctx event rest
    | errors => errors

def validateEvent (ctx : Ctx) (event : Event) : List String :=
  runStrategies ctx event defaultComposite

theorem runStrategies_eq_nil {strategies : List Strategy} :
    runStrategies ctx event strategies = [] ↔ ∀ strategy ∈ strategies, strategy ctx event = [] := by
  induction strategies with
  | nil => simp [runStrategies]
  | cons strategy rest ih =>
    cases h : strategy ctx event with
    | nil => simp [runStrategies, h, ih]
    | cons error errors => simp [runStrategies, h]

theorem validateEvent_eq_nil :
    validateEvent ctx event = [] ↔ eventTypeStrategy ctx event = [] ∧
      requiredFieldsStrategy ctx event = [] ∧ pluginStateStrategy ctx event = [] := by
  simp [validateEvent, runStrategies_eq_nil, defaultComposite]

theorem validateEvent_known (h : validateEvent ctx event = []) :
    ∃ type, event.type = .known type ∧ event.conversationId ≠ "" := by
  obtain ⟨ht, hf, -⟩ := validateEvent_eq_nil.mp h
  have hc : event.conversationId ≠ "" := by
    intro hem
    simp [requiredFieldsStrategy, hem] at hf
  unfold eventTypeStrategy at ht
  split at ht
  · rename_i type hk
    exact ⟨type, hk, hc⟩
  · cases ht

theorem pluginStateStrategy_eq_nil (h : pluginStateStrategy ctx event = []) :
    (event.type = .known .eventMessagePluginState ↔
      ∃ state, event.payload = some (.pluginState state)) ∧
      (event.type = .known .eventMessagePluginState →
        ∃ claims, ctx.claims = some claims ∧ isPluginStatePublisher claims = true) := by
  unfold pluginStateStrategy at h
  dsimp only at h
  split at h
  · rename_i state hp ht
    split at h
    · cases h
    · rename_i hs
      have hc : ∃ claims, ctx.claims = some claims ∧ isPluginStatePublisher claims = true := by
        simpa [Option.any_eq_true] using hs
      exact ⟨⟨fun _ => ⟨state, hp⟩, fun _ => by simpa using ht⟩, fun _ => hc⟩
  · cases h
  · cases h
  · rename_i ht hp
    have hne : event.type ≠ .known .eventMessagePluginState := by simpa using ht
    refine ⟨⟨fun heq => absurd heq hne, ?_⟩, fun heq => absurd heq hne⟩
    rintro ⟨state, hst⟩
    exact absurd hst (hp state)

end FlareIm.EventValidation
