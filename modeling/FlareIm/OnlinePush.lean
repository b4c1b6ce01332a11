import FlareIm.Context
import FlareIm.Lib.Grouping

namespace FlareIm.OnlinePush

open Context Text

inductive PushTaskPayloadKind where
  | unspecified
  | message
  | event
  | notification
  | ack
  | custom
  | capability
  deriving DecidableEq

inductive PushStrategy where
  | allDevices

inductive ErrorCode where
  | invalidParameter
  | userOffline
  | serviceUnavailable
  | other (name : String)

structure FlareError where
  code : ErrorCode
  message : String

inductive ConsumerError where
  | deserialization (text : String)
  | deadLetter (text : String)

inductive MessageResult where
  | ack
  | nack
  | deadLetter
  deriving DecidableEq

-- A queue message, with the context rebuilt from its headers.
structure Message where
  ctx : Ctx
  payload : List UInt8
  deriving DecidableEq

structure PushTaskEnvelope where
  userId : String
  conversationId : String
  tenantId : String
  pushPayload : List UInt8
  payloadKind : Int
  deriving DecidableEq

structure ProtoMessage where
  serverId : String
  conversationId : String

structure PushMessageRequest (Options : Type) where
  userIds : List String
  messages : List ProtoMessage
  options : Option Options

-- The generated decoders. The requests other than messages are handed on unread.
structure Codec (Options Request : Type) where
  envelope : List UInt8 → Except String PushTaskEnvelope
  payloadKind : Int → Option PushTaskPayloadKind
  message : List UInt8 → Except String (PushMessageRequest Options)
  event : List UInt8 → Except String Request
  notification : List UInt8 → Except String Request
  ack : List UInt8 → Except String Request
  custom : List UInt8 → Except String Request
  capability : List UInt8 → Except String Request
  encodeOptions : Options → List UInt8

-- The calls of the gateway push port.
inductive PushCall (Options Request : Type) where
  | message (ctx : Ctx) (targetUserId : String) (strategy : PushStrategy)
      (push : PushMessageRequest Options)
  | event (ctx : Ctx) (targetUserId : String) (strategy : PushStrategy) (push : Request)
  | notification (ctx : Ctx) (targetUserId : String) (strategy : PushStrategy) (push : Request)
  | ack (ctx : Ctx) (targetUserId : String) (strategy : PushStrategy) (push : Request)
  | custom (ctx : Ctx) (targetUserId : String) (strategy : PushStrategy) (push : Request)
  | capability (ctx : Ctx) (push : Request)

structure DlqRecord where
  ctx : Ctx
  key : Option String
  payload : List UInt8

-- What the port and the dead-letter queue answer while a message is handled.
structure Answers (Options Request : Type) where
  push : PushCall Options Request → Except FlareError Unit
  publish : DlqRecord → Except String Unit

structure BatchEntry where
  index : Nat
  message : Message
  envelope : PushTaskEnvelope
  deriving DecidableEq

structure MessageBatchKey where
  tenantId : String
  userIds : List String
  options : List UInt8
  deriving DecidableEq

-- A group holds the entries its indices stand for. It is opened by its first entry.
structure MessageBatchGroup (Options : Type) where
  request : PushMessageRequest Options
  first : BatchEntry
  later : List BatchEntry

def MessageBatchGroup.entries {Options : Type} (group : MessageBatchGroup Options) :
    List BatchEntry :=
  group.first :: group.later

variable {Options Request : Type} (codec : Codec Options Request)
  (isRetryable : FlareError → Bool)

section Routing

def decodeTaskEnvelope (message : Message) : Except ConsumerError PushTaskEnvelope :=
  (codec.envelope message.payload).mapError fun e => .deserialization ("PushTaskEnvelope: " ++ e)

def payloadKind (envelope : PushTaskEnvelope) : PushTaskPayloadKind :=
  (codec.payloadKind envelope.payloadKind).getD .unspecified

-- Decoding a request of a task, with the request's name in the error.
def decodeRequest {Decoded : Type} (name : String) (decode : List UInt8 → Except String Decoded)
    (envelope : PushTaskEnvelope) : Except FlareError Decoded :=
  (decode envelope.pushPayload).mapError fun e =>
    ⟨.invalidParameter, "decode " ++ name ++ ": " ++ e⟩

def decodePushMessageRequest (envelope : PushTaskEnvelope) :
    Except FlareError (PushMessageRequest Options) :=
  decodeRequest "PushMessageRequest" codec.message envelope

-- The call of the port that a task asks for.
def pushCall (ctx : Ctx) (envelope : PushTaskEnvelope) (userId : String)
    (strategy : PushStrategy) : Except FlareError (PushCall Options Request) :=
  match payloadKind codec envelope with
  | .message => (decodePushMessageRequest codec envelope).map (.message ctx userId strategy)
  | .event => (decodeRequest "PushEventRequest" codec.event envelope).map
      (.event ctx userId strategy)
  | .notification => (decodeRequest "PushNotificationRequest" codec.notification envelope).map
      (.notification ctx userId strategy)
  | .ack => (decodeRequest "PushAckRequest" codec.ack envelope).map (.ack ctx userId strategy)
  | .custom => (decodeRequest "PushCustomRequest" codec.custom envelope).map
      (.custom ctx userId strategy)
  | .capability => (decodeRequest "PushCapabilityRequest" codec.capability envelope).map
      (.capability ctx)
  | .unspecified => .error ⟨.invalidParameter, "PushTaskPayloadKind unspecified"⟩

def routeByPayloadKind (answers : Answers Options Request) (ctx : Ctx)
    (envelope : PushTaskEnvelope) (userId : String) (strategy : PushStrategy) :
    Except FlareError Unit :=
  match pushCall codec ctx envelope userId strategy with
  | .error e => .error e
  | .ok call => answers.push call

def dlqRecord (message : Message) (envelope : PushTaskEnvelope) : DlqRecord :=
  ⟨message.ctx, some envelope.conversationId, message.payload⟩

-- What the dead-letter queue took, and the verdict.
def applyRouteResult (answers : Answers Options Request) (message : Message)
    (envelope : PushTaskEnvelope) :
    Except FlareError Unit → List DlqRecord × Except ConsumerError MessageResult
  | .ok () => ([], .ok .ack)
  | .error e =>
    if isRetryable e then ([], .ok .nack)
    else
      match answers.publish (dlqRecord message envelope) with
      | .error dlqErr => ([], .error (.deadLetter dlqErr))
      | .ok () => ([dlqRecord message envelope], .ok .ack)

def handle (answers : Answers Options Request) (message : Message) :
    Except ConsumerError MessageResult :=
  match decodeTaskEnvelope codec message with
  | .error e => .error e
  | .ok envelope =>
    (applyRouteResult isRetryable answers message envelope
      (routeByPayloadKind codec answers message.ctx envelope envelope.userId .allDevices)).2

end Routing

section Groups

def pushOptionsKey (options : Option Options) : List UInt8 :=
  (options.map codec.encodeOptions).getD []

-- The users a task is for, as the groups see it.
def taskUserIds (envelope : PushTaskEnvelope) (request : PushMessageRequest Options) :
    List String :=
  if isBlank envelope.userId then request.userIds.filter (!isBlank ·) else [envelope.userId]

-- The key and the request of a task that goes into a group.
def batchRequest (entry : BatchEntry) : Option (MessageBatchKey × PushMessageRequest Options) :=
  if payloadKind codec entry.envelope ≠ .message then none
  else if entry.envelope.tenantId = "" ∨ trim entry.envelope.tenantId ≠ entry.envelope.tenantId then
    none
  else
    match decodePushMessageRequest codec entry.envelope with
    | .error _ => none
    | .ok request =>
      let userIds := taskUserIds entry.envelope request
      if userIds = [] then none
      else
        some (⟨entry.envelope.tenantId, userIds, pushOptionsKey codec request.options⟩,
          { request with userIds := userIds })

def openGroup (pushed : BatchEntry × PushMessageRequest Options) : MessageBatchGroup Options :=
  ⟨pushed.2, pushed.1, []⟩

def joinGroup (group : MessageBatchGroup Options)
    (pushed : BatchEntry × PushMessageRequest Options) : MessageBatchGroup Options :=
  { group with
    request := { group.request with messages := group.request.messages ++ pushed.2.messages }
    later := group.later ++ [pushed.1] }

-- The groups, with their keys, and the indices of the entries in them.
def buildMessageGroups (entries : List BatchEntry) :
    List (MessageBatchKey × MessageBatchGroup Options) × List Nat :=
  entries.foldl
    (fun (groups, groupedIndices) entry =>
      match batchRequest codec entry with
      | none => (groups, groupedIndices)
      | some (key, request) =>
        (Grouping.place openGroup joinGroup key (entry, request) groups,
          groupedIndices ++ [entry.index]))
    ([], [])

def ackEntries (groupedIndices : List Nat) (entries : List BatchEntry) : List BatchEntry :=
  entries.filter fun entry =>
    entry.index ∉ groupedIndices ∧ payloadKind codec entry.envelope = .ack

end Groups

section Batch

-- An order in which the elements of any list may come.
structure Order (A : Type) where
  arrange : List A → List A
  perm : ∀ list, (arrange list).Perm list

def Order.kept (A : Type) : Order A where
  arrange list := list
  perm list := List.Perm.refl list

def Order.reversed (A : Type) : Order A where
  arrange list := list.reverse
  perm list := list.reverse_perm

-- What one push of a batch did: the entries it was made for, the call, if the port was asked, what
-- came of it, what the dead-letter queue took and the verdict.
structure Dispatched (Options Request : Type) where
  entries : List BatchEntry
  call : Option (PushCall Options Request)
  answer : Except FlareError Unit
  published : List DlqRecord
  verdict : Except ConsumerError MessageResult

-- Each push of a batch happens under the context of one entry, the answers are told by its index.
variable (answers : Nat → Answers Options Request)

-- The entries are put on the dead-letter queue one after the other, up to the first failure.
def publishEntries : List BatchEntry → List DlqRecord × Except ConsumerError MessageResult
  | [] => ([], .ok .ack)
  | entry :: rest =>
    match (answers entry.index).publish (dlqRecord entry.message entry.envelope) with
    | .error dlqErr => ([], .error (.deadLetter dlqErr))
    | .ok () =>
      let later := publishEntries rest
      (dlqRecord entry.message entry.envelope :: later.1, later.2)

def applyGroupRouteResult (entries : List BatchEntry) :
    Except FlareError Unit → List DlqRecord × Except ConsumerError MessageResult
  | .ok () => ([], .ok .ack)
  | .error e => if isRetryable e then ([], .ok .nack) else publishEntries answers entries

def groupCall (group : MessageBatchGroup Options) : PushCall Options Request :=
  .message group.first.message.ctx group.first.envelope.userId .allDevices group.request

def dispatchGroup (group : MessageBatchGroup Options) : Dispatched Options Request :=
  let answer := (answers group.first.index).push (groupCall group)
  let outcome := applyGroupRouteResult isRetryable answers group.entries answer
  ⟨group.entries, some (groupCall group), answer, outcome.1, outcome.2⟩

def dispatchEntry (entry : BatchEntry) : Dispatched Options Request :=
  let answer := routeByPayloadKind codec (answers entry.index) entry.message.ctx entry.envelope
    entry.envelope.userId .allDevices
  let outcome := applyRouteResult isRetryable (answers entry.index) entry.message entry.envelope
    answer
  ⟨[entry], (pushCall codec entry.message.ctx entry.envelope entry.envelope.userId
    .allDevices).toOption, answer, outcome.1, outcome.2⟩

def setResults (results : List MessageResult) (entries : List BatchEntry)
    (verdict : MessageResult) : List MessageResult :=
  entries.foldl (fun results entry => results.set entry.index verdict) results

-- Reading the results of pushes that ran at the same time: the first failure ends the batch.
def settle (results : List MessageResult) :
    List (Dispatched Options Request) → Except ConsumerError (List MessageResult)
  | [] => .ok results
  | done :: rest =>
    match done.verdict with
    | .error e => .error e
    | .ok verdict => settle (setResults results done.entries verdict) rest

-- The entries left are pushed one after the other, up to the first failure.
def routeRemaining (results : List MessageResult) :
    List BatchEntry → List (Dispatched Options Request) × Except ConsumerError (List MessageResult)
  | [] => ([], .ok results)
  | entry :: rest =>
    let done := dispatchEntry codec isRetryable answers entry
    match done.verdict with
    | .error e => ([done], .error e)
    | .ok verdict =>
      let later := routeRemaining (results.set entry.index verdict) rest
      (done :: later.1, later.2)

-- The orders a run is free to choose: in which the groups and the acks are pushed and in which
-- their results come in.
structure Schedule (Options Request : Type) where
  groups : Order (MessageBatchGroup Options)
  acks : Order BatchEntry
  finished : Order (Dispatched Options Request)

structure Run (Options Request : Type) where
  dispatched : List (Dispatched Options Request)
  outcome : Except ConsumerError (List MessageResult)

def decodeEntries (index : Nat) : List Message → Except ConsumerError (List BatchEntry)
  | [] => .ok []
  | message :: rest =>
    match decodeTaskEnvelope codec message with
    | .error e => .error e
    | .ok envelope =>
      match decodeEntries (index + 1) rest with
      | .error e => .error e
      | .ok entries => .ok (⟨index, message, envelope⟩ :: entries)

def remainingEntries (groupedIndices : List Nat) (acks : List (Dispatched Options Request))
    (entries : List BatchEntry) : List BatchEntry :=
  entries.filter fun entry =>
    entry.index ∉ groupedIndices ∧ entry.index ∉ (acks.flatMap (·.entries)).map (·.index)

def handleEntries (schedule : Schedule Options Request) (entries : List BatchEntry) :
    Run Options Request :=
  let results := List.replicate entries.length .nack
  let (groups, groupedIndices) := buildMessageGroups codec entries
  let groupsDone := (schedule.groups.arrange (groups.map (·.2))).map
    (dispatchGroup isRetryable answers)
  match settle results (schedule.finished.arrange groupsDone) with
  | .error e => ⟨groupsDone, .error e⟩
  | .ok results =>
    let acksDone := (schedule.acks.arrange (ackEntries codec groupedIndices entries)).map
      (dispatchEntry codec isRetryable answers)
    match settle results (schedule.finished.arrange acksDone) with
    | .error e => ⟨groupsDone ++ acksDone, .error e⟩
    | .ok results =>
      let (rest, outcome) := routeRemaining codec isRetryable answers results
        (remainingEntries groupedIndices acksDone entries)
      ⟨groupsDone ++ acksDone ++ rest, outcome⟩

def handleBatch (schedule : Schedule Options Request) (messages : List Message) :
    Run Options Request :=
  match decodeEntries codec 0 messages with
  | .error e => ⟨[], .error e⟩
  | .ok entries => handleEntries codec isRetryable answers schedule entries

end Batch

end FlareIm.OnlinePush
