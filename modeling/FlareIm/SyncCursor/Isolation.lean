import Mathlib.Data.List.Dedup
import FlareIm.SyncCursor.Theorems

namespace FlareIm.SyncCursor

open Text EventRow Transition

variable {actions : List (CallId × Action)} {last : State}

section Calls

abbrev CacheKey := String × String

-- The user and the conversation a call is for.
def Action.key : Action → Option CacheKey
  | .getSyncCursor userId request _ => some (userId, request.conversationId)
  | .updateSyncCursor userId request =>
    request.cursor.map fun cursor => (userId, cursor.conversationId)
  | _ => none

def Call.key : Call → CacheKey
  | .asking userId request _ => (userId, request.conversationId)
  | .filling userId cursor _ => (userId, cursor.conversationId)
  | .writing userId _ merged | .putting userId _ merged => (userId, merged.conversationId)

def ofTenant (tenant : String) (actions : List (CallId × Action)) : List (CallId × Action) :=
  actions.filter fun taken => taken.1.1 = tenant

def responsesOf (tenant : String) (state : State) : List (CallId × Response) :=
  state.responses.filter fun answered => answered.1.1 = tenant

-- The calls of other tenants are for other users or conversations than those of this tenant, and
-- the cache has room for all of them.
structure Separate (capacity : Nat) (tenant : String) (actions : List (CallId × Action)) : Prop where
  apart : ∀ taken ∈ actions, taken.1.1 = tenant → ∀ other ∈ actions, other.1.1 ≠ tenant →
    ∀ key, taken.2.key = some key → other.2.key ≠ some key
  fits : (actions.filterMap (·.2.key)).dedup.length ≤ max capacity 1

-- Two runs that differ only in the calls of other tenants answer a tenant's calls alike.
def Isolated (capacity : Nat) (ok : Nat → String → List (CallId × Action) → Prop) : Prop :=
  ∀ rows tenant first second last last',
    Run step anyStep (start capacity rows) first last →
    Run step anyStep (start capacity rows) second last' →
    ofTenant tenant first = ofTenant tenant second →
    ok capacity tenant first → ok capacity tenant second →
    responsesOf tenant last = responsesOf tenant last'

end Calls

section View

variable {tenant : String} {own all : List CacheKey} {state solo next : State} {id : CallId}

-- What the calls of a tenant see of a state is what they see of the other one, in which the
-- tenant is alone.
structure View (tenant : String) (own all : List CacheKey) (state solo : State) : Prop where
  rows : ∀ key, key.1 = tenant → state.rows key = solo.rows key
  calls : ∀ id, id.1 = tenant → state.calls id = solo.calls id
  cache : ∀ key ∈ own, state.cache.get key = solo.cache.get key
  responses : responsesOf tenant state = responsesOf tenant solo
  within : FifoMap.Within all state.cache
  soloWithin : FifoMap.Within all solo.cache
  ownKeys : ∀ id call, id.1 = tenant → state.calls id = some call → call.key ∈ own
  otherKeys : ∀ id call, id.1 ≠ tenant → state.calls id = some call →
    call.key ∈ all ∧ call.key ∉ own

theorem View.respond (h : View tenant own all state solo) (hid : id.1 = tenant)
    (response : Response) :
    View tenant own all (state.respond id response) (solo.respond id response) := by
  refine ⟨h.rows, ?_, h.cache, ?_, h.within, h.soloWithin, ?_, ?_⟩
  · intro other ho
    by_cases hs : other = id
    · subst hs
      simp [State.respond]
    · simp only [State.respond, Function.update_of_ne hs]
      exact h.calls other ho
  · have hr := h.responses
    unfold responsesOf at hr ⊢
    simp only [State.respond, List.filter_cons, hid, decide_true, if_true, hr]
  · intro other call ho hc
    by_cases hs : other = id
    · subst hs
      simp [State.respond] at hc
    · simp only [State.respond, Function.update_of_ne hs] at hc
      exact h.ownKeys other call ho hc
  · intro other call ho hc
    have hne : other ≠ id := fun hs => ho (hs ▸ hid)
    simp only [State.respond, Function.update_of_ne hne] at hc
    exact h.otherKeys other call ho hc

theorem View.proceed (h : View tenant own all state solo) (hid : id.1 = tenant) {call : Call}
    (hk : call.key ∈ own) : View tenant own all (state.proceed id call) (solo.proceed id call) := by
  refine ⟨h.rows, ?_, h.cache, h.responses, h.within, h.soloWithin, ?_, ?_⟩
  · intro other ho
    by_cases hs : other = id
    · subst hs
      simp [State.proceed]
    · simp only [State.proceed, Function.update_of_ne hs]
      exact h.calls other ho
  · intro other found ho hf
    by_cases hs : other = id
    · subst hs
      simp only [State.proceed, Function.update_self, Option.some.injEq] at hf
      exact hf ▸ hk
    · simp only [State.proceed, Function.update_of_ne hs] at hf
      exact h.ownKeys other found ho hf
  · intro other found ho hf
    have hne : other ≠ id := fun hs => ho (hs ▸ hid)
    simp only [State.proceed, Function.update_of_ne hne] at hf
    exact h.otherKeys other found ho hf

theorem View.put (h : View tenant own all state solo) {key : CacheKey} (hon : key ∈ own)
    (ha : ∀ key ∈ own, key ∈ all) (cursor : MultiDeviceCursor) :
    View tenant own all { state with cache := state.cache.insert key cursor }
      { solo with cache := solo.cache.insert key cursor } := by
  refine ⟨h.rows, h.calls, ?_, h.responses, h.within.insert (ha key hon) cursor,
    h.soloWithin.insert (ha key hon) cursor, h.ownKeys, h.otherKeys⟩
  intro other ho
  by_cases hs : other = key
  · subst hs
    rw [FifoMap.get_insert_self, FifoMap.get_insert_self]
  · rw [h.within.get_insert_of_ne (ha key hon) hs, h.soloWithin.get_insert_of_ne (ha key hon) hs]
    exact h.cache other ho

theorem View.write (h : View tenant own all state solo) (key : RowKey) (row : CursorRow) :
    View tenant own all { state with rows := Function.update state.rows key (some row) }
      { solo with rows := Function.update solo.rows key (some row) } := by
  refine ⟨?_, h.calls, h.cache, h.responses, h.within, h.soloWithin, h.ownKeys, h.otherKeys⟩
  intro other ho
  by_cases hs : other = key
  · subst hs
    simp only [Function.update_self]
  · simp only [Function.update_of_ne hs]
    exact h.rows other ho

theorem View.respond_other (h : View tenant own all state solo) (hid : id.1 ≠ tenant)
    (response : Response) : View tenant own all (state.respond id response) solo := by
  have hne (other : CallId) (ho : other.1 = tenant) : other ≠ id :=
    fun hs => hid (hs ▸ ho)
  refine ⟨h.rows, ?_, h.cache, ?_, h.within, h.soloWithin, ?_, ?_⟩
  · intro other ho
    simp only [State.respond, Function.update_of_ne (hne other ho)]
    exact h.calls other ho
  · have hr := h.responses
    unfold responsesOf at hr ⊢
    simp only [State.respond, List.filter_cons, hid, decide_false, Bool.false_eq_true, if_false, hr]
  · intro other call ho hc
    simp only [State.respond, Function.update_of_ne (hne other ho)] at hc
    exact h.ownKeys other call ho hc
  · intro other call ho hc
    by_cases hs : other = id
    · subst hs
      simp [State.respond] at hc
    · simp only [State.respond, Function.update_of_ne hs] at hc
      exact h.otherKeys other call ho hc

theorem View.proceed_other (h : View tenant own all state solo) (hid : id.1 ≠ tenant)
    {call : Call} (hk : call.key ∈ all ∧ call.key ∉ own) :
    View tenant own all (state.proceed id call) solo := by
  have hne (other : CallId) (ho : other.1 = tenant) : other ≠ id :=
    fun hs => hid (hs ▸ ho)
  refine ⟨h.rows, ?_, h.cache, h.responses, h.within, h.soloWithin, ?_, ?_⟩
  · intro other ho
    simp only [State.proceed, Function.update_of_ne (hne other ho)]
    exact h.calls other ho
  · intro other found ho hf
    simp only [State.proceed, Function.update_of_ne (hne other ho)] at hf
    exact h.ownKeys other found ho hf
  · intro other found ho hf
    by_cases hs : other = id
    · subst hs
      simp only [State.proceed, Function.update_self, Option.some.injEq] at hf
      exact hf ▸ hk
    · simp only [State.proceed, Function.update_of_ne hs] at hf
      exact h.otherKeys other found ho hf

theorem View.put_other (h : View tenant own all state solo) {key : CacheKey}
    (hk : key ∈ all ∧ key ∉ own) (cursor : MultiDeviceCursor) :
    View tenant own all { state with cache := state.cache.insert key cursor } solo := by
  refine ⟨h.rows, h.calls, ?_, h.responses, h.within.insert hk.1 cursor, h.soloWithin,
    h.ownKeys, h.otherKeys⟩
  intro other ho
  have hne : other ≠ key := fun hs => hk.2 (hs ▸ ho)
  rw [h.within.get_insert_of_ne hk.1 hne]
  exact h.cache other ho

theorem View.write_other (h : View tenant own all state solo) {key : RowKey}
    (hk : key.1 ≠ tenant) (row : CursorRow) :
    View tenant own all { state with rows := Function.update state.rows key (some row) } solo := by
  refine ⟨?_, h.calls, h.cache, h.responses, h.within, h.soloWithin, h.ownKeys, h.otherKeys⟩
  intro other ho
  have hne : other ≠ key := fun hs => hk (hs ▸ ho)
  simp only [Function.update_of_ne hne]
  exact h.rows other ho

end View

section Steps

variable {tenant : String} {own all : List CacheKey} {state solo next : State} {id : CallId}
  {action : Action}

theorem bootstrapCursor_conversationId {request : GetSyncCursorSync} {row : Option CursorRow}
    {summary : Option ConversationSummary} {cursor : MultiDeviceCursor}
    (h : bootstrapCursor request row summary = some cursor) :
    cursor.conversationId = request.conversationId := by
  obtain ⟨seq, -, rfl⟩ := Option.map_eq_some_iff.mp h
  rfl

theorem View.step_other (h : View tenant own all state solo) (hid : id.1 ≠ tenant)
    (hk : ∀ key, action.key = some key → key ∈ all ∧ key ∉ own)
    (hs : step state (id, action) = some next) : View tenant own all next solo := by
  cases step_moves hs with
  | idle => exact h
  | blankGet userId request changes | hit userId request changes cursor
  | refuse userId request response | unlisted summary answered response
  | unwritten now outcome => exact h.respond_other hid _
  | miss userId request changes => exact h.proceed_other hid (hk _ rfl)
  | merge userId request cursor hcu =>
    exact h.proceed_other hid (hk _ (by rw [Action.key, hcu]; rfl))
  | listed summary answered userId request hin cursor hc hcu =>
    have hca := h.otherKeys id _ hid hc
    refine h.proceed_other hid ?_
    rw [Call.key, bootstrapCursor_conversationId hcu]
    exact hca
  | write now outcome userId previous merged row written next hc hr hw hn =>
    have hv : View tenant own all written solo := hw ▸ h.write_other hid row
    have hca := h.otherKeys id _ hid hc
    rcases hn with rfl | rfl
    · exact hv.proceed_other hid hca
    · exact hv.respond_other hid _
  | fill userId cursor hin hc =>
    exact (h.put_other (h.otherKeys id _ hid hc) cursor).respond_other hid _
  | put userId previous merged hc =>
    exact (h.put_other (h.otherKeys id _ hid hc) merged).respond_other hid _

theorem View.step_own_get (h : View tenant own all state solo) (hid : id.1 = tenant)
    {userId : String} {request : GetSyncCursorSync} {changes : Option (List ConversationVersion)}
    (hk : (userId, request.conversationId) ∈ own)
    (hs : step state (id, .getSyncCursor userId request changes) = some next) :
    ∃ soloNext, step solo (id, .getSyncCursor userId request changes) = some soloNext ∧
      View tenant own all next soloNext := by
  have hca := h.calls id hid
  have hr (response : Response) := h.respond hid response
  have hp {call : Call} (ho : call.key ∈ own) := View.proceed h hid ho
  have hcc := h.cache _ (hk)
  cases hc : state.calls id with
  | some call => simp [step, hc] at hs
  | none =>
    cases hb : isBlank request.conversationId with
    | true =>
      simp only [step, hc, ← hca, hb, if_true] at hs ⊢
      exact ⟨_, rfl, Option.some.inj hs ▸ hr _⟩
    | false =>
      simp only [step, hc, ← hca, hb, Bool.false_eq_true, if_false, ← hcc] at hs ⊢
      cases hget : state.cache.get (userId, request.conversationId) with
      | some cursor =>
        simp only [hget] at hs
        exact ⟨_, rfl, Option.some.inj hs ▸ hr _⟩
      | none =>
        simp only [hget] at hs
        exact ⟨_, rfl, Option.some.inj hs ▸ hp (hk)⟩

theorem View.step_own_update (h : View tenant own all state solo) (hid : id.1 = tenant)
    {userId : String} {request : UpdateSyncCursorSync}
    (hk : ∀ key, (Action.updateSyncCursor userId request).key = some key → key ∈ own)
    (hs : step state (id, .updateSyncCursor userId request) = some next) :
    ∃ soloNext, step solo (id, .updateSyncCursor userId request) = some soloNext ∧
      View tenant own all next soloNext := by
  have hca := h.calls id hid
  have hr (response : Response) := h.respond hid response
  have hp {call : Call} (ho : call.key ∈ own) := View.proceed h hid ho
  cases hc : state.calls id with
  | some call => simp [step, hc] at hs
  | none =>
    cases hcu : request.cursor with
    | none =>
      simp only [step, hc, ← hca, hcu] at hs ⊢
      exact ⟨_, rfl, Option.some.inj hs ▸ hr _⟩
    | some cursor =>
      have ho := hk (userId, cursor.conversationId) (by rw [Action.key, hcu]; rfl)
      have hcc := h.cache _ ho
      cases hb : isBlank cursor.conversationId with
      | true =>
        simp only [step, hc, ← hca, hcu, hb, if_true] at hs ⊢
        exact ⟨_, rfl, Option.some.inj hs ▸ hr _⟩
      | false =>
        simp only [step, hc, ← hca, hcu, hb, Bool.false_eq_true, if_false, ← hcc] at hs ⊢
        exact ⟨_, rfl, Option.some.inj hs ▸ hp ho⟩

theorem View.step_own_bootstrap (h : View tenant own all state solo) (hid : id.1 = tenant)
    {summary : Option ConversationSummary} {answered : Bool}
    (hs : step state (id, .bootstrap summary answered) = some next) :
    ∃ soloNext, step solo (id, .bootstrap summary answered) = some soloNext ∧
      View tenant own all next soloNext := by
  have hca := h.calls id hid
  have hre (response : Response) := h.respond hid response
  have hp {call : Call} (ho : call.key ∈ own) := View.proceed h hid ho
  cases hc : state.calls id with
  | none =>
    simp only [step, hc, ← hca] at hs ⊢
    exact ⟨_, rfl, Option.some.inj hs ▸ h⟩
  | some call =>
    cases call with
    | asking userId request hin =>
      have hr := h.rows (id.1, userId, request.conversationId) hid
      cases answered with
      | false =>
        simp only [step, hc, ← hca] at hs ⊢
        exact ⟨_, rfl, Option.some.inj hs ▸ hre _⟩
      | true =>
        simp only [step, hc, ← hca, ← hr, Bool.not_true, Bool.false_eq_true, if_false] at hs ⊢
        cases hcu : bootstrapCursor request
          (state.rows (id.1, userId, request.conversationId)) summary with
        | none =>
          simp only [hcu] at hs
          exact ⟨_, rfl, Option.some.inj hs ▸ hre _⟩
        | some cursor =>
          simp only [hcu] at hs
          have ho : (Call.filling userId cursor hin).key ∈ own := by
            rw [Call.key, bootstrapCursor_conversationId hcu]
            exact h.ownKeys id _ hid hc
          exact ⟨_, rfl, Option.some.inj hs ▸ hp ho⟩
    | filling | writing | putting =>
      simp only [step, hc, ← hca] at hs ⊢
      exact ⟨_, rfl, Option.some.inj hs ▸ h⟩

theorem View.step_own_write (h : View tenant own all state solo) (hid : id.1 = tenant)
    {now : Int} {outcome : Outcome}
    (hs : step state (id, .write now outcome) = some next) :
    ∃ soloNext, step solo (id, .write now outcome) = some soloNext ∧
      View tenant own all next soloNext := by
  have hca := h.calls id hid
  have hre (response : Response) := h.respond hid response
  cases hc : state.calls id with
  | none =>
    simp only [step, hc, ← hca] at hs ⊢
    exact ⟨_, rfl, Option.some.inj hs ▸ h⟩
  | some call =>
    cases call with
    | writing userId previous merged =>
      have ho := h.ownKeys id _ hid hc
      have hr := h.rows (id.1, userId, merged.conversationId) hid
      have hw := h.write (id.1, userId, merged.conversationId)
        (updatedRow merged.conversationId (state.rows (id.1, userId, merged.conversationId))
          (asI64 merged.lastConversationSeq) now)
      simp only [step, hc, ← hca, ← hr] at hs ⊢
      cases outcome with
      | answered => exact ⟨_, rfl, Option.some.inj hs ▸ hw.proceed hid ho⟩
      | lost => exact ⟨_, rfl, Option.some.inj hs ▸ hw.respond hid _⟩
      | refused => exact ⟨_, rfl, Option.some.inj hs ▸ hre _⟩
    | asking | filling | putting =>
      simp only [step, hc, ← hca] at hs ⊢
      exact ⟨_, rfl, Option.some.inj hs ▸ h⟩

theorem View.step_own_put (h : View tenant own all state solo) (hid : id.1 = tenant)
    (ha : ∀ key ∈ own, key ∈ all) (hs : step state (id, .put) = some next) :
    ∃ soloNext, step solo (id, .put) = some soloNext ∧ View tenant own all next soloNext := by
  have hca := h.calls id hid
  cases hc : state.calls id with
  | none =>
    simp only [step, hc, ← hca] at hs ⊢
    exact ⟨_, rfl, Option.some.inj hs ▸ h⟩
  | some call =>
    cases call with
    | filling userId cursor hin =>
      have hp := h.put (h.ownKeys id _ hid hc) ha cursor
      simp only [step, hc, ← hca] at hs ⊢
      exact ⟨_, rfl, Option.some.inj hs ▸ hp.respond hid _⟩
    | putting userId previous merged =>
      have hp := h.put (h.ownKeys id _ hid hc) ha merged
      simp only [step, hc, ← hca] at hs ⊢
      exact ⟨_, rfl, Option.some.inj hs ▸ hp.respond hid _⟩
    | asking | writing =>
      simp only [step, hc, ← hca] at hs ⊢
      exact ⟨_, rfl, Option.some.inj hs ▸ h⟩

theorem View.step_own (h : View tenant own all state solo) (hid : id.1 = tenant)
    (hk : ∀ key, action.key = some key → key ∈ own) (ha : ∀ key ∈ own, key ∈ all)
    (hs : step state (id, action) = some next) :
    ∃ soloNext, step solo (id, action) = some soloNext ∧ View tenant own all next soloNext := by
  cases action with
  | getSyncCursor userId request changes => exact h.step_own_get hid (hk _ rfl) hs
  | updateSyncCursor userId request => exact h.step_own_update hid hk hs
  | bootstrap summary answered => exact h.step_own_bootstrap hid hs
  | write now outcome => exact h.step_own_write hid hs
  | put => exact h.step_own_put hid ha hs

theorem View.run (ha : ∀ key ∈ own, key ∈ all)
    (hown : ∀ taken ∈ actions, taken.1.1 = tenant → ∀ key, taken.2.key = some key → key ∈ own)
    (ho : ∀ taken ∈ actions, taken.1.1 ≠ tenant → ∀ key, taken.2.key = some key →
      key ∈ all ∧ key ∉ own)
    (h : View tenant own all state solo) (hr : Run step anyStep state actions last) :
    ∃ soloLast, Run step anyStep solo (ofTenant tenant actions) soloLast ∧
      View tenant own all last soloLast := by
  induction hr generalizing solo with
  | nil => exact ⟨solo, .nil solo, h⟩
  | @cons state middle last taken rest hok hs hre ih =>
    have hon := fun other hm => hown other (List.mem_cons_of_mem _ hm)
    have hoh := fun other hm => ho other (List.mem_cons_of_mem _ hm)
    by_cases hid : taken.1.1 = tenant
    · obtain ⟨soloMiddle, hsl, hv⟩ :=
        h.step_own hid (hown taken List.mem_cons_self hid) ha hs
      obtain ⟨soloLast, hso, hl⟩ := ih hon hoh hv
      refine ⟨soloLast, ?_, hl⟩
      rw [ofTenant, List.filter_cons, if_pos (by simpa using hid)]
      exact .cons trivial hsl hso
    · have hv := h.step_other hid (ho taken List.mem_cons_self hid) hs
      obtain ⟨soloLast, hso, hl⟩ := ih hon hoh hv
      refine ⟨soloLast, ?_, hl⟩
      rw [ofTenant, List.filter_cons, if_neg (by simpa using hid)]
      exact hso

theorem run_deterministic {last' : State}
    (hr : Run step anyStep state actions last) (hr' : Run step anyStep state actions last') :
    last = last' := by
  induction hr with
  | nil =>
    cases hr'
    rfl
  | cons hok hs hre ih =>
    cases hr' with
    | cons hok' hs' hre' =>
      rw [hs] at hs'
      cases hs'
      exact ih hre'

theorem view_start {capacity : Nat} {rows : Rows} (hf : all.length ≤ max capacity 1) :
    View tenant own all (start capacity rows) (start capacity rows) where
  rows _ _ := rfl
  calls _ _ := rfl
  cache _ _ := rfl
  responses := rfl
  within := FifoMap.within_empty hf
  soloWithin := FifoMap.within_empty hf
  ownKeys _ _ _ h := absurd h (by simp [start])
  otherKeys _ _ _ h := absurd h (by simp [start])

theorem Separate.responses {capacity : Nat} {rows : Rows} (h : Separate capacity tenant actions)
    (hr : Run step anyStep (start capacity rows) actions last) :
    ∃ soloLast, Run step anyStep (start capacity rows) (ofTenant tenant actions) soloLast ∧
      responsesOf tenant last = responsesOf tenant soloLast := by
  let all := (actions.filterMap (·.2.key)).dedup
  let own := (ofTenant tenant actions).filterMap (·.2.key)
  have hm (taken : CallId × Action) (hta : taken ∈ actions) (key : CacheKey)
      (hk : taken.2.key = some key) : key ∈ all :=
    List.mem_dedup.mpr (List.mem_filterMap.mpr ⟨taken, hta, hk⟩)
  have hon (key : CacheKey) (hk : key ∈ own) :
      ∃ taken ∈ actions, taken.1.1 = tenant ∧ taken.2.key = some key := by
    obtain ⟨taken, hta, hs⟩ := List.mem_filterMap.mp hk
    obtain ⟨ha, ht⟩ := List.mem_filter.mp hta
    exact ⟨taken, ha, by simpa using ht, hs⟩
  have hv : View tenant own all (start capacity rows) (start capacity rows) :=
    view_start h.fits
  have hal : ∀ key ∈ own, key ∈ all := by
    intro key hk
    obtain ⟨taken, hta, -, hs⟩ := hon key hk
    exact hm taken hta key hs
  have hown : ∀ taken ∈ actions, taken.1.1 = tenant → ∀ key, taken.2.key = some key →
      key ∈ own := by
    intro taken hta ht key hs
    refine List.mem_filterMap.mpr ⟨taken, List.mem_filter.mpr ⟨hta, ?_⟩, hs⟩
    simpa using ht
  have ho : ∀ taken ∈ actions, taken.1.1 ≠ tenant → ∀ key, taken.2.key = some key →
      key ∈ all ∧ key ∉ own := by
    intro taken hta ht key hs
    refine ⟨hm taken hta key hs, fun hk => ?_⟩
    obtain ⟨mine, hmi, hmy, hmk⟩ := hon key hk
    exact h.apart mine hmi hmy taken hta ht key hmk hs
  obtain ⟨soloLast, hso, hl⟩ := View.run hal hown ho hv hr
  exact ⟨soloLast, hso, hl.responses⟩

theorem isolated_separate (capacity : Nat) : Isolated capacity Separate := by
  intro rows tenant first second last last' hfirst hsecond hsame hsep hsep'
  obtain ⟨soloFirst, hsoloFirst, hresponses⟩ := hsep.responses hfirst
  obtain ⟨soloSecond, hsoloSecond, hresponses'⟩ := hsep'.responses hsecond
  rw [hsame] at hsoloFirst
  rw [hresponses, hresponses', run_deterministic hsoloFirst hsoloSecond]

def getCursor : Action := .getSyncCursor "alice" { conversationId := "c1" } none

-- A user of another tenant has the same name, and a conversation of the same name.
def othersUpdate : List (CallId × Action) :=
  [(("other", 1), update "phone" 7), (("other", 1), .write (2 * 10 ^ 12) .answered),
    (("other", 1), .put)]

theorem same_name_sees_cursor : ¬ ∀ capacity, Isolated capacity fun _ _ _ => True := by
  intro h
  let own : List (CallId × Action) := [(("acme", 1), getCursor), (("acme", 1), .bootstrap none true)]
  obtain ⟨last, hrun, hresponses⟩ : ∃ last,
      execute step anyStep (start 1 fun _ => none) own = some last ∧
      responsesOf "acme" last = [(("acme", 1), .got none none)] := ⟨_, rfl, rfl⟩
  obtain ⟨last', hrun', hresponses'⟩ : ∃ last',
      execute step anyStep (start 1 fun _ => none) (othersUpdate ++ own) = some last' ∧
      responsesOf "acme" last' ≠ [(("acme", 1), .got none none)] :=
    ⟨_, rfl, by decide⟩
  have hsame := h 1 (fun _ => none) "acme" own (othersUpdate ++ own) last last'
    (run_of_execute hrun) (run_of_execute hrun') rfl trivial trivial
  exact hresponses' (hsame.symm.trans hresponses)

end Steps

end FlareIm.SyncCursor
