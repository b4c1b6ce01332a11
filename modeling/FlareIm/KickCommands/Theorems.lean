import FlareIm.KickCommands

namespace FlareIm.KickCommands

open RoundTrip SessionStore Transition

variable {state next : State} {action : Action} {call task id eventId : Nat}
variable {opens : String → String → Prop}

section Invariants

def State.Issued (state : State) (id : Nat) (target : Target) : Prop :=
  ∃ command, state.commands id = some command ∧ command.target = target

def State.Completed (state : State) (id : Nat) : Prop :=
  (state.progress id).completedAt.isSome

def Phase.Sound (state : State) : Phase → Prop
  | .idle | .finished _ => True
  | .publishing id target | .polling id target _ => state.Issued id target
  | .removing id target => state.Issued id target ∧ signalOf id target ∈ state.confirmed
  | .completing id target completed =>
    state.Issued id target ∧ (completed = true → signalOf id target ∈ state.confirmed)

def RightlyRemoved (state : State) (entry : Nat × RedisConnectionRecord) : Prop :=
  ∃ target, state.Issued entry.1 target ∧ signalOf entry.1 target ∈ state.confirmed ∧
    entry.2.connectionId = target.record.connectionId

structure Inv (state : State) : Prop where
  indexed : ∀ id command, state.commands id = some command →
    state.uniqueIds command.uniqueKey = some id
  calls : ∀ call, (state.calls call).Sound state
  signals : ∀ signal ∈ state.signals, ∃ id target,
    state.Issued id target ∧ signal = signalOf id target
  tasks : ∀ task signal, state.tasks task = some signal → signal ∈ state.signals
  confirmed : ∀ signal ∈ state.confirmed, signal ∈ state.signals
  receipts : ∀ id physical, state.receipts id = some physical →
    ∃ signal ∈ state.confirmed, signal.commandId = id ∧ signal.connectionId = physical
  removed : ∀ entry ∈ state.removed, RightlyRemoved state entry

-- What a step leaves and what it may add. Most steps change one or two of these.
structure Adds (opens : String → String → Prop) (state next : State) : Prop where
  commands : ∀ id command, state.commands id = some command → next.commands id = some command
  indexed : ∀ id command, next.commands id = some command →
    next.uniqueIds command.uniqueKey = some id
  calls : ∀ call, next.calls call = state.calls call ∨ (next.calls call).Sound next
  signals : ∀ signal ∈ next.signals, signal ∈ state.signals ∨ ∃ id target,
    next.Issued id target ∧ signal = signalOf id target
  published : ∀ signal ∈ state.signals, signal ∈ next.signals
  tasks : ∀ task signal, next.tasks task = some signal →
    state.tasks task = some signal ∨ signal ∈ next.signals
  confirmed : ∀ signal ∈ next.confirmed, signal ∈ state.confirmed ∨ signal ∈ next.signals ∧
    next.connections signal.targetGateway signal.connectionId = none
  kept : ∀ signal ∈ state.confirmed, signal ∈ next.confirmed
  receipts : ∀ id physical, next.receipts id = some physical →
    state.receipts id = some physical ∨ ∃ signal ∈ next.confirmed,
      signal.commandId = id ∧ signal.connectionId = physical
  removed : ∀ entry ∈ next.removed, entry ∈ state.removed ∨ RightlyRemoved next entry
  opened : ∀ gatewayId connectionId, state.connections gatewayId connectionId = none →
    next.connections gatewayId connectionId = none ∨ opens gatewayId connectionId

-- A step that leaves the evidence alone, and completes nothing.
structure Quiet (opens : String → String → Prop) (state next : State) : Prop
    extends Adds opens state next where
  progress : ∀ id, (next.progress id).completedAt = (state.progress id).completedAt ∨
    state.commands id = none ∧ (next.progress id).completedAt = none
  written : next.written = state.written
  outbox : next.outbox = state.outbox
  audited : next.audited = state.audited

-- Nothing is added. The fields a step does not touch are those of this.
theorem Inv.same (h : Inv state) (opens : String → String → Prop) : Quiet opens state state where
  commands _ _ hf := hf
  indexed := h.indexed
  calls _ := .inl rfl
  signals _ hm := .inl hm
  published _ hm := hm
  tasks _ _ ht := .inl ht
  confirmed _ hm := .inl hm
  kept _ hm := hm
  receipts _ _ hr := .inl hr
  removed _ hm := .inl hm
  opened _ _ hn := .inl hn
  progress _ := .inl rfl
  written := rfl
  outbox := rfl
  audited := rfl

theorem Adds.issued (ha : Adds opens state next) {target : Target} (h : state.Issued id target) :
    next.Issued id target := by
  obtain ⟨command, hc, ht⟩ := h
  exact ⟨command, ha.commands id command hc, ht⟩

theorem Adds.sound (ha : Adds opens state next) {phase : Phase} (h : phase.Sound state) :
    phase.Sound next := by
  cases phase with
  | idle | finished answer => trivial
  | publishing id target | polling id target left => exact ha.issued h
  | removing id target => exact ⟨ha.issued h.1, ha.kept _ h.2⟩
  | completing id target completed => exact ⟨ha.issued h.1, fun hc => ha.kept _ (h.2 hc)⟩

theorem Inv.adds (h : Inv state) (ha : Adds opens state next) : Inv next where
  indexed := ha.indexed
  calls call := by
    rcases ha.calls call with hc | hc
    · exact hc ▸ ha.sound (h.calls call)
    · exact hc
  signals signal hm := by
    rcases ha.signals signal hm with ho | hn
    · obtain ⟨id, target, hi, hs⟩ := h.signals signal ho
      exact ⟨id, target, ha.issued hi, hs⟩
    · exact hn
  tasks task signal ht := by
    rcases ha.tasks task signal ht with ho | hn
    · exact ha.published _ (h.tasks task signal ho)
    · exact hn
  confirmed signal hm := by
    rcases ha.confirmed signal hm with ho | ⟨hn, -⟩
    · exact ha.published _ (h.confirmed signal ho)
    · exact hn
  receipts id physical hr := by
    rcases ha.receipts id physical hr with ho | hn
    · obtain ⟨signal, hm, hs⟩ := h.receipts id physical ho
      exact ⟨signal, ha.kept _ hm, hs⟩
    · exact hn
  removed entry hm := by
    rcases ha.removed entry hm with ho | hn
    · obtain ⟨target, hi, hc, hp⟩ := h.removed entry ho
      exact ⟨target, ha.issued hi, ha.kept _ hc, hp⟩
    · exact hn

theorem calls_goTo (state : State) (call : Nat) (phase : Phase)
    (h : phase.Sound (state.goTo call phase)) (other : Nat) :
    (state.goTo call phase).calls other = state.calls other ∨
      ((state.goTo call phase).calls other).Sound (state.goTo call phase) := by
  by_cases ho : other = call
  · subst ho
    exact .inr (by simpa [State.goTo] using h)
  · exact .inl (Function.update_of_ne ho _ _)

theorem Inv.sound (h : Inv state) {phase : Phase} (hp : state.calls call = phase) :
    phase.Sound state := hp ▸ h.calls call

-- A receipt under the id of a command is about the connection that command names.
theorem Inv.signal_confirmed (h : Inv state) {target : Target} (hi : state.Issued id target)
    (hr : state.receipts id = some target.record.connectionId) :
    signalOf id target ∈ state.confirmed := by
  obtain ⟨signal, hm, hid, -⟩ := h.receipts id _ hr
  obtain ⟨other, issued, ⟨command, hc, ht⟩, rfl⟩ := h.signals signal (h.confirmed signal hm)
  obtain ⟨command', hc', rfl⟩ := hi
  obtain rfl : other = id := hid
  cases hc.symm.trans hc'
  exact ht ▸ hm

structure Evidenced (state : State) : Prop where
  completed : ∀ id, state.Completed id → ∃ target, state.Issued id target ∧
    signalOf id target ∈ state.confirmed ∧ ∃ message ∈ state.written, message.eventId = id
  written : ∀ message ∈ state.written, state.Completed message.eventId ∧
    ∃ command, state.commands message.eventId = some command ∧
      message.appId = command.target.app ∧
      message.payload = { command.evidence with atMs := message.payload.atMs }
  once : (state.written.map (·.eventId)).Nodup
  outbox : ∀ id row, state.outbox id = some row →
    ⟨id, row.appId, row.payload⟩ ∈ state.written ∧
      (row.deliveredAt.isSome → ⟨id, row.appId, row.payload⟩ ∈ state.audited)
  pending : ∀ message ∈ state.written, message ∈ state.audited ∨
    ∃ row, state.outbox message.eventId = some row ∧ row.deliveredAt = none
  audited : ∀ message ∈ state.audited, message ∈ state.written

theorem Evidenced.unique (h : Evidenced state) {one two : AuditMessage} (ho : one ∈ state.written)
    (ht : two ∈ state.written) (heq : one.eventId = two.eventId) : one = two :=
  List.inj_on_of_nodup_map h.once ho ht heq

theorem Evidenced.follow (h : Evidenced state) (hq : Quiet opens state next) : Evidenced next where
  completed id hc := by
    rcases hq.progress id with heq | ⟨-, hn⟩
    · obtain ⟨target, hi, hm, hmw⟩ := h.completed id (by rwa [State.Completed, ← heq])
      exact ⟨target, hq.issued hi, hq.kept _ hm, hq.written ▸ hmw⟩
    · simp [State.Completed, hn] at hc
  written message hm := by
    obtain ⟨hc, command, hf, hr⟩ := h.written message (hq.written ▸ hm)
    refine ⟨?_, command, hq.commands _ _ hf, hr⟩
    rcases hq.progress message.eventId with heq | ⟨hn, -⟩
    · rwa [State.Completed, heq]
    · cases hn.symm.trans hf
  once := hq.written ▸ h.once
  outbox id row hr := by
    rw [hq.written, hq.audited]
    exact h.outbox id row (hq.outbox ▸ hr)
  pending message hm := by
    rw [hq.audited, hq.outbox]
    exact h.pending message (hq.written ▸ hm)
  audited message hm := hq.written ▸ h.audited message (hq.audited ▸ hm)

end Invariants

section Steps

theorem quiet_goTo (h : Inv state) (phase : Phase) (hp : phase.Sound (state.goTo call phase)) :
    Quiet opens state (state.goTo call phase) :=
  { h.same _ with calls := calls_goTo state call phase hp }

theorem quiet_prepareCommand (h : Inv state) (command : Command) (outcome : Outcome) :
    Quiet opens state (prepareCommand state id command outcome) := by
  unfold prepareCommand
  split
  · rename_i hn
    obtain ⟨-, hu, hc⟩ := hn
    refine
      { h.same _ with
        commands := ?_
        indexed := ?_
        calls := fun _ => .inl rfl
        signals := fun _ hm => .inl hm
        receipts := fun _ _ hr => .inl hr
        removed := fun _ hm => .inl hm
        progress := fun other => ?_ }
    · intro other found hf
      have ho : other ≠ id := fun heq => by simp [heq, hc] at hf
      simpa [ho] using hf
    · intro other found hf
      by_cases ho : other = id
      · subst ho
        simp only [Function.update_self, Option.some.injEq] at hf
        simp [hf]
      · simp only [Function.update_of_ne ho] at hf
        have hi := h.indexed other found hf
        have hk : found.uniqueKey ≠ command.uniqueKey := fun heq => by simp [← heq, hi] at hu
        simpa [hk] using hi
    · by_cases ho : other = id
      · exact .inr ⟨ho ▸ hc, by simp [ho]⟩
      · exact .inl (by simp [ho])
  · exact h.same _

theorem quiet_readCommand (h : Inv state) {outcome : Outcome}
    (hs : readCommand state call id outcome = some next) : Quiet opens state next := by
  unfold readCommand at hs
  split at hs
  · split at hs
    · rename_i command hc
      cases hs
      refine quiet_goTo h _ ?_
      split
      · trivial
      · exact ⟨command, hc, rfl⟩
    · cases hs
      exact quiet_goTo h _ trivial
  · cases hs

theorem quiet_publish (h : Inv state) {outcome : Outcome}
    (hs : publish state call outcome = some next) : Quiet opens state next := by
  unfold publish at hs
  split at hs
  · rename_i id target hp
    cases hs
    have hi : state.Issued id target := h.sound hp
    have hso : ∀ other : State, other.Issued id target →
        (if outcome = Outcome.answered then Phase.polling id target 30
        else .completing id target false).Sound other := by
      intro other ho
      split
      · exact ho
      · exact ⟨ho, nofun⟩
    exact
      { h.same _ with
        calls := calls_goTo _ _ _ (hso _ hi)
        signals := fun signal hm => by
          simp only [State.goTo] at hm
          split at hm
          · rcases List.mem_cons.mp hm with rfl | hm
            · exact .inr ⟨id, target, hi, rfl⟩
            · exact .inl hm
          · exact .inl hm
        tasks := fun _ _ ht => .inl ht
        confirmed := fun _ hm => .inl hm
        published := fun signal hm => by
          simp only [State.goTo]
          split
          · exact List.mem_cons_of_mem _ hm
          · exact hm }
  · cases hs

theorem quiet_poll (h : Inv state) {outcome : Outcome}
    (hs : poll state call outcome = some next) : Quiet opens state next := by
  unfold poll at hs
  split at hs
  · rename_i id target left hp
    cases hs
    have hi : state.Issued id target := h.sound hp
    refine quiet_goTo h _ ?_
    split
    · exact ⟨hi, nofun⟩
    · split
      · rename_i hr
        exact ⟨hi, h.signal_confirmed hi hr⟩
      · exact hi
  · cases hs

theorem quiet_giveUp (h : Inv state) (hs : giveUp state call = some next) :
    Quiet opens state next := by
  unfold giveUp at hs
  split at hs
  · rename_i id target hp
    cases hs
    exact quiet_goTo h (.completing id target false) ⟨h.sound hp, nofun⟩
  · rename_i id target left hp
    cases hs
    exact quiet_goTo h (.completing id target false) ⟨h.sound hp, nofun⟩
  · rename_i id target hp
    cases hs
    exact quiet_goTo h (.completing id target false) ⟨(h.sound hp).1, nofun⟩
  · cases hs

-- The script takes a session out only if it is the one of the physical connection named.
theorem connectionId_of_removed {key : SessionKey} {field physical : String}
    {target record : RedisConnectionRecord} {store : Store}
    (hf : hget store key field = some record)
    (hr : (removeForKickScript key field target store).2 = .removed physical) :
    record.connectionId = target.connectionId := by
  simp only [removeForKickScript, hf] at hr
  split at hr
  · cases hr
  · split at hr
    · cases hr
    · rename_i heq
      exact not_not.mp heq

theorem quiet_remove (h : Inv state) {outcome : Outcome}
    (hs : remove state call outcome = some next) : Quiet opens state next := by
  unfold remove at hs
  split at hs
  · rename_i id target hp
    have hc : Phase.Sound state (.removing id target) := h.sound hp
    simp only [Option.some.injEq] at hs
    subst hs
    split
    · rename_i physical record _ hr hf
      exact
        { h.same _ with
          calls := calls_goTo _ _ _ ⟨hc.1, fun _ => hc.2⟩
          removed := fun entry hm => by
            rcases List.mem_cons.mp hm with rfl | hm
            · exact .inr ⟨target, hc.1, hc.2, connectionId_of_removed hf hr⟩
            · exact .inl hm }
    · exact quiet_goTo h _ ⟨hc.1, fun _ => hc.2⟩
  · cases hs

theorem adds_complete (h : Inv state) {atMs : Int} {outcome : Outcome}
    (hs : complete state call atMs outcome = some next) : Adds opens state next := by
  unfold complete at hs
  split at hs
  · split at hs
    · cases hs
      exact (quiet_goTo h (.finished none) trivial).toAdds
    · dsimp only at hs
      split_ifs at hs <;> cases hs <;>
        exact { h.same _ with calls := calls_goTo _ _ _ trivial }
  · cases hs

theorem connections_setConnection (gatewayId connectionId : String) (info : Option ConnectionInfo)
    (other physical : String) :
    (setConnection state gatewayId connectionId info).connections other physical =
      if other = gatewayId ∧ physical = connectionId then info
      else state.connections other physical := by
  unfold setConnection
  by_cases hg : other = gatewayId
  · by_cases hc : physical = connectionId <;> simp [hg, hc]
  · simp [hg]

theorem closed_kept {gatewayId connectionId other physical : String}
    (hn : state.connections other physical = none) :
    (setConnection state gatewayId connectionId none).connections other physical = none := by
  rw [connections_setConnection]
  split
  · rfl
  · exact hn

theorem quiet_kick (h : Inv state) {signal : KickSignal} {closes : Bool}
    (hs : kick state task signal closes = some next) : Quiet opens state next := by
  unfold kick at hs
  split at hs
  · rename_i hm
    cases hs
    have ht : ∀ other found, Function.update state.tasks task (some signal) other = some found →
        state.tasks other = some found ∨ found ∈ state.signals := by
      intro other found hf
      by_cases ho : other = task
      · subst ho
        simp only [Function.update_self, Option.some.injEq] at hf
        exact .inr (hf ▸ hm.1)
      · exact .inl (by rwa [Function.update_of_ne ho] at hf)
    split
    · exact
        { h.same fun _ _ => False with
          tasks := ht
          confirmed := fun _ hm => .inl hm
          opened := fun _ _ hn => .inl (closed_kept hn) }
    · exact { h.same _ with tasks := ht }
  · cases hs

theorem quiet_confirm (h : Inv state) {outcome : Outcome}
    (hs : confirm state task outcome = some next) : Quiet opens state next := by
  unfold confirm at hs
  split at hs
  · cases hs
  · rename_i signal hts
    have ht : ∀ other found, Function.update state.tasks task none other = some found →
        state.tasks other = some found ∨ found ∈ state.signals := by
      intro other found hf
      by_cases ho : other = task
      · simp [ho] at hf
      · exact .inl (by rwa [Function.update_of_ne ho] at hf)
    dsimp only at hs
    split at hs <;> cases hs
    · rename_i hc
      exact
        { h.same _ with
          calls := fun _ => .inl rfl
          tasks := ht
          removed := fun _ hm => .inl hm
          kept := fun _ hm => List.mem_cons_of_mem _ hm
          confirmed := fun found hm => by
            rcases List.mem_cons.mp hm with rfl | hm
            · exact .inr ⟨h.tasks task _ hts, hc.2⟩
            · exact .inl hm
          receipts := fun other physical hr => by
            by_cases ho : other = signal.commandId
            · subst ho
              simp only [Function.update_self, Option.some.injEq] at hr
              exact .inr ⟨signal, List.mem_cons_self, rfl, hr⟩
            · exact .inl (by simpa [ho] using hr) }
    · exact { h.same _ with tasks := ht }

def Action.Opens : Action → String → String → Prop
  | .connect gatewayId connectionId _, other, physical =>
    other = gatewayId ∧ physical = connectionId
  | _, _, _ => False

theorem Evidenced.finish (he : Evidenced state) (h : Inv state) (answer : Option Bool) :
    Evidenced (state.goTo call (.finished answer)) := by
  have hq : Quiet (fun _ _ => False) state (state.goTo call (.finished answer)) :=
    quiet_goTo h _ trivial
  exact he.follow hq

theorem evidenced_complete (h : Inv state) (he : Evidenced state) {atMs : Int} {outcome : Outcome}
    (hs : complete state call atMs outcome = some next) : Evidenced next := by
  unfold complete at hs
  split at hs
  · rename_i id target completed hcall
    obtain ⟨⟨issued, hf, ht⟩, hco⟩ := h.sound hcall
    rw [hf] at hs
    dsimp only at hs
    split at hs
    · cases hs
      exact he.finish h _
    split at hs
    · cases hs
      exact he.finish h _
    rename_i hc
    split at hs
    · cases hs
      refine he.follow (show Quiet (fun _ _ => False) state _ from
        { quiet_goTo h (.finished _) trivial with progress := fun other => .inl ?_ })
      by_cases heq : other = id
      · subst heq
        simp_all [State.goTo]
      · simp [State.goTo, heq]
    rename_i hnc
    split at hs <;> cases hs
    · exact he.finish h _
    · -- the command completes with the evidence written
      have hnew : ∀ message ∈ state.written, message.eventId ≠ id := fun message hm heq =>
        hc (heq ▸ (he.written message hm).1)
      have hconf := hco (by simpa using hnc)
      subst ht
      refine ⟨fun other hd => ?_, fun message hm => ?_, ?_, fun other row hr => ?_,
        fun message hm => ?_, fun message hm => List.mem_cons_of_mem _ (he.audited message hm)⟩
      · by_cases heq : other = id
        · subst heq
          exact ⟨issued.target, ⟨issued, hf, rfl⟩, hconf, _, List.mem_cons_self, rfl⟩
        · obtain ⟨target, hi, hm, message, hw, hid⟩ := he.completed other
            (by simpa [State.Completed, State.goTo, heq] using hd)
          exact ⟨target, hi, hm, message, List.mem_cons_of_mem _ hw, hid⟩
      · rcases List.mem_cons.mp hm with rfl | hm
        · exact ⟨by simp [State.Completed, State.goTo], issued, hf, rfl, rfl⟩
        · obtain ⟨hd, hr⟩ := he.written message hm
          exact ⟨by simpa [State.Completed, State.goTo, hnew message hm] using hd, hr⟩
      · refine List.nodup_cons.mpr ⟨fun hm => ?_, he.once⟩
        obtain ⟨message, hw, heq⟩ := List.mem_map.mp hm
        exact hnew message hw heq
      · by_cases heq : other = id
        · subst heq
          simp only [State.goTo, Function.update_self, Option.some.injEq] at hr
          subst hr
          exact ⟨List.mem_cons_self, nofun⟩
        · obtain ⟨hw, hd⟩ := he.outbox other row (by simpa [State.goTo, heq] using hr)
          exact ⟨List.mem_cons_of_mem _ hw, hd⟩
      · rcases List.mem_cons.mp hm with rfl | hm
        · exact .inr ⟨_, Function.update_self .., rfl⟩
        · exact (he.pending message hm).imp_right fun hr => by
            simpa [State.goTo, hnew message hm] using hr
  · cases hs

theorem evidenced_drainOne (he : Evidenced state) {published : Outcome} {commits : Bool}
    (hs : drainOne state eventId published commits = some next) : Evidenced next := by
  unfold drainOne at hs
  split at hs
  · rename_i row hrow
    split at hs <;> cases hs
    rename_i hdue
    obtain ⟨hw, -⟩ := he.outbox eventId row hrow
    have hse : ∀ found, (if commits then row.settle state.now published else row) = found →
        found.appId = row.appId ∧ found.payload = row.payload ∧
          (found.deliveredAt.isSome → published = .answered) := by
      rintro found rfl
      unfold OutboxRow.settle
      split_ifs <;> simp_all
    -- what the broker had, and the row's own message if it was published
    have hk : ∀ message ∈ state.audited, message ∈ (if published.takesEffect then
        ⟨eventId, row.appId, row.payload⟩ :: state.audited else state.audited) := by
      intro message hm
      split
      · exact List.mem_cons_of_mem _ hm
      · exact hm
    refine ⟨he.completed, he.written, he.once, fun other found hf => ?_, fun message hm => ?_,
      fun message hm => ?_⟩
    · by_cases heq : other = eventId
      · subst heq
        simp only [Function.update_self, Option.some.injEq] at hf
        obtain ⟨ha, hp, hd⟩ := hse found hf
        rw [ha, hp]
        exact ⟨hw, fun hs => by simp [hd hs]⟩
      · obtain ⟨hm, hd⟩ := he.outbox other found (by simpa [heq] using hf)
        exact ⟨hm, fun hs => hk _ (hd hs)⟩
    · rcases he.pending message hm with ha | ⟨found, hf, hn⟩
      · exact .inl (hk _ ha)
      · by_cases heq : message.eventId = eventId
        · rw [he.unique hm hw heq]
          by_cases hp : published = .answered
          · exact .inl (by simp [hp])
          · refine .inr ⟨_, Function.update_self .., Option.not_isSome_iff_eq_none.mp fun hd => ?_⟩
            exact hp ((hse _ rfl).2.2 hd)
        · exact .inr ⟨found, by simpa [heq] using hf, hn⟩
    · simp only at hm
      split at hm
      · rcases List.mem_cons.mp hm with rfl | hm
        · exact hw
        · exact he.audited message hm
      · exact he.audited message hm
  · cases hs

theorem evidenced_cleanup (he : Evidenced state) (hs : cleanup state eventId = some next) :
    Evidenced next := by
  unfold cleanup at hs
  split at hs
  · rename_i row hrow
    split at hs <;> cases hs
    rename_i hold
    obtain ⟨hw, hd⟩ := he.outbox eventId row hrow
    have hdel : row.deliveredAt.isSome := by
      by_contra hn
      simp [Option.not_isSome_iff_eq_none.mp hn] at hold
    refine ⟨he.completed, he.written, he.once, fun other found hf => ?_, fun message hm => ?_,
      he.audited⟩
    · by_cases heq : other = eventId
      · simp [heq] at hf
      · exact he.outbox other found (by simpa [heq] using hf)
    · by_cases heq : message.eventId = eventId
      · exact .inl (he.unique hm hw heq ▸ hd hdel)
      · exact (he.pending message hm).imp_right fun hr => by simpa [heq] using hr
  · cases hs

theorem step_cases (h : Inv state) (hs : step state action = some next) :
    Quiet action.Opens state next ∨
      Adds action.Opens state next ∧ (Evidenced state → Evidenced next) := by
  cases action with
  | tick | rewriteStore =>
    cases hs
    exact .inl { h.same _ with }
  | connect gatewayId connectionId info =>
    cases hs
    refine .inl
      { h.same fun _ _ => False with
        confirmed := fun _ hm => .inl hm
        opened := fun other physical hn => ?_ }
    rw [connections_setConnection]
    split
    · exact .inr ‹_›
    · exact .inl hn
  | disconnect gatewayId connectionId =>
    cases hs
    exact .inl
      { h.same fun _ _ => False with
        confirmed := fun _ hm => .inl hm
        opened := fun _ _ hn => .inl (closed_kept hn) }
  | prepareCommand id command outcome =>
    cases hs
    exact .inl (quiet_prepareCommand h command outcome)
  | readCommand call id outcome => exact .inl (quiet_readCommand h hs)
  | publish call outcome => exact .inl (quiet_publish h hs)
  | poll call outcome => exact .inl (quiet_poll h hs)
  | giveUp call => exact .inl (quiet_giveUp h hs)
  | remove call outcome => exact .inl (quiet_remove h hs)
  | complete call atMs outcome =>
    exact .inr ⟨adds_complete h hs, fun he => evidenced_complete h he hs⟩
  | kick task signal closes => exact .inl (quiet_kick h hs)
  | confirm task outcome => exact .inl (quiet_confirm h hs)
  | expireReceipt id =>
    cases hs
    refine .inl { h.same _ with receipts := fun other physical hr => ?_ }
    by_cases ho : other = id
    · simp [ho] at hr
    · exact .inl (by simpa [ho] using hr)
  | drainOne eventId published commits =>
    refine .inr ⟨?_, fun he => evidenced_drainOne he hs⟩
    simp only [step, drainOne] at hs
    split at hs
    · split at hs <;> cases hs
      exact { h.same _ with }
    · cases hs
  | cleanup eventId =>
    refine .inr ⟨?_, fun he => evidenced_cleanup he hs⟩
    simp only [step, cleanup] at hs
    split at hs
    · split at hs <;> cases hs
      exact { h.same _ with }
    · cases hs

theorem adds_step (h : Inv state) (hs : step state action = some next) :
    Adds action.Opens state next :=
  (step_cases h hs).elim (·.toAdds) (·.1)

theorem invariants_run {actions : List Action} {ok : State → Action → Prop}
    (hr : Run step ok {} actions state) : Inv state ∧ Evidenced state :=
  hr.preserves (fun state => Inv state ∧ Evidenced state)
    (fun _ _ _ hin _ hs => ⟨hin.1.adds (adds_step hin.1 hs),
      (step_cases hin.1 hs).elim hin.2.follow (·.2 hin.2)⟩)
    ⟨⟨nofun, fun _ => trivial, nofun, nofun, nofun, nofun, nofun⟩,
      ⟨nofun, nofun, List.nodup_nil, nofun, nofun, nofun⟩⟩

end Steps

section Runs

variable {actions : List Action}

-- One row for each request and physical connection. A command completes only once the gateway
-- it names has found the connection gone and said so. Then its evidence is written, once, under
-- its own application; nothing else is. A session is only taken out for such a command.
structure ConfirmedOnce (state : State) : Prop where
  unique : ∀ one two command other, state.commands one = some command →
    state.commands two = some other → command.uniqueKey = other.uniqueKey → one = two
  confirmed : ∀ id, state.Completed id → ∃ target, state.Issued id target ∧
    signalOf id target ∈ state.signals ∧ signalOf id target ∈ state.confirmed ∧
    ∃! message, message ∈ state.written ∧ message.eventId = id
  genuine : ∀ message ∈ state.written, state.Completed message.eventId ∧
    ∃ command, state.commands message.eventId = some command ∧
      message.appId = command.target.app ∧
      message.payload = { command.evidence with atMs := message.payload.atMs }
  removed : ∀ entry ∈ state.removed, RightlyRemoved state entry

theorem kicks_are_confirmed_and_audited_once : Always step anyStep {} ConfirmedOnce := by
  intro actions state hr
  obtain ⟨hin, hev⟩ := invariants_run hr
  refine ⟨fun one two command other ho ht hk => ?_, fun id hc => ?_, hev.written, hin.removed⟩
  · have hi := hin.indexed one command ho
    rw [hk, hin.indexed two other ht] at hi
    exact (Option.some.inj hi).symm
  · obtain ⟨target, hi, hf, message, hw, hid⟩ := hev.completed id hc
    exact ⟨target, hi, hin.confirmed _ hf, hf, message, ⟨hw, hid⟩,
      fun other ho => hev.unique ho.1 hw (ho.2.trans hid.symm)⟩

-- Evidence waits in the outbox until the broker has it, and is sent again as it was written.
structure EvidenceKept (state : State) : Prop where
  pending : ∀ message ∈ state.written, message ∈ state.audited ∨
    ∃ row, state.outbox message.eventId = some row ∧ row.deliveredAt = none ∧
      message = ⟨message.eventId, row.appId, row.payload⟩
  audited : ∀ message ∈ state.audited, message ∈ state.written
  repeated : ∀ one ∈ state.audited, ∀ two ∈ state.audited, one.eventId = two.eventId → one = two

theorem evidence_is_kept_until_published : Always step anyStep {} EvidenceKept := by
  intro actions state hr
  obtain ⟨-, hev⟩ := invariants_run hr
  refine ⟨fun message hm => ?_, hev.audited, fun one ho two ht => ?_⟩
  · refine (hev.pending message hm).imp_right fun ⟨row, hf, hn⟩ => ⟨row, hf, hn, ?_⟩
    exact hev.unique hm (hev.outbox _ row hf).1 rfl
  · exact hev.unique (hev.audited one ho) (hev.audited two ht)

-- A physical connection is opened before a command names it, and not again.
def OpensUnnamed (state : State) : Action → Prop
  | .connect _ connectionId _ =>
    ∀ id target, state.Issued id target → target.record.connectionId ≠ connectionId
  | _ => True

def Severed (state : State) : Prop :=
  ∀ signal ∈ state.confirmed, state.connections signal.targetGateway signal.connectionId = none

theorem severed_step (h : Inv state) (hv : Severed state) (hok : OpensUnnamed state action)
    (hs : step state action = some next) : Severed next := by
  have ha := adds_step h hs
  intro signal hm
  rcases ha.confirmed signal hm with ho | ⟨-, hn⟩
  · rcases ha.opened _ _ (hv signal ho) with hn | hopens
    · exact hn
    · obtain ⟨id, target, hi, rfl⟩ := h.signals signal (h.confirmed signal ho)
      cases action with
      | connect gatewayId connectionId info => exact absurd hopens.2 (hok id target hi)
      | _ => cases hopens
  · exact hn

def KickedClosed (state : State) : Prop :=
  ∀ id target, state.Issued id target → state.Completed id →
    state.connections target.record.gatewayId target.record.connectionId = none

theorem kicked_connections_stay_closed : Always step OpensUnnamed {} KickedClosed := by
  intro actions state hr id target hi hc
  have hv : Inv state ∧ Severed state :=
    hr.preserves (fun state => Inv state ∧ Severed state)
      (fun _ _ _ hin hok hs => ⟨hin.1.adds (adds_step hin.1 hs), severed_step hin.1 hin.2 hok hs⟩)
      ⟨⟨nofun, fun _ => trivial, nofun, nofun, nofun, nofun, nofun⟩, nofun⟩
  obtain ⟨other, ⟨command, hf, rfl⟩, hm, -⟩ := (invariants_run hr).2.completed id hc
  obtain ⟨command', hf', rfl⟩ := hi
  cases hf.symm.trans hf'
  exact hv.2 _ hm

def sampleTarget : Target where
  app := "app"
  user := "user"
  record := ⟨"session", "gateway", "", "device", "", "physical", 0, 0, 0, 0, "app"⟩
  reason := ""

-- The answers of the receipt and of the last transaction are lost.
def sampleKick : List Action :=
  [.connect "gateway" "physical" ⟨true, some "user", some "app", some "device"⟩,
    .prepareCommand 7 ⟨sampleTarget, ⟨"request", 0, ""⟩⟩ .answered, .readCommand 0 7 .answered,
    .publish 0 .answered, .kick 0 (signalOf 7 sampleTarget) true, .confirm 0 .lost,
    .poll 0 .answered, .remove 0 .answered, .complete 0 5 .lost]

example : (execute step anyStep {} sampleKick).any
    (fun state => (state.progress 7).completedAt.isSome) = true := by decide

end Runs

end FlareIm.KickCommands
