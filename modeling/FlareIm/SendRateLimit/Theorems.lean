import FlareIm.Lib.Delimited
import FlareIm.Lib.FixedWindow
import FlareIm.SendRateLimit
import Mathlib.Data.List.Perm.Subperm

namespace FlareIm.SendRateLimit

open Text FixedWindow

namespace SendRateLimiter

section Windows

variable (limiter : SendRateLimiter) {nowMs later : Nat}

theorem windowMs_pos : 0 < limiter.windowMs :=
  Nat.lt_of_lt_of_le Nat.zero_lt_one (le_max_right _ _)

theorem windowStart_mono (h : nowMs ≤ later) :
    limiter.windowStart nowMs ≤ limiter.windowStart later :=
  Nat.mul_le_mul_right _ (Nat.div_le_div_right h)

theorem oldestLiveWindow_mono (h : nowMs ≤ later) :
    limiter.oldestLiveWindow nowMs ≤ limiter.oldestLiveWindow later :=
  Nat.sub_le_sub_right h _

theorem oldestLiveWindow_le (h : nowMs ≤ U64_MAX) :
    limiter.oldestLiveWindow nowMs ≤ limiter.windowStart nowMs := by
  have hp := limiter.windowMs_pos
  have hdi : nowMs < nowMs / limiter.windowMs * limiter.windowMs + limiter.windowMs := by
    have hm := Nat.mod_lt nowMs hp
    have hs := Nat.div_add_mod' nowMs limiter.windowMs
    omega
  unfold oldestLiveWindow windowStart
  omega

end Windows

section Charges

variable {counters : Counters} {checks : List RateLimitCheck} {windowStartMs window : Nat}
  {key : String} {entry : String × WindowCounter}

@[simp] theorem windowStartMs_advance (counter : WindowCounter) :
    (advance windowStartMs counter).windowStartMs = windowStartMs := by
  by_cases h : counter.windowStartMs = windowStartMs <;> simp [advance, h]

theorem current_modify_self :
    current windowStartMs
        (Tally.modify key ⟨windowStartMs, 0⟩ (advance windowStartMs) counters) key =
      min (current windowStartMs counters key + 1) U32_MAX := by
  rw [current, Tally.valueAt_modify_self, current]
  unfold advance
  by_cases h : (Tally.valueAt key ⟨windowStartMs, 0⟩ counters).windowStartMs = windowStartMs <;>
    simp [h]

theorem current_modify_of_ne {charged : String} (h : key ≠ charged) :
    current window (Tally.modify charged ⟨windowStartMs, 0⟩ (advance windowStartMs) counters) key =
      current window counters key := by
  simp only [current, Tally.valueAt_modify_of_ne h]

theorem nodup_charge (h : (counters.map (·.1)).Nodup) :
    ((charge windowStartMs checks counters).map (·.1)).Nodup := by
  induction checks generalizing counters with
  | nil => exact h
  | cons check rest ih => exact ih (Tally.nodup_modify h)

theorem current_charge (hb : ∀ check ∈ checks, current windowStartMs counters check.key < U32_MAX)
    (hk : (checks.map (·.key)).Nodup) :
    current windowStartMs (charge windowStartMs checks counters) key =
      current windowStartMs counters key + checks.countP (·.key = key) := by
  induction checks generalizing counters with
  | nil => rfl
  | cons check rest ih =>
    obtain ⟨hh, hr⟩ := List.nodup_cons.mp hk
    have ho {other : RateLimitCheck} (hm : other ∈ rest) : other.key ≠ check.key :=
      fun heq => hh (List.mem_map.mpr ⟨other, hm, heq⟩)
    rw [charge, List.foldl_cons, ← charge, ih ?_ hr, List.countP_cons]
    · by_cases heq : check.key = key
      · subst heq
        have hlt := hb check List.mem_cons_self
        rw [current_modify_self, if_pos (by simp)]
        omega
      · rw [current_modify_of_ne (Ne.symm heq), if_neg (by simpa using heq)]
        omega
    · intro other hm
      rw [current_modify_of_ne (ho hm)]
      exact hb other (List.mem_cons_of_mem _ hm)

theorem mem_charge (hn : (counters.map (·.1)).Nodup)
    (hm : entry ∈ charge windowStartMs checks counters) : entry ∈ counters ∨
      entry.2.windowStartMs = windowStartMs ∧ ∃ check ∈ checks, check.key = entry.1 := by
  induction checks generalizing counters with
  | nil => exact .inl hm
  | cons check rest ih =>
    rcases ih (Tally.nodup_modify hn) hm with hmo | ⟨hw, other, ho, hk⟩
    · rw [show entry = (entry.1, entry.2) from rfl, Tally.mem_modify hn] at hmo
      split at hmo
      · rename_i hk
        refine .inr ⟨?_, check, List.mem_cons_self, hk.symm⟩
        rw [hmo, windowStartMs_advance]
      · exact .inl hmo
    · exact .inr ⟨hw, other, List.mem_cons_of_mem _ ho, hk⟩

theorem exists_mem_charge (hle : window ≤ windowStartMs) (hn : (counters.map (·.1)).Nodup)
    (h : (∃ counter, (key, counter) ∈ counters ∧ window ≤ counter.windowStartMs) ∨
      ∃ check ∈ checks, check.key = key) :
    ∃ counter, (key, counter) ∈ charge windowStartMs checks counters ∧
      window ≤ counter.windowStartMs := by
  induction checks generalizing counters with
  | nil => exact h.resolve_right (by simp)
  | cons check rest ih =>
    refine ih (Tally.nodup_modify hn) ?_
    by_cases heq : key = check.key
    · refine .inl ⟨_, (Tally.mem_modify hn).mpr ((if_pos heq).mpr rfl), ?_⟩
      rwa [windowStartMs_advance]
    · rcases h with ⟨counter, hm, hw⟩ | ⟨other, ho, hk⟩
      · refine .inl ⟨counter, (Tally.mem_modify hn).mpr ?_, hw⟩
        rwa [if_neg heq]
      · rcases List.mem_cons.mp ho with rfl | hr
        · exact absurd hk.symm heq
        · exact .inr ⟨other, hr, hk⟩

theorem current_of_mem {counter : WindowCounter} (hn : (counters.map (·.1)).Nodup)
    (hm : (key, counter) ∈ counters) :
    current window counters key = if counter.windowStartMs = window then counter.count else 0 := by
  rw [current, Tally.valueAt_of_mem hn hm]

theorem current_of_not_mem (h : key ∉ counters.map (·.1)) : current window counters key = 0 := by
  rw [current, Tally.valueAt_of_not_mem h, if_pos rfl]

theorem current_congr {others : Counters} (hno : (counters.map (·.1)).Nodup)
    (hno' : (others.map (·.1)).Nodup)
    (h : ∀ counter : WindowCounter, counter.windowStartMs = window →
      ((key, counter) ∈ counters ↔ (key, counter) ∈ others)) :
    current window counters key = current window others key := by
  have hz {kept : Counters} (hk : (kept.map (·.1)).Nodup)
      (hn : ∀ counter : WindowCounter, counter.windowStartMs = window →
        (key, counter) ∉ kept) : current window kept key = 0 := by
    by_cases hm : key ∈ kept.map (·.1)
    · have hen : (key, Tally.valueAt key ⟨window, 0⟩ kept) ∈ kept :=
        Tally.mem_of_mem_fst hm
      rw [current_of_mem hk hen, if_neg fun hw => hn _ hw hen]
    · exact current_of_not_mem hm
  by_cases hei : ∃ counter : WindowCounter, counter.windowStartMs = window ∧
      (key, counter) ∈ counters
  · obtain ⟨counter, hw, hm⟩ := hei
    rw [current_of_mem hno hm, current_of_mem hno' ((h counter hw).mp hm)]
  · have hn (counter : WindowCounter) (hw : counter.windowStartMs = window) :
        (key, counter) ∉ counters := fun hm => hei ⟨counter, hw, hm⟩
    have hn' (counter : WindowCounter) (hw : counter.windowStartMs = window) :
        (key, counter) ∉ others := fun hm => hn counter hw ((h counter hw).mpr hm)
    rw [hz hno hn, hz hno' hn']

end Charges

section Trimming

variable {limiter : SendRateLimiter} {nowMs : Nat} {counters : Counters}

theorem trimState_of_le (h : counters.length ≤ limiter.config.maxTrackedKeys) :
    limiter.trimState nowMs counters = counters := if_pos h

theorem trimState_eq (h : (limiter.live nowMs counters).length ≤ limiter.config.maxTrackedKeys) :
    limiter.trimState nowMs counters = counters ∨
      limiter.trimState nowMs counters = limiter.live nowMs counters := by
  unfold trimState
  dsimp only
  split
  · exact .inl rfl
  · exact .inr rfl

theorem length_trimState
    (h : (limiter.live nowMs counters).length ≤ limiter.config.maxTrackedKeys) :
    (limiter.trimState nowMs counters).length ≤ limiter.config.maxTrackedKeys := by
  unfold trimState
  dsimp only
  split
  · assumption
  · exact h

theorem sublist_trimState
    (h : (limiter.live nowMs counters).length ≤ limiter.config.maxTrackedKeys) :
    (limiter.trimState nowMs counters).Sublist counters := by
  rcases trimState_eq h with heq | heq <;> rw [heq]
  exact List.filter_sublist

theorem mem_trimState {entry : String × WindowCounter}
    (h : (limiter.live nowMs counters).length ≤ limiter.config.maxTrackedKeys)
    (hl : limiter.oldestLiveWindow nowMs ≤ entry.2.windowStartMs) :
    entry ∈ limiter.trimState nowMs counters ↔ entry ∈ counters := by
  rcases trimState_eq h with heq | heq <;> rw [heq]
  simp [live, hl]

theorem checkAtMillis_eq {send : Send} (hb : counters.length ≤ limiter.config.maxTrackedKeys) :
    limiter.checkAtMillis counters send =
      match (buildChecks limiter.config send).find? fun check =>
        check.limit ≤ current (limiter.windowStart send.nowMs) counters check.key with
      | some check =>
        (counters, .error (rateLimitError check.scope check.limit limiter.windowMs))
      | none =>
        (limiter.trimState send.nowMs (charge (limiter.windowStart send.nowMs)
          (buildChecks limiter.config send) counters), .ok ()) := by
  unfold checkAtMillis
  dsimp only
  split
  · rename_i hn
    rw [hn, List.find?_nil, charge, List.foldl_nil, trimState_of_le hb]
  · rewrite [trimState_of_le hb]
    rfl

theorem counters_of_refused {send : Send} {error : RateLimitError}
    (hb : counters.length ≤ limiter.config.maxTrackedKeys)
    (hr : (limiter.checkAtMillis counters send).2 = .error error) :
    (limiter.checkAtMillis counters send).1 = counters := by
  rw [checkAtMillis_eq hb] at hr ⊢
  split
  · rfl
  · rename_i hn
    rw [hn] at hr
    exact nomatch hr

end Trimming

section Checks

variable {config : SendRateLimitConfig} {send : Send} {check : RateLimitCheck}

theorem limit_le (hm : check ∈ buildChecks config send) : check.limit ≤ U32_MAX := by
  unfold buildChecks at hm
  split at hm
  · exact absurd hm List.not_mem_nil
  · have ht : config.tenantLimit send.tenantSendQps ≤ U32_MAX := by
      unfold SendRateLimitConfig.tenantLimit
      split
      · exact send.qps_le
      · exact config.tenant_le
    simp only [List.mem_append, List.mem_ite_nil_right, List.mem_singleton] at hm
    rcases hm with (⟨-, rfl⟩ | ⟨-, rfl⟩) | ⟨-, rfl⟩
    · exact ht
    · exact config.sender_le
    · exact config.conversation_le

theorem key_eq (hm : check ∈ buildChecks config send) :
    check.key = "tenant:" ++ nonEmptyOr send.tenantId "0" ∨
    check.key = "tenant_sender:" ++ nonEmptyOr send.tenantId "0" ++ ":" ++
      nonEmptyOr send.message.senderId "_" ∨
    check.key = "tenant_conversation:" ++ nonEmptyOr send.tenantId "0" ++ ":" ++
      nonEmptyOr send.message.conversationId "_" := by
  unfold buildChecks at hm
  split at hm
  · exact absurd hm List.not_mem_nil
  · simp only [List.mem_append, List.mem_ite_nil_right, List.mem_singleton] at hm
    rcases hm with (⟨-, rfl⟩ | ⟨-, rfl⟩) | ⟨-, rfl⟩
    · exact .inl rfl
    · exact .inr (.inl rfl)
    · exact .inr (.inr rfl)

-- The scopes have keys of their own: their words part at the eighth character at the latest.
theorem tenant_ne_sender (a b c d : String) : "tenant:" ++ a ≠ "tenant_sender:" ++ b ++ c ++ d := by
  intro heq
  have hf := congrArg (fun text => text.toList.take 8) heq
  simp [String.toList_append] at hf

theorem tenant_ne_conversation (a b c d : String) :
    "tenant:" ++ a ≠ "tenant_conversation:" ++ b ++ c ++ d := by
  intro heq
  have hf := congrArg (fun text => text.toList.take 8) heq
  simp [String.toList_append] at hf

theorem sender_ne_conversation (a b c d e f : String) :
    "tenant_sender:" ++ a ++ b ++ c ≠ "tenant_conversation:" ++ d ++ e ++ f := by
  intro heq
  have hf := congrArg (fun text => text.toList.take 8) heq
  simp [String.toList_append] at hf

theorem nodup_keys (config : SendRateLimitConfig) (send : Send) :
    ((buildChecks config send).map (·.key)).Nodup := by
  unfold buildChecks
  split
  · exact List.nodup_nil
  · dsimp only
    split <;> split <;> split <;>
      simp [tenant_ne_sender, tenant_ne_conversation, sender_ne_conversation]

end Checks

section Refinement

variable (limiter : SendRateLimiter)

-- The limiter as it is meant, without a bound on what it remembers.
def meter : Meter Send RateLimitCheck String where
  window send := limiter.windowStart send.nowMs
  charges send := buildChecks limiter.config send
  key check := check.key
  limit check := check.limit

def verdictOf (refusal : Option RateLimitCheck) : Except RateLimitError Unit :=
  match refusal with
  | some check => .error (rateLimitError check.scope check.limit limiter.windowMs)
  | none => .ok ()

-- The counters know what was granted in the window that runs, and no window is ahead of it.
structure Tracks (nowMs : Nat) (used : Used String) (counters : Counters) : Prop where
  nodup : (counters.map (·.1)).Nodup
  exact : ∀ window key, limiter.windowStart nowMs ≤ window →
    current window counters key = used window key
  future : ∀ window key, limiter.windowStart nowMs < window → used window key = 0
  backed : ∀ entry ∈ counters, 0 < used entry.2.windowStartMs entry.1
  kept : ∀ window key, limiter.oldestLiveWindow nowMs ≤ window → 0 < used window key →
    ∃ counter, (key, counter) ∈ counters ∧ window ≤ counter.windowStartMs

-- Charging the call leaves the live counters within the capacity.
def chargedFits (counters : Counters) (send : Send) : Prop :=
  (limiter.live send.nowMs (charge (limiter.windowStart send.nowMs)
    (buildChecks limiter.config send) counters)).length ≤ limiter.config.maxTrackedKeys

variable {limiter} {nowMs laterMs : Nat} {used : Used String} {counters : Counters} {send : Send}

theorem tracks_empty (limiter : SendRateLimiter) : limiter.Tracks 0 (fun _ _ => 0) [] where
  nodup := List.nodup_nil
  exact _ _ _ := current_of_not_mem List.not_mem_nil
  future _ _ _ := rfl
  backed _ hm := absurd hm List.not_mem_nil
  kept _ _ _ hp := absurd hp (Nat.lt_irrefl 0)

theorem Tracks.later (h : limiter.Tracks nowMs used counters) (hle : nowMs ≤ laterMs) :
    limiter.Tracks laterMs used counters where
  nodup := h.nodup
  exact window key hw := h.exact window key ((limiter.windowStart_mono hle).trans hw)
  future window key hw :=
    h.future window key ((limiter.windowStart_mono hle).trans_lt hw)
  backed := h.backed
  kept window key hw := h.kept window key ((limiter.oldestLiveWindow_mono hle).trans hw)

theorem Tracks.charge (h : limiter.Tracks send.nowMs used counters)
    (hg : limiter.meter.refusal used send = none) :
    limiter.Tracks send.nowMs (limiter.meter.grant used send)
      (charge (limiter.windowStart send.nowMs) (buildChecks limiter.config send) counters) := by
  have hb (check : RateLimitCheck) (hm : check ∈ buildChecks limiter.config send) :
      current (limiter.windowStart send.nowMs) counters check.key < U32_MAX := by
    rw [h.exact _ _ (Nat.le_refl _)]
    exact (lt_limit_of_granted hg hm).trans_le (limit_le hm)
  have hpa {window : Nat} {key : String} (hne : window ≠ limiter.windowStart send.nowMs) :
      limiter.meter.spend used send window key = used window key := spend_of_ne hne
  rw [grant_of_granted hg]
  refine ⟨nodup_charge h.nodup, ?_, ?_, ?_, ?_⟩
  · intro window key hw
    by_cases hn : window = limiter.windowStart send.nowMs
    · subst hn
      rw [current_charge hb (nodup_keys _ _), h.exact _ _ (Nat.le_refl _), Meter.spend]
      exact (if_pos rfl).symm
    · rw [hpa hn, ← h.exact window key hw]
      have ha : limiter.windowStart send.nowMs < window :=
        Nat.lt_of_le_of_ne hw (Ne.symm hn)
      -- no counter is ahead, neither before nor after
      refine current_congr (nodup_charge h.nodup) h.nodup fun counter hc => ?_
      constructor
      · intro hm
        rcases mem_charge h.nodup hm with hold | ⟨hch, -⟩
        · exact hold
        · exact absurd (hc.symm.trans hch) hn
      · intro hm
        have hp := h.backed _ hm
        dsimp only at hp
        rw [hc, h.future window key ha] at hp
        exact absurd hp (Nat.lt_irrefl 0)
  · intro window key hw
    rw [hpa (Nat.ne_of_gt hw)]
    exact h.future window key hw
  · intro entry hm
    rcases mem_charge h.nodup hm with hold | ⟨hw, check, hce, hk⟩
    · exact (h.backed entry hold).trans_le le_spend
    · rw [hw, ← hk]
      exact Nat.zero_lt_of_lt (@lt_spend_of_mem _ _ _ _ limiter.meter used send check hce)
  · intro window key hw hp
    have hle : window ≤ limiter.windowStart send.nowMs := by
      by_contra ha
      rw [hpa (by omega), h.future window key (by omega)] at hp
      exact Nat.lt_irrefl 0 hp
    refine exists_mem_charge hle h.nodup ?_
    by_cases hu : 0 < used window key
    · exact .inl (h.kept window key hw hu)
    · have hz : used window key = 0 := by omega
      rw [Meter.spend, hz, Nat.zero_add] at hp
      split at hp
      · obtain ⟨check, hm, hk⟩ := List.countP_pos_iff.mp hp
        exact .inr ⟨check, hm, of_decide_eq_true hk⟩
      · exact absurd hp (Nat.lt_irrefl 0)

theorem Tracks.trim (h : limiter.Tracks send.nowMs used counters)
    (hf : (limiter.live send.nowMs counters).length ≤ limiter.config.maxTrackedKeys) :
    limiter.Tracks send.nowMs used (limiter.trimState send.nowMs counters) := by
  have hs := sublist_trimState hf
  have hn : ((limiter.trimState send.nowMs counters).map (·.1)).Nodup :=
    (hs.map _).nodup h.nodup
  refine ⟨hn, ?_, h.future, fun entry hm => h.backed entry (hs.subset hm), ?_⟩
  · intro window key hw
    rw [← h.exact window key hw]
    refine current_congr hn h.nodup fun counter hc => mem_trimState hf ?_
    rw [hc]
    exact (limiter.oldestLiveWindow_le send.now_le).trans hw
  · intro window key hw hp
    obtain ⟨counter, hm, hle⟩ := h.kept window key hw hp
    exact ⟨counter, (mem_trimState hf (hw.trans hle)).mpr hm, hle⟩

theorem find_eq_refusal (h : limiter.Tracks send.nowMs used counters) :
    ((buildChecks limiter.config send).find? fun check =>
      check.limit ≤ current (limiter.windowStart send.nowMs) counters check.key) =
      limiter.meter.refusal used send :=
  List.find?_congr fun check _ => by rw [h.exact _ _ (Nat.le_refl _)]; rfl

theorem checkAtMillis_of_refused {check : RateLimitCheck}
    (h : limiter.Tracks send.nowMs used counters)
    (hb : counters.length ≤ limiter.config.maxTrackedKeys)
    (hr : limiter.meter.refusal used send = some check) : limiter.checkAtMillis counters send =
      (counters, .error (rateLimitError check.scope check.limit limiter.windowMs)) := by
  rw [checkAtMillis_eq hb, (find_eq_refusal h).trans hr]

theorem checkAtMillis_of_granted (h : limiter.Tracks send.nowMs used counters)
    (hb : counters.length ≤ limiter.config.maxTrackedKeys)
    (hg : limiter.meter.refusal used send = none) : limiter.checkAtMillis counters send =
      (limiter.trimState send.nowMs (SendRateLimiter.charge (limiter.windowStart send.nowMs)
        (buildChecks limiter.config send) counters), .ok ()) := by
  rw [checkAtMillis_eq hb, (find_eq_refusal h).trans hg]

end Refinement

section Runs

variable (limiter : SendRateLimiter)

-- The calls stay within the capacity: each that is accepted leaves no more live counters than that.
def Fits : Counters → List Send → Prop
  | _, [] => True
  | counters, send :: rest =>
    ((limiter.checkAtMillis counters send).2 = .ok () → limiter.chargedFits counters send) ∧
      Fits (limiter.checkAtMillis counters send).1 rest

def Ordered (nowMs : Nat) (sends : List Send) : Prop :=
  (∀ send ∈ sends, nowMs ≤ send.nowMs) ∧ sends.Pairwise fun a b => a.nowMs ≤ b.nowMs

variable {limiter} {nowMs : Nat} {used used' : Used String} {counters counters' : Counters}
  {send : Send} {sends rest : List Send}

theorem Ordered.head (h : Ordered nowMs (send :: rest)) : nowMs ≤ send.nowMs :=
  h.1 send List.mem_cons_self

theorem Ordered.tail (h : Ordered nowMs (send :: rest)) : Ordered send.nowMs rest :=
  ⟨(List.pairwise_cons.mp h.2).1, (List.pairwise_cons.mp h.2).2⟩

@[simp] theorem verdictOf_eq_ok {refusal : Option RateLimitCheck} :
    limiter.verdictOf refusal = .ok () ↔ refusal = none := by
  cases refusal <;> simp [verdictOf]

-- The counters between two calls of a run, and what the meter has granted by then.
structure Follows (limiter : SendRateLimiter) (nowMs : Nat) (used : Used String)
    (counters : Counters) : Prop where
  tracks : limiter.Tracks nowMs used counters
  bounded : counters.length ≤ limiter.config.maxTrackedKeys

theorem Follows.later {laterMs : Nat} (h : limiter.Follows nowMs used counters)
    (hle : nowMs ≤ laterMs) : limiter.Follows laterMs used counters :=
  ⟨h.tracks.later hle, h.bounded⟩

theorem follows_empty (limiter : SendRateLimiter) : limiter.Follows 0 (fun _ _ => 0) [] :=
  ⟨tracks_empty limiter, Nat.zero_le _⟩

theorem Follows.verdict (h : limiter.Follows send.nowMs used counters) :
    (limiter.checkAtMillis counters send).2 =
      limiter.verdictOf (limiter.meter.refusal used send) := by
  cases hr : limiter.meter.refusal used send with
  | none => rw [checkAtMillis_of_granted h.tracks h.bounded hr, verdictOf]
  | some check => rw [checkAtMillis_of_refused h.tracks h.bounded hr, verdictOf]

theorem Follows.step (h : limiter.Follows send.nowMs used counters)
    (hf : limiter.meter.refusal used send = none → limiter.chargedFits counters send) :
    limiter.Follows send.nowMs (limiter.meter.grant used send)
      (limiter.checkAtMillis counters send).1 := by
  cases hr : limiter.meter.refusal used send with
  | none =>
    have hc := hf hr
    rw [checkAtMillis_of_granted h.tracks h.bounded hr]
    exact ⟨(h.tracks.charge hr).trim hc, length_trimState hc⟩
  | some check =>
    rw [checkAtMillis_of_refused h.tracks h.bounded hr, grant_of_refused hr]
    exact h

theorem Follows.fits (h : limiter.Follows send.nowMs used counters)
    (hf : limiter.Fits counters (send :: rest)) :
    limiter.meter.refusal used send = none → limiter.chargedFits counters send := by
  intro hg
  exact hf.1 (h.verdict.trans (verdictOf_eq_ok.mpr hg))

theorem verdicts_eq (h : limiter.Follows nowMs used counters) (ho : Ordered nowMs sends)
    (hf : limiter.Fits counters sends) : limiter.verdicts counters sends =
      (limiter.meter.answers used sends).map fun answer =>
        (answer.1, limiter.verdictOf answer.2) := by
  induction sends generalizing nowMs used counters with
  | nil => rfl
  | cons send rest ih =>
    have hn := h.later ho.head
    rw [verdicts, Meter.answers, List.map_cons, hn.verdict, ih (hn.step (hn.fits hf)) ho.tail hf.2]

theorem chargedFits_of_le (h : limiter.Follows send.nowMs used counters)
    (h' : limiter.Follows send.nowMs used' counters') (hg : limiter.meter.refusal used send = none)
    (hg' : limiter.meter.refusal used' send = none)
    (hle : ∀ window key, used' window key ≤ used window key)
    (hf : limiter.chargedFits counters send) : limiter.chargedFits counters' send := by
  have ht := h.tracks.charge hg
  have ht' := h'.tracks.charge hg'
  have hr := hg'.trans hg.symm
  unfold chargedFits at hf ⊢
  refine Nat.le_trans ?_ hf
  rw [← List.length_map fun entry : String × WindowCounter => entry.1,
    ← List.length_map fun entry : String × WindowCounter => entry.1]
  refine List.Subperm.length_le (List.Nodup.subperm ?_ ?_)
  · exact (List.filter_sublist.map _).nodup ht'.nodup
  · intro key hk
    obtain ⟨entry, hm, rfl⟩ := List.mem_map.mp hk
    obtain ⟨hc, hl⟩ := List.mem_filter.mp hm
    have hl := of_decide_eq_true hl
    have hp := (ht'.backed entry hc).trans_le (grant_mono hr (hle _ _))
    obtain ⟨counter, hke, hw⟩ := ht.kept _ _ hl hp
    exact List.mem_map.mpr ⟨(entry.1, counter),
      List.mem_filter.mpr ⟨hke, decide_eq_true (hl.trans hw)⟩, rfl⟩

theorem verdicts_filter (mine : Send → Bool) (owned : String → Prop)
    (h : limiter.Follows nowMs used counters) (h' : limiter.Follows nowMs used' counters')
    (hle : ∀ window key, used' window key ≤ used window key)
    (ha : ∀ window key, owned key → used' window key = used window key)
    (hmi : ∀ send ∈ sends, mine send → ∀ check ∈ buildChecks limiter.config send, owned check.key)
    (hf : ∀ send ∈ sends, mine send = false →
      ∀ check ∈ buildChecks limiter.config send, ¬ owned check.key)
    (ho : Ordered nowMs sends) (hfi : limiter.Fits counters sends) :
    (limiter.verdicts counters sends).filter (fun answer => mine answer.1) =
      limiter.verdicts counters' (sends.filter mine) := by
  induction sends generalizing nowMs used used' counters counters' with
  | nil => rfl
  | cons send rest ih =>
    have hn := h.later ho.head
    have hn' := h'.later ho.head
    have hnx := hn.step (hn.fits hfi)
    have hmi' := fun other hm => hmi other (List.mem_cons_of_mem send hm)
    have hf' := fun other hm => hf other (List.mem_cons_of_mem send hm)
    rw [verdicts]
    cases hs : mine send with
    | true =>
      have hr : limiter.meter.refusal used' send = limiter.meter.refusal used send :=
        refusal_congr fun check hm =>
          ha _ _ (hmi send List.mem_cons_self hs check hm)
      have hnx' := hn'.step fun hg' =>
        chargedFits_of_le hn hn' (hr.symm.trans hg') hg' hle (hn.fits hfi (hr.symm.trans hg'))
      rw [List.filter_cons_of_pos (by simpa using hs), List.filter_cons_of_pos hs,
        verdicts, hn.verdict, hn'.verdict, hr]
      rw [ih hnx hnx' (fun _ _ => grant_mono hr (hle _ _))
        (fun _ _ hon => grant_congr hr (ha _ _ hon)) hmi' hf' ho.tail hfi.2]
    | false =>
      rw [List.filter_cons_of_neg (by simp [hs]), List.filter_cons_of_neg (by simp [hs])]
      refine ih hnx hn' (fun _ _ => (hle _ _).trans le_grant) ?_ hmi' hf' ho.tail hfi.2
      intro window key hon
      rw [ha window key hon]
      refine (grant_of_not_mem fun check hm heq => ?_).symm
      have hk : check.key = key := heq
      exact hf send List.mem_cons_self hs check hm (hk ▸ hon)

theorem length_checkAtMillis (hb : counters.length ≤ limiter.config.maxTrackedKeys)
    (hf : (limiter.checkAtMillis counters send).2 = .ok () → limiter.chargedFits counters send) :
    (limiter.checkAtMillis counters send).1.length ≤ limiter.config.maxTrackedKeys := by
  rw [checkAtMillis_eq hb] at hf ⊢
  split
  · exact hb
  · rename_i hn
    rw [hn] at hf
    exact length_trimState (hf rfl)

theorem length_after (hb : counters.length ≤ limiter.config.maxTrackedKeys)
    (hf : limiter.Fits counters (sends ++ rest)) :
    (limiter.after counters sends).length ≤ limiter.config.maxTrackedKeys := by
  induction sends generalizing counters with
  | nil => exact hb
  | cons send before ih => exact ih (length_checkAtMillis hb hf.1) hf.2

end Runs

section Bounds

variable {limiter : SendRateLimiter} {counters : Counters}

theorem trimState_sublist (limiter : SendRateLimiter) (nowMs : Nat) (counters : Counters) :
    (limiter.trimState nowMs counters).Sublist counters := by
  unfold trimState
  dsimp only
  split
  · exact .refl _
  · split
    · exact List.filter_sublist
    · exact List.filter_sublist.trans List.filter_sublist

-- The keys that go are as many as are too many, since the map lists each key once.
theorem length_trimState_le (hn : (counters.map (·.1)).Nodup) (nowMs : Nat) :
    (limiter.trimState nowMs counters).length ≤ limiter.config.maxTrackedKeys := by
  unfold trimState
  dsimp only
  split
  · assumption
  split
  · assumption
  generalize hl : limiter.live nowMs counters = live
  have hd : (live.map (·.1)).Nodup := hl ▸ hn.sublist (List.filter_sublist.map _)
  have hp := limiter.order.keys_perm live
  set gone := (limiter.order.keys live).take (live.length - limiter.config.maxTrackedKeys)
  have hg : gone.length = live.length - limiter.config.maxTrackedKeys := by
    have hk : (limiter.order.keys live).length = live.length := by simpa using hp.length_eq
    rw [List.length_take, hk]
    omega
  have hs : gone.length ≤ (live.filter fun entry => entry.1 ∈ gone).length := by
    have hsub : gone ⊆ (live.filter fun entry => entry.1 ∈ gone).map (·.1) := by
      intro key hk
      obtain ⟨entry, hm, rfl⟩ := List.mem_map.mp (hp.subset (List.mem_of_mem_take hk))
      exact List.mem_map_of_mem (List.mem_filter.mpr ⟨hm, by simpa using hk⟩)
    have hnd : gone.Nodup := (hp.nodup_iff.mpr hd).sublist (List.take_sublist _ _)
    simpa using (hnd.subperm hsub).length_le
  have hsum := List.length_eq_length_filter_add (l := live) fun entry => decide (entry.1 ∈ gone)
  simp only [← decide_not] at hsum
  omega

theorem check_spec (hb : counters.length ≤ limiter.config.maxTrackedKeys)
    (hn : (counters.map (·.1)).Nodup) (send : Send) :
    (limiter.check counters send).1.length ≤ limiter.config.maxTrackedKeys ∧
      ((limiter.check counters send).1.map (·.1)).Nodup ∧
      ∀ error, (limiter.check counters send).2 = .error error →
        (limiter.check counters send).1.Sublist counters := by
  rw [check_eq_checkAtMillis]
  unfold checkAtMillis
  dsimp only
  split
  · exact ⟨hb, hn, nofun⟩
  · have ht := trimState_sublist limiter send.nowMs counters
    have htn := hn.sublist (ht.map Prod.fst)
    split
    · exact ⟨length_trimState_le hn _, htn, fun _ _ => ht⟩
    · exact ⟨length_trimState_le (nodup_charge htn) _,
        (nodup_charge htn).sublist ((trimState_sublist ..).map _), nofun⟩

-- Whatever the load, and also when keys in use are dropped for room.
theorem tracked_keys_are_bounded (limiter : SendRateLimiter) (sends : List Send) (send : Send) :
    let counters := sends.foldl (fun counters send => (limiter.check counters send).1) []
    counters.length ≤ limiter.config.maxTrackedKeys ∧ (counters.map (·.1)).Nodup ∧
      ∀ error, (limiter.check counters send).2 = .error error →
        (limiter.check counters send).1.Sublist counters := by
  have hr : ∀ counters : Counters, counters.length ≤ limiter.config.maxTrackedKeys →
      (counters.map (·.1)).Nodup →
      (sends.foldl (fun counters send => (limiter.check counters send).1) counters).length ≤
          limiter.config.maxTrackedKeys ∧
        ((sends.foldl (fun counters send => (limiter.check counters send).1) counters).map
          (·.1)).Nodup := by
    induction sends with
    | nil => exact fun _ hb hn => ⟨hb, hn⟩
    | cons first rest ih =>
      intro counters hb hn
      obtain ⟨hb', hn', -⟩ := check_spec hb hn first
      exact ih _ hb' hn'
  obtain ⟨hb, hn⟩ := hr [] (Nat.zero_le _) List.nodup_nil
  exact ⟨hb, hn, (check_spec hb hn send).2.2⟩

end Bounds

section Claims

variable (limiter : SendRateLimiter) (quota : String → Nat) (sends : List Send)

-- The calls of one window that were accepted.
def acceptedIn (windowStartMs : Nat) (p : Send → Bool) : Nat :=
  (limiter.verdicts [] sends).countP fun answer =>
    decide (answer.2 = .ok ()) && decide (limiter.windowStart answer.1.nowMs = windowStartMs) &&
      p answer.1

-- Calls in the order of their times, under quotas that stay, within the capacity.
structure Steady : Prop where
  ordered : sends.Pairwise fun a b => a.nowMs ≤ b.nowMs
  quota : ∀ send ∈ sends, send.tenantSendQps = quota send.tenantId
  fits : limiter.Fits [] sends

-- No call of a tenant is counted under a key that a call of another tenant is counted under.
def TenantsApart : Prop :=
  ∀ a ∈ sends, ∀ b ∈ sends, a.tenantId ≠ b.tenantId →
    ∀ check ∈ buildChecks limiter.config a, ∀ other ∈ buildChecks limiter.config b,
      check.key ≠ other.key

structure Exact : Prop where
  tenant : ∀ windowStartMs tenantId, limiter.config.enabled →
    0 < limiter.config.tenantLimit (quota tenantId) →
    limiter.acceptedIn sends windowStartMs (fun send => send.tenantId = tenantId) ≤
      limiter.config.tenantLimit (quota tenantId)
  sender : ∀ windowStartMs tenantId senderId, limiter.config.enabled →
    0 < limiter.config.tenantSenderPerSecond →
    limiter.acceptedIn sends windowStartMs
        (fun send => send.tenantId = tenantId && send.message.senderId = senderId) ≤
      limiter.config.tenantSenderPerSecond
  conversation : ∀ windowStartMs tenantId conversationId, limiter.config.enabled →
    0 < limiter.config.tenantConversationPerSecond →
    limiter.acceptedIn sends windowStartMs
        (fun send => send.tenantId = tenantId && send.message.conversationId = conversationId) ≤
      limiter.config.tenantConversationPerSecond
  refused : ∀ before send rest error, sends = before ++ send :: rest →
    (limiter.checkAtMillis (limiter.after [] before) send).2 = .error error →
    (limiter.checkAtMillis (limiter.after [] before) send).1 = limiter.after [] before
  alone : ∀ tenantId,
    (limiter.verdicts [] sends).filter (fun answer => answer.1.tenantId = tenantId) =
      limiter.verdicts [] (sends.filter fun send => send.tenantId = tenantId)

variable {limiter quota sends}

theorem Steady.orderedFrom (h : limiter.Steady quota sends) : Ordered 0 sends :=
  ⟨fun _ _ => Nat.zero_le _, h.ordered⟩

theorem Steady.acceptedIn_le (h : limiter.Steady quota sends) {p : Send → Bool} (key : String)
    {bound windowStartMs : Nat}
    (hc : ∀ send ∈ sends, p send →
      ∃ check ∈ buildChecks limiter.config send, check.key = key ∧ check.limit ≤ bound) :
    limiter.acceptedIn sends windowStartMs p ≤ bound := by
  have hle : (limiter.meter.answers (fun _ _ => 0) sends).countP
      (fun answer => answer.2.isNone &&
        decide (limiter.meter.window answer.1 = windowStartMs) && p answer.1) ≤ bound - 0 :=
    granted_le p sends hc
  unfold acceptedIn
  rw [verdicts_eq (follows_empty limiter) h.orderedFrom h.fits, List.countP_map]
  refine Nat.le_trans (Nat.le_of_eq ?_) (hle.trans (Nat.sub_le _ _))
  refine List.countP_congr fun answer _ => ?_
  simp only [Function.comp_apply, verdictOf_eq_ok, Bool.and_eq_true, decide_eq_true_eq,
    Option.isNone_iff_eq_none]
  exact Iff.rfl

theorem mem_tenant_check {config : SendRateLimitConfig} {send : Send} (hen : config.enabled)
    (hl : 0 < config.tenantLimit send.tenantSendQps) :
    (⟨"tenant:" ++ nonEmptyOr send.tenantId "0", .tenant,
      config.tenantLimit send.tenantSendQps⟩ : RateLimitCheck) ∈ buildChecks config send := by
  simp [buildChecks, hen, hl]

theorem mem_sender_check {config : SendRateLimitConfig} {send : Send} (hen : config.enabled)
    (hl : 0 < config.tenantSenderPerSecond) :
    (⟨"tenant_sender:" ++ nonEmptyOr send.tenantId "0" ++ ":" ++
        nonEmptyOr send.message.senderId "_", .tenantSender,
      config.tenantSenderPerSecond⟩ : RateLimitCheck) ∈ buildChecks config send := by
  simp [buildChecks, hen, hl]

theorem mem_conversation_check {config : SendRateLimitConfig} {send : Send}
    (hen : config.enabled) (hl : 0 < config.tenantConversationPerSecond) :
    (⟨"tenant_conversation:" ++ nonEmptyOr send.tenantId "0" ++ ":" ++
        nonEmptyOr send.message.conversationId "_", .tenantConversation,
      config.tenantConversationPerSecond⟩ : RateLimitCheck) ∈ buildChecks config send := by
  simp [buildChecks, hen, hl]

theorem exact_of_apart (h : limiter.Steady quota sends) (ha : limiter.TenantsApart sends) :
    limiter.Exact quota sends where
  tenant windowStartMs tenantId hen hl := by
    refine h.acceptedIn_le ("tenant:" ++ nonEmptyOr tenantId "0") fun send hm hp => ?_
    obtain rfl := of_decide_eq_true hp
    have hq := h.quota send hm
    rw [← hq] at hl ⊢
    exact ⟨_, mem_tenant_check hen hl, rfl, Nat.le_refl _⟩
  sender windowStartMs tenantId senderId hen hl := by
    refine h.acceptedIn_le ("tenant_sender:" ++ nonEmptyOr tenantId "0" ++ ":" ++
      nonEmptyOr senderId "_") fun send hm hp => ?_
    simp only [Bool.and_eq_true, decide_eq_true_eq] at hp
    obtain ⟨rfl, rfl⟩ := hp
    exact ⟨_, mem_sender_check hen hl, rfl, Nat.le_refl _⟩
  conversation windowStartMs tenantId conversationId hen hl := by
    refine h.acceptedIn_le ("tenant_conversation:" ++ nonEmptyOr tenantId "0" ++ ":" ++
      nonEmptyOr conversationId "_") fun send hm hp => ?_
    simp only [Bool.and_eq_true, decide_eq_true_eq] at hp
    obtain ⟨rfl, rfl⟩ := hp
    exact ⟨_, mem_conversation_check hen hl, rfl, Nat.le_refl _⟩
  refused before send rest error hs hr := by
    subst hs
    exact counters_of_refused (length_after (Nat.zero_le _) h.fits) hr
  alone tenantId := by
    refine verdicts_filter (fun send => send.tenantId = tenantId)
      (fun key => ∃ send ∈ sends, send.tenantId = tenantId ∧
        ∃ check ∈ buildChecks limiter.config send, check.key = key)
      (follows_empty limiter) (follows_empty limiter) (fun _ _ => Nat.le_refl _)
      (fun _ _ _ => rfl) ?_ ?_ h.orderedFrom h.fits
    · intro send hm hmi check hc
      exact ⟨send, hm, of_decide_eq_true hmi, check, hc, rfl⟩
    · rintro send hm hf check hc ⟨other, ho, rfl, charged, hch, hk⟩
      exact ha other ho send hm (Ne.symm (of_decide_eq_false hf)) charged hch check hc hk

end Claims

section PlainTenants

variable {limiter : SendRateLimiter} {sends : List Send} {a b s t : String}

theorem eq_of_separated (tag : String) (ha : ':' ∉ a.toList) (hb : ':' ∉ b.toList)
    (h : tag ++ a ++ ":" ++ s = tag ++ b ++ ":" ++ t) : a = b := by
  have hc : (":" : String).toList = [':'] := rfl
  have hl : a.toList ++ ':' :: s.toList = b.toList ++ ':' :: t.toList := by
    simpa [String.toList_append, hc] using congrArg String.toList h
  exact String.toList_inj.mp (Delimited.eq_of_append_mark_eq ha hb hl)

theorem tenantsApart_of_plain
    (hp : ∀ send ∈ sends, nonEmptyOr send.tenantId "0" = send.tenantId ∧
      ':' ∉ send.tenantId.toList) : limiter.TenantsApart sends := by
  intro a ha b hb hne check hch other ho heq
  obtain ⟨hn, hc⟩ := hp a ha
  obtain ⟨hn', hc'⟩ := hp b hb
  have hch := key_eq hch
  have ho := key_eq ho
  rw [hn] at hch
  rw [hn', ← heq] at ho
  rcases hch with hk | hk | hk
  · rw [hk] at ho
    rcases ho with ho | ho | ho
    · exact hne (by simpa using ho)
    · exact tenant_ne_sender _ _ _ _ ho
    · exact tenant_ne_conversation _ _ _ _ ho
  · rw [hk] at ho
    rcases ho with ho | ho | ho
    · exact tenant_ne_sender _ _ _ _ ho.symm
    · exact hne (eq_of_separated _ hc hc' ho)
    · exact sender_ne_conversation _ _ _ _ _ _ ho
  · rw [hk] at ho
    rcases ho with ho | ho | ho
    · exact tenant_ne_conversation _ _ _ _ ho.symm
    · exact sender_ne_conversation _ _ _ _ _ _ ho.symm
    · exact hne (eq_of_separated _ hc hc' ho)

end PlainTenants

end SendRateLimiter

section Sequences

variable (config : SendRateLimitConfig) (order : HashOrder) (quota : String → Nat)
  (sends : List Send)

-- Limits hold and refusals change nothing in any steady sequence of calls. Where no two tenants
-- share a key, a tenant is answered as if it were alone.
theorem send_rate_exact (hsteady : (SendRateLimiter.new config order).Steady quota sends)
    (hapart : (SendRateLimiter.new config order).TenantsApart sends) :
    (SendRateLimiter.new config order).Exact quota sends :=
  SendRateLimiter.exact_of_apart hsteady hapart

def listedOrder : HashOrder := ⟨fun counters => counters.map (·.1), fun _ => .refl _⟩

-- One message a second for each sender of a tenant.
def oneEach : SendRateLimiter :=
  .new { enabled := true, tenantSenderPerSecond := 1 } listedOrder

def sendOf (tenantId senderId : String) : Send where
  nowMs := 0
  tenantId := tenantId
  message := { senderId := senderId }

-- The second message of the sender is refused, the one of another tenant's sender is not.
theorem two_tenants_are_apart : oneEach.Exact (fun _ => 0)
    [sendOf "acme" "alice", sendOf "beta" "alice", sendOf "acme" "alice"] := by
  refine send_rate_exact _ _ _ _ ⟨?_, ?_, ?_⟩ ?_
  · decide
  · decide
  · simp only [SendRateLimiter.Fits, SendRateLimiter.chargedFits]
    decide
  · refine SendRateLimiter.tenantsApart_of_plain ?_
    decide

def sharedKey : List Send := [sendOf "acme" "eu:alice", sendOf "acme:eu" "alice"]

-- A tenant is refused its first message because another tenant has sent one.
theorem tenants_share_a_key :
    oneEach.Steady (fun _ => 0) sharedKey ∧ ¬ oneEach.Exact (fun _ => 0) sharedKey := by
  refine ⟨⟨?_, ?_, ?_⟩, fun hexact => ?_⟩
  · decide
  · decide
  · simp only [sharedKey, SendRateLimiter.Fits, SendRateLimiter.chargedFits]
    decide
  · have halone := congrArg (List.map (·.2)) (hexact.alone "acme:eu")
    exact absurd halone (by decide)

end Sequences

end FlareIm.SendRateLimit
