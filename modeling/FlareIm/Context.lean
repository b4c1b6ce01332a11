import FlareIm.Lib.Text

namespace FlareIm.Context

open Text

inductive SignedActorType where
  | user
  | tenantAdmin
  | staff
  | guest
  | service
  | system
  deriving DecidableEq

-- The claims of a verified signed context.
structure SignedContextClaims where
  kid : String
  actorType : SignedActorType
  actorId : String
  roles : List String := []
  credentialId : Option String := none
  deriving DecidableEq

-- The actor an unsigned context names.
structure Actor where
  isUser : Bool
  actorId : String
  deriving DecidableEq

structure Ctx where
  tenantId : Option String := none
  userId : Option String := none
  actor : Option Actor := none
  claims : Option SignedContextClaims := none
  deriving DecidableEq

-- Signing key, actor and role of the publisher of plugin shared state.
def CARD_POST_KID : String := "capability"
def STATE_PUBLISHER_ID : String := "flare-capability"
def STATE_PUBLISH_ROLE : String := "plugin.state.publish"

def isCardPostContext (claims : SignedContextClaims) : Bool :=
  claims.kid == CARD_POST_KID

def isPluginStatePublisher (claims : SignedContextClaims) : Bool :=
  claims.kid == CARD_POST_KID && claims.actorType == .system &&
    claims.actorId == STATE_PUBLISHER_ID && claims.roles == [STATE_PUBLISH_ROLE] &&
    claims.credentialId.isNone

def DEFAULT_TENANT_ID : String := "0"

def normalizeTenantId (tenantId : String) : String :=
  if trim tenantId = "" ∨ trim tenantId = "default" then DEFAULT_TENANT_ID else trim tenantId

-- A missing or blank tenant stays missing: it never becomes the default tenant.
def normalizeOptionalTenantId (tenantId : Option String) : Option String :=
  ((tenantId.map trim).filter (· ≠ "")).map normalizeTenantId

theorem normalizeOptionalTenantId_eq_none (tenantId : Option String) :
    normalizeOptionalTenantId tenantId = none ↔ ∀ tenant, tenantId = some tenant → isBlank tenant := by
  cases tenantId <;> simp [normalizeOptionalTenantId, isBlank, Option.filter]

theorem normalizeTenantId_ne_empty (tenantId : String) : normalizeTenantId tenantId ≠ "" := by
  unfold normalizeTenantId
  split
  · decide
  · rename_i h
    exact fun heq => h (.inl heq)

theorem normalizeTenantId_idem (tenantId : String) :
    normalizeTenantId (normalizeTenantId tenantId) = normalizeTenantId tenantId := by
  by_cases h : trim tenantId = "" ∨ trim tenantId = "default"
  · have hde : normalizeTenantId tenantId = DEFAULT_TENANT_ID := if_pos h
    rw [hde]
    decide
  · have hs : normalizeTenantId tenantId = trim tenantId := if_neg h
    rw [hs, normalizeTenantId, trim_trim, if_neg h]

-- A normalised tenant is a fixed point, so a task that stores it is replayed under it.
theorem normalizeOptionalTenantId_of_normalized {tenantId : Option String} {tenant : String}
    (h : normalizeOptionalTenantId tenantId = some tenant) :
    normalizeOptionalTenantId (some tenant) = some tenant := by
  have hn : ∃ raw, tenant = normalizeTenantId raw := by
    obtain ⟨raw, -, hr⟩ := Option.map_eq_some_iff.mp h
    exact ⟨raw, hr.symm⟩
  obtain ⟨raw, rfl⟩ := hn
  have ht : trim (normalizeTenantId raw) = normalizeTenantId raw := by
    unfold normalizeTenantId
    split
    · decide
    · exact trim_trim raw
  simp [normalizeOptionalTenantId, Option.filter, ht, normalizeTenantId_ne_empty,
    normalizeTenantId_idem]

end FlareIm.Context
