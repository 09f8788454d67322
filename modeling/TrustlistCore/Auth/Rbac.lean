import TrustlistCore.Auth.Errors
import Mathlib.Data.List.Lattice

namespace TrustlistCore.Auth

inductive Archetype
  | OPERATOR
  | BRAND_CUSTOMER
  | FOUNDATION_INTERNAL
  deriving DecidableEq, Repr

def Archetype.value : Archetype → String
  | .OPERATOR => "operator"
  | .BRAND_CUSTOMER => "brand_customer"
  | .FOUNDATION_INTERNAL => "foundation_internal"

inductive Permission
  | TEAM_MANAGE
  | ACCOUNT_MANAGE
  | DOMAIN_VIEW
  | EVIDENCE_SUBMIT
  | ATTESTATION_DEPLOY
  | DECISION_CONTEST
  | AUDIT_MANAGE
  | AUDIT_VIEW
  | CERTIFICATION_GENERATE
  | DATA_SOURCE_CONNECT
  | GOVERNANCE_VOTE
  | GOVERNANCE_OBSERVE
  | ADJUDICATION_REVIEW
  | PLATFORM_OPERATE
  | CODEBASE_MAINTAIN
  deriving DecidableEq, Repr

namespace Permission

def value : Permission → String
  | TEAM_MANAGE => "team:manage"
  | ACCOUNT_MANAGE => "account:manage"
  | DOMAIN_VIEW => "domain:view"
  | EVIDENCE_SUBMIT => "evidence:submit"
  | ATTESTATION_DEPLOY => "attestation:deploy"
  | DECISION_CONTEST => "decision:contest"
  | AUDIT_MANAGE => "audit:manage"
  | AUDIT_VIEW => "audit:view"
  | CERTIFICATION_GENERATE => "certification:generate"
  | DATA_SOURCE_CONNECT => "data_source:connect"
  | GOVERNANCE_VOTE => "governance:vote"
  | GOVERNANCE_OBSERVE => "governance:observe"
  | ADJUDICATION_REVIEW => "adjudication:review"
  | PLATFORM_OPERATE => "platform:operate"
  | CODEBASE_MAINTAIN => "codebase:maintain"

def all : List Permission :=
  [TEAM_MANAGE, ACCOUNT_MANAGE, DOMAIN_VIEW, EVIDENCE_SUBMIT, ATTESTATION_DEPLOY,
    DECISION_CONTEST, AUDIT_MANAGE, AUDIT_VIEW, CERTIFICATION_GENERATE, DATA_SOURCE_CONNECT,
    GOVERNANCE_VOTE, GOVERNANCE_OBSERVE, ADJUDICATION_REVIEW, PLATFORM_OPERATE, CODEBASE_MAINTAIN]

end Permission

structure Role where
  identifier : String
  archetype : Archetype
  permissions : List Permission
  description : String
  featureFlaggedOff : Bool
  deriving DecidableEq, Repr

def Role.grants (self : Role) (permission : Permission) : Bool :=
  permission ∈ self.permissions

-- The two checks of `__post_init__` are the last two fields, so a mis-keyed or
-- mis-pinned catalogue cannot be built.
structure RoleCatalogue where
  archetype : Archetype
  roles : List (String × Role)
  keyed : ∀ entry ∈ roles, entry.2.identifier = entry.1
  pinned : ∀ entry ∈ roles, entry.2.archetype = archetype

namespace RoleCatalogue

-- A later entry of a dict display replaces an earlier one with the same key.
def lookup (self : RoleCatalogue) (identifier : String) : Option Role :=
  (self.roles.reverse.find? (fun entry => entry.1 = identifier)).map Prod.snd

def has (self : RoleCatalogue) (identifier : String) : Bool :=
  (self.lookup identifier).isSome

-- `repr` is Python's `repr` of a string.
def get (repr : String → String) (self : RoleCatalogue) (identifier : String) :
    Except Failure Role :=
  match self.lookup identifier with
  | some role => .ok role
  | none => .error (.unknownRole
      s!"{repr identifier} is not a role in the {self.archetype.value} catalogue")

def activeRoleIdentifiers (self : RoleCatalogue) : List String :=
  (self.roles.filter (fun entry => !entry.2.featureFlaggedOff)).map Prod.fst

-- One turn of the loop over the held identifiers: a flagged-off role adds nothing.
def resolveStep (repr : String → String) (self : RoleCatalogue)
    (resolved : List Permission) (identifier : String) : Except Failure (List Permission) := do
  let role ← self.get repr identifier
  if role.featureFlaggedOff then
    return resolved
  return resolved ∪ role.permissions

def resolvePermissions (repr : String → String) (self : RoleCatalogue)
    (roleIdentifiers : List String) : Except Failure (List Permission) :=
  roleIdentifiers.foldlM (self.resolveStep repr) []

def hasPermission (repr : String → String) (self : RoleCatalogue)
    (roleIdentifiers : List String) (permission : Permission) : Except Failure Bool := do
  let resolved ← self.resolvePermissions repr roleIdentifiers
  return decide (permission ∈ resolved)

end RoleCatalogue

def role (identifier : String) (archetype : Archetype) (permissions : List Permission)
    (description : String) (featureFlaggedOff : Bool) : Role :=
  { identifier, archetype, permissions, description, featureFlaggedOff }

def keyedRoles (roles : List Role) : List (String × Role) :=
  roles.map (fun role => (role.identifier, role))

def catalogue (archetype : Archetype) (roles : List Role)
    (hroles : ∀ role ∈ roles, role.archetype = archetype) : RoleCatalogue where
  archetype := archetype
  roles := keyedRoles roles
  keyed := by
    intro entry he
    obtain ⟨role, _, rfl⟩ := List.mem_map.mp he
    rfl
  pinned := by
    intro entry he
    obtain ⟨role, hr, rfl⟩ := List.mem_map.mp he
    exact hroles role hr

def OPERATOR_CATALOGUE : RoleCatalogue :=
  catalogue .OPERATOR
    [role "owner" .OPERATOR
      [.ACCOUNT_MANAGE, .TEAM_MANAGE, .DOMAIN_VIEW, .EVIDENCE_SUBMIT, .ATTESTATION_DEPLOY,
        .DECISION_CONTEST]
      "Account owner — full control including account-level settings." false,
    role "admin" .OPERATOR
      [.TEAM_MANAGE, .DOMAIN_VIEW, .EVIDENCE_SUBMIT, .ATTESTATION_DEPLOY, .DECISION_CONTEST]
      "Administrator — manages the team and all operator workflows." false,
    role "operator" .OPERATOR
      [.DOMAIN_VIEW, .EVIDENCE_SUBMIT, .ATTESTATION_DEPLOY, .DECISION_CONTEST]
      "Operator — the default workhorse role; full domain workflows, no team administration."
      false,
    role "read_only" .OPERATOR [.DOMAIN_VIEW]
      "Read-only — views scores and signals, makes no changes." false]
    (by decide)

def BRAND_CUSTOMER_CATALOGUE : RoleCatalogue :=
  catalogue .BRAND_CUSTOMER
    [role "owner" .BRAND_CUSTOMER
      [.ACCOUNT_MANAGE, .TEAM_MANAGE, .AUDIT_MANAGE, .AUDIT_VIEW, .CERTIFICATION_GENERATE,
        .DATA_SOURCE_CONNECT]
      "Account owner — full control including account-level settings." false,
    role "admin" .BRAND_CUSTOMER
      [.TEAM_MANAGE, .AUDIT_MANAGE, .AUDIT_VIEW, .CERTIFICATION_GENERATE, .DATA_SOURCE_CONNECT]
      "Administrator — manages the team and all brand-customer workflows." false,
    role "operator" .BRAND_CUSTOMER
      [.AUDIT_MANAGE, .AUDIT_VIEW, .CERTIFICATION_GENERATE, .DATA_SOURCE_CONNECT]
      ("Operator — the default workhorse role; runs audits and certifications, no team " ++
        "administration. Same name as the operator-archetype Operator role but a distinct scope.")
      false,
    role "analyst" .BRAND_CUSTOMER [.AUDIT_MANAGE, .AUDIT_VIEW, .CERTIFICATION_GENERATE]
      "Analyst — runs and interprets audits; cannot connect data sources." false,
    role "read_only" .BRAND_CUSTOMER [.AUDIT_VIEW]
      "Read-only — views audit results, makes no changes." false]
    (by decide)

def FOUNDATION_INTERNAL_CATALOGUE : RoleCatalogue :=
  catalogue .FOUNDATION_INTERNAL
    [role "maintainer" .FOUNDATION_INTERNAL [.CODEBASE_MAINTAIN, .PLATFORM_OPERATE]
      "Foundation maintainer — open-source codebase maintainer. Active at Stage 0." false,
    role "ops_staff" .FOUNDATION_INTERNAL [.PLATFORM_OPERATE]
      ("Foundation operations staff — incorporation, partnership and community work. Active at " ++
        "Stage 0.")
      false,
    role "trust_council_voting" .FOUNDATION_INTERNAL [.GOVERNANCE_VOTE, .GOVERNANCE_OBSERVE]
      ("Trust Council voting member. Feature-flagged off until Foundation incorporation and " ++
        "Trust Council seating.")
      true,
    role "trust_council_observer" .FOUNDATION_INTERNAL [.GOVERNANCE_OBSERVE]
      ("Trust Council observer (IAB-SA, commercial-entity). Feature-flagged off until Trust " ++
        "Council seating.")
      true,
    role "adjudicator" .FOUNDATION_INTERNAL [.ADJUDICATION_REVIEW]
      ("Designated adjudicator — staffs the contestation review queue. Feature-flagged off " ++
        "until Foundation incorporation.")
      true]
    (by decide)

def CATALOGUES : Archetype → RoleCatalogue
  | .OPERATOR => OPERATOR_CATALOGUE
  | .BRAND_CUSTOMER => BRAND_CUSTOMER_CATALOGUE
  | .FOUNDATION_INTERNAL => FOUNDATION_INTERNAL_CATALOGUE

def catalogueFor (archetype : Archetype) : RoleCatalogue :=
  CATALOGUES archetype

def validatePermission (repr : String → String) (permission : String) :
    Except Failure Permission :=
  match Permission.all.find? (fun candidate => candidate.value = permission) with
  | some resolved => .ok resolved
  | none => .error (.unknownPermission
      s!"{repr permission} is not a permission in the common model")

end TrustlistCore.Auth
