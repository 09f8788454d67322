import TrustlistCore.EventBus.Envelope

namespace TrustlistCore.DataModel

open Library Unicode EventBus

abbrev Text := List CodePoint

inductive DomainStatus
  | green
  | grey
  | red
  | underReview
  | dormant
  deriving DecidableEq, Repr

inductive EvidenceSource
  | system
  | human
  | contributor
  | ctiPartner
  deriving DecidableEq, Repr

namespace EvidenceSource

def label : EvidenceSource → String
  | .system => "system"
  | .human => "human"
  | .contributor => "contributor"
  | .ctiPartner => "cti_partner"

def ofText (text : Text) : Option EvidenceSource :=
  [system, human, contributor, ctiPartner].find? fun source => points source.label = text

end EvidenceSource

-- The columns that have a server default of no account here are left out.
structure Domain where
  domainId : Uuid
  normalisedUrl : Text
  currentStatus : DomainStatus
  deriving DecidableEq

structure Provenance (Timestamp : Type) where
  provenanceId : Uuid
  source : EvidenceSource
  method : Text
  observedAt : Timestamp
  contributorIdentity : Option Text

structure Evidence (Timestamp Jsonb : Type) where
  evidenceId : Uuid
  domainId : Uuid
  signalClass : Text
  source : EvidenceSource
  method : Text
  sourceUrl : Text
  observedAt : Timestamp
  observedValue : Jsonb
  provenanceId : Uuid

-- The rows of the three tables, in the order of their insertion.
structure Tables (Timestamp Jsonb : Type) where
  domain : List Domain
  provenance : List (Provenance Timestamp)
  evidence : List (Evidence Timestamp Jsonb)

namespace Tables

variable {Timestamp Jsonb : Type}

def empty : Tables Timestamp Jsonb where
  domain := []
  provenance := []
  evidence := []

def append (tables more : Tables Timestamp Jsonb) : Tables Timestamp Jsonb where
  domain := tables.domain ++ more.domain
  provenance := tables.provenance ++ more.provenance
  evidence := tables.evidence ++ more.evidence

theorem append_empty (tables : Tables Timestamp Jsonb) : tables.append empty = tables := by
  simp only [append, empty, List.append_nil]

end Tables

-- What the server and its driver decide: the case and the white space of the locale, the
-- input of a time, the cast of a document to `jsonb`, the strings a text column takes and
-- what any other parameter is to one.
structure Server (Timestamp Jsonb : Type) where
  lower : Text → Text
  isSpace : CodePoint → Bool
  timestamptz : Text → Option Timestamp
  jsonb : Json.Tree → Option Jsonb
  accepts : Text → Bool
  convert : Value → Option Text

def uuidGroups : ℕ → ℕ → List Char → Option ℕ
  | 0, value, text => if text = [] then some value else none
  | groups + 1, value, text =>
      match Fixed.take Json.hexValue 16 4 text with
      | none => none
      | some (group, rest) =>
          uuidGroups groups (value * 0x10000 + group)
            (if groups ≠ 0 ∧ rest.head? = some '-' then rest.tail else rest)

-- The input of a `uuid`: braces around it are optional, and so is a hyphen after any four
-- digits but the last.
def uuidInput (text : Text) : Option Uuid :=
  match Value.characters text with
  | '\x7b' :: rest =>
      if rest.getLast? = some '\x7d' then (uuidGroups 8 0 rest.dropLast).bind Uuid.ofNat else none
  | text => (uuidGroups 8 0 text).bind Uuid.ofNat

def isLowerLetter (point : CodePoint) : Bool :=
  0x61 ≤ point.val ∧ point.val ≤ 0x7A

-- `[a-z0-9+.-]`
def isSchemeChar (point : CodePoint) : Bool :=
  isLowerLetter point ∨ (0x30 ≤ point.val ∧ point.val ≤ 0x39) ∨ point ∈ points "+.-"

-- `^[a-z][a-z0-9+.-]*://`
def hasScheme : Text → Bool
  | [] => false
  | first :: rest => isLowerLetter first ∧ points "://" <+: rest.dropWhile isSchemeChar

-- The CHECK `normalised_url_is_normalised`.
def isNormalised {Timestamp Jsonb : Type} (server : Server Timestamp Jsonb) (url : Text) : Bool :=
  url = server.lower url ∧ ¬ hasScheme url ∧ ¬ points "www." <+: url ∧ ¬ points "?" <:+: url ∧
    ¬ points "#" <:+: url ∧ ¬ url.any server.isSpace ∧ 0 < url.length

end TrustlistCore.DataModel
