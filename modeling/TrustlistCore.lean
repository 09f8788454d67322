import TrustlistCore.Auth.Audit
import TrustlistCore.Auth.Audit.Theorems
import TrustlistCore.Auth.AuditMirror
import TrustlistCore.Auth.AuditReports
import TrustlistCore.Auth.CanonicalConnection
import TrustlistCore.Auth.CanonicalConnection.Refinement
import TrustlistCore.Auth.CanonicalConnection.Theorems
import TrustlistCore.Auth.CredentialGuard
import TrustlistCore.Auth.CredentialStore
import TrustlistCore.Auth.EmailIndex
import TrustlistCore.Auth.Errors
import TrustlistCore.Auth.FakeProvider
import TrustlistCore.Auth.FakeProvider.Theorems
import TrustlistCore.Auth.GrantLedger
import TrustlistCore.Auth.HasPermission
import TrustlistCore.Auth.LoginFailure
import TrustlistCore.Auth.LoginFlow
import TrustlistCore.Auth.ProviderFrame
import TrustlistCore.Auth.ProviderRun
import TrustlistCore.Auth.Rbac
import TrustlistCore.Auth.Rbac.Theorems
import TrustlistCore.Auth.RoleStore
import TrustlistCore.Auth.RoleStore.Theorems
import TrustlistCore.Auth.Runtime
import TrustlistCore.Auth.Service
import TrustlistCore.Auth.Service.Theorems
import TrustlistCore.Auth.SessionLifecycle
import TrustlistCore.Auth.SessionRevocation
import TrustlistCore.Auth.SinkIndependence
import TrustlistCore.Auth.TokenErrors
import TrustlistCore.Auth.TokenIntegrity
import TrustlistCore.Auth.TokenRoundTrip
import TrustlistCore.Auth.Tokens
import TrustlistCore.Auth.Tokens.Theorems
import TrustlistCore.Auth.TotpEnrolment
import TrustlistCore.DataModel
import TrustlistCore.DataModel.ApplicationRole
import TrustlistCore.DataModel.CanonicalDatabase
import TrustlistCore.DataModel.CanonicalStore
import TrustlistCore.DataModel.EvidenceCurrent
import TrustlistCore.DataModel.Theorems
import TrustlistCore.DataModel.ViewProgress
import TrustlistCore.EventBus.AtLeastOnce
import TrustlistCore.EventBus.CanonicalKey
import TrustlistCore.EventBus.CanonicalParity
import TrustlistCore.EventBus.Consumer
import TrustlistCore.EventBus.Consumer.Theorems
import TrustlistCore.EventBus.Datum
import TrustlistCore.EventBus.Datum.Arrived
import TrustlistCore.EventBus.Datum.Ordinary
import TrustlistCore.EventBus.Datum.Theorems
import TrustlistCore.EventBus.DecodeErrors
import TrustlistCore.EventBus.DecoderAgreement
import TrustlistCore.EventBus.DedupStore
import TrustlistCore.EventBus.DedupWindow
import TrustlistCore.EventBus.Envelope
import TrustlistCore.EventBus.Envelope.Theorems
import TrustlistCore.EventBus.EnvelopeHop
import TrustlistCore.EventBus.EnvelopeParity
import TrustlistCore.EventBus.EnvelopeRoundTrip
import TrustlistCore.EventBus.Errors
import TrustlistCore.EventBus.Idempotency
import TrustlistCore.EventBus.Idempotency.Theorems
import TrustlistCore.EventBus.KeyDivergence
import TrustlistCore.EventBus.KeyStability
import TrustlistCore.EventBus.LruWindow
import TrustlistCore.EventBus.Producer
import TrustlistCore.EventBus.ProducerParity
import TrustlistCore.EventBus.Scanner
import TrustlistCore.EventBus.Scanner.Theorems
import TrustlistCore.EventBus.SchemaPinning
import TrustlistCore.EventBus.SchemaRegistry
import TrustlistCore.EventBus.TypeScript.CommitSafety
import TrustlistCore.EventBus.TypeScript.ConcurrentValidation
import TrustlistCore.EventBus.TypeScript.Consumer
import TrustlistCore.EventBus.TypeScript.DedupStore
import TrustlistCore.EventBus.TypeScript.Delivery
import TrustlistCore.EventBus.TypeScript.Envelope
import TrustlistCore.EventBus.TypeScript.Envelope.Theorems
import TrustlistCore.EventBus.TypeScript.Idempotency
import TrustlistCore.EventBus.TypeScript.Idempotency.Theorems
import TrustlistCore.EventBus.TypeScript.KeyStability
import TrustlistCore.EventBus.TypeScript.Producer
import TrustlistCore.EventBus.TypeScript.Received
import TrustlistCore.EventBus.TypeScript.SchemaRegistry
import TrustlistCore.EventBus.TypeScript.Value
import TrustlistCore.EventBus.TypeScript.Value.Carried
import TrustlistCore.EventBus.TypeScript.Value.Theorems
import TrustlistCore.EventBus.ValidationParity
import TrustlistCore.EventBus.Value
import TrustlistCore.EventBus.Value.Arranged
import TrustlistCore.EventBus.Value.Plain
import TrustlistCore.EventBus.Value.Theorems
import TrustlistCore.EvidenceWriter.Admission
import TrustlistCore.EvidenceWriter.Commits
import TrustlistCore.EvidenceWriter.Concurrency
import TrustlistCore.EvidenceWriter.Convergence
import TrustlistCore.EvidenceWriter.ExactlyOnce
import TrustlistCore.EvidenceWriter.Inserts
import TrustlistCore.EvidenceWriter.Pipeline
import TrustlistCore.EvidenceWriter.Process
import TrustlistCore.EvidenceWriter.Replay
import TrustlistCore.EvidenceWriter.Serialization
import TrustlistCore.EvidenceWriter.Writer
import TrustlistCore.EvidenceWriter.Writer.Theorems
import TrustlistCore.Library.Base64
import TrustlistCore.Library.Decimal
import TrustlistCore.Library.DistinctOn
import TrustlistCore.Library.Double
import TrustlistCore.Library.Double.Theorems
import TrustlistCore.Library.FirstWrite
import TrustlistCore.Library.Fixed
import TrustlistCore.Library.Float
import TrustlistCore.Library.Frame
import TrustlistCore.Library.IntLiteral
import TrustlistCore.Library.IsoTime
import TrustlistCore.Library.IsoTime.Theorems
import TrustlistCore.Library.Journal
import TrustlistCore.Library.Json
import TrustlistCore.Library.Json.Gaps
import TrustlistCore.Library.Json.Quoting
import TrustlistCore.Library.Json.Spaced
import TrustlistCore.Library.Json.Suffix
import TrustlistCore.Library.Json.Theorems
import TrustlistCore.Library.Lines
import TrustlistCore.Library.Lockstep
import TrustlistCore.Library.Members
import TrustlistCore.Library.Numeral
import TrustlistCore.Library.OrderBy
import TrustlistCore.Library.Pointwise
import TrustlistCore.Library.Recency
import TrustlistCore.Library.Relational
import TrustlistCore.Library.Relational.Integrity
import TrustlistCore.Library.Relational.Theorems
import TrustlistCore.Library.Result
import TrustlistCore.Library.Run
import TrustlistCore.Library.SecondaryIndex
import TrustlistCore.Library.Shortest
import TrustlistCore.Library.Simulation
import TrustlistCore.Library.Sorting
import TrustlistCore.Library.TextEncoding
import TrustlistCore.Library.Unicode
import TrustlistCore.Library.Utf8
import TrustlistCore.Library.Uuid
import TrustlistCore.Observability.Logging
import TrustlistCore.Observability.Logging.Theorems
import TrustlistCore.Reproducibility.Rerun
import TrustlistCore.Reproducibility.Snapshot
import TrustlistCore.Reproducibility.Snapshot.Theorems
import TrustlistCore.Reproducibility.StableBytes
import TrustlistCore.Reproducibility.StableBytes.Theorems
