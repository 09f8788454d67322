import TrustlistCore.EvidenceWriter.Concurrency

namespace TrustlistCore.EvidenceWriter

open Library Unicode EventBus DataModel

section Columns

variable {Timestamp Jsonb : Type} (server : Server Timestamp Jsonb) (maxStrDigits : ℕ)

-- What a text column that is not null takes.
def Takes : Value → Prop
  | .none => False
  | .str text => server.accepts text = true
  | value => (server.convert value).isSome = true

-- What the columns of the two rows take of the parameters.
structure Storable (sent : Parameters) : Prop where
  domainId : (uuidInput sent.domainId).isSome = true
  signalClass : server.accepts sent.signalClass = true
  sourceUrl : server.accepts sent.sourceUrl = true
  observedAt : (server.timestamptz sent.observedAt).isSome = true
  observedValue : ∃ tree,
    Value.document { sortKeys := false, defaultStr := false } maxStrDigits sent.observedValue =
      .ok tree ∧ (server.jsonb tree).isSome = true
  source : ∃ label ∈ ["system", "human", "contributor", "cti_partner"],
    sent.source = .str (points label)
  method : Takes server sent.method
  contributorIdentity : sent.contributorIdentity = .none ∨ Takes server sent.contributorIdentity

variable {server maxStrDigits}

theorem exists_orFail_iff {A : Type} {failure : WriteFailure} {value : Option A} :
    (∃ a, orFail failure value = .ok a) ↔ value.isSome = true := by
  rw [Option.isSome_iff_exists]
  exact exists_congr fun a => orFail_eq_ok_iff

theorem sourceColumn_eq_ok_iff {column : String} {value : Value} :
    (∃ source, sourceColumn column value = .ok source) ↔
      ∃ label ∈ ["system", "human", "contributor", "cti_partner"], value = .str (points label) := by
  constructor
  · rintro ⟨source, h⟩
    cases value with
    | str text =>
        have hfound := orFail_eq_ok_iff.mp h
        unfold EvidenceSource.ofText at hfound
        have hlabel : points source.label = text := by simpa using List.find?_some hfound
        refine ⟨source.label, ?_, by rw [hlabel]⟩
        cases source <;> decide
    | _ => exact nomatch h
  · rintro ⟨label, hlabel, rfl⟩
    simp only [List.mem_cons, List.not_mem_nil, or_false] at hlabel
    rcases hlabel with rfl | rfl | rfl | rfl
    · exact ⟨.system, by rfl⟩
    · exact ⟨.human, by rfl⟩
    · exact ⟨.contributor, by rfl⟩
    · exact ⟨.ctiPartner, by rfl⟩

theorem textColumn_eq_ok_iff {column : String} {value : Value} :
    (∃ stored, textColumn server column value = .ok stored) ↔ value = .none ∨ Takes server value := by
  cases value with
  | none => exact iff_of_true ⟨none, rfl⟩ (Or.inl rfl)
  | str text =>
      rw [or_iff_right Value.noConfusion, Takes, textColumn]
      cases server.accepts text with
      | true => exact iff_of_true ⟨some text, rfl⟩ rfl
      | false => exact iff_of_false Result.not_exists_ok Bool.false_ne_true
  | _ =>
      rw [or_iff_right Value.noConfusion]
      exact exists_orFail_iff.trans (by rw [Option.isSome_map]; rfl)

theorem requiredText_eq_ok_iff {column : String} {value : Value} :
    (∃ stored, requiredText server column value = .ok stored) ↔ Takes server value := by
  cases value with
  | none => exact iff_of_false Result.not_exists_ok id
  | str text =>
      simp only [requiredText_str_eq_ok_iff]
      exact ⟨fun ⟨_, haccepts, _⟩ => haccepts, fun h => ⟨text, h, rfl⟩⟩
  | _ =>
      simp only [requiredText, textColumn, bind, Result.bind_eq_ok, orFail_eq_ok_iff,
        Option.map_eq_some_iff, Takes, Option.isSome_iff_exists]
      constructor
      · rintro ⟨_, _, ⟨text, htext, -⟩, -⟩
        exact ⟨text, htext⟩
      · rintro ⟨text, htext⟩
        exact ⟨text, some text, ⟨text, htext, rfl⟩, rfl⟩

theorem jsonbColumn_eq_ok_iff {column : String} {value : Value} :
    (∃ stored, jsonbColumn server maxStrDigits column value = .ok stored) ↔ ∃ tree,
      Value.document { sortKeys := false, defaultStr := false } maxStrDigits value = .ok tree ∧
        (server.jsonb tree).isSome = true := by
  unfold jsonbColumn
  cases Value.document { sortKeys := false, defaultStr := false } maxStrDigits value with
  | error failure =>
      refine iff_of_false Result.not_exists_ok ?_
      rintro ⟨tree, htree, -⟩
      cases htree
  | ok tree =>
      refine exists_orFail_iff.trans ⟨fun h => ⟨tree, rfl, h⟩, ?_⟩
      rintro ⟨other, hother, h⟩
      rwa [Except.ok.inj hother]

theorem Storable.provenanceRow {sent : Parameters} (h : Storable server maxStrDigits sent)
    (hanchor : server.accepts sent.idempotencyMethod = true) (provenanceId : Uuid) :
    ∃ row, provenanceRow server sent provenanceId = .ok row := by
  obtain ⟨source, hsource⟩ := (@sourceColumn_eq_ok_iff "source" _).mpr h.source
  obtain ⟨observed, hobserved⟩ := (@exists_orFail_iff _ (.dataError "observed_at") _).mpr h.observedAt
  obtain ⟨contributor, hcontributor⟩ :=
    (@textColumn_eq_ok_iff _ _ _ "contributor_identity" _).mpr h.contributorIdentity
  refine ⟨{ provenanceId, source, method := sent.idempotencyMethod, observedAt := observed,
            contributorIdentity := contributor }, ?_⟩
  simp only [EvidenceWriter.provenanceRow, hsource, requiredText_str_eq_ok_iff.mpr ⟨hanchor, rfl⟩,
    timestampColumn, hobserved, hcontributor, bind, Except.bind]

theorem Storable.evidenceRow {sent : Parameters} (h : Storable server maxStrDigits sent)
    (provenanceId evidenceId : Uuid) :
    ∃ row, evidenceRow server sent maxStrDigits provenanceId evidenceId = .ok row := by
  obtain ⟨value, hvalue⟩ := (@jsonbColumn_eq_ok_iff _ _ _ _ "observed_value" _).mpr h.observedValue
  obtain ⟨domain, hdomain⟩ := (@exists_orFail_iff _ (.dataError "domain_id") _).mpr h.domainId
  obtain ⟨source, hsource⟩ := (@sourceColumn_eq_ok_iff "source" _).mpr h.source
  obtain ⟨method, hmethod⟩ := (@requiredText_eq_ok_iff _ _ _ "method" _).mpr h.method
  obtain ⟨observed, hobserved⟩ := (@exists_orFail_iff _ (.dataError "observed_at") _).mpr h.observedAt
  refine ⟨{ evidenceId, domainId := domain, signalClass := sent.signalClass, source, method,
            sourceUrl := sent.sourceUrl, observedAt := observed, observedValue := value,
            provenanceId }, ?_⟩
  simp only [EvidenceWriter.evidenceRow, hvalue, uuidColumn, hdomain, hsource, hmethod,
    requiredText_str_eq_ok_iff.mpr ⟨h.signalClass, rfl⟩,
    requiredText_str_eq_ok_iff.mpr ⟨h.sourceUrl, rfl⟩, timestampColumn, hobserved, bind, Except.bind]

end Columns

section Statements

variable {Timestamp Jsonb : Type} {server : Server Timestamp Jsonb} {maxStrDigits : ℕ}
  {committed : Tables Timestamp Jsonb} {sent : Parameters}

end Statements

end TrustlistCore.EvidenceWriter
