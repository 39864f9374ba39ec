/- The settings as a document: each one in its place, all of them present. -/
import NestedQuery.Config.Basic
import NestedQuery.Json.Reader

namespace NestedQuery

namespace FailurePolicy

/-- A policy is named by a text, or by the one member of an object, which is null. -/
def ofDocument? : Document → Option FailurePolicy
  | .text (some s) => ofKeyword? s
  | .object [(some s, .null)] => ofKeyword? s
  | _ => none

end FailurePolicy

namespace BackoffConfig

def fields : List String := ["initial_delay_ms", "max_delay_ms", "multiplier", "jitter_ms"]

def toDocument (c : BackoffConfig) : Document := .ofMembers (fields.zip [
  .ofWord c.initialDelay, .ofWord c.maxDelay, .ofReal c.multiplier, .ofWord c.jitter])

def ofDocument? (d : Document) : Option BackoffConfig := do
  match ← d.parts? fields with
  | [initial, longest, multiplier, jitter] =>
    return ⟨← initial.word?, ← longest.word?, ← multiplier.real?, ← jitter.word?⟩
  | _ => none

end BackoffConfig

namespace DatabaseConfig

def fields : List String :=
  ["url", "max_connections", "connection_timeout", "idle_timeout", "connect_attempts",
    "retry_backoff"]

def toDocument (c : DatabaseConfig) : Document := .ofMembers (fields.zip [
  .ofText c.url, .ofInt (c.maxConnections.toNat : Int), .ofWord c.connectionTimeout,
  .ofWord c.idleTimeout, .ofInt (c.connectAttempts.toNat : Int), c.backoff.toDocument])

def ofDocument? (d : Document) : Option DatabaseConfig := do
  match ← d.parts? fields with
  | [url, connections, timeout, idle, attempts, backoff] =>
    return ⟨← url.text?, ← connections.halfWord?, ← timeout.word?, ← idle.word?,
      ← attempts.halfWord?, ← BackoffConfig.ofDocument? backoff⟩
  | _ => none

end DatabaseConfig

namespace ExecutionConfig

def fields : List String := ["failure_policy", "max_concurrency"]

def toDocument (c : ExecutionConfig) : Document := .ofMembers (fields.zip [
  .ofText c.failurePolicy.keyword, .ofWord c.maxConcurrency])

def ofDocument? (d : Document) : Option ExecutionConfig := do
  match ← d.parts? fields with
  | [policy, concurrency] =>
    return ⟨← FailurePolicy.ofDocument? policy, ← concurrency.word?⟩
  | _ => none

end ExecutionConfig

namespace LoggingConfig

def fields : List String := ["level", "format"]

def toDocument (c : LoggingConfig) : Document :=
  .ofMembers (fields.zip [.ofText c.level, .ofText c.format])

def ofDocument? (d : Document) : Option LoggingConfig := do
  match ← d.parts? fields with
  | [level, format] => return ⟨← level.text?, ← format.text?⟩
  | _ => none

end LoggingConfig

namespace MetricsConfig

def fields : List String := ["enabled", "bind_address"]

def toDocument (c : MetricsConfig) : Document :=
  .ofMembers (fields.zip [.bool c.enabled, .ofText c.bindAddress])

def ofDocument? (d : Document) : Option MetricsConfig := do
  match ← d.parts? fields with
  | [enabled, address] => return ⟨← enabled.flag?, ← address.text?⟩
  | _ => none

end MetricsConfig

namespace Config

def fields : List String := ["database", "execution", "planner", "observability"]

def plannerFields : List String := ["cache_plans"]

def observabilityFields : List String := ["logging", "metrics"]

def toDocument (c : Config) : Document := .ofMembers (fields.zip [
  c.database.toDocument,
  c.execution.toDocument,
  .ofMembers (plannerFields.zip [.bool c.cachePlans]),
  .ofMembers (observabilityFields.zip [c.logging.toDocument, c.metrics.toDocument])])

def ofDocument? (d : Document) : Option Config := do
  match ← d.parts? fields with
  | [database, execution, planner, observability] =>
    match ← planner.parts? plannerFields, ← observability.parts? observabilityFields with
    | [cache], [logging, metrics] =>
      return ⟨← DatabaseConfig.ofDocument? database, ← ExecutionConfig.ofDocument? execution,
        ← cache.flag?, ← LoggingConfig.ofDocument? logging, ← MetricsConfig.ofDocument? metrics⟩
    | _, _ => none
  | _ => none

def render (c : Config) : String := c.toDocument.render

def parse? (s : String) : Option Config := (Document.parse? s).bind ofDocument?

end Config
end NestedQuery
