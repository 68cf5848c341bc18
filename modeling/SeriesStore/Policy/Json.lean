import SeriesStore.Policy
import SeriesStore.Json.Value

/-!
# Policies and configurations as JSON

A policy is written with its spans as text, a position in a chain as `{"raw": name}`,
`{"named": name}`, `"Before"` or `"After"`, and a configuration with its collections in order of
name, its check frequency and whether some collection is active.
-/

namespace SeriesStore

/-- A policy as JSON. -/
def Policy.toJson (p : Policy) : Json :=
  .obj [("name", .str p.name), ("aggregation", .str p.aggregation.render),
    ("retention", .str p.retention.render)]

/-- A position in a chain as JSON. -/
def PolicyRef.toJson : PolicyRef → Json
  | .raw p => .obj [("raw", .str p.name)]
  | .named p => .obj [("named", .str p.name)]
  | .before => .str "Before"
  | .after => .str "After"

/-- A configuration as JSON fields. -/
def Configuration.jsonFields (cfg : Configuration) : List (String × Json) :=
  [("collections", .arr (cfg.collections.map fun (n, c) =>
      .obj [("name", .str n), ("disabled", .bool c.disabled), ("raw", c.raw.toJson),
        ("policies", .arr (c.policies.map Policy.toJson))])),
   ("policy_check_frequency", match cfg.checkFrequency with
      | some f => .str f.render
      | none => .null),
   ("check_frequency_ms", .int cfg.checkMillis),
   ("has_active", .bool cfg.hasActive)]

end SeriesStore
