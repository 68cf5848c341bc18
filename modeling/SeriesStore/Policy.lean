import SeriesStore.Time.Span
import SeriesStore.Key

/-!
# Rollup policies

Every collection keeps its ingested series under a *raw* policy and rolls them up along a chain
of named policies, in ascending order of aggregation span: the series of policy `i + 1` are the
buckets of the series of policy `i`, written under the name `raw@policy`.

Names compare without case. A named policy has a non-blank name free of `@` that is not the raw
policy's, a positive finite aggregation span and a positive retention no shorter than it; the raw
policy has a positive retention. `PolicyChain.validate` checks these rules, in this order, and
sorts the chain stably by aggregation, two links of equal span being refused.

Positions in a chain: `0` is the raw series, `i + 1` the series of `policies[i]`.
-/

namespace SeriesStore

/-- One link of a rollup chain: its name, how long its series are kept and the span of its
buckets. -/
structure Policy where
  name : String
  retention : Span
  aggregation : Span
  deriving Repr, DecidableEq, Inhabited

namespace Policy

/-- The name of the raw policy. -/
def rawName : String := "rawpolicy"

/-- Whether two names are equal ignoring case. -/
def sameName (a b : String) : Bool := Text.lower a == Text.lower b

/-- The raw policy with a retention. -/
def raw (retention : Span) : Policy := ⟨rawName, retention, Span.zero⟩

/-- A named policy that keeps its series forever. -/
def keepForever (name : String) (aggregation : Span) : Policy := ⟨name, Span.infinite, aggregation⟩

/-- Whether the policy is the raw one. -/
def isRaw (p : Policy) : Bool := sameName p.name rawName

/-- Whether the policy's series are ever trimmed. -/
def hasRetention (p : Policy) : Bool := !p.retention.isInfinite

/-- The name of the series this policy writes for a raw series. -/
def seriesName (p : Policy) (raw : String) : String :=
  if p.isRaw then raw else SeriesName.ofPolicy raw p.name

/-- A configuration failure. -/
def invalid {α : Type} (message : String) : Outcome α := .error (.configuration message)

/-- Check a named policy. -/
def validateNamed (p : Policy) : Outcome Unit :=
  if (Text.trim p.name).isEmpty then invalid "policy name cannot be empty"
  else if p.name.contains SeriesName.policySeparator then
    invalid ("policy name '" ++ p.name ++ "' cannot contain '@'")
  else if p.isRaw then invalid ("policy name '" ++ p.name ++ "' is reserved")
  else if !p.aggregation.isPositive || p.aggregation.isInfinite then
    invalid ("aggregation time of policy '" ++ p.name ++ "' must be positive, got " ++
      p.aggregation.render)
  else if !p.retention.isPositive then
    invalid ("retention time of policy '" ++ p.name ++ "' must be positive, got " ++
      p.retention.render)
  else if Span.lt p.retention p.aggregation then
    invalid ("retention time of policy '" ++ p.name ++ "' (" ++ p.retention.render ++
      ") must be at least its aggregation time (" ++ p.aggregation.render ++ ")")
  else .ok ()

end Policy

/-- A position in a chain, resolved: the raw policy, a named one, or one of the two ends. -/
inductive PolicyRef where
  | raw (p : Policy)
  | named (p : Policy)
  | before
  | after
  deriving Repr, DecidableEq, Inhabited

/-- The policy a position holds, if any. -/
def PolicyRef.policy? : PolicyRef → Option Policy
  | .raw p | .named p => some p
  | .before | .after => none

/-- The policies of one collection. -/
structure PolicyChain where
  disabled : Bool := false
  policies : List Policy := []
  raw : Policy := Policy.raw Span.infinite
  deriving Repr, DecidableEq, Inhabited

namespace PolicyChain

/-- The first neighbours in a sorted chain that share an aggregation span. -/
def firstTie : List Policy → Option (Policy × Policy)
  | a :: b :: rest => if a.aggregation = b.aggregation then some (a, b) else firstTie (b :: rest)
  | _ => none

/-- Check each named policy, then reject a repeated name; the first failure wins. -/
def checkNamed : List String → List Policy → Outcome Unit
  | _, [] => .ok ()
  | seen, p :: ps => do
    p.validateNamed
    if seen.contains (Text.lower p.name) then
      Policy.invalid ("duplicate policy name '" ++ p.name ++ "'")
    else checkNamed (Text.lower p.name :: seen) ps

/-- Validate the chain and sort it by aggregation. The raw policy takes its fixed name and no
aggregation. -/
def validate (c : PolicyChain) : Outcome PolicyChain := do
  let raw := { c.raw with name := Policy.rawName, aggregation := Span.zero }
  if !raw.retention.isPositive then
    Policy.invalid ("raw retention must be positive, got " ++ raw.retention.render)
  checkNamed [] c.policies
  let sorted := c.policies.mergeSort fun a b => Span.compare a.aggregation b.aggregation != .gt
  match firstTie sorted with
  | some (a, b) =>
    Policy.invalid ("policies '" ++ a.name ++ "' and '" ++ b.name ++
      "' share the aggregation time " ++ b.aggregation.render)
  | none => pure { c with raw := raw, policies := sorted }

/-- The position of the first policy with a name, compared without case. -/
def positionOf (c : PolicyChain) (name : String) : Option Nat :=
  c.policies.findIdx? fun p => Policy.sameName p.name name

/-- The position of the policy that wrote a series: `0` for a raw series, `none` for a policy
not in the chain. -/
def indexBySeries (c : PolicyChain) (series : String) : Option Nat :=
  match SeriesName.policy? series with
  | none => some 0
  | some p => (c.positionOf p).map (· + 1)

/-- The policy that rolls up the series at a position. -/
def nextPolicy (c : PolicyChain) (i : Nat) : PolicyRef :=
  match c.policies[i]? with
  | some p => .named p
  | none => .after

/-- The policy whose series the one at a position rolls up. -/
def previousPolicy (c : PolicyChain) (i : Nat) : PolicyRef :=
  match i with
  | 0 => .before
  | 1 => .raw c.raw
  | i + 2 =>
    match c.policies[i]? with
    | some p => .named p
    | none => .after

/-- A policy by name; the raw policy's name gives the raw policy. -/
def byName (c : PolicyChain) (name : String) : Option PolicyRef :=
  if Policy.sameName name Policy.rawName then some (.raw c.raw)
  else (c.policies.find? fun p => Policy.sameName p.name name).map .named

/-- The position of a policy by name: `0` for the raw policy. -/
def indexByName (c : PolicyChain) (name : String) : Option Nat :=
  if Policy.sameName name Policy.rawName then some 0
  else (c.positionOf name).map (· + 1)

/-- The raw policy, then the chain. -/
def allPolicies (c : PolicyChain) : List Policy := c.raw :: c.policies

end PolicyChain

/-- The time-series configuration of a database: the chains of its collections, under their
lower-case names in order, and how often the policies are checked. -/
structure Configuration where
  collections : List (String × PolicyChain) := []
  checkFrequency : Option Span := none
  deriving Repr, DecidableEq, Inhabited

namespace Configuration

/-- The check interval used when none is configured: ten minutes. -/
def defaultCheckMillis : Nat := 600000

/-- Insert a chain under a name, keeping names in order; an equal name is reported. -/
def insertSorted (name : String) (c : PolicyChain) :
    List (String × PolicyChain) → Option (List (String × PolicyChain))
  | [] => some [(name, c)]
  | (n, d) :: rest =>
    if name < n then some ((name, c) :: (n, d) :: rest)
    else if name = n then none
    else (insertSorted name c rest).map ((n, d) :: ·)

/-- Validate the collections one by one, in the order of their names, then the check
frequency. A collection's failure is wrapped with its name; two names equal without case are
refused. -/
def validate (cfg : Configuration) : Outcome Configuration := do
  let ordered := cfg.collections.mergeSort fun a b => decide (a.1 ≤ b.1)
  let normalized ← ordered.foldlM (fun acc (name, c) => do
    let c ← match c.validate with
      | .ok c => pure c
      | .error e => Policy.invalid ("collection '" ++ name ++ "': " ++ e.message)
    match insertSorted (Text.lower name) c acc with
    | some acc => pure acc
    | none => Policy.invalid ("collection '" ++ name ++ "' is configured twice")) []
  match cfg.checkFrequency with
  | some f =>
    if f.isMonths || !f.isPositive || f.isInfinite then
      Policy.invalid ("policy check frequency must be a positive fixed duration, got " ++ f.render)
    else .ok { cfg with collections := normalized }
  | none => .ok { cfg with collections := normalized }

/-- A collection's chain, by name without case. -/
def collection? (cfg : Configuration) (name : String) : Option PolicyChain :=
  (cfg.collections.find? (·.1 == Text.lower name)).map (·.2)

/-- Milliseconds between policy checks. -/
def checkMillis (cfg : Configuration) : Nat :=
  match cfg.checkFrequency with
  | some f => if f.value ≥ 0 then f.value.toNat else defaultCheckMillis
  | none => defaultCheckMillis

/-- Whether some collection is not disabled. -/
def hasActive (cfg : Configuration) : Bool := cfg.collections.any fun (_, c) => !c.disabled

end Configuration

end SeriesStore
