import AttributeLint.Rule

/-!
# Registry — the rules in force, in order

A registry holds rules by identifier, in the order in which the identifiers were first added. A rule
added under an identifier that is already there takes the place of the old one.
-/

namespace AttributeLint

/-- Rules in the order of first insertion. -/
structure Registry where
  rules : List Rule
  deriving DecidableEq, Repr

namespace Registry

/-- No rules. -/
def empty : Registry :=
  ⟨[]⟩

/-- Puts a rule in the place of the one with the same identifier, or at the end. -/
def put (rule : Rule) : List Rule → List Rule
  | [] => [rule]
  | r :: rs => if r.id = rule.id then rule :: rs else r :: put rule rs

/-- The rules with a change applied to the one with the given identifier, if there is one. -/
def change? (id : String) (f : Rule → Rule) : List Rule → Option (List Rule)
  | [] => none
  | r :: rs => if r.id = id then some (f r :: rs) else (change? id f rs).map (r :: ·)

/-- The registry with the rule added or replaced. -/
def add (registry : Registry) (rule : Rule) : Registry :=
  ⟨put rule registry.rules⟩

/-- The registry with some rules added one after the other. -/
def addAll (registry : Registry) (rules : List Rule) : Registry :=
  rules.foldl add registry

/-- The rule with the given identifier. -/
def get? (registry : Registry) (id : String) : Option Rule :=
  registry.rules.find? (·.id = id)

/-- The registry with the rule enabled or disabled, if there is such a rule. -/
def setEnabled? (registry : Registry) (id : String) (enabled : Bool) : Option Registry :=
  (change? id (fun r => { r with enabled }) registry.rules).map mk

/-- The registry with the severity of the rule set, if there is such a rule. -/
def setSeverity? (registry : Registry) (id : String) (severity : Severity) : Option Registry :=
  (change? id (·.withSeverity severity) registry.rules).map mk

/-- The enabled rules, in order. -/
def enabledRules (registry : Registry) : List Rule :=
  registry.rules.filter (·.enabled)

/-- The identifiers, in order. -/
def ids (registry : Registry) : List String :=
  registry.rules.map (·.id)

/-- The registry with the built-in rule. -/
def builtin : Registry :=
  empty.add .errorAttribute

end Registry

end AttributeLint
