import Chartboard.Decimal.Reader
import Chartboard.Layout.Metrics
import Chartboard.Text.Blank

namespace Chartboard

structure Settings (α : Type) where
  /-- How many creation calls may be in flight at once. -/
  concurrency : Nat := 1
  /-- How many seconds the creation calls may take; without it they may take any time. -/
  timeout : Option Nat := none
  overrides : Overrides α := {}

inductive SettingsError where
  | zeroConcurrency
deriving DecidableEq

namespace Settings

def concurrencyVariable : String :=
  "DIAGRAM_CREATE_CONCURRENCY"

/-- The greatest whole number of a variable is below this one. -/
def wordLimit : Nat := 0x10000000000000000

/-- Settings from variables. One that is no number counts as unset. -/
def ofVariables (lookup : String → Option String) : Except SettingsError (Settings Float) :=
  let trimmed := fun name => (lookup name).map fun value => Text.trim value.toList
  let nat? := fun name => (trimmed name).bind (Decimal.nat? wordLimit)
  let float? := fun name => (trimmed name).bind Decimal.float?
  let concurrency := (nat? concurrencyVariable).getD 1
  if concurrency = 0 then
    .error .zeroConcurrency
  else
    .ok {
      concurrency
      timeout := (nat? "DIAGRAM_CREATE_TIMEOUT_SECS").filter (· ≠ 0)
      overrides := {
        nodeWidth := float? "DIAGRAM_NODE_WIDTH"
        nodeHeight := float? "DIAGRAM_NODE_HEIGHT"
        spacingX := float? "DIAGRAM_SPACING_X"
        spacingY := float? "DIAGRAM_SPACING_Y" } }

end Settings

namespace SettingsError

def code : SettingsError → String
  | zeroConcurrency => "E_CONFIG"

def message : SettingsError → String
  | zeroConcurrency => s!"{Settings.concurrencyVariable} must be at least 1"

end SettingsError
end Chartboard
