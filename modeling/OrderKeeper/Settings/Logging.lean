import OrderKeeper.Text.Case

/-!
# Settings of the log

The level is a filter text that is not looked into. The layout has a name, which is read in any case.
-/

namespace OrderKeeper

/-- The layout of log lines. -/
inductive LogLayout where
  | pretty
  | json
  | compact
deriving DecidableEq, Inhabited

namespace LogLayout

/-- The name of a layout. -/
def name : LogLayout → String
  | pretty => "pretty"
  | json => "json"
  | compact => "compact"

/-- All layouts. -/
def all : List LogLayout := [pretty, json, compact]

/-- The layout of a name in any case. -/
def ofText? (s : String) : Option LogLayout := all.find? fun l => l.name = Text.fold s

/-- What is said of a name that no layout has. -/
def unknownMessage (s : String) : String := "Unknown log format: " ++ s

end LogLayout

/-- The settings of the log. -/
structure LogSettings where
  level : String := "info"
  layout : LogLayout := .pretty
  spanEvents : Bool := false
  file : Bool := true
  target : Bool := true
deriving DecidableEq, Inhabited

namespace LogSettings

/-- The settings that two variables of the environment ask for; a layout of no known name is passed over. -/
def ofEnvironment (level layout : Option String) : LogSettings where
  level := level.getD "info"
  layout := (layout.bind LogLayout.ofText?).getD .pretty

end LogSettings

end OrderKeeper
