/-!
# The two sections of a record

Everything a workflow reads and writes stands in one of two sections.
-/

namespace Stepwise

/-- A section of the record. -/
inductive Section where
  | input
  | output
deriving DecidableEq

namespace Section

/-- The section's name, as keys and paths spell it. -/
def name : Section → String
  | .input => "input"
  | .output => "output"

/-- Both sections, in the order in which they are gone through. -/
def all : List Section := [.input, .output]

/-- The section of a name. -/
def ofName? (name : String) : Option Section := all.find? fun side => side.name == name

/-- Every section is gone through. -/
theorem mem_all (side : Section) : side ∈ all := by
  cases side <;> simp [all]

end Section
end Stepwise
