import MarkupNesting.Failure

/-! Building with numbered names. Names are given in order, from 0 in every run. -/

namespace MarkupNesting

def nameIn (series : String) (n : Nat) : String := series ++ "-" ++ Decimal.text n

def firstNames (series : String) (count : Nat) : List String :=
  (List.range count).map (nameIn series)

/-- The deepest an element may be. -/
def nestingLimit : Nat := 512

def checkNesting (depth : Nat) : Except Failure Unit :=
  if nestingLimit < depth then .error (.nestingTooDeep nestingLimit) else .ok ()

/-- A computation that gives names and may fail. Its state is the number of the next name. -/
abbrev Builder := StateT Nat (Except Failure)

namespace Builder

def fresh : Builder String := fun n => .ok (nameIn "node" n, n + 1)

def check (depth : Nat) : Builder Unit := fun n => (checkNesting depth).map fun _ => ((), n)

end Builder

def rootTag : String := "root"

end MarkupNesting
