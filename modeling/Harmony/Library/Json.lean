/-
# JSON values

What a JSON text stands for. The members of an object have names of their own: a reader
keeps one of those with the same name. How numbers are represented is left open.
-/

import Mathlib.Data.Nat.Notation

inductive Json (ν : Type)
  | null
  | bool (value : Bool)
  | number (value : ν)
  | string (value : String)
  | array (items : List (Json ν))
  | object (members : List (String × Json ν))

namespace Json

variable {ν : Type}

/-- The member of that name. -/
def member (name : String) (members : List (String × Json ν)) : Option (Json ν) :=
  members.lookup name

end Json
