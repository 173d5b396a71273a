/-! The values of a JSON record, as a reader of one line sees them. -/

namespace UdpOptions.Library

inductive Json where
  | null
  | bool (value : Bool)
  | int (value : Int)
  | str (text : String)
  deriving DecidableEq, Repr

/-- A JSON object: the names of its fields are distinct. -/
abbrev JsonRecord := List (String × Json)

namespace JsonRecord

def get? (record : JsonRecord) (field : String) : Option Json := record.lookup field

@[simp] theorem get?_cons (name field : String) (value : Json) (rest : JsonRecord) :
    get? ((name, value) :: rest) field = if field = name then some value else get? rest field := by
  rw [get?, List.lookup_cons]
  by_cases same : field = name
  · simp [same]
  · rw [if_neg same, beq_false_of_ne same]
    rfl

end JsonRecord

end UdpOptions.Library
