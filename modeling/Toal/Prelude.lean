import Toal.Entity

/-!
# The standard entities

Five automations and four constants come with the language and are visible in
every program.
-/

namespace Toal.Prelude

/-- The entities with serial numbers in order, from zero. -/
def number (entities : List Entity) : List Entity :=
  entities.mapIdx fun serial e => e.withSerial serial

/-- A standard constant. -/
def constant (name : String) (ty : Ty) : Entity :=
  .var { serial := 0, name, readOnly := true, ty, builtin := true }

/-- A standard automation. -/
def automation (name : String) (params : List Param) (ty : Ty) : Entity :=
  .auto { serial := 0, name, params, ty, builtin := true }

/-- The standard entities. -/
def standard : List Entity :=
  number
    [automation "append" [⟨"element", .any⟩, ⟨"list", .list⟩] .none,
      automation "remove" [⟨"element", .any⟩, ⟨"list", .list⟩] .none,
      automation "length" [⟨"value", .any⟩] .num,
      automation "range" [⟨"start", .num⟩, ⟨"end", .num⟩] .list,
      automation "type" [⟨"value", .any⟩] .word,
      constant "π" .num,
      constant "inf" .num,
      constant "true" .bool,
      constant "false" .bool]

end Toal.Prelude
