import CollectiveLabeling.Fault

/-!
Settings that can be left blank.
-/

namespace CollectiveLabeling

inductive Setting (α : Type) where
  | given (value : α)
  | blank

-- The value that was given. There is none to work with in a blank setting.
def Setting.value {α : Type} : Setting α → Except Fault α
  | given x => .ok x
  | blank => .error .blank

end CollectiveLabeling
