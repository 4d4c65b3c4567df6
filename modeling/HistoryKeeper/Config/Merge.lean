import HistoryKeeper.Json.Basic

/-!
# Merging layers

Objects are merged key by key, at any depth; anything else replaces what lies below it.
-/

namespace HistoryKeeper.Json

mutual

/-- `upper` laid onto `base`. -/
def overlay (base upper : Json) : Json :=
  match base, upper with
  | object fields, object upperFields => object (overlayFields fields upperFields)
  | _, upper => upper
  termination_by structural upper

/-- Fields laid in turn onto those of an object. -/
def overlayFields (fields : List (String × Json)) (upper : List (String × Json)) :
    List (String × Json) :=
  match upper with
  | [] => fields
  | (key, value) :: upper =>
    let merged :=
      match Table.get? fields key with
      | some below => overlay below value
      | none => value
    overlayFields (Table.insert fields key merged) upper
  termination_by structural upper

end

/-- Layers from the lowest to the highest, laid onto null. -/
def mergeLayers (layers : List Json) : Json :=
  layers.foldl overlay null

end HistoryKeeper.Json
