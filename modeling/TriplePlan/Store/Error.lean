import TriplePlan.Key.Node

/-!
What can go wrong in a store.
-/
namespace TriplePlan

inductive StoreError where
  | corruptCounter (key : Bytes) (length : Nat)
  | corruptKey (cause : KeyError)
  | codec
  | io
deriving DecidableEq

def StoreError.message : StoreError → Option String
  | .corruptCounter key length =>
    some ("count entry " ++ Bytes.hex key ++ " holds " ++ toString length ++ " bytes, expected 8")
  | .corruptKey cause => some ("corrupt key: " ++ cause.message)
  | .codec => none
  | .io => none

end TriplePlan
