/-!
Names of files and their extensions.
-/
namespace TriplePlan.Text

def extension? (name : List Char) : Option (List Char) :=
  let tail := name.reverse.takeWhile (· ≠ '.')
  if tail.length + 1 < name.length then some tail.reverse else none

def stem (name : List Char) : List Char :=
  match extension? name with
  | some tail => name.take (name.length - (tail.length + 1))
  | none => name

def withExtension (tail name : List Char) : List Char := stem name ++ '.' :: tail

end TriplePlan.Text
