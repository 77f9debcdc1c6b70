/-!
# Markers in text

Finding, replacing and cutting at occurrences of a marker. Occurrences are read from left to right
and do not overlap, and text that was put in is never read again.
-/
namespace BillOfMaterials.Text

/-- Cuts at the first occurrence of `marker`: what stands before it and what follows it. -/
def cutAt (marker : List Char) : List Char → Option (List Char × List Char)
  | [] => if marker.isEmpty then some ([], []) else none
  | c :: rest =>
    if marker.isPrefixOf (c :: rest) then some ([], (c :: rest).drop marker.length)
    else (cutAt marker rest).map fun (before, after) => (c :: before, after)

/-- Puts `new` for every occurrence of `marker`. The count says how many characters of the last
occurrence are still to be passed over. -/
def replaceFrom (marker new : List Char) : Nat → List Char → List Char
  | _, [] => []
  | n + 1, _ :: rest => replaceFrom marker new n rest
  | 0, c :: rest =>
    if marker.isPrefixOf (c :: rest) then new ++ replaceFrom marker new (marker.length - 1) rest
    else c :: replaceFrom marker new 0 rest

/-- Puts `new` for every occurrence of `marker`; an empty marker occurs nowhere. -/
def replaceAll (marker new s : List Char) : List Char :=
  if marker.isEmpty then s else replaceFrom marker new 0 s

def replace (s marker new : String) : String :=
  String.ofList (replaceAll marker.toList new.toList s.toList)

/-- The pieces between the occurrences of a separator; always at least one. -/
def splitOn {α : Type} [BEq α] (sep : α) : List α → List (List α)
  | [] => [[]]
  | c :: rest =>
    match splitOn sep rest with
    | [] => [[c]]
    | piece :: pieces => if c == sep then [] :: piece :: pieces else (c :: piece) :: pieces

/-- The pieces with one separator between each two. -/
def joinWith {α : Type} (sep : List α) : List (List α) → List α
  | [] => []
  | [piece] => piece
  | piece :: pieces => piece ++ sep ++ joinWith sep pieces

def join (sep : String) (pieces : List String) : String :=
  String.ofList (joinWith sep.toList (pieces.map String.toList))

/-- `s` without `tail` at its end, if it ends so. -/
def dropEnd? (tail s : List Char) : Option (List Char) :=
  if tail.isSuffixOf s then some (s.take (s.length - tail.length)) else none

end BillOfMaterials.Text
