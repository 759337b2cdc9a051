/-! # Keyed pairs in order of arrival

Pairs of a key and a value, in which a key that comes again keeps its first place and takes the
last value. -/

namespace PlatformGame

/-- Sets the value of a key. -/
def putPair [DecidableEq κ] (key : κ) (value : α) : List (κ × α) → List (κ × α)
  | [] => [(key, value)]
  | (k, v) :: rest => if k = key then (key, value) :: rest else (k, v) :: putPair key value rest

/-- Sets the values of several keys, one after the other. -/
def putPairs [DecidableEq κ] (pairs : List (κ × α)) : List (κ × α) :=
  pairs.foldl (fun acc (k, v) => putPair k v acc) []

end PlatformGame
