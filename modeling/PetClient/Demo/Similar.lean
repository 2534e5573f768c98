/-!
How similar two words are, to guess what was meant.
-/

namespace PetClient.Demo.Similar

def takeMatch (c : Char) (window : List Nat) (word : Array Char) (taken : List Nat) : Option Nat :=
  window.find? fun i => word[i]? = some c && !taken.contains i

/-- The places of the second word that the characters of the first match, in the order of the first;
nothing for a character without match. -/
def matchPlaces (reach : Nat) (word : Array Char) (i : Nat) (taken : List Nat) :
    List Char → List (Option Nat)
  | [] => []
  | c :: rest =>
    let low := i - reach
    let window := List.range' low (min (i + reach + 1) word.size - low)
    let place := takeMatch c window word taken
    place :: matchPlaces reach word (i + 1) (place.toList ++ taken) rest

/-- The share of two words that they have in common, as a quotient of natural numbers. -/
def similarity (a b : List Char) : Nat × Nat :=
  if a.isEmpty && b.isEmpty then (1, 1)
  else if a.isEmpty || b.isEmpty then (0, 1)
  else
    let longer := max a.length b.length
    let reach := longer / 2 - 1
    let places := matchPlaces reach b.toArray 0 [] a
    let inFirst := (a.zip places).filterMap fun (c, place) => place.map fun _ => c
    let inSecond := ((places.filterMap id).mergeSort).filterMap fun i => b[i]?
    let count := inFirst.length
    if count = 0 then (0, 1)
    else
      let swapped := ((inFirst.zip inSecond).filter fun (x, y) => x != y).length / 2
      -- the mean of three shares over one common denominator
      let shares := count * count * b.length + count * count * a.length +
        (count - swapped) * a.length * b.length
      (shares, 3 * (a.length * b.length * count))

def less (x y : Nat × Nat) : Bool :=
  x.1 * y.2 < y.1 * x.2

def threshold : Nat × Nat := (7, 10)

/-- The word that is most similar to what was written, if one is similar enough; of several the last
one. -/
def guess? (written : String) (words : List String) : Option String :=
  let rated := words.filterMap fun word =>
    let rate := similarity written.toList word.toList
    if less threshold rate then some (rate, word) else none
  let best := rated.foldl (fun best candidate =>
    match best with
    | none => some candidate
    | some old => if less candidate.1 old.1 then some old else some candidate) none
  best.map Prod.snd

end PetClient.Demo.Similar
