/-
  Shortest decimals — the text of a float.

  1. **Specification** — a finite float is written positionally, never with an exponent, with the
     FEWEST decimal places at which some decimal reads back as the same float, and at least one.
     Of the decimals that read back at that many places the nearest is written, of two equally
     near ones the larger.  A float without a fraction needs no places, so all its digits before
     the point are its exact value.

  2. **Program** — with `p` places the only candidates are the two multiples of `10⁻ᵖ` around the
     float; `decimalAt` keeps those that `nearest` reads back.  `shortest` tries 0, 1, 2, … places
     and ends at 1074 at the latest, where every finite float is a decimal exactly.

  Core only.
-/
import Verdict.Decimal.Binary64

namespace Verdict.Decimal

/-- The decimal with `places` places to write for pattern `b`, scaled by `10 ^ places`, if one of
    the two around it reads back. -/
def decimalAt (b places : Nat) : Option Nat :=
  let scaled := ticks b * 10 ^ places
  let low := scaled / 2 ^ tickExponent
  let lowReads := nearest low (10 ^ places) == b
  let highReads := nearest (low + 1) (10 ^ places) == b
  let highIsNearer := 2 ^ tickExponent ≤ 2 * (scaled % 2 ^ tickExponent)
  if highReads && (highIsNearer || !lowReads) then some (low + 1)
  else if lowReads then some low
  else none

/-- The first answer at `places` places or more, with its number of places, and `last` where there
    was none in so many tries. -/
def firstFrom (answer : Nat → Option Nat) (last : Nat → Nat) : (tries places : Nat) → Nat × Nat
  | 0, places => (last places, places)
  | tries + 1, places =>
      match answer places with
      | some n => (n, places)
      | none => firstFrom answer last tries (places + 1)

/-- The decimal that is written for pattern `b`: a number `n` and places `p`, for `n / 10ᵖ`. -/
def shortest (b : Nat) : Nat × Nat :=
  firstFrom (decimalAt b) (fun places => ticks b * 10 ^ places / 2 ^ tickExponent) tickExponent 0

/-- A number in exactly `width` digits at least, with zeros in front. -/
def padded (width n : Nat) : List Char :=
  let ds := natural n
  List.replicate (width - ds.length) '0' ++ ds

/-- A decimal with `places` places, in positional notation. -/
def positional (n places : Nat) : List Char :=
  if places = 0 then natural n ++ ['.', '0']
  else natural (n / 10 ^ places) ++ '.' :: padded places (n % 10 ^ places)

/-- The text of a float. -/
def text (x : Float) : String :=
  let b := magnitude x
  let sign := if isNegative x then "-" else ""
  if infinityBits < b then "NaN"
  else if b = infinityBits then sign ++ "inf"
  else sign ++ String.ofList (positional (shortest b).1 (shortest b).2)

end Verdict.Decimal
