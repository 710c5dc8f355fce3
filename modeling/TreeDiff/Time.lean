import TreeDiff.Cost

/-!
# Time

Lengths of time and instants, both counted in nanoseconds.

* `Duration`: a length of time, at most `Duration.longest`. `Duration.text` writes it in the
  largest of the units second, millisecond, microsecond and nanosecond that it reaches, with a
  fraction only as long as it has to be.
* `Instant`: a point on the clock, at most `Instant.last`. `Instant.after` is the instant that
  lies a duration later, a fault if the clock does not reach it; `Instant.later` does not ask.
-/

namespace TreeDiff

/-! ## Durations -/

/-- A length of time. -/
structure Duration where
  nanoseconds : Nat
  deriving DecidableEq

namespace Duration

/-- The longest duration: `2 ^ 64 - 1` whole seconds and all of a second but its last nanosecond. -/
def longest : Duration := ⟨UInt64.size * Nat.pow 10 9 - 1⟩

def ofMilliseconds (n : Nat) : Duration := ⟨n * Nat.pow 10 6⟩

/-- The decimal fraction `n / 10 ^ places` after its point, for `n < 10 ^ places`, without zeros
at the end. -/
def fraction (n places : Nat) : List Char :=
  (((Nat.toDigits 10 n).leftpad places '0').reverse.dropWhile (· == '0')).reverse

/-- The quotient `n / 10 ^ places` as a decimal number. -/
def quotient (n places : Nat) : String :=
  let rest := n % Nat.pow 10 places
  let whole := toString (n / Nat.pow 10 places)
  if rest = 0 then whole else whole ++ "." ++ String.ofList (fraction rest places)

/-- The duration in the largest unit of which it is at least one, nanoseconds if there is none. -/
def text (d : Duration) : String :=
  let n := d.nanoseconds
  if Nat.pow 10 9 ≤ n then quotient n 9 ++ "s"
  else if Nat.pow 10 6 ≤ n then quotient n 6 ++ "ms"
  else if Nat.pow 10 3 ≤ n then quotient n 3 ++ "µs"
  else quotient n 0 ++ "ns"

end Duration

/-! ## Instants -/

/-- A point on the clock. -/
structure Instant where
  nanoseconds : Nat
  deriving DecidableEq

namespace Instant

/-- The last instant of the clock: `2 ^ 63 - 1` whole seconds and all of a second but its last
nanosecond after the first instant. -/
def last : Instant := ⟨UInt64.size / 2 * Nat.pow 10 9 - 1⟩

/-- The instant that lies `d` after `t`. -/
def after (t : Instant) (d : Duration) : Except Fault Instant :=
  if t.nanoseconds + d.nanoseconds ≤ last.nanoseconds then .ok ⟨t.nanoseconds + d.nanoseconds⟩
  else .error .deadlineOverflow

/-- The instant that lies `d` after `t`, on a clock without an end. -/
def later (t : Instant) (d : Duration) : Instant := ⟨t.nanoseconds + d.nanoseconds⟩

/-- The instant `limit` has come at the instant `now`. -/
def reaches (now limit : Instant) : Bool := limit.nanoseconds ≤ now.nanoseconds

end Instant

end TreeDiff
