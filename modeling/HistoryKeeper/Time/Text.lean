import HistoryKeeper.Time.Duration

/-!
# Durations as text

`Duration.text` is for summaries: milliseconds, then seconds with two places, then minutes and
seconds with one place. `Duration.exact` is for error messages: every digit, in the largest unit
that leaves a whole part.
-/

namespace HistoryKeeper.Duration

/-- `850ms`, `2.35s`, `3m 4.1s`. The seconds are computed on doubles. -/
def text (d : Duration) : String :=
  if d.millis < 1000 then String.ofList (Decimal.digits d.millis ++ ['m', 's'])
  else if d.millis < 60000 then String.ofList (d.toBinary64.fixed 2 ++ ['s'])
  else
    let minutes := d.seconds / 60
    let rest := d.toBinary64.sub (Binary64.ofNat (minutes * 60))
    String.ofList (Decimal.digits minutes ++ ['m', ' '] ++ rest.fixed 1 ++ ['s'])

/-- `whole` and the fraction `part / 10 ^ places`, without trailing zeros. -/
def decimal (whole part places : Nat) : List Char :=
  let fraction := ((Decimal.padded places part).reverse.dropWhile (· = '0')).reverse
  Decimal.digits whole ++ (if fraction.isEmpty then [] else '.' :: fraction)

/-- `0ns`, `1.5µs`, `20ms`, `2.5s`. -/
def exact (d : Duration) : String :=
  let n := d.nanos
  String.ofList <|
    if nanosPerSecond ≤ n then decimal (n / nanosPerSecond) (n % nanosPerSecond) 9 ++ ['s']
    else if 1000000 ≤ n then decimal (n / 1000000) (n % 1000000) 6 ++ ['m', 's']
    else if 1000 ≤ n then decimal (n / 1000) (n % 1000) 3 ++ ['µ', 's']
    else decimal n 0 0 ++ ['n', 's']

end HistoryKeeper.Duration
