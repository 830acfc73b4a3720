namespace PenStream

structure Dda where
  count : Int
  -- What every step adds.
  whole : Int
  -- What every step leaves over, in parts of `count`.
  rest : Int
  -- What is left over so far; above zero it is worth one more.
  carry : Int
  value : Int
deriving DecidableEq, Repr

namespace Dda

-- From `start` to `stop` in `count` steps, at least one.
def forward (start stop count : Int) : Dda :=
  let count := max count 1
  let whole := (stop - start).tdiv count
  let rest := (stop - start).tmod count
  if rest ≤ 0 then
    { count, whole := whole - 1, rest := rest + count, carry := rest, value := start }
  else
    { count, whole, rest, carry := rest - count, value := start }

def step (d : Dda) : Dda :=
  let carry := d.carry + d.rest
  if carry > 0 then
    { d with carry := carry - d.count, value := d.value + d.whole + 1 }
  else
    { d with carry, value := d.value + d.whole }

end Dda

end PenStream
