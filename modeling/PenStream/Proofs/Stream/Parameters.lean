import PenStream.Strict.Reading

namespace PenStream

namespace Reading

-- Readings that are put together from numerals and look at nothing before they take it, with the
-- number of characters that they take and with their strict forms.
inductive FromNumerals : {α : Type} → Nat → Reading α → Strict.Reading α → Prop
  | pure {α : Type} (a : α) : FromNumerals 0 (pure a) (pure a)
  | bind {α β : Type} {m n : Nat} {r : Reading α} {s : Strict.Reading α} {f : α → Reading β}
    {g : α → Strict.Reading β} :
    FromNumerals n r s → (∀ a, FromNumerals m (f a) (g a)) →
    FromNumerals (n + m) (r >>= f) (s >>= g)
  | numeral (width : Nat) : FromNumerals width (numeral width) (Strict.Reading.numeral width)

namespace FromNumerals

theorem digit : FromNumerals 1 digit Strict.Reading.digit :=
  numeral 1

theorem coordinate : FromNumerals 2 coordinate Strict.Reading.coordinate :=
  numeral 2

theorem position : FromNumerals 4 position Strict.Reading.position :=
  coordinate.bind fun _ => coordinate.bind fun _ => pure _

end FromNumerals

end Reading

namespace Opcode

open Reading (FromNumerals)

-- An oval looks for its second radius, and a polyline for each of its points.
theorem parameters_fromNumerals {op : Opcode} (ho : op ≠ .oval) (hp : op ≠ .polyline) :
    FromNumerals op.minLength op.parameters (Strict.parameters op) := by
  cases op
  case oval       => contradiction
  case polyline   => contradiction
  case color      => exact .bind .digit fun _ => .bind .digit fun _ => .pure _
  case fillStyle  => exact .bind .digit fun _ => .bind .digit fun _ => .pure _
  case line       => exact .bind .position fun _ => .bind .position fun _ => .pure _
  case rectangle  => exact .bind .position fun _ => .bind .position fun _ => .pure _
  case bar        => exact .bind .position fun _ => .bind .position fun _ => .pure _
  case textWindow => exact .bind .position fun _ => .bind .position fun _ => .pure _
  case circle     => exact .bind .position fun _ => .bind .coordinate fun _ => .pure _
  case floodFill  => exact .bind .position fun _ => .bind .digit fun _ => .pure _
  case pixel      => exact .bind .position fun _ => .pure _
  case move       => exact .bind .position fun _ => .pure _
  case lineTo     => exact .bind .position fun _ => .pure _
  case reset      => exact .pure _

end Opcode

end PenStream
