import PenStream.Proofs.Strict.Ellipse
import PenStream.Proofs.Strict.FloodFill
import PenStream.Strict.Execute

namespace PenStream.Strict

variable {s : Size}

theorem outline_eq (c : Canvas s) (color : Color) (b : Box) :
    outline c color b = pure (c.outline color b) := by
  simp only [outline, hline_eq, vline_eq, pure_bind]
  rfl

theorem drawIn_eq {c : Canvas s} {color : ColorIndex} {shape : Shape}
    (h : ∀ ink, draw c ink shape = pure (c.draw ink shape)) :
    drawIn c color shape = pure (c.drawIn color shape) := by
  rw [drawIn, h, pure_bind]
  rfl

theorem ellipse_inRange (c : Canvas s) {center : Point} (hc : center.InRange) {rx ry : Int}
    (hx : 0 ≤ rx ∧ rx ≤ 1295) (hy : 0 ≤ ry ∧ ry ≤ 1295) (ink : Ink) :
    draw c ink (.ellipse center rx ry) = pure (c.draw ink (.ellipse center rx ry)) :=
  ellipse_eq c ink.line hc (abs_le.mpr (by omega)) (abs_le.mpr (by omega))

theorem execute_eq (c : Canvas s) (rule : FloodFill) {command : Command} (h : command.InRange) :
    execute c rule command = pure (c.execute rule command) := by
  cases command
  case setColors | setFill | moveTo | defineWindow => rfl
  case line p q color | lineTo p q color =>
    exact drawIn_eq fun ink => line_eq c ink.line h.left.near h.right.left.near
  case rectangle p q color => exact drawIn_eq fun ink => outline_eq c ink.line _
  case bar p q color       => exact drawIn_eq fun ink => bar_eq c ink.fill p q
  case circle center r color => exact drawIn_eq (ellipse_inRange c h.left h.right.left h.right.left)
  case ellipse center sa ea rx ry color =>
    have ⟨hc, _, _, hx, hy, _⟩ := h
    exact drawIn_eq (ellipse_inRange c hc hx hy)
  case pixel p color       => exact drawIn_eq fun ink => plot_eq c ink.line p
  case polyline ps color   =>
    exact drawIn_eq fun ink => polyline_eq c ink.line fun p hp => (h.left p hp).near
  case floodFill seed border color =>
    rw [execute, fill_eq, pure_bind]
    rfl
  case reset =>
    rw [execute, clear_eq, pure_bind]
    rfl

end PenStream.Strict
