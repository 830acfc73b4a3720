import PenStream.Canvas.Bytes
import PenStream.Proofs.Playback.Session
import PenStream.Proofs.Stream.Written
import PenStream.Text.Fence

namespace PenStream

-- What has been drawn before a reset does not matter.
theorem Canvas.executeAll_reset {s : Size} (c : Canvas s) (rule : FloodFill)
    (before after : List Command) :
    c.executeAll rule (before ++ .reset :: after) =
      (Canvas.uniform s Palette.background).executeAll rule after := by
  simp only [executeAll, List.foldl_append, List.foldl_cons, execute, clear_eq_fill]
  rfl

namespace Instruction

theorem instructions_resetMark :
    Segment.instructions (Segment.ofText Text.resetMark) = [.reset] := by
  have h : OnLine [.reset] Text.resetMark :=
    @OnLine.cons .reset _ '|' [] [] _ rfl .nil (by simp) .nil
  exact ((Written.line h).ofText (by simp [Counted])).instructions

-- After a reset, instructions are drawn with a fresh pen.
theorem commands_reset (pen : Pen) (before after : List Instruction) :
    commands pen (before ++ .reset :: after) = commands pen before ++ .reset :: commands {} after :=
  commands_append pen before (.reset :: after)

end Instruction

theorem toList_commands_decode_reset (a b : String) :
    (decode (a ++ "\n|*\n" ++ b)).commands.toList =
      (decode a).commands.toList ++ .reset :: (decode b).commands.toList := by
  have ht : (a ++ "\n|*\n" ++ b).toList =
      a.toList ++ '\n' :: (Text.resetMark ++ '\n' :: b.toList) := by
    rw [String.toList_append, String.toList_append, List.append_assoc]
    rfl
  simp only [toList_commands_decode, ht, Segment.ofText_append, Segment.instructions_append,
    Instruction.instructions_resetMark]
  exact Instruction.commands_reset ..

-- Nothing of the text in front of a reset is left in what is behind it, nor on the canvas.
theorem reset_erases (a b : String) :
    (decode (a ++ "\n|*\n" ++ b)).commands =
      (decode a).commands ++ #[.reset] ++ (decode b).commands ∧
    ∀ (s : Scheduler) (z : Size), ∃ p q,
      s.play (decode (a ++ "\n|*\n" ++ b)).commands z.width z.height = .ok (p, .finished 100) ∧
      s.play (decode b).commands z.width z.height = .ok (q, .finished 100) ∧
      p.size = z ∧ q.size = z ∧ p.canvas.bytes = q.canvas.bytes := by
  have hd := toList_commands_decode_reset a b
  refine ⟨?_, fun s z => ?_⟩
  · rw [← Array.toList_inj, hd]
    simp
  · have ⟨p, hp, hps, hpc⟩ := s.play_of_size (decode (a ++ "\n|*\n" ++ b)).commands z
    have ⟨q, hq, hqs, hqc⟩ := s.play_of_size (decode b).commands z
    refine ⟨p, q, hp, hq, hps, hqs, ?_⟩
    rw [hpc, hqc, hd, Canvas.executeAll_reset, hps, hqs]

end PenStream
