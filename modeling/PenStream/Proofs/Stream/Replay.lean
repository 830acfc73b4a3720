import PenStream.Proofs.Stream.Segments

namespace PenStream

namespace Pen

-- The pen that a command leaves behind.
def replay (pen : Pen) : Command → Pen
  | .setColors fg bg     => { pen with fg, bg }
  | .setFill style color => { pen with fillStyle := style, fillColor := color }
  | .moveTo p            => { pen with cursor := p }
  | .lineTo _ stop _     => { pen with cursor := stop }
  | .reset               => { fg := 15, bg := 0, fillStyle := 1, fillColor := 15, cursor := ⟨0, 0⟩ }
  | _                    => pen

-- The pen that a list of commands leaves behind.
def replayAll (pen : Pen) (commands : List Command) : Pen :=
  commands.foldl replay pen

theorem replayAll_cons (pen : Pen) (c : Command) (cs : List Command) :
    pen.replayAll (c :: cs) = (pen.replay c).replayAll cs :=
  rfl

theorem replay_command (pen : Pen) (i : Instruction) :
    pen.replay (i.command pen) = pen.follow i := by
  cases i <;> rfl

theorem replayAll_commands (pen : Pen) (is : List Instruction) :
    pen.replayAll (Instruction.commands pen is) = pen.followAll is := by
  induction is generalizing pen with
  | nil          => rfl
  | cons i is hi =>
    rw [Instruction.commands, replayAll_cons, replay_command]
    exact hi (pen.follow i)

end Pen

namespace Command

-- What a command carries is what it takes from the pen.
def Carries (pen : Pen) : Command → Prop
  | line _ _ color            => color = pen.fg
  | rectangle _ _ color       => color = pen.fg
  | bar _ _ color             => color = pen.fg
  | circle _ _ color          => color = pen.fg
  | ellipse _ _ _ _ _ color   => color = pen.fg
  | pixel _ color             => color = pen.fg
  | polyline _ color          => color = pen.fg
  | lineTo start _ color      => color = pen.fg ∧ start = pen.cursor
  | floodFill _ _ color       => color = pen.fillColor
  | setColors .. | setFill .. => True
  | moveTo .. | reset         => True
  | defineWindow ..           => True

theorem carries_command (pen : Pen) (i : Instruction) : (i.command pen).Carries pen := by
  cases i <;> simp [Instruction.command, Carries]

-- The pen in front of a command is that of the commands before it.
theorem carries_of_getElem? {pen : Pen} {is : List Instruction} {k : Nat} {c : Command}
    (h : (Instruction.commands pen is)[k]? = some c) :
    c.Carries (pen.replayAll ((Instruction.commands pen is).take k)) := by
  induction is generalizing pen k with
  | nil          => simp [Instruction.commands] at h
  | cons i is hi =>
    cases k with
    | zero =>
      obtain rfl : i.command pen = c := Option.some.inj h
      exact carries_command pen i
    | succ k =>
      rw [Instruction.commands, List.take_succ_cons, Pen.replayAll_cons, Pen.replay_command]
      exact hi h

end Command

-- What a decoder can be given: a line, or a text with lines in it.
inductive Input
  | line (chars : List Char)
  | text (chars : List Char)

-- The segments of an input.
def Input.segments : Input → List Segment
  | line cs => Segment.ofLine cs
  | text cs => Segment.ofText cs

namespace Decoder

def receive (d : Decoder) : Input → Decoder
  | .line cs => d.line cs
  | .text cs => d.feed cs

theorem Met.receive (d : Decoder) (input : Input) : Met d input.segments (d.receive input) := by
  cases input with
  | line cs => exact .line d cs
  | text cs => exact .feed d cs

end Decoder

namespace Segment

-- Neither cut short nor of an unknown letter.
def isKept (s : Segment) : Bool :=
  !s.isShort && !s.isUnknown

theorem instructions_filter_isKept (ss : List Segment) :
    instructions (ss.filter isKept) = instructions ss := by
  rw [instructions, List.filterMap_filter]
  congr 1
  funext s
  cases s <;> rfl

end Segment

-- The pen of a decoder can be read off its commands, and so can all that they carry, at any place
-- of the list. Without the segments that were dropped or unknown, it would all be the same.
theorem commands_tell_pen (inputs : List Input) :
    let d : Decoder := inputs.foldl Decoder.receive {}
    let met := inputs.flatMap Input.segments
    d.pen = Pen.replayAll {} d.commands.toList ∧
      (∀ (k : Nat) (c : Command), d.commands[k]? = some c →
        c.Carries (Pen.replayAll {} (d.commands.toList.take k))) ∧
      d.tally.dropped = met.countP Segment.isShort ∧
      d.tally.unknown = met.countP Segment.isUnknown ∧
      let kept : Decoder := (met.filter Segment.isKept).foldl Decoder.segment {}
      kept.pen = d.pen ∧ kept.commands = d.commands := by
  intro d met
  have hd : Decoder.Met {} met d := .foldl .receive {} inputs
  have hc : d.commands.toList = Instruction.commands {} (Segment.instructions met) := hd.commands
  refine ⟨?_, fun k c h => ?_, by simpa using hd.dropped, by simpa using hd.unknown, ?_⟩
  · rw [hc, Pen.replayAll_commands]
    exact hd.pen
  · rw [← Array.getElem?_toList, hc] at h
    rw [hc]
    exact Command.carries_of_getElem? h
  · have hk := Decoder.Met.foldl_segment {} (met.filter Segment.isKept)
    have hi := Segment.instructions_filter_isKept met
    refine ⟨?_, ?_⟩
    · rw [hk.pen, hd.pen, hi]
    · rw [← Array.toList_inj, hk.commands, hd.commands, hi]

-- A line that is drawn to, after an unknown letter and before an instruction that is cut short.
theorem commands_tell_pen_line :
    let inputs : List Input := [.line "|c4F|m0505|Q".toList, .text "# |*\n|l0A0A|L00".toList]
    let d : Decoder := inputs.foldl Decoder.receive {}
    d.commands[2]? = some (.lineTo ⟨5, 5⟩ ⟨10, 10⟩ 4) ∧
      (Command.lineTo ⟨5, 5⟩ ⟨10, 10⟩ 4).Carries (Pen.replayAll {} (d.commands.toList.take 2)) ∧
      d.pen = { fg := 4, bg := 15, cursor := ⟨10, 10⟩ } ∧
      d.tally = { lines := 3, skippedLines := 1, emitted := 3, dropped := 1, unknown := 1 } := by
  intro inputs d
  have h : d.commands[2]? = some (.lineTo ⟨5, 5⟩ ⟨10, 10⟩ 4) := by decide +kernel
  exact ⟨h, (commands_tell_pen inputs).right.left 2 _ h, by decide +kernel, by decide +kernel⟩

end PenStream
