import PenStream.Drawing.Execute
import PenStream.Proofs.Stream.Written

namespace PenStream

namespace Instruction

def path (first : Position) (rest : List Position) : List Instruction :=
  .move first :: rest.map .lineTo

theorem commands_lineTo (pen : Pen) (rest : List Position) :
    commands pen (rest.map .lineTo) =
      List.zipWith (Command.lineTo · · pen.fg) (pen.cursor :: rest.map Position.toPoint)
        (rest.map Position.toPoint) := by
  induction rest generalizing pen with
  | nil          => rfl
  | cons p ps hi => exact congrArg _ (hi (pen.follow (.lineTo p)))

theorem counted_path (first : Position) (rest : List Position) :
    ∀ i ∈ path first rest, i.Counted := by
  simp [path, Counted]

end Instruction

namespace Command

-- The commands of a path through some points, of which `first` is the first.
def path (first : Point) (rest : List Point) (color : ColorIndex) : List Command :=
  .moveTo first :: List.zipWith (lineTo · · color) (first :: rest) rest

end Command

theorem Instruction.commands_path (pen : Pen) (first : Position) (rest : List Position) :
    commands pen (path first rest) =
      Command.path first.toPoint (rest.map Position.toPoint) pen.fg :=
  congrArg _ (commands_lineTo (pen.follow (.move first)) rest)

namespace Canvas

variable {s : Size}

theorem executeAll_lineTo (c : Canvas s) (rule : FloodFill) (color : ColorIndex) (first : Point)
    (rest : List Point) :
    c.executeAll rule (List.zipWith (Command.lineTo · · color) (first :: rest) rest) =
      c.polyline (Palette.color color) (first :: rest) := by
  induction rest generalizing c first with
  | nil          => rfl
  | cons p ps hi => exact hi (c.line (Palette.color color) first p) p

-- A move draws nothing.
theorem executeAll_path (c : Canvas s) (rule : FloodFill) (color : ColorIndex) (first : Point)
    (rest : List Point) :
    c.executeAll rule (Command.path first rest color) =
      (c.execute rule (.polyline (first :: rest) color)).1 :=
  c.executeAll_lineTo rule color first rest

end Canvas

theorem Decoder.toList_commands_feed (d : Decoder) {is : List Instruction} {text : String}
    (hw : Instruction.Written is text.toList) (hc : ∀ i ∈ is, i.Counted) :
    (d.feed text.toList).commands.toList =
      d.commands.toList ++ Instruction.commands d.pen is := by
  rw [(Met.feed d text.toList).commands, (hw.ofText hc).instructions]

namespace Instruction

-- A stream that is written for a path becomes a move and lines in the colour of the pen, be it that
-- of the decoder or the one with which the stream begins; and these draw the polyline.
theorem path_draws_polyline (first : Position) (rest : List Position) (color : ColorIndex) :
    let drawn := Command.path first.toPoint (rest.map Position.toPoint) color
    (∃ text : String, Written (path first rest) text.toList) ∧
    (∀ (d : Decoder) (text : String), d.pen.fg = color →
      Written (path first rest) text.toList →
      (d.feed text.toList).commands.toList = d.commands.toList ++ drawn) ∧
    (∀ (fg bg : Digit) (text : String), fg.toUInt8 = color →
      Written (.color fg bg :: path first rest) text.toList →
      (decode text).commands.toList = .setColors color bg.toUInt8 :: drawn) ∧
    ∀ (s : Size) (c : Canvas s) (rule : FloodFill),
      c.executeAll rule drawn =
        (c.execute rule
          (.polyline (first.toPoint :: rest.map Position.toPoint) color)).1 := by
  intro drawn
  have hc := counted_path first rest
  refine ⟨?_, fun d text hp hw => ?_, fun fg bg text hp hw => ?_, fun s c rule => ?_⟩
  · have ⟨cs, hw⟩ := exists_written _ hc
    exact ⟨.ofList cs, by rwa [String.toList_ofList]⟩
  · rw [d.toList_commands_feed hw hc, commands_path, hp]
  · have hc : ∀ i ∈ Instruction.color fg bg :: path first rest, i.Counted :=
      List.forall_mem_cons.mpr ⟨trivial, hc⟩
    obtain rfl := hp
    rw [decode, Decoder.toList_commands_feed {} hw hc, commands, commands_path]
    rfl
  · exact c.executeAll_path rule color first.toPoint _

-- A path there and back, in the colour of a decoder and in one of its own.
theorem path_draws_polyline_back :
    let text := "!m0501,|lZz00\n|l0501"
    let drawn : List Command :=
      [.moveTo ⟨5, 1⟩, .lineTo ⟨5, 1⟩ ⟨1295, 0⟩ 12, .lineTo ⟨1295, 0⟩ ⟨5, 1⟩ 12]
    let colored : Decoder := { pen.fg := 12 }
    colored.pen.fg = 12 ∧ (colored.feed text.toList).commands.toList = drawn ∧
      (decode ("|cC3" ++ text)).commands.toList = .setColors 12 3 :: drawn ∧
      ∀ (s : Size) (c : Canvas s), c.executeAll {} drawn =
        (c.execute {} (.polyline [⟨5, 1⟩, ⟨1295, 0⟩, ⟨5, 1⟩] 12)).1 := by
  intro text drawn colored
  have hl : OnLine [.move ⟨5, 1⟩, .lineTo ⟨1295, 0⟩] "!m0501,|lZz00".toList :=
    @OnLine.cons _ _ '!' "0501".toList [','] _ rfl (by decide)
      (by simp [Text.Inert, isIntroducer]) <|
      @OnLine.cons _ _ '|' "Zz00".toList [] _ rfl (by decide) (by simp) .nil
  have hc : OnLine [.color 12 3, .move ⟨5, 1⟩, .lineTo ⟨1295, 0⟩] "|cC3!m0501,|lZz00".toList :=
    @OnLine.cons _ _ '|' "C3".toList [] _ rfl (by decide) (by simp) hl
  have hb : OnLine [.lineTo ⟨5, 1⟩] "|l0501".toList :=
    @OnLine.cons _ _ '|' "0501".toList [] _ rfl (by decide) (by simp) .nil
  have ht : text.toList = "!m0501,|lZz00".toList ++ '\n' :: "|l0501".toList := by decide
  have ht' : ("|cC3" ++ text).toList =
      "|cC3!m0501,|lZz00".toList ++ '\n' :: "|l0501".toList := by decide
  obtain ⟨-, hd, hd', hp⟩ := path_draws_polyline ⟨5, 1⟩ [⟨1295, 0⟩, ⟨5, 1⟩] 12
  exact ⟨rfl, hd colored text rfl (ht ▸ .feed hl (.line hb)),
    hd' 12 3 _ rfl (ht' ▸ .feed hc (.line hb)), fun s c => hp s c {}⟩

end Instruction

end PenStream
