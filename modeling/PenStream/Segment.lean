import PenStream.Instruction.Reading

namespace PenStream

inductive Segment
  | plain (char : Char)
  | trailing (introducer : Char)
  | unknown (introducer letter : Char)
  | short (introducer : Char) (opcode : Opcode)
  | complete (introducer : Char) (opcode : Opcode) (parameters : List Char)
      (instruction : Instruction)
deriving DecidableEq

namespace Segment

-- The characters of the line that a segment stands for.
def chars : Segment → List Char
  | plain c             => [c]
  | trailing i          => [i]
  | unknown i c         => [i, c]
  | short i op          => [i, op.letter]
  | complete i op ps _  => i :: op.letter :: ps

-- The segments of a line, from left to right.
def scan : List Char → List Segment
  | []      => []
  | c :: cs =>
    if isIntroducer c then
      match cs with
      | []               => [.trailing c]
      | letter :: window =>
        match Opcode.ofLetter? letter with
        | none    => .unknown c letter :: scan window
        | some op =>
          match op.read? { ahead := window } with
          | none                       => .short c op :: scan window
          | some (instruction, cursor) =>
            .complete c op (window.take cursor.taken) instruction ::
              scan (window.drop cursor.taken)
    else
      .plain c :: scan cs
termination_by cs => cs.length
decreasing_by all_goals simp only [List.length_cons, List.length_drop]; omega

end Segment

end PenStream
