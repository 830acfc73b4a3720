import PenStream.Text.Blank

namespace PenStream.Text

-- What is left after a fence: its language tag, in lower-case letters, and one feed go with it.
def dropTag (cs : List Char) : List Char :=
  match cs.dropWhile Char.isLower with
  | '\n' :: rest => rest
  | rest         => rest

theorem length_dropTag_le (cs : List Char) : (dropTag cs).length ≤ cs.length := by
  have h : (cs.dropWhile Char.isLower).length ≤ cs.length :=
    (List.dropWhile_sublist _).length_le
  unfold dropTag
  split
  case h_1 rest hr => rw [hr, List.length_cons] at h; omega
  case h_2         => exact h

-- A text without its fences, each of three backquotes.
def dropFences : List Char → List Char
  | '\x60' :: '\x60' :: '\x60' :: rest => dropFences (dropTag rest)
  | c :: rest                          => c :: dropFences rest
  | []                                 => []
termination_by cs => cs.length
decreasing_by
  · have := length_dropTag_le rest
    simp; omega
  · simp

-- The reset instruction.
def resetMark : List Char := ['|', '*']

-- The text without fences and without blanks at its ends, starting with a reset.
def prepare (cs : List Char) : List Char :=
  let text := trim (dropFences cs)
  if resetMark.isPrefixOf text then text else resetMark ++ '\n' :: text

end PenStream.Text
