namespace PenStream.Text

-- The lines of a text, of which `line` is the part of the first that has been read, in reverse. A
-- carriage return before a feed stays in its line.
def linesFrom (line : List Char) : List Char → List (List Char)
  | []      => if line.isEmpty then [] else [line.reverse]
  | c :: cs => if c = '\n' then line.reverse :: linesFrom [] cs else linesFrom (c :: line) cs

def lines (cs : List Char) : List (List Char) :=
  linesFrom [] cs

end PenStream.Text
